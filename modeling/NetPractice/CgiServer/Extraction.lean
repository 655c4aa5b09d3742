import NetPractice.CgiServer.Core
import Mathlib.Data.List.Induction

/-!
# The extraction of the request

While a connection waits for its first line, the buffer holds what has been received,
followed by zeros, and no line ends in it.  A turn of the loop looks at the new bytes and
the one in front of them, so that the line's end is found in whatever pieces it arrives.
-/

namespace NetPractice.CgiServer

open NetPractice.Socket
open NetPractice.Text

/-- A carriage return at this place, followed by a line feed. -/
def CrlfAt (text : List Byte) (k : Nat) : Prop :=
  text[k]? = some CR ∧ text[k + 1]? = some LF

/-- The place of the first such pair. -/
def FirstCrlf (text : List Byte) (k : Nat) : Prop :=
  CrlfAt text k ∧ ∀ j < k, ¬ CrlfAt text j

namespace CgiConn

/-! ## The buffer -/

/-- The buffer holds the first `count` bytes of the stream. -/
def Holds (sent buf : List Byte) (count : Nat) : Prop :=
  buf = sent.take count ++ List.replicate (BUFFER_SIZE - count) 0

theorem Holds.getD {sent buf : List Byte} {count i : Nat} (holds : Holds sent buf count)
    (inStream : count ≤ sent.length) (inside : i < count) : buf.getD i 0 = sent.getD i 0 := by
  have shorter : i < (sent.take count).length := by
    rw [List.length_take]
    omega
  rw [holds, List.getD_eq_getElem?_getD, List.getElem?_append_left shorter,
    List.getElem?_take_of_lt inside, List.getD_eq_getElem?_getD]

/-- What is received goes behind what the buffer holds. -/
theorem Holds.receive {sent buf : List Byte} {count more : Nat} (holds : Holds sent buf count)
    (inStream : count + more ≤ sent.length) (fits : count + more ≤ BUFFER_SIZE) :
    Holds sent (buf.take count ++ (sent.drop count).take more ++ buf.drop (count + more))
      (count + more) := by
  have length : (sent.take count).length = count := by
    rw [List.length_take]
    omega
  have front : buf.take count = sent.take count := by
    rw [holds, List.take_append_of_le_length (by omega), List.take_take, Nat.min_self]
  have back : buf.drop (count + more) = List.replicate (BUFFER_SIZE - (count + more)) 0 := by
    rw [holds, List.drop_append, length, List.drop_eq_nil_of_le (by omega), List.nil_append,
      List.drop_replicate]
    congr 1
    omega
  rw [Holds, front, back, List.take_add]

/-- The line that a NUL byte ends in the buffer. -/
theorem Holds.cstr_set {sent buf : List Byte} {count k : Nat} (holds : Holds sent buf count)
    (inStream : count ≤ sent.length) (inside : k < count) :
    cstr (buf.set k 0) = cstr (sent.take k) := by
  have length : (sent.take count).length = count := by
    rw [List.length_take]
    omega
  rw [holds, List.set_append_left _ _ (by omega), List.set_eq_take_append_cons_drop,
    if_pos (by omega), List.append_assoc, List.cons_append, cstr_append_zero, List.take_take,
    Nat.min_eq_left (by omega)]

/-! ## The scan -/

/-- The scan tests this place. -/
def EndsAt (buf : List Byte) (idx : Nat) : Prop :=
  idx ≥ 1 ∧ buf.getD (idx - 1) 0 = CR ∧ buf.getD idx 0 = LF

/-- The scan stops at the first line's end from its start on, or behind the last byte. -/
theorem scan_spec (buf : List Byte) (left idx : Nat) :
    idx ≤ scan buf left idx ∧ scan buf left idx ≤ idx + left ∧
      (∀ i, idx ≤ i → i < scan buf left idx → ¬ EndsAt buf i) ∧
      (scan buf left idx ≠ idx + left → EndsAt buf (scan buf left idx)) := by
  induction left generalizing idx with
  | zero =>
      refine ⟨Nat.le_refl _, Nat.le_refl _, ?_, fun differs => absurd rfl differs⟩
      intro i le lt
      exact absurd lt (Nat.not_lt.mpr le)
  | succ left ih =>
      by_cases ends : EndsAt buf idx
      · have found : scan buf (left + 1) idx = idx := if_pos ends
        rw [found]
        refine ⟨Nat.le_refl _, Nat.le_add_right _ _, ?_, fun _ => ends⟩
        intro i le lt
        exact absurd lt (Nat.not_lt.mpr le)
      · have further : scan buf (left + 1) idx = scan buf left (idx + 1) := if_neg ends
        rcases ih (idx + 1) with ⟨le, atMost, none, stops⟩
        rw [further]
        refine ⟨by omega, by omega, ?_, ?_⟩
        · intro i idx_le lt
          rcases Nat.eq_or_lt_of_le idx_le with rfl | later
          · exact ends
          · exact none i later lt
        · intro differs
          apply stops
          omega

/-- In the bytes that have been received, the scan looks for the pairs of the stream. -/
theorem endsAt_iff {sent buf : List Byte} {count k : Nat} (holds : Holds sent buf count)
    (inStream : count ≤ sent.length) (inside : k + 1 < count) :
    EndsAt buf (k + 1) ↔ CrlfAt sent k := by
  have byte_eq : ∀ (i : Nat) (byte : Byte), i < count →
      (buf.getD i 0 = byte ↔ sent[i]? = some byte) := by
    intro i byte lt
    have lt' : i < sent.length := by omega
    rw [holds.getD inStream lt, List.getD_eq_getElem?_getD, List.getElem?_eq_getElem lt',
      Option.getD_some, Option.some.injEq]
  rw [EndsAt, CrlfAt, Nat.add_sub_cancel, byte_eq k CR (by omega), byte_eq (k + 1) LF inside]
  exact and_iff_right (Nat.le_add_left 1 k)

/-! ## The invariant -/

/-- The connection waits for the end of its first line. -/
structure Waiting (sent : List Byte) (conn : CgiConn) : Prop where
  connected : conn.status = .connected
  holds : Holds sent conn.buf conn.readIdx
  pending : conn.pending = sent.drop conn.readIdx
  inBuffer : conn.readIdx ≤ BUFFER_SIZE - 1
  inStream : conn.readIdx ≤ sent.length
  noLine : ∀ k, CrlfAt sent k → conn.readIdx < k + 2
  accesses : conn.accesses = []

/-- The connection has been closed without a request. -/
structure Dropped (sent : List Byte) (conn : CgiConn) : Prop where
  removed : conn.status = .removed
  inBuffer : conn.readIdx ≤ BUFFER_SIZE - 1
  noLine : ∀ k, CrlfAt sent k → conn.readIdx < k + 2
  accesses : conn.accesses = []

/-- The request has been looked up. -/
structure Served (sent : List Byte) (conn : CgiConn) : Prop where
  closed : conn.status ≠ .connected
  inBuffer : conn.readIdx ≤ BUFFER_SIZE - 1
  line : ∃ k, FirstCrlf sent k ∧ k + 2 ≤ conn.readIdx ∧
    conn.accesses = [cstr (sent.take k)]

theorem init_waiting (sent : List Byte) : Waiting sent (init sent) where
  connected := rfl
  holds := by
    rw [Holds, init, List.take_zero]
    rfl
  pending := rfl
  inBuffer := Nat.zero_le _
  inStream := Nat.zero_le _
  noLine k _ := Nat.zero_lt_succ _
  accesses := rfl

theorem Waiting.removefd {sent : List Byte} {conn : CgiConn} (waiting : Waiting sent conn) :
    Dropped sent conn.removefd where
  removed := rfl
  inBuffer := waiting.inBuffer
  noLine := waiting.noLine
  accesses := waiting.accesses

/-- A successful `recv` takes bytes of the stream: as many as the kernel delivers, no more
than fit, and no more than there are. -/
theorem recv_eq_data {conn : CgiConn} {arrival : Arrival} {bytes : List Byte}
    (received : conn.recv arrival = .data bytes) :
    bytes = conn.pending.take bytes.length ∧ arrival ≠ .fail ∧
      bytes.length = min (min arrival.count (BUFFER_SIZE - 1 - conn.readIdx))
        conn.pending.length := by
  cases arrival with
  | again => cases received
  | fail => cases received
  | bytes most =>
      rw [recv] at received
      split at received
      · cases received
      · rename_i byte rest taken
        cases received
        have length := congrArg List.length taken
        rw [List.length_take] at length
        refine ⟨?_, by rintro ⟨⟩, length.symm⟩
        rw [← length, ← taken]
        simp [List.take_eq_take_iff]

/-- When `recv` returns 0, it is asked for nothing or finds nothing. -/
theorem recv_eof {conn : CgiConn} {arrival : Arrival} (received : conn.recv arrival = .eof) :
    conn.pending = [] ∨ BUFFER_SIZE - 1 ≤ conn.readIdx := by
  cases arrival with
  | again => cases received
  | fail => cases received
  | bytes most =>
      rw [recv] at received
      split at received
      · rename_i none
        rcases List.take_eq_nil_iff.mp none with zero | empty
        · right
          omega
        · exact .inl empty
      · cases received

/-- `recv` returns 0 when the buffer is full or everything has been received. -/
theorem recv_eq_eof {conn : CgiConn} (most : Nat)
    (nothing : conn.pending = [] ∨ conn.readIdx = BUFFER_SIZE - 1) :
    conn.recv (.bytes most) = .eof := by
  have taken : conn.pending.take (min (most + 1) (BUFFER_SIZE - 1 - conn.readIdx)) = [] := by
    rcases nothing with empty | full
    · rw [empty, List.take_nil]
    · rw [full, Nat.sub_self, Nat.min_zero, List.take_zero]
  rw [recv, taken]

theorem recv_eq_again {conn : CgiConn} {arrival : Arrival}
    (received : conn.recv arrival = .again) : arrival = .again := by
  cases arrival with
  | again => rfl
  | fail => cases received
  | bytes most =>
      rw [recv] at received
      split at received <;> cases received

theorem recv_eq_fail {conn : CgiConn} {arrival : Arrival} (received : conn.recv arrival = .fail) :
    arrival = .fail := by
  cases arrival with
  | fail => rfl
  | again => cases received
  | bytes most =>
      rw [recv] at received
      split at received <;> cases received

theorem start_status (conn : CgiConn) (launch : Launch) :
    (conn.start launch).status ≠ .connected := by
  cases launch <;> nofun

theorem start_accesses (conn : CgiConn) (launch : Launch) :
    (conn.start launch).accesses = conn.accesses ++ [cstr conn.buf] := by
  cases launch <;> rfl

theorem start_readIdx (conn : CgiConn) (launch : Launch) :
    (conn.start launch).readIdx = conn.readIdx := by
  cases launch <;> rfl

/-- The place where the connection is dropped: the buffer is full, or the stream has ended. -/
def limit (sent : List Byte) : Nat :=
  min (BUFFER_SIZE - 1) sent.length

/-- How one turn leaves a waiting connection: it has taken what the kernel delivers and
waits, it has been dropped by an error or at the limit, or it has looked up its request. -/
inductive Turned (sent : List Byte) (conn : CgiConn) (arrival : Arrival) : CgiConn → Prop where
  | waiting {after : CgiConn} (waiting : Waiting sent after) (noError : arrival ≠ .fail)
      (readIdx : after.readIdx = conn.readIdx + min arrival.count (limit sent - conn.readIdx)) :
      Turned sent conn arrival after
  | dropped {after : CgiConn} (dropped : Dropped sent after)
      (readIdx : after.readIdx = conn.readIdx)
      (ended : arrival = .fail ∨ arrival ≠ .fail ∧ conn.readIdx = limit sent) :
      Turned sent conn arrival after
  | served {after : CgiConn} (served : Served sent after) (noError : arrival ≠ .fail)
      (readIdx : after.readIdx ≤ conn.readIdx + arrival.count) : Turned sent conn arrival after

/-- The new bytes are stored behind those that the buffer holds. -/
theorem Waiting.receive {sent bytes : List Byte} {conn : CgiConn} (waiting : Waiting sent conn)
    (bytes_eq : bytes = (sent.drop conn.readIdx).take bytes.length)
    (inStream : conn.readIdx + bytes.length ≤ sent.length)
    (inBuffer : conn.readIdx + bytes.length ≤ BUFFER_SIZE - 1) :
    Holds sent (conn.receive bytes).buf (conn.readIdx + bytes.length) ∧
      (conn.receive bytes).pending = sent.drop (conn.readIdx + bytes.length) := by
  constructor
  · have holds := waiting.holds.receive inStream (by omega)
    rwa [← bytes_eq] at holds
  · rw [CgiConn.receive, waiting.pending, List.drop_drop]

/-- The request is looked up when its line is complete. -/
theorem Waiting.serve {sent bytes : List Byte} {conn : CgiConn} (waiting : Waiting sent conn)
    (launch : Launch) {k : Nat}
    (holds : Holds sent (conn.receive bytes).buf (conn.readIdx + bytes.length))
    (inStream : conn.readIdx + bytes.length ≤ sent.length)
    (inBuffer : conn.readIdx + bytes.length ≤ BUFFER_SIZE - 1)
    (first : FirstCrlf sent k) (inside : k + 1 < conn.readIdx + bytes.length) :
    Served sent (({ conn.receive bytes with
      buf := (conn.receive bytes).buf.set k 0 } : CgiConn).start launch) := by
  refine ⟨start_status _ _, ?_, k, first, ?_, ?_⟩
  · rw [start_readIdx]
    exact inBuffer
  · rw [start_readIdx]
    exact inside
  · rw [start_accesses]
    change conn.accesses ++ [cstr ((conn.receive bytes).buf.set k 0)] = _
    rw [waiting.accesses, holds.cstr_set inStream (by omega), List.nil_append]

/-- One turn keeps a waiting connection waiting, drops it, or looks up its request. -/
theorem Waiting.turn {sent : List Byte} {conn : CgiConn} (waiting : Waiting sent conn)
    (launch : Launch) (arrival : Arrival) :
    Turned sent conn arrival (turn launch conn arrival).1 := by
  have limit_eq : limit sent = min (BUFFER_SIZE - 1) sent.length := rfl
  rw [CgiConn.turn]
  cases received : conn.recv arrival with
  | again =>
      obtain rfl := recv_eq_again received
      refine .waiting waiting (by rintro ⟨⟩) ?_
      rw [Arrival.count, Nat.zero_min]
      rfl
  | fail =>
      exact .dropped waiting.removefd rfl (.inl (recv_eq_fail received))
  | eof =>
      have noError : arrival ≠ .fail := by
        rintro rfl
        cases received
      refine .dropped waiting.removefd rfl (.inr ⟨noError, ?_⟩)
      have inBuffer := waiting.inBuffer
      have inStream := waiting.inStream
      rcases recv_eof received with empty | full
      · rw [waiting.pending, List.drop_eq_nil_iff] at empty
        omega
      · omega
  | data bytes =>
      rcases recv_eq_data received with ⟨bytes_eq, noError, amount⟩
      rw [waiting.pending] at bytes_eq amount
      rw [List.length_drop] at amount
      have inBuffer := waiting.inBuffer
      have inStream := waiting.inStream
      have countInStream : conn.readIdx + bytes.length ≤ sent.length := by omega
      have countInBuffer : conn.readIdx + bytes.length ≤ BUFFER_SIZE - 1 := by omega
      rcases waiting.receive bytes_eq countInStream countInBuffer with ⟨holds, pending⟩
      have count : (conn.receive bytes).readIdx = conn.readIdx + bytes.length := rfl
      rcases scan_spec (conn.receive bytes).buf bytes.length conn.readIdx with
        ⟨from_le, atMost, before, found⟩
      -- A pair that is complete now ends in the new bytes.
      have passed : ∀ k, CrlfAt sent k →
          k + 1 < scan (conn.receive bytes).buf bytes.length conn.readIdx → False := by
        intro k crlf lt
        have late := waiting.noLine k crlf
        apply before (k + 1) (by omega) lt
        rw [endsAt_iff holds countInStream (by omega)]
        exact crlf
      simp only [count, Nat.add_sub_cancel_left]
      by_cases nothing : scan (conn.receive bytes).buf bytes.length conn.readIdx =
          conn.readIdx + bytes.length
      · rw [if_pos nothing]
        have taken : conn.readIdx + bytes.length =
            conn.readIdx + min arrival.count (limit sent - conn.readIdx) := by omega
        refine .waiting ⟨waiting.connected, holds, pending, countInBuffer, countInStream, ?_,
          waiting.accesses⟩ noError taken
        intro k crlf
        have late := passed k crlf
        rw [nothing] at late
        exact Nat.succ_le_succ (Nat.not_lt.mp late)
      · rw [if_neg nothing]
        have ends := found nothing
        obtain ⟨k, place⟩ : ∃ k, scan (conn.receive bytes).buf bytes.length conn.readIdx = k + 1 :=
          Nat.exists_eq_succ_of_ne_zero (Nat.pos_iff_ne_zero.mp ends.1)
        rw [place] at ends passed nothing atMost ⊢
        have crlf : CrlfAt sent k := (endsAt_iff holds countInStream (by omega)).mp ends
        have first : FirstCrlf sent k :=
          ⟨crlf, fun j lt earlier => passed j earlier (Nat.succ_lt_succ lt)⟩
        refine .served
          (waiting.serve launch holds countInStream countInBuffer first (by omega)) noError ?_
        rw [start_readIdx]
        change conn.readIdx + bytes.length ≤ _
        omega

/-! ## Every segmentation -/

/-- The bytes that the kernel is ready to deliver before the first error. -/
def offered : List Arrival → Nat
  | [] => 0
  | .fail :: _ => 0
  | arrival :: arrivals => arrival.count + offered arrivals

theorem offered_concat (arrivals : List Arrival) (arrival : Arrival) :
    offered (arrivals ++ [arrival]) =
      offered arrivals + if .fail ∈ arrivals then 0 else arrival.count := by
  induction arrivals with
  | nil => cases arrival <;> simp [offered, Arrival.count]
  | cons first arrivals ih =>
      cases first with
      | fail => simp [offered]
      | again | bytes most => simp [offered, ih, Nat.add_assoc]

/-- A connection in a session, which waits or has been closed. -/
inductive Kept (sent : List Byte) (arrivals : List Arrival) (conn : CgiConn) : Prop where
  | waiting (waiting : Waiting sent conn) (noError : .fail ∉ arrivals)
      (readIdx : conn.readIdx = min (offered arrivals) (limit sent))
  | dropped (dropped : Dropped sent conn)
      (readIdx : conn.readIdx = min (offered arrivals) (limit sent))
      (ended : .fail ∈ arrivals ∨ limit sent ≤ offered arrivals)
  | served (served : Served sent conn) (readIdx : conn.readIdx ≤ offered arrivals)

/-- The turns of a connection, each in the call of `process` that it belongs to. -/
def follow (launch : Launch) (conn : CgiConn) (arrival : Arrival) : CgiConn :=
  if conn.status = .connected then (turn launch conn arrival).1 else conn

theorem turn_connected {launch : Launch} {conn : CgiConn} {arrival : Arrival}
    (connected : conn.status = .connected) (goesOn : (turn launch conn arrival).2 = true) :
    (turn launch conn arrival).1.status = .connected := by
  rw [turn] at goesOn ⊢
  cases received : conn.recv arrival with
  | again | fail | eof =>
      rw [received] at goesOn
      cases goesOn
  | data bytes =>
      rw [received] at goesOn
      simp only at goesOn ⊢
      split at goesOn
      · rename_i nothing
        rw [if_pos nothing]
        exact connected
      · cases goesOn

theorem foldl_follow_closed {launch : Launch} {conn : CgiConn}
    (closed : conn.status ≠ .connected) (arrivals : List Arrival) :
    arrivals.foldl (follow launch) conn = conn := by
  induction arrivals with
  | nil => rfl
  | cons arrival arrivals ih => rw [List.foldl_cons, follow, if_neg closed, ih]

/-- A call of `process` makes the turns for the decisions that it uses. -/
theorem process_foldl (launch : Launch) {conn : CgiConn}
    (connected : conn.status = .connected) (arrivals : List Arrival) :
    arrivals.foldl (follow launch) conn =
        (process launch conn arrivals).2.foldl (follow launch) (process launch conn arrivals).1 ∧
      (process launch conn arrivals).2.length ≤ arrivals.length - 1 := by
  induction arrivals generalizing conn with
  | nil => exact ⟨rfl, Nat.le_refl _⟩
  | cons arrival arrivals ih =>
      rw [List.foldl_cons, follow, if_pos connected, process]
      cases turned : turn launch conn arrival with
      | mk next goesOn =>
          cases goesOn with
          | false => exact ⟨rfl, Nat.le_refl _⟩
          | true =>
              have still : next.status = .connected := by
                have still : (turn launch conn arrival).2 = true →
                    (turn launch conn arrival).1.status = .connected :=
                  turn_connected connected
                rw [turned] at still
                exact still rfl
              rcases ih still with ⟨same, shorter⟩
              exact ⟨same, Nat.le_trans shorter (Nat.sub_le _ _)⟩

theorem serve_eq_foldl (launch : Launch) {fuel : Nat} {conn : CgiConn} {arrivals : List Arrival}
    (enough : arrivals.length ≤ fuel) :
    serve launch fuel conn arrivals = arrivals.foldl (follow launch) conn := by
  induction fuel generalizing conn arrivals with
  | zero =>
      rw [List.eq_nil_of_length_eq_zero (Nat.le_zero.mp enough)]
      rfl
  | succ fuel ih =>
      rw [serve]
      by_cases called : conn.status = .connected ∧ arrivals ≠ []
      · rcases process_foldl launch called.1 arrivals with ⟨same, shorter⟩
        rw [if_pos called, same]
        apply ih
        omega
      · rw [if_neg called]
        by_cases connected : conn.status = .connected
        · have empty : arrivals = [] := by
            by_contra nonempty
            exact called ⟨connected, nonempty⟩
          rw [empty]
          rfl
        · exact (foldl_follow_closed connected arrivals).symm

theorem session_concat (launch : Launch) (sent : List Byte) (arrivals : List Arrival)
    (arrival : Arrival) :
    session launch sent (arrivals ++ [arrival]) =
      follow launch (session launch sent arrivals) arrival := by
  rw [session, serve_eq_foldl launch (Nat.le_refl _), List.foldl_append, session,
    serve_eq_foldl launch (Nat.le_refl _)]
  rfl

/-- A closed connection stays as it is. -/
theorem follow_closed {launch : Launch} {conn : CgiConn} (closed : conn.status ≠ .connected)
    (arrival : Arrival) : follow launch conn arrival = conn :=
  if_neg closed

theorem Dropped.closed {sent : List Byte} {conn : CgiConn} (dropped : Dropped sent conn) :
    conn.status ≠ .connected := by
  rw [dropped.removed]
  rintro ⟨⟩

theorem Kept.follow {sent : List Byte} {arrivals : List Arrival} {conn : CgiConn}
    (kept : Kept sent arrivals conn) (launch : Launch) (arrival : Arrival) :
    Kept sent (arrivals ++ [arrival]) (follow launch conn arrival) := by
  have more := offered_concat arrivals arrival
  cases kept with
  | waiting waiting noError readIdx =>
      rw [if_neg noError] at more
      rw [CgiConn.follow, if_pos waiting.connected]
      have turned := waiting.turn launch arrival
      generalize (turn launch conn arrival).1 = after at turned
      have none : arrival ≠ .fail → .fail ∉ arrivals ++ [arrival] := by
        intro other mem
        rcases List.mem_append.mp mem with earlier | last
        · exact noError earlier
        · exact other (List.mem_singleton.mp last).symm
      cases turned with
      | waiting waits other taken => exact .waiting waits (none other) (by omega)
      | dropped dropped same ended =>
          rcases ended with rfl | ⟨other, full⟩
          · refine .dropped dropped ?_ (.inl (by simp))
            rw [more, same, readIdx]
            rfl
          · exact .dropped dropped (by omega) (.inr (by omega))
      | served served other atMost => exact .served served (by omega)
  | dropped dropped readIdx ended =>
      rw [follow_closed dropped.closed]
      rcases ended with failed | full
      · rw [if_pos failed, Nat.add_zero] at more
        exact .dropped dropped (more ▸ readIdx) (.inl (List.mem_append_left _ failed))
      · exact .dropped dropped (by omega) (.inr (by omega))
  | served served readIdx =>
      rw [follow_closed served.closed]
      exact .served served (by omega)

theorem session_kept (launch : Launch) (sent : List Byte) (arrivals : List Arrival) :
    Kept sent arrivals (session launch sent arrivals) := by
  induction arrivals using List.reverseRecOn with
  | nil =>
      refine .waiting (init_waiting sent) (by simp) ?_
      exact (Nat.zero_min _).symm
  | append_singleton arrivals arrival ih =>
      rw [session_concat]
      exact ih.follow launch arrival

/-- Behind the limit, the next `recv` that does not fail closes the connection. -/
theorem Kept.closes {sent : List Byte} {arrivals : List Arrival} {conn : CgiConn}
    (kept : Kept sent arrivals conn) (all : limit sent ≤ offered arrivals)
    (notServed : ¬ Served sent conn) (launch : Launch) (most : Nat) :
    (CgiConn.follow launch conn (.bytes most)).status = .removed := by
  cases kept with
  | waiting waiting _ readIdx =>
      rw [Nat.min_eq_right all] at readIdx
      have limit_eq : limit sent = min (BUFFER_SIZE - 1) sent.length := rfl
      have nothing : conn.pending = [] ∨ conn.readIdx = BUFFER_SIZE - 1 := by
        rcases Nat.le_total (BUFFER_SIZE - 1) sent.length with long | short
        · exact .inr (by omega)
        · left
          rw [waiting.pending, readIdx, limit_eq, Nat.min_eq_right short, List.drop_length]
      rw [CgiConn.follow, if_pos waiting.connected, CgiConn.turn, recv_eq_eof most nothing]
      rfl
  | dropped dropped _ _ =>
      rw [follow_closed dropped.closed]
      exact dropped.removed
  | served served _ => exact absurd served notServed

/-- For every stream of bytes that the client sends, every division of it into the results
of `recv`, with `EAGAIN` and other errors between them, and every result of `access` and
`fork`: `m_read_idx` stays in the buffer.  A line that ends within the first
`BUFFER_SIZE - 1` bytes is passed to `access`, up to a NUL byte, as soon as the kernel has
delivered its last byte, and nothing else is.  Without such a line nothing is passed to
`access`, and when as many bytes have been delivered as fit or there are, the next `recv`
that does not fail closes the connection. -/
theorem session_extracts (launch : Launch) (sent : List Byte) (arrivals : List Arrival) :
    (session launch sent arrivals).readIdx ≤ BUFFER_SIZE - 1 ∧
      (∀ k, FirstCrlf sent k → k + 2 ≤ BUFFER_SIZE - 1 →
        if k + 2 ≤ offered arrivals then
          (session launch sent arrivals).accesses = [cstr (sent.take k)] ∧
            (session launch sent arrivals).status ≠ .connected
        else (session launch sent arrivals).accesses = []) ∧
      ((∀ k, CrlfAt sent k → BUFFER_SIZE - 1 < k + 2) →
        (session launch sent arrivals).accesses = [] ∧
          (limit sent ≤ offered arrivals →
            ∀ most, (session launch sent (arrivals ++ [.bytes most])).status = .removed)) := by
  have kept := session_kept launch sent arrivals
  simp only [session_concat]
  generalize session launch sent arrivals = conn at kept
  have limit_eq : limit sent = min (BUFFER_SIZE - 1) sent.length := rfl
  -- The last byte of the line lies in the stream.
  have inStream : ∀ k, CrlfAt sent k → k + 2 ≤ sent.length := by
    intro k crlf
    exact (List.getElem?_eq_some_iff.mp crlf.2).1
  cases kept with
  | waiting waiting noError readIdx =>
      refine ⟨waiting.inBuffer, ?_, ?_⟩
      · intro k first inBuffer
        have late := waiting.noLine k first.1
        have inside := inStream k first.1
        rw [if_neg (by omega)]
        exact waiting.accesses
      · intro none
        refine ⟨waiting.accesses, fun all most => ?_⟩
        have notServed : ¬ Served sent conn := fun served => served.closed waiting.connected
        exact (Kept.waiting waiting noError readIdx).closes all notServed launch most
  | dropped dropped readIdx ended =>
      refine ⟨dropped.inBuffer, ?_, ?_⟩
      · intro k first inBuffer
        have late := dropped.noLine k first.1
        have inside := inStream k first.1
        rw [if_neg (by omega)]
        exact dropped.accesses
      · intro none
        refine ⟨dropped.accesses, fun _ most => ?_⟩
        rw [follow_closed dropped.closed]
        exact dropped.removed
  | served served readIdx =>
      rcases served.line with ⟨k, first, received, accesses⟩
      have inBuffer := served.inBuffer
      refine ⟨inBuffer, ?_, ?_⟩
      · intro j firstToo _
        have same : j = k := by
          rcases Nat.lt_trichotomy j k with lt | equal | lt
          · exact absurd firstToo.1 (first.2 j lt)
          · exact equal
          · exact absurd first.1 (firstToo.2 k lt)
        rw [same, if_pos (by omega)]
        exact ⟨accesses, served.closed⟩
      · intro none
        have late := none k first.1
        omega

/-- The line is found although its end arrives in two pieces, with `EAGAIN` between them. -/
theorem session_extracts_cut :
    FirstCrlf [47, 97, CR, LF, 98] 2 ∧
      (session .parent [47, 97, CR, LF, 98] [.bytes 2, .again, .bytes 0]).accesses = [[47, 97]] ∧
      (session .parent [47, 97, CR, LF, 98] [.bytes 2, .again]).accesses = [] := by
  have first : FirstCrlf [47, 97, CR, LF, 98] 2 := by
    refine ⟨⟨rfl, rfl⟩, ?_⟩
    intro j lt crlf
    have cases : j = 0 ∨ j = 1 := by omega
    rcases cases with rfl | rfl <;> cases crlf.1
  have whole := (session_extracts .parent [47, 97, CR, LF, 98] [.bytes 2, .again, .bytes 0]).2.1 2
    first (by decide)
  have part := (session_extracts .parent [47, 97, CR, LF, 98] [.bytes 2, .again]).2.1 2 first
    (by decide)
  rw [if_pos (by decide)] at whole
  rw [if_neg (by decide)] at part
  exact ⟨first, whole.1, part⟩

end CgiConn

end NetPractice.CgiServer
