import NetPractice.Http.Parsing
import NetPractice.Transition.Core

/-!
# Index safety of the receive buffer

A session alternates `read` with the turns of the main loop of `process_read`.
The indices stay in order in every state.  All bytes that the parser writes lie
inside `m_read_buf` exactly as long as `parse_content` is called with a
`m_content_length` that does not reach in front of the buffer, does not overflow
the sum it is compared by, and does not end the body with a full buffer.
-/

namespace NetPractice.Http

open NetPractice.Text
open NetPractice.Socket
open NetPractice.Transition

/-- Where a connection is: waiting for bytes, at the condition of the main loop,
in front of the loop's body, or done with the request. -/
inductive Phase where
  | waiting
  | scanning (status : LineStatus)
  | handling
  | finished (code : HttpCode)
  deriving DecidableEq, Repr

/-- A connection between `init` and the result of its request. -/
structure Session where
  conn : HttpConn
  phase : Phase

/-- One call of `read`, one evaluation of the loop's condition, or one execution
of its body. -/
inductive SessionEvent where
  | read (answers : List Recv)
  | scan
  | handle (fs : FileSystem)

namespace Session

/-- A connection behind `init`. -/
def start (c : HttpConn) : Session :=
  ⟨c.init, .waiting⟩

/-- The next call of `read`, condition of the main loop, or body of it. -/
def next (s : Session) : SessionEvent → Option Session
  | .read answers =>
      match s.phase with
      | .waiting =>
          (s.conn.read answers).map fun result =>
            ⟨result.2, if result.1 then .scanning .ok else .finished .closedConnection⟩
      | _ => none
  | .scan =>
      match s.phase with
      | .scanning status =>
          match s.conn.nextText status with
          | (.ok, c) => some ⟨c, .handling⟩
          | (_, c) => some ⟨c, .waiting⟩
      | _ => none
  | .handle fs =>
      match s.phase with
      | .handling =>
          match s.conn.handleText fs with
          | (.result code, c) => some ⟨c, .finished code⟩
          | (.again status, c) => some ⟨c, .scanning status⟩
      | _ => none

/-- The turns of a session are those of `process_read`. -/
theorem run_of_loops {fs : FileSystem} {status : LineStatus} {c d : HttpConn} {code : HttpCode}
    (loops : HttpConn.Loops fs status c code d) :
    ∃ events, run next ⟨c, .scanning status⟩ events = some ⟨d, .finished code⟩ ∨
      (run next ⟨c, .scanning status⟩ events = some ⟨d, .waiting⟩ ∧ code = .noRequest) := by
  induction loops with
  | @stop status next c d text incomplete =>
      refine ⟨[.scan], Or.inr ⟨?_, rfl⟩⟩
      cases next with
      | ok => exact absurd rfl incomplete
      | bad | «open» => simp [run, Session.next, text]
  | result text handled =>
      exact ⟨[.scan, .handle fs], Or.inl (by simp [run, Session.next, text, handled])⟩
  | again text handled _ ih =>
      obtain ⟨events, rest⟩ := ih
      refine ⟨.scan :: .handle fs :: events, ?_⟩
      simpa [run, Session.next, text, handled] using rest

end Session

/-- The indices are in order, and every store of the parser lies inside the
buffer. -/
structure InBounds (s : Session) : Prop extends s.conn.Ordered where
  stores : ∀ index ∈ s.conn.stores, 0 ≤ index ∧ index < READ_BUFFER_SIZE

/-- When `parse_content` is called, the body does not begin in front of the
buffer, the sum of its length and of `m_checked_idx` is an `int`, and the body
does not end together with a full buffer. -/
def HttpConn.ContentFits (c : HttpConn) : Prop :=
  c.checkState = .content →
    0 ≤ c.startLine + c.contentLength ∧ c.contentLength + c.checkedIdx < 2 ^ 31 ∧
      ¬ (c.checkedIdx = c.startLine ∧ c.readIdx = READ_BUFFER_SIZE ∧
        c.startLine + c.contentLength = READ_BUFFER_SIZE)

instance (c : HttpConn) : Decidable c.ContentFits :=
  inferInstanceAs (Decidable (_ → _ ∧ _ ∧ ¬ (_ ∧ _ ∧ _)))

/-- The content fits whenever the body of the loop is executed. -/
def ContentFits (s : Session) : SessionEvent → Prop
  | .handle _ => s.phase = .handling → s.conn.ContentFits
  | .read _ | .scan => True

instance (s : Session) : ∀ event, Decidable (ContentFits s event)
  | .handle _ => inferInstanceAs (Decidable (_ → _))
  | .read _ | .scan => isTrue trivial

/-- The invariant: also `m_content_length` is an `int`. -/
structure Bounded (s : Session) : Prop extends InBounds s where
  range : s.conn.LengthInRange

namespace HttpConn

/-! ## Reading -/

/-- Reading moves `m_read_idx` inside the buffer, and no other index. -/
structure Received (c d : HttpConn) : Prop where
  frame : d = { c with readBuf := d.readBuf, readIdx := d.readIdx }
  forward : c.readIdx ≤ d.readIdx
  room : d.readIdx ≤ READ_BUFFER_SIZE

theorem readLoop_range {answers : List Recv} {c d : HttpConn} {more : Bool}
    (room : c.readIdx ≤ READ_BUFFER_SIZE) (result : c.readLoop answers = some (more, d)) :
    c.readIdx ≤ d.readIdx ∧ d.readIdx ≤ READ_BUFFER_SIZE := by
  induction answers generalizing c with
  | nil => contradiction
  | cons answer answers ih =>
      simp only [readLoop, Option.ite_none_right_eq_some] at result
      obtain ⟨fits, result⟩ := result
      cases answer with
      | data bytes =>
          have length := (fits bytes rfl).2
          obtain ⟨forward, within⟩ := ih (c := c.append bytes) (by simp only [append]; omega) result
          have further : c.readIdx + bytes.length ≤ d.readIdx := forward
          exact ⟨by omega, within⟩
      | again | eof | fail =>
          simp only [Option.ite_none_right_eq_some, Option.some.injEq, Prod.mk.injEq] at result
          obtain ⟨-, -, rfl⟩ := result
          exact ⟨le_refl _, room⟩

theorem read_spec {answers : List Recv} {c d : HttpConn} {more : Bool}
    (room : c.readIdx ≤ READ_BUFFER_SIZE) (result : c.read answers = some (more, d)) :
    Received c d := by
  have frame := read_frame result
  unfold read at result
  split at result
  · simp only [Option.ite_none_right_eq_some, Option.some.injEq, Prod.mk.injEq] at result
    obtain ⟨-, -, rfl⟩ := result
    exact ⟨rfl, le_refl _, room⟩
  · obtain ⟨forward, within⟩ := readLoop_range room result
    exact ⟨frame, forward, within⟩

/-! ## Where the body of the loop stores -/

theorem doRequest_stores (c : HttpConn) (fs : FileSystem) :
    (c.doRequest fs).2.stores = c.stores := by
  rw [c.doRequest_frame fs]

/-- Only the content is stored at an index that the client chooses. -/
theorem handleText_inside {c d : HttpConn} {fs : FileSystem} {turn : HttpConn.Turn}
    (state : c.checkState ≠ .content) (handled : c.handleText fs = (turn, d)) :
    StoresInside c d := by
  cases state_eq : c.checkState with
  | content => exact absurd state_eq state
  | requestLine =>
      rw [handleText_requestLine state_eq] at handled
      have inside := (parseRequestLine_spec { c with startLine := c.checkedIdx } c.startLine).inside
      unfold onRequestLine at handled
      split at handled <;>
      · rename_i result
        obtain ⟨-, rfl⟩ := Prod.mk.inj handled
        rw [result] at inside
        exact inside
  | header =>
      rw [handleText_header state_eq] at handled
      have frame := (parseHeaders_spec { c with startLine := c.checkedIdx } c.startLine).frame
      have stores_eq : (parseHeaders { c with startLine := c.checkedIdx } c.startLine).2.stores =
          c.stores := by
        rw [frame]
      unfold onHeader at handled
      split at handled <;> rename_i result <;> obtain ⟨-, rfl⟩ := Prod.mk.inj handled <;>
        rw [result] at stores_eq
      · exact ⟨[], by simpa using stores_eq, by simp⟩
      · exact ⟨[], by simpa [doRequest_stores] using stores_eq, by simp⟩
      · exact ⟨[], by simpa using stores_eq, by simp⟩

/-- `parse_content` stores behind the body when it takes the body for
complete. -/
theorem handleText_content_stores {c d : HttpConn} {fs : FileSystem}
    {turn : HttpConn.Turn}
    (state : c.checkState = .content) (handled : c.handleText fs = (turn, d)) :
    d.stores = c.stores ++
      if toInt (c.contentLength + c.checkedIdx) ≤ c.readIdx then
        [c.startLine + c.contentLength]
      else [] := by
  rw [handleText_content state] at handled
  simp only [onContent, parseContent] at handled
  by_cases complete : toInt (c.contentLength + c.checkedIdx) ≤ c.readIdx
  · rw [if_pos complete]
    rw [if_pos complete] at handled
    obtain ⟨-, rfl⟩ := Prod.mk.inj handled
    exact doRequest_stores _ fs
  · rw [if_neg complete]
    rw [if_neg complete] at handled
    obtain ⟨-, rfl⟩ := Prod.mk.inj handled
    simp

end HttpConn

/-! ## Every step -/

theorem Bounded.onStart (c : HttpConn) : Bounded (Session.start c) where
  start := le_refl _
  checked := le_refl _
  read := Nat.zero_le _
  stores _ mem := absurd mem List.not_mem_nil
  range := by simp [HttpConn.LengthInRange, Session.start, HttpConn.init]

theorem StoresBounded.of_inside {c d : HttpConn} (inside : c.StoresInside d)
    (before : ∀ index ∈ c.stores, 0 ≤ index ∧ index < READ_BUFFER_SIZE) :
    ∀ index ∈ d.stores, 0 ≤ index ∧ index < READ_BUFFER_SIZE := by
  obtain ⟨fresh, stores_eq, freshInside⟩ := inside
  intro index mem
  rw [stores_eq] at mem
  exact (List.mem_append.mp mem).elim (before index) (freshInside index)

theorem Bounded.onRead {s : Session} (bounded : Bounded s) {answers : List Recv} {more : Bool}
    {d : HttpConn} (result : s.conn.read answers = some (more, d)) (phase : Phase) :
    Bounded ⟨d, phase⟩ := by
  have received := HttpConn.read_spec bounded.read result
  have forward := received.forward
  have checked := bounded.checked
  rw [received.frame]
  exact ⟨⟨⟨bounded.start, by simp only; omega, received.room⟩, bounded.stores⟩, bounded.range⟩

theorem Bounded.onScan {s : Session} (bounded : Bounded s) {status next : LineStatus}
    {d : HttpConn} (text : s.conn.nextText status = (next, d)) (phase : Phase) :
    Bounded ⟨d, phase⟩ := by
  have scanned := (HttpConn.nextText_spec bounded.checked bounded.read text).1
  refine ⟨⟨scanned.ordered bounded.toOrdered,
    StoresBounded.of_inside scanned.inside bounded.stores⟩, ?_⟩
  have range := bounded.range
  rw [scanned.frame]
  exact range

theorem Bounded.onHandle {s : Session} (bounded : Bounded s) {fs : FileSystem}
    {turn : HttpConn.Turn} {d : HttpConn} (handled : s.conn.handleText fs = (turn, d))
    (fits : s.conn.ContentFits) (phase : Phase) :
    Bounded ⟨d, phase⟩ := by
  have body := HttpConn.handleText_spec handled
  refine ⟨⟨body.ordered bounded.toOrdered, ?_⟩, body.range bounded.range⟩
  by_cases state : s.conn.checkState = .content
  · obtain ⟨front, sum, notFull⟩ := fits state
    have stores_eq := HttpConn.handleText_content_stores state handled
    intro index mem
    change index ∈ d.stores at mem
    rw [stores_eq] at mem
    rcases List.mem_append.mp mem with before | mem
    · exact bounded.stores index before
    · split at mem
      · rename_i complete
        obtain rfl := List.mem_singleton.mp mem
        have range := bounded.range
        have start := bounded.start
        have read := bounded.read
        rw [toInt_of_range (by have := range.1; omega) sum] at complete
        refine ⟨front, ?_⟩
        by_contra past
        exact notFull (by omega)
      · exact absurd mem List.not_mem_nil
  · exact StoresBounded.of_inside (HttpConn.handleText_inside state handled) bounded.stores

theorem bounded_preserved : Preserves Session.next ContentFits Bounded := by
  intro s event t bounded fits step
  cases event with
  | read answers =>
      simp only [Session.next] at step
      split at step
      · obtain ⟨⟨more, d⟩, result, rfl⟩ := Option.map_eq_some_iff.mp step
        exact bounded.onRead result _
      · contradiction
  | scan =>
      simp only [Session.next] at step
      split at step
      · split at step <;>
        · rename_i text
          obtain rfl := Option.some.inj step
          exact bounded.onScan text _
      · contradiction
  | handle fs =>
      simp only [Session.next] at step
      split at step
      · rename_i phase
        split at step <;>
        · rename_i handled
          obtain rfl := Option.some.inj step
          exact bounded.onHandle handled (fits phase) _
      · contradiction

/-- A content length that does not fit is taken for a complete body, and stored
behind out of bounds. -/
theorem Bounded.unbounded_content {s t : Session} (bounded : Bounded s) {event : SessionEvent}
    (unfit : ¬ ContentFits s event) (step : s.next event = some t) : ¬ InBounds t := by
  cases event with
  | read answers => exact absurd trivial unfit
  | scan => exact absurd trivial unfit
  | handle fs =>
      simp only [ContentFits, HttpConn.ContentFits, Classical.not_imp] at unfit
      obtain ⟨phase, state, unfit⟩ := unfit
      have stored : ∃ turn, s.conn.handleText fs = (turn, t.conn) := by
        simp only [Session.next, phase] at step
        split at step <;>
        · rename_i handled
          obtain rfl := Option.some.inj step
          exact ⟨_, handled⟩
      obtain ⟨turn, handled⟩ := stored
      have stores_eq := HttpConn.handleText_content_stores state handled
      have range := bounded.range
      have start := bounded.start
      have checked := bounded.checked
      have read := bounded.read
      have size : (READ_BUFFER_SIZE : Int) = 2048 := rfl
      unfold HttpConn.LengthInRange at range
      intro inBounds
      by_cases overflow : s.conn.contentLength + s.conn.checkedIdx < 2 ^ 31
      · have exact_sum := toInt_of_range (by omega) overflow
        have complete : toInt (s.conn.contentLength + s.conn.checkedIdx) ≤ s.conn.readIdx := by
          rw [exact_sum]
          omega
        rw [if_pos complete] at stores_eq
        have inside := inBounds.stores (s.conn.startLine + s.conn.contentLength)
          (by rw [stores_eq]; simp)
        omega
      · have wrapped : toInt (s.conn.contentLength + s.conn.checkedIdx) ≤ s.conn.readIdx := by
          unfold toInt
          rw [Int.bmod_def]
          omega
        rw [if_pos wrapped] at stores_eq
        have inside := inBounds.stores (s.conn.startLine + s.conn.contentLength)
          (by rw [stores_eq]; simp)
        omega

/-- In every session, the indices are in order and the parser writes inside the
buffer, exactly as long as the content fits whenever `parse_content` is
called. -/
theorem inBounds_along_iff_contentFits (c : HttpConn) (events : List SessionEvent)
    (possible : (run Session.next (Session.start c) events).isSome) :
    Along Session.next InBounds (Session.start c) events ↔
      Meets Session.next ContentFits (Session.start c) events :=
  along_iff_meets_of_isSome bounded_preserved (fun _ bounded => bounded.toInBounds)
    (fun _ _ _ bounded unfit step => bounded.unbounded_content unfit step)
    (Bounded.onStart c) possible

/-! ## A request with a content length -/

/-- A request with one header line arrives at once: three lines and the content
are handled. -/
def contentRun (length body : String) : List SessionEvent :=
  [.read [.data (ascii "GET / HTTP/1.1\r\nContent-Length: " ++ ascii length ++
      ascii "\r\n\r\n" ++ ascii body), .again],
    .scan, .handle noFiles, .scan, .handle noFiles, .scan, .handle noFiles, .scan,
    .handle noFiles]

/-- A body of three bytes is terminated behind its last byte. -/
theorem inBounds_along_contentRun :
    Along Session.next InBounds (Session.start zeroConn) (contentRun "3" "abc") :=
  (inBounds_along_iff_contentFits zeroConn (contentRun "3" "abc") (by decide)).mpr (by decide)

/-- A negative length makes `parse_content` write in front of the buffer. -/
theorem contentRun_negative_out_of_bounds :
    (run Session.next (Session.start zeroConn) (contentRun "-300" "")).map (fun s =>
        (s.conn.stores.getLast?, s.phase)) =
      some (some (-260), .finished .noResource) ∧
    ¬ Along Session.next InBounds (Session.start zeroConn) (contentRun "-300" "") := by
  have outcome : (run Session.next (Session.start zeroConn) (contentRun "-300" "")).map (fun s =>
      (s.conn.stores.getLast?, s.phase)) = some (some (-260), .finished .noResource) := by
    decide
  refine ⟨outcome, fun along => ?_⟩
  obtain ⟨s, finished, values⟩ := Option.map_eq_some_iff.mp outcome
  have inside := (along.last finished).stores (-260)
    (List.mem_of_getLast? (Prod.mk.inj values).1)
  exact absurd inside.1 (by decide)

end NetPractice.Http
