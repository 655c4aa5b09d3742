import NetPractice.Http.Response
import NetPractice.Transition.Core
import Mathlib.Algebra.Order.BigOperators.Group.List
import Mathlib.Algebra.Order.Group.Nat
import Mathlib.Algebra.Ring.Nat

/-!
# Delivery of a response

A prepared response is sent by calls of `write`, one for each `EPOLLOUT` event.
Every `writev` is offered the whole response again, and the response counts as
sent when as many bytes as the header block has were taken in one call, so that
the client receives the response exactly when the first `writev` that takes
anything takes all of it.
-/

namespace NetPractice.Http

open NetPractice.Text
open NetPractice.Socket
open NetPractice.Transition

/-- The counts of the successful calls of `writev`. -/
def counts (answers : List Send) : List Nat :=
  answers.filterMap fun
    | .taken count => some count
    | .again | .gone => none

@[simp]
theorem counts_append (first second : List Send) :
    counts (first ++ second) = counts first ++ counts second :=
  List.filterMap_append

@[simp]
theorem counts_nil : counts [] = [] :=
  rfl

@[simp]
theorem counts_taken (count : Nat) (answers : List Send) :
    counts (.taken count :: answers) = count :: counts answers :=
  rfl

namespace HttpConn

/-- The response: the header block, and the mapped file behind it. -/
def response (c : HttpConn) (file : List Byte) : List Byte :=
  c.writeBuf ++ if c.iv.length = 2 then file else []

/-- `file` is as long as the mapping that `m_iv` refers to. -/
def Maps (c : HttpConn) (file : List Byte) : Prop :=
  ∀ address len, .mapping address len ∈ c.iv → (file.length : Int) = len

/-- The bytes that the socket accepts: each call of `writev` begins with the
first byte of the first block. -/
def acceptedBytes (c : HttpConn) (file : List Byte) (counts : List Nat) : List Byte :=
  counts.flatMap (c.iv.flatMap (IoVec.bytes c.writeBuf file)).take

end HttpConn

/-- A response on its way. -/
structure Delivery where
  conn : HttpConn
  interest : Option EpollEvent
  accepted : List Byte

namespace Delivery

/-- A response behind `process_write`: `process` waits for `EPOLLOUT`. -/
def start (c : HttpConn) : Delivery :=
  ⟨c, some .epollout, []⟩

/-- A call of `write` at an `EPOLLOUT` event. -/
def next (file : List Byte) (s : Delivery) (answers : List Send) : Option Delivery :=
  if s.interest = some .epollout then
    (s.conn.write answers).map fun written =>
      ⟨written.conn, written.interest, s.accepted ++ s.conn.acceptedBytes file (counts answers)⟩
  else none

end Delivery

namespace HttpConn

/-! ## The write buffer -/

/-- Only the first byte of the buffer is the letter that begins `HTTP/1.1`. -/
def Headed (buffer : List Byte) : Prop :=
  ∃ rest, buffer = 72 :: rest ∧ 72 ∉ rest

theorem Headed.append {buffer text : List Byte} (headed : Headed buffer) (none : 72 ∉ text) :
    Headed (buffer ++ text) := by
  obtain ⟨rest, rfl, notMem⟩ := headed
  exact ⟨rest ++ text, rfl, by simp [notMem, none]⟩

theorem notMem_formatInt (value : Int) : 72 ∉ formatInt value := by
  have digits : 72 ∉ decimal value.natAbs := by
    intro mem
    have isDigit := isDigit_of_mem_decimal mem
    exact absurd isDigit (by decide)
  unfold formatInt
  dsimp only
  split
  · rintro (_ | ⟨_, mem⟩)
    exact digits mem
  · exact digits

theorem Headed.addResponse {c : HttpConn} {text : List Byte} (headed : Headed c.writeBuf)
    (none : 72 ∉ text) : Headed (c.addResponse text).2.writeBuf := by
  unfold HttpConn.addResponse
  split
  · exact headed
  · split
    · exact headed
    · exact headed.append none

theorem Headed.addHeaders {c : HttpConn} (headed : Headed c.writeBuf) (contentLen : Int) :
    Headed (c.addHeaders contentLen).writeBuf := by
  have length : 72 ∉ ascii "Content-Length: " ++ formatInt (toInt contentLen) ++ ascii "\r\n" := by
    simp only [List.mem_append, not_or]
    exact ⟨⟨by decide, notMem_formatInt _⟩, by decide⟩
  have linger : ∀ keep : Bool, 72 ∉ ascii "Connection: " ++
      (if keep then ascii "keep-alive" else ascii "close") ++ ascii "\r\n" := by
    decide
  exact ((headed.addResponse length).addResponse (linger _)).addResponse (by decide)

/-- The status line fits into an empty buffer. -/
theorem addStatusLine_headed {c : HttpConn} (empty : c.writeBuf = []) {status : Int}
    {title : List Byte} (short : (formatInt status).length + title.length < 100)
    (none : 72 ∉ title) : Headed (c.addStatusLine status title).2.writeBuf := by
  have none' : 72 ∉ formatInt status := notMem_formatInt status
  have size : WRITE_BUFFER_SIZE = 1024 := rfl
  have lengths : (ascii "HTTP/1.1").length = 8 ∧ (ascii " ").length = 1 ∧
      (ascii "\r\n").length = 2 := by
    decide
  unfold addStatusLine HttpConn.addResponse
  rw [empty, List.length_nil, if_neg (by omega), if_neg (by simp only [List.length_append]; omega)]
  refine ⟨ascii "TTP/1.1" ++ ascii " " ++ formatInt status ++ ascii " " ++ title ++ ascii "\r\n",
    rfl, ?_⟩
  simp only [List.mem_append, not_or]
  exact ⟨⟨⟨⟨⟨by decide, by decide⟩, none'⟩, by decide⟩, none⟩, by decide⟩

/-! ## Prepared responses -/

/-- A response behind `process_write`: the header block, and perhaps the file. -/
structure Prepared (c : HttpConn) : Prop where
  headed : Headed c.writeBuf
  blocks : c.iv = [.writeBuf c.writeBuf.length] ∨
    ∃ address len, c.iv = [.writeBuf c.writeBuf.length, .mapping address len]

theorem addPage_prepared {c d : HttpConn} (empty : c.writeBuf = []) {status : Int}
    {title form : List Byte} (short : (formatInt status).length + title.length < 100)
    (none : 72 ∉ title) (noneForm : 72 ∉ form) (page : c.addPage status title form = (true, d)) :
    Prepared d := by
  have headed := (addStatusLine_headed empty short none).addHeaders (form.length : Int)
  have content := headed.addResponse noneForm
  unfold addPage at page
  dsimp only at page
  split at page
  · rename_i e added
    obtain ⟨-, rfl⟩ := Prod.mk.inj page
    unfold addContent at added
    rw [added] at content
    exact ⟨content, Or.inl rfl⟩
  · cases (Prod.mk.inj page).1

theorem processWrite_prepared {c d : HttpConn} {code : HttpCode} (empty : c.writeBuf = [])
    (written : c.processWrite code = (true, d)) : Prepared d := by
  cases code with
  | internalError =>
      rw [processWrite] at written
      exact addPage_prepared empty (by decide) (by decide) (by decide) written
  | badRequest =>
      rw [processWrite] at written
      exact addPage_prepared empty (by decide) (by decide) (by decide) written
  | noResource =>
      rw [processWrite] at written
      exact addPage_prepared empty (by decide) (by decide) (by decide) written
  | forbiddenRequest =>
      rw [processWrite] at written
      exact addPage_prepared empty (by decide) (by decide) (by decide) written
  | fileRequest =>
      rw [processWrite] at written
      split at written
      · have status : Headed (c.addStatusLine 200 ok200Title).2.writeBuf :=
          addStatusLine_headed empty (by decide) (by decide)
        have headed := status.addHeaders c.fileStat.size
        generalize (c.addStatusLine 200 ok200Title).2.addHeaders c.fileStat.size = d' at *
        obtain ⟨-, rfl⟩ := Prod.mk.inj written
        exact ⟨headed, Or.inr ⟨_, _, rfl⟩⟩
      · exact addPage_prepared empty (by decide) (by decide) (by decide) written
  | noRequest | getRequest | closedConnection => cases (Prod.mk.inj written).1

section Blocks

variable {c : HttpConn} {file : List Byte}

theorem Prepared.blocks_eq (prepared : Prepared c) :
    c.iv.flatMap (IoVec.bytes c.writeBuf file) = c.response file := by
  unfold response
  rcases prepared.blocks with single | ⟨address, len, both⟩
  · simp [single, IoVec.bytes]
  · simp [both, IoVec.bytes]

theorem Prepared.offered_eq (prepared : Prepared c) (maps : c.Maps file) :
    c.offered = (c.response file).length := by
  unfold offered response
  rcases prepared.blocks with single | ⟨address, len, both⟩
  · simp [single, IoVec.len]
  · have len_eq : file.length = len := maps address len (by simp [both])
    simp [both, IoVec.len, len_eq]

theorem Prepared.writeBuf_length_le (c : HttpConn) (file : List Byte) :
    c.writeBuf.length ≤ (c.response file).length := by
  unfold response
  rw [List.length_append]
  exact Nat.le_add_right _ _

/-- Behind its first byte, the header block does not begin again. -/
theorem Prepared.getElem_ne (prepared : Prepared c) {k : Nat} (positive : 0 < k)
    (lt : k < c.writeBuf.length) :
    (c.response file)[k]? ≠ (c.response file)[0]? := by
  obtain ⟨rest, buffer, notMem⟩ := prepared.headed
  unfold response
  rw [List.getElem?_append_left lt, List.getElem?_append_left (by omega), buffer]
  rw [buffer] at lt
  obtain ⟨k, rfl⟩ : ∃ j, k = j + 1 := ⟨k - 1, by omega⟩
  rw [List.getElem?_cons_succ, List.getElem?_cons_zero]
  intro equal
  exact notMem (List.mem_of_getElem? equal)

end Blocks

/-! ## One call of `write` -/

/-- How a call of `write` with something to send ends. -/
structure WriteEnds (c : HttpConn) (bytesToSend : Int) (answers : List Send) (w : Written) :
    Prop where
  takes : ∀ count ∈ counts answers, c.Takes count
  waits : w.interest = some .epollout → w.conn = c ∧ ((counts answers).sum : Int) < bytesToSend
  finishes : w.interest = some .epollin → ∃ (before : List Nat) (last : Nat),
    counts answers = before ++ [last] ∧ (before.sum : Int) < bytesToSend ∧
      bytesToSend ≤ before.sum + last

theorem finishWrite_interest (c : HttpConn) : c.finishWrite.interest = some .epollin := by
  unfold finishWrite
  dsimp only
  split <;> rfl

theorem writeLoop_ends {c : HttpConn} {bytesToSend : Int} {answers : List Send} {w : Written}
    (positive : 0 < bytesToSend) (written : c.writeLoop bytesToSend answers = some w) :
    WriteEnds c bytesToSend answers w := by
  induction answers generalizing bytesToSend with
  | nil => cases written
  | cons answer answers ih =>
      cases answer with
      | taken count =>
          simp only [writeLoop, Option.ite_none_right_eq_some] at written
          obtain ⟨takes, written⟩ := written
          by_cases sent : bytesToSend - count ≤ 0
          · rw [if_pos sent, Option.ite_none_right_eq_some, Option.some.injEq] at written
            obtain ⟨rfl, rfl⟩ := written
            refine ⟨by simpa using takes, fun waits => ?_, fun _ => ⟨[], count, rfl, ?_, ?_⟩⟩
            · rw [finishWrite_interest] at waits
              cases waits
            · simpa using positive
            · simp only [List.sum_nil]
              omega
          · rw [if_neg sent] at written
            obtain ⟨takesRest, waits, finishes⟩ := ih (by omega) written
            refine ⟨by simpa using ⟨takes, takesRest⟩, fun waiting => ?_, fun finished => ?_⟩
            · obtain ⟨same, less⟩ := waits waiting
              refine ⟨same, ?_⟩
              simp only [counts_taken, List.sum_cons]
              omega
            · obtain ⟨before, last, counts_eq, less, enough⟩ := finishes finished
              refine ⟨count :: before, last, by rw [counts_taken, counts_eq]; rfl, ?_, ?_⟩
              · simp only [List.sum_cons]
                omega
              · simp only [List.sum_cons]
                omega
      | again =>
          simp only [writeLoop, Option.ite_none_right_eq_some, Option.some.injEq] at written
          obtain ⟨rfl, rfl⟩ := written
          exact ⟨by simp [counts], fun _ => ⟨rfl, by simpa [counts] using positive⟩, by simp⟩
      | gone =>
          simp only [writeLoop, Option.ite_none_right_eq_some, Option.some.injEq] at written
          obtain ⟨rfl, rfl⟩ := written
          exact ⟨by simp [counts], by simp, by simp⟩

theorem Prepared.write_ends {c : HttpConn} {answers : List Send} {w : Written}
    (prepared : Prepared c) (written : c.write answers = some w) :
    WriteEnds c c.writeBuf.length answers w := by
  obtain ⟨rest, buffer, -⟩ := prepared.headed
  have positive : 0 < c.writeBuf.length := by rw [buffer]; simp
  unfold write at written
  rw [if_neg positive.ne'] at written
  exact writeLoop_ends (by omega) written

end HttpConn

/-! ## All calls of `write` -/

/-- What has been accepted, by the counts of all calls of `writev`.  Until the
response is finished, each count is short of the header block. -/
structure Sent (c : HttpConn) (file : List Byte) (counts : List Nat) (s : Delivery) : Prop where
  accepted : s.accepted = c.acceptedBytes file counts
  waits : s.interest = some .epollout →
    s.conn = c ∧ ∀ count ∈ counts, 0 < count ∧ count < c.writeBuf.length
  finishes : s.interest = some .epollin → ∃ before last, counts = before ++ [last] ∧
    (∀ count ∈ before, 0 < count ∧ count < c.writeBuf.length) ∧
    c.Takes last ∧ (before = [] → c.writeBuf.length ≤ last)

theorem Sent.start (c : HttpConn) (file : List Byte) : Sent c file [] (Delivery.start c) :=
  ⟨rfl, fun _ => ⟨rfl, by simp⟩, fun finished => by cases finished⟩

theorem count_lt_of_sum {counts : List Nat} {count bound : Nat} (mem : count ∈ counts)
    (sum : (counts.sum : Int) < bound) : count < bound := by
  have le := List.le_sum_of_mem mem
  omega

theorem Sent.next {c : HttpConn} {file : List Byte} {sent : List Nat} {s t : Delivery}
    {answers : List Send} (prepared : c.Prepared) (before : Sent c file sent s)
    (step : s.next file answers = some t) : Sent c file (sent ++ counts answers) t := by
  unfold Delivery.next at step
  rw [Option.ite_none_right_eq_some] at step
  obtain ⟨waiting, step⟩ := step
  obtain ⟨w, written, rfl⟩ := Option.map_eq_some_iff.mp step
  obtain ⟨same, short⟩ := before.waits waiting
  rw [same] at written
  obtain ⟨takes, waits, finishes⟩ := prepared.write_ends written
  refine ⟨?_, fun waiting => ?_, fun finished => ?_⟩
  · simp only [before.accepted, same, HttpConn.acceptedBytes, List.flatMap_append]
  · obtain ⟨same', less⟩ := waits waiting
    refine ⟨same', fun count mem => (List.mem_append.mp mem).elim (short count) fun mem => ?_⟩
    exact ⟨(takes count mem).1, count_lt_of_sum mem less⟩
  · obtain ⟨first, last, counts_eq, less, enough⟩ := finishes finished
    refine ⟨sent ++ first, last, by rw [counts_eq, List.append_assoc], fun count mem => ?_, ?_,
      fun none => ?_⟩
    · refine (List.mem_append.mp mem).elim (short count) fun mem => ?_
      exact ⟨(takes count (by rw [counts_eq]; exact List.mem_append_left _ mem)).1,
        count_lt_of_sum mem less⟩
    · exact takes last (by rw [counts_eq]; simp)
    · rw [(List.append_eq_nil_iff.mp none).2, List.sum_nil] at enough
      omega

/-- The calls of a whole run. -/
theorem Sent.run {c : HttpConn} {file : List Byte} {sent : List Nat} {s t : Delivery}
    {calls : List (List Send)} (prepared : c.Prepared) (before : Sent c file sent s)
    (finished : run (Delivery.next file) s calls = some t) :
    Sent c file (sent ++ counts calls.flatten) t := by
  induction calls generalizing s sent with
  | nil =>
      cases finished
      simpa using before
  | cons answers calls ih =>
      obtain ⟨middle, step, rest⟩ := (run_cons_eq_some_iff _ _ _ _ _).mp finished
      have after := ih (before.next prepared step) rest
      rwa [List.append_assoc, ← counts_append] at after

/-- The next call of `writev` begins with the first byte again. -/
theorem flatMap_take_head {response : List Byte} {counts : List Nat} (nonempty : counts ≠ [])
    (positive : ∀ count ∈ counts, 0 < count) :
    (counts.flatMap response.take)[0]? = response[0]? := by
  cases counts with
  | nil => exact absurd rfl nonempty
  | cons count counts =>
      obtain ⟨count, rfl⟩ := Nat.exists_eq_add_of_le' (positive count List.mem_cons_self)
      cases response with
      | nil => simp
      | cons byte response => rfl

/-- Counts of which all but the last are short of the header block make up the
response exactly when the first one is the whole response. -/
theorem acceptedBytes_eq_iff {c : HttpConn} {file : List Byte} {before : List Nat} {last : Nat}
    (prepared : c.Prepared) (maps : c.Maps file)
    (short : ∀ count ∈ before, 0 < count ∧ count < c.writeBuf.length) (takes : c.Takes last) :
    c.acceptedBytes file (before ++ [last]) = c.response file ↔
      (before ++ [last]).head? = some (c.response file).length := by
  have offered := prepared.offered_eq maps
  have le := HttpConn.Prepared.writeBuf_length_le c file
  have takes_le := takes.2.1
  unfold HttpConn.acceptedBytes
  rw [prepared.blocks_eq]
  cases before with
  | nil =>
      simp only [List.nil_append, List.flatMap_cons, List.flatMap_nil, List.append_nil,
        List.head?_cons, Option.some.injEq]
      constructor
      · intro accepted
        have length_eq := congrArg List.length accepted
        rw [List.length_take] at length_eq
        omega
      · rintro rfl
        exact List.take_length
  | cons first before =>
      obtain ⟨positive, lt⟩ := short first List.mem_cons_self
      simp only [List.cons_append, List.head?_cons, Option.some.injEq, List.flatMap_cons]
      constructor
      · intro accepted
        have next_eq : ((before ++ [last]).flatMap (c.response file).take)[0]? =
            (c.response file)[0]? := by
          refine flatMap_take_head (by simp) fun count mem => ?_
          rcases List.mem_append.mp mem with mem | mem
          · exact (short count (List.mem_cons_of_mem _ mem)).1
          · exact List.mem_singleton.mp mem ▸ takes.1
        have byte_eq : (c.response file)[first]? = (c.response file)[0]? := by
          rw [← next_eq]
          conv_lhs => rw [← accepted]
          rw [List.getElem?_append_right (by rw [List.length_take]; omega), List.length_take]
          congr 1
          omega
        exact absurd byte_eq (prepared.getElem_ne positive lt)
      · intro whole
        omega

/-- A response that `write` reports as sent has been delivered exactly when the
first `writev` that takes any bytes takes the whole response. -/
theorem accepted_iff_first_whole (c d : HttpConn) (code : HttpCode) (file : List Byte)
    (calls : List (List Send)) (t : Delivery) (empty : c.writeBuf = [])
    (prepared : c.processWrite code = (true, d)) (maps : d.Maps file)
    (ran : run (Delivery.next file) (Delivery.start d) calls = some t)
    (finished : t.interest = some .epollin) :
    t.accepted = d.response file ↔
      (counts calls.flatten).head? = some (d.response file).length := by
  have ready := HttpConn.processWrite_prepared empty prepared
  have sent := (Sent.start d file).run ready ran
  rw [List.nil_append] at sent
  obtain ⟨before, last, counts_eq, short, takes, -⟩ := sent.finishes finished
  rw [sent.accepted, counts_eq]
  exact acceptedBytes_eq_iff ready maps short takes

/-- A request for a file of five bytes, in front of `process_write`. -/
def fileConn : HttpConn :=
  { zeroConn with fileAddress := 4096, fileStat := ⟨true, false, 5⟩ }

/-- The prepared response: a header block of 57 bytes, and the file. -/
def fileResponse : HttpConn :=
  (fileConn.processWrite .fileRequest).2

theorem accepted_fileResponse_whole :
    (run (Delivery.next (ascii "hello")) (Delivery.start fileResponse)
      [[.again], [.taken 62]]).map Delivery.accepted =
        some (fileResponse.response (ascii "hello")) := by
  have outcome : (run (Delivery.next (ascii "hello")) (Delivery.start fileResponse)
      [[.again], [.taken 62]]).map Delivery.interest = some (some .epollin) := by
    decide
  obtain ⟨t, ran, finished⟩ := Option.map_eq_some_iff.mp outcome
  have maps : fileResponse.Maps (ascii "hello") := by
    have blocks : fileResponse.iv = [.writeBuf 57, .mapping 4096 5] := by decide
    intro address len mem
    simp only [blocks, List.mem_cons, IoVec.mapping.injEq, List.not_mem_nil, or_false,
      reduceCtorEq, false_or] at mem
    rw [mem.2]
    rfl
  rw [ran, Option.map_some, (accepted_iff_first_whole fileConn fileResponse .fileRequest
    (ascii "hello") _ t rfl rfl maps ran finished).mpr (by decide)]

/-- When `writev` takes the header block first, the file is not sent. -/
theorem fileResponse_header_only :
    (run (Delivery.next (ascii "hello")) (Delivery.start fileResponse) [[.taken 57]]).map (fun s =>
        (s.interest, s.accepted)) =
      some (some .epollin, fileResponse.writeBuf) ∧
    fileResponse.writeBuf ≠ fileResponse.response (ascii "hello") := by
  decide

end NetPractice.Http
