import NetPractice.Http.RequestStores

/-!
# Keep-alive without loss

A client sends requests on one connection and does not wait for the responses.
`read` takes everything that has arrived, `process_read` stops behind the first
request, and `write` initialises the object when the response is sent, so that what
has been read behind the request is lost.
-/

namespace NetPractice.Http

open NetPractice.Text
open NetPractice.Socket
open NetPractice.Transition

/-- What is next for a connection: it waits for `EPOLLIN`, for a thread, or for
`EPOLLOUT`; `stalled` waits for nothing, because the pool has refused it. -/
inductive Dialogue.Phase where
  | reading | queued | writing | stalled | closed
  deriving DecidableEq, Repr

/-- A response that has been prepared, with the files it was prepared from. -/
structure Answer where
  fs : FileSystem
  code : HttpCode
  blocks : List Block

/-- A connection with its client: `toSend` has not arrived, and `unread` has arrived
and is in the socket. -/
structure Dialogue where
  conn : HttpConn
  phase : Dialogue.Phase
  toSend : List Byte
  unread : List Byte
  answers : List Answer

namespace Dialogue

/-- What happens next.  `arrive` brings some of the client's bytes at any time; the
other events are the calls of the server's threads, and `room` is set when the queue of
the pool has room. -/
inductive Event where
  | arrive (count : Nat)
  | read (answers : List Recv) (room : Bool)
  | process (fs : FileSystem)
  | write (answers : List Send)

/-- A new connection whose client has these requests. -/
def start (c : HttpConn) (sockfd : Fd) (requests : List Request) : Dialogue :=
  ⟨c.initSocket sockfd, .reading, requests.flatMap Request.bytes, [], []⟩

/-- What the answers of `recv` leave in the socket; each takes a beginning of what has
arrived.  The client stays, and a `recv` without room returns no bytes. -/
def left (room : Nat) (unread : List Byte) : List Recv → Option (List Byte)
  | [] => some unread
  | .data bytes :: answers =>
      if bytes <+: unread then left (room - bytes.length) (unread.drop bytes.length) answers
      else none
  | .again :: answers => if unread = [] then left room unread answers else none
  | .eof :: answers => if room = 0 then left room unread answers else none
  | .fail :: _ => none

/-- A step of the connection.  The main thread ignores the result of `append`.  A thread
of the pool runs `process()` on a queued connection, and closes it when there is no
response. -/
def next (s : Dialogue) : Event → Option Dialogue
  | .arrive count =>
      some { s with unread := s.unread ++ s.toSend.take count, toSend := s.toSend.drop count }
  | .read answers room =>
      if s.phase = .reading then
        (left (READ_BUFFER_SIZE - s.conn.readIdx) s.unread answers).bind fun unread =>
          (s.conn.read answers).map fun (more, conn) =>
            { s with
              conn := conn
              unread := unread
              phase := if more = false then .closed else if room then .queued else .stalled }
      else none
  | .process fs =>
      if s.phase = .queued then
        let (code, conn) := s.conn.processRead fs
        if code = .noRequest then some { s with conn := conn, phase := .reading }
        else
          let (filled, conn) := conn.processWrite code
          if filled then
            some { s with
              conn := conn
              phase := .writing
              answers := s.answers ++ [⟨fs, code, conn.prepared⟩] }
          else some { s with conn := conn, phase := .closed }
      else none
  | .write answers =>
      if s.phase = .writing ∧ .gone ∉ answers then
        (s.conn.write answers).map fun written =>
          { s with
            conn := written.conn
            phase := if written.result = false then .closed
              else if written.interest = some .epollin then .reading else .writing }
      else none

/-- The number of requests whose responses have been sent. -/
def sent (s : Dialogue) : Nat :=
  if s.phase = .writing then s.answers.length - 1 else s.answers.length

/-- The response to a request alone on a fresh connection. -/
def Answers (r : Request) (a : Answer) : Prop :=
  zeroConn.init.reply a.fs [[.data r.bytes, .again]] = some ([a.code], a.blocks)

/-- No request and no byte is lost: the responses are those of the first requests, in
order; behind the requests that are done, each byte is in the object, in the socket,
or on its way; and the server waits for bytes only while the next request is not
complete. -/
structure Lossless (requests : List Request) (s : Dialogue) : Prop where
  stays : s.phase ≠ .closed ∧ s.phase ≠ .stalled
  answered : List.Forall₂ Answers (requests.take s.answers.length) s.answers
  kept : ∃ received, received.length = s.conn.readIdx ∧
    (requests.drop s.sent).flatMap Request.bytes = received ++ (s.unread ++ s.toSend)
  waits : s.phase = .reading → s.unread = [] →
    ∀ r ∈ requests[s.answers.length]?, s.conn.readIdx < r.bytes.length
  settled : s.phase = .reading → s.unread = [] → s.toSend = [] →
    s.answers.length = requests.length

/-- `read` finds nothing behind the end of the next request, and does not stop inside
a body that `parse_line` moves over; the pool accepts the connection. -/
def InTurn (requests : List Request) (s : Dialogue) : Event → Prop
  | .read _ room => room = true ∧ ∀ r ∈ requests[s.answers.length]?,
      s.conn.readIdx + s.unread.length ≤ r.bytes.length ∧
        (s.conn.readIdx + s.unread.length < r.bytes.length →
          ¬ HttpConn.Moves ((r.bytes.take (s.conn.readIdx + s.unread.length)).drop r.head.length))
  | .arrive _ | .process _ | .write _ => True

instance (requests : List Request) (s : Dialogue) :
    ∀ event, Decidable (InTurn requests s event)
  | .read _ _ => inferInstanceAs (Decidable (_ ∧ ∀ r ∈ _, _))
  | .arrive _ | .process _ | .write _ => isTrue trivial

/-! ## Reading -/

/-- A `read` that has room for everything in the socket takes it. -/
theorem readLoop_left {c d : HttpConn} {more : Bool} {unread rest : List Byte}
    {answers : List Recv} (room : c.readIdx + unread.length < READ_BUFFER_SIZE)
    (taken : left (READ_BUFFER_SIZE - c.readIdx) unread answers = some rest)
    (read : c.readLoop answers = some (more, d)) :
    more = true ∧ d = c.append unread ∧ rest = [] := by
  induction answers generalizing c unread with
  | nil => cases read
  | cons answer answers ih =>
      simp only [HttpConn.readLoop, Option.ite_none_right_eq_some] at read
      rcases read with ⟨-, read⟩
      cases answer with
      | data bytes =>
          rw [left, Option.ite_none_right_eq_some] at taken
          rcases taken with ⟨⟨behind, rfl⟩, taken⟩
          rw [List.drop_left, Nat.sub_sub] at taken
          rw [List.length_append, ← Nat.add_assoc] at room
          rcases ih (c := c.append bytes) room taken read with ⟨more_eq, d_eq, rest_eq⟩
          rw [HttpConn.append_append] at d_eq
          exact ⟨more_eq, d_eq, rest_eq⟩
      | again =>
          rw [left, Option.ite_none_right_eq_some] at taken
          rcases taken with ⟨rfl, taken⟩
          simp only [Option.ite_none_right_eq_some, Option.some.injEq, Prod.mk.injEq] at read
          rcases read with ⟨rfl, rfl, rfl⟩
          cases taken
          exact ⟨rfl, (HttpConn.append_nil c).symm, rfl⟩
      | eof =>
          rw [left, Option.ite_none_right_eq_some] at taken
          omega
      | fail => cases taken

theorem read_left {c d : HttpConn} {more : Bool} {unread rest : List Byte}
    {answers : List Recv} (room : c.readIdx + unread.length < READ_BUFFER_SIZE)
    (taken : left (READ_BUFFER_SIZE - c.readIdx) unread answers = some rest)
    (read : c.read answers = some (more, d)) :
    more = true ∧ d = c.append unread ∧ rest = [] := by
  unfold HttpConn.read at read
  rw [if_neg (by omega)] at read
  exact readLoop_left room taken read

/-! ## Writing -/

/-- While the client stays, `write` waits or finishes. -/
theorem writeLoop_stays {c : HttpConn} {bytesToSend : Int} {answers : List Send} {w : Written}
    (stays : .gone ∉ answers) (written : c.writeLoop bytesToSend answers = some w) :
    w = ⟨true, c, some .epollout, none⟩ ∨ w = c.finishWrite := by
  induction answers generalizing bytesToSend with
  | nil => cases written
  | cons answer answers ih =>
      rw [List.mem_cons, not_or] at stays
      cases answer with
      | taken count =>
          rw [HttpConn.writeLoop, Option.ite_none_right_eq_some] at written
          rcases written with ⟨-, written⟩
          split at written
          · rw [Option.ite_none_right_eq_some, Option.some.injEq] at written
            exact .inr written.2.symm
          · exact ih stays.2 written
      | again =>
          rw [HttpConn.writeLoop, Option.ite_none_right_eq_some, Option.some.injEq] at written
          exact .inl written.2.symm
      | gone => exact absurd rfl stays.1

/-- A connection that is to be kept stays when its response has been sent. -/
theorem finishWrite_kept {c : HttpConn} (lingers : c.linger = true) :
    c.finishWrite.result = true := by
  have lingers' : c.unmap.2.linger = true := by
    unfold HttpConn.unmap
    split
    · exact lingers
    · exact lingers
  unfold HttpConn.finishWrite
  dsimp only
  rw [if_pos lingers']

/-! ## The invariant -/

/-- The main loop goes on with the object as behind `init` and these bytes. -/
def Stands (b : HttpConn) (part : List Byte) (c : HttpConn) : Prop :=
  ∀ fs code d, HttpConn.Loops fs .ok c code d → HttpConn.Loops fs .ok (b.init.append part) code d

/-- The bytes are shorter than the next request. -/
def Short (requests : List Request) (s : Dialogue) (part : List Byte) : Prop :=
  ∀ r ∈ requests[s.answers.length]?, part.length < r.bytes.length

/-- The object holds these bytes, and all others of the requests without a response
follow. -/
structure Holds (requests : List Request) (s : Dialogue) (part : List Byte) : Prop where
  ordered : s.conn.Ordered
  length : s.conn.readIdx = part.length
  follow : (requests.drop s.answers.length).flatMap Request.bytes =
    part ++ (s.unread ++ s.toSend)

/-- What is known in each phase; `b` is the object in front of its last `init`. -/
inductive Tracks (requests : List Request) (s : Dialogue) : Prop where
  | reading (phase : s.phase = .reading) (b : HttpConn) (part : List Byte)
      (holds : Holds requests s part) (short : Short requests s part)
      (stands : ∀ rest, Stands b (part ++ rest) (s.conn.append rest))
  | complete (phase : s.phase = .queued) (b : HttpConn) (r : Request)
      (next : requests[s.answers.length]? = some r) (holds : Holds requests s r.bytes)
      (stands : Stands b r.bytes s.conn)
  | incomplete (phase : s.phase = .queued) (b : HttpConn) (part : List Byte)
      (holds : Holds requests s part) (short : Short requests s part)
      (quiet : ∀ fs, HttpConn.Quiet fs b.init part) (stands : Stands b part s.conn)
  | writing (phase : s.phase = .writing) (done : Nat) (length : s.answers.length = done + 1)
      (prepared : s.conn.Prepared) (lingers : s.conn.linger = true)
      (follow : ∃ received, received.length = s.conn.readIdx ∧
        (requests.drop done).flatMap Request.bytes = received ++ (s.unread ++ s.toSend) ∧
        (requests.drop s.answers.length).flatMap Request.bytes = s.unread ++ s.toSend)

section Steps

variable {requests : List Request} {s t : Dialogue} {b : HttpConn} {part : List Byte}

theorem Stands.processRead_eq {c d : HttpConn} {fs : FileSystem} {code : HttpCode}
    (stands : Stands b part c) (ordered : c.Ordered)
    (loops : HttpConn.Loops fs .ok (b.init.append part) code d) :
    c.processRead fs = (code, d) := by
  have same := (stands _ _ _ (HttpConn.processRead_loops fs ordered)).unique loops
  exact Prod.ext same.1 same.2

/-- Behind `init`, the object holds no bytes. -/
theorem tracks_init (conn : s.conn = b.init) (phase : s.phase = .reading)
    (follow : (requests.drop s.answers.length).flatMap Request.bytes = s.unread ++ s.toSend) :
    Tracks requests s := by
  refine .reading phase b [] ⟨?_, ?_, follow⟩ ?_ ?_
  · rw [conn]
    exact b.init_ordered
  · rw [conn]
    rfl
  · intro r _
    have head := r.length_head
    have bytes := r.length_bytes
    rw [List.length_nil]
    omega
  · intro rest
    rw [conn]
    exact fun fs code d loops => loops

theorem tracks_arrive (count : Nat) (tracks : Tracks requests s) :
    Tracks requests { s with
      unread := s.unread ++ s.toSend.take count, toSend := s.toSend.drop count } := by
  have same : s.unread ++ s.toSend.take count ++ s.toSend.drop count = s.unread ++ s.toSend := by
    rw [List.append_assoc, List.take_append_drop]
  have arrived : ∀ {part}, Holds requests s part → Holds requests { s with
      unread := s.unread ++ s.toSend.take count, toSend := s.toSend.drop count } part :=
    fun holds => ⟨holds.ordered, holds.length, same ▸ holds.follow⟩
  cases tracks with
  | reading phase b part holds short stands =>
      exact .reading phase b part (arrived holds) short stands
  | complete phase b r next holds stands => exact .complete phase b r next (arrived holds) stands
  | incomplete phase b part holds short quiet stands =>
      exact .incomplete phase b part (arrived holds) short quiet stands
  | writing phase done length prepared lingers follow =>
      exact .writing phase done length prepared lingers (same ▸ follow)

/-! ## Reading -/

/-- The next request, and those behind it. -/
theorem next_cases (requests : List Request) (n : Nat) :
    (requests[n]? = none ∧ requests.drop n = []) ∨
      ∃ r, requests[n]? = some r ∧ requests.drop n = r :: requests.drop (n + 1) := by
  rcases Nat.lt_or_ge n requests.length with lt | ge
  · exact .inr ⟨requests[n], List.getElem?_eq_getElem lt, List.drop_eq_getElem_cons lt⟩
  · exact .inl ⟨List.getElem?_eq_none ge, List.drop_eq_nil_of_le ge⟩

/-- A `read` in turn has room for everything that has arrived. -/
theorem Holds.room {answers : List Recv} {room : Bool} (holds : Holds requests s part)
    (inTurn : InTurn requests s (.read answers room)) :
    s.conn.readIdx + s.unread.length < READ_BUFFER_SIZE := by
  rcases next_cases requests s.answers.length with ⟨-, none⟩ | ⟨r, next, -⟩
  · have follow := holds.follow
    rw [none, List.flatMap_nil, eq_comm, List.append_eq_nil_iff, List.append_eq_nil_iff] at follow
    rw [holds.length, follow.1, follow.2.1]
    decide
  · have within := (inTurn.2 r next).1
    have size := r.length_lt
    omega

/-- What has arrived joins the bytes in the object. -/
theorem Holds.read (holds : Holds requests s part)
    (room : s.conn.readIdx + s.unread.length < READ_BUFFER_SIZE) :
    Holds requests { s with conn := s.conn.append s.unread, unread := [], phase := .queued }
      (part ++ s.unread) := by
  constructor
  · exact holds.ordered.append room.le
  · rw [HttpConn.append_readIdx, List.length_append, holds.length]
  · have follow := holds.follow
    rw [← List.append_assoc] at follow
    exact follow

theorem tracks_read {answers : List Recv} {room : Bool}
    (keepAlive : ∀ r ∈ requests, HttpConn.KeepAlive r)
    (holds : Holds requests s part)
    (stands : ∀ rest, Stands b (part ++ rest) (s.conn.append rest))
    (inTurn : InTurn requests s (.read answers room)) :
    Tracks requests { s with
      conn := s.conn.append s.unread, unread := [], phase := .queued } := by
  have taken := holds.read (holds.room inTurn)
  have total : s.conn.readIdx + s.unread.length = (part ++ s.unread).length := by
    rw [List.length_append, holds.length]
  have follow : (requests.drop s.answers.length).flatMap Request.bytes =
      part ++ s.unread ++ s.toSend := taken.follow
  rcases next_cases requests s.answers.length with ⟨none, behind⟩ | ⟨r, next, behind⟩
  · rw [behind, List.flatMap_nil, eq_comm, List.append_eq_nil_iff] at follow
    rw [follow.1] at taken
    refine .incomplete rfl b [] taken ?_ (fun fs => HttpConn.quiet_nil fs b) ?_
    · intro r mem
      rw [none] at mem
      cases mem
    · rw [← follow.1]
      exact stands s.unread
  · rcases inTurn.2 r next with ⟨within, unmoved⟩
    rw [total] at within unmoved
    rw [behind, List.flatMap_cons] at follow
    have initial : part ++ s.unread <+: r.bytes :=
      List.prefix_of_prefix_length_le ⟨s.toSend, follow.symm⟩ ⟨_, rfl⟩ within
    rcases Nat.lt_or_eq_of_le within with lt | equal
    · have accepts := (keepAlive r (List.mem_of_getElem? next)).accepts b
      have unmoved := unmoved lt
      rw [← List.prefix_iff_eq_take.mp initial] at unmoved
      refine .incomplete rfl b _ taken ?_
        (fun fs => HttpConn.accepted_quiet accepts initial lt unmoved) (stands s.unread)
      intro other mem
      rw [next] at mem
      cases mem
      exact lt
    · have whole := initial.eq_of_length equal
      exact .complete rfl b r next (whole ▸ taken) (whole ▸ stands s.unread)

/-! ## Answering -/

/-- A request that arrives alone, in one segment. -/
theorem read_whole (r : Request) (b : HttpConn) :
    b.init.read [.data r.bytes, .again] = some (true, b.init.append r.bytes) := by
  have size := r.length_lt
  have head := r.length_head
  have bytes := r.length_bytes
  have nonempty : r.bytes ≠ [] := by
    intro empty
    rw [empty, List.length_nil] at bytes
    omega
  have fits : (Recv.data r.bytes).AtMost (READ_BUFFER_SIZE - b.init.readIdx) := by
    rintro _ ⟨rfl⟩
    exact ⟨nonempty, size.le⟩
  have none : Recv.again.AtMost (READ_BUFFER_SIZE - (b.init.append r.bytes).readIdx) := by
    rintro _ ⟨⟩
  have notFull : ¬ b.init.readIdx ≥ READ_BUFFER_SIZE := by
    change ¬ 0 ≥ READ_BUFFER_SIZE
    decide
  unfold HttpConn.read
  rw [if_neg notFull, HttpConn.readLoop, if_pos fits, HttpConn.readLoop, if_pos none]
  rfl

/-- The response does not depend on the object. -/
theorem answers_of_result {r : Request} {fs : FileSystem} {code : HttpCode} {d : HttpConn}
    (parsed : (b.init.append r.bytes).processRead fs = (code, d)) (hasResult : code ≠ .noRequest)
    (fits : (d.processWrite code).1 = true) :
    Answers r ⟨fs, code, (d.processWrite code).2.prepared⟩ := by
  have fresh := HttpConn.reply_agrees (zeroConn.view_init b) zeroConn.init_ordered
    (⟨rfl, fun _ => rfl⟩ : SameFiles fs fs) [[.data r.bytes, .again]]
  unfold Answers
  rw [fresh]
  unfold HttpConn.reply
  rw [read_whole]
  dsimp only
  rw [parsed]
  cases code with
  | noRequest => exact absurd rfl hasResult
  | getRequest | badRequest | noResource | forbiddenRequest | fileRequest | internalError
  | closedConnection => exact if_pos fits

/-- What a connection does with a whole request. -/
theorem Stands.processRead_result {r : Request} {c : HttpConn} (stands : Stands b r.bytes c)
    (ordered : c.Ordered) (keepAlive : HttpConn.KeepAlive r) (fs : FileSystem) :
    ∃ code d, c.processRead fs = (code, d) ∧ code ≠ .noRequest ∧
      (d.processWrite code).1 = true ∧ (d.processWrite code).2.Prepared ∧
      (d.processWrite code).2.linger = true ∧
      (d.processWrite code).2.readIdx = r.bytes.length ∧
      Answers r ⟨fs, code, (d.processWrite code).2.prepared⟩ := by
  rcases keepAlive.result fs b with ⟨code, d, loops, hasResult, lingers⟩
  have ordered' := HttpConn.bytes_ordered b (r := r) List.prefix_rfl
  have alone := HttpConn.processRead_eq_of_loops ordered' loops
  have parsed := HttpConn.processRead_parsed (b.init.append r.bytes) fs
  rw [alone] at parsed
  have empty : d.writeBuf = [] := parsed.writeBuf
  have fits := HttpConn.processWrite_fits empty parsed.readCode hasResult
  have filled := HttpConn.processWrite_filled d code
  have readIdx_eq : d.readIdx = r.bytes.length := by
    rw [(loops.ordered ordered').2, HttpConn.append_readIdx]
    exact Nat.zero_add _
  refine ⟨code, d, stands.processRead_eq ordered loops, hasResult, fits,
    HttpConn.processWrite_prepared empty (Prod.ext fits rfl), ?_, ?_, ?_⟩
  · rw [filled.frame]
    exact lingers
  · rw [filled.frame]
    exact readIdx_eq
  · exact answers_of_result alone hasResult fits

/-- A request that is not complete leaves the connection waiting. -/
theorem Stands.processRead_quiet {c : HttpConn} (stands : Stands b part c) (ordered : c.Ordered)
    (quiet : ∀ fs, HttpConn.Quiet fs b.init part) (fs : FileSystem) :
    ∃ d, c.processRead fs = (.noRequest, d) ∧ d.Ordered ∧ d.readIdx = c.readIdx ∧
      ∀ rest, Stands b (part ++ rest) (d.append rest) := by
  rcases quiet fs with ⟨d, loops, -⟩
  have parsed := stands.processRead_eq ordered loops
  have kept := (HttpConn.processRead_loops fs ordered).ordered ordered
  rw [parsed] at kept
  refine ⟨d, parsed, kept.1, kept.2, fun rest other code e further => ?_⟩
  rcases quiet other with ⟨d', loops', resume⟩
  rcases (loops.waits other rfl).unique loops' with ⟨-, rfl⟩
  exact resume rest code e further

/-- The step of `process()`. -/
theorem process_step {fs : FileSystem} (keepAlive : ∀ r ∈ requests, HttpConn.KeepAlive r)
    (answered : List.Forall₂ Answers (requests.take s.answers.length) s.answers)
    (tracks : Tracks requests s) (step : s.next (.process fs) = some t) :
    List.Forall₂ Answers (requests.take t.answers.length) t.answers ∧ Tracks requests t := by
  rw [next, Option.ite_none_right_eq_some] at step
  rcases step with ⟨queued, step⟩
  cases tracks with
  | reading phase | writing phase =>
      rw [phase] at queued
      cases queued
  | incomplete phase b part holds short quiet stands =>
      rcases stands.processRead_quiet holds.ordered quiet fs with
        ⟨d, parsed, ordered, readIdx_eq, further⟩
      rw [parsed] at step
      cases step
      constructor
      · exact answered
      · exact .reading rfl b part ⟨ordered, readIdx_eq.trans holds.length, holds.follow⟩ short
          further
  | complete phase b r next holds stands =>
      rcases stands.processRead_result holds.ordered (keepAlive r (List.mem_of_getElem? next)) fs
        with ⟨code, d, parsed, hasResult, fits, prepared, lingers, readIdx_eq, answer⟩
      rw [parsed] at step
      dsimp only at step
      rw [if_neg hasResult, if_pos fits] at step
      cases step
      have follow := holds.follow
      rcases next_cases requests s.answers.length with ⟨none, -⟩ | ⟨other, next', behind⟩
      · rw [next] at none
        cases none
      · rw [next] at next'
        cases next'
        rw [behind, List.flatMap_cons, List.append_cancel_left_eq] at follow
        have length :
            (s.answers ++ [(⟨fs, code, (d.processWrite code).2.prepared⟩ : Answer)]).length =
              s.answers.length + 1 := List.length_append
        constructor
        · dsimp only
          rw [length, List.take_add_one, next]
          exact List.rel_append answered (.cons answer .nil)
        · refine .writing rfl s.answers.length length prepared lingers ⟨r.bytes, ?_, ?_, ?_⟩
          · exact readIdx_eq.symm
          · rw [behind, List.flatMap_cons, follow]
          · rw [length]
            exact follow

/-- The step of `read`. -/
theorem read_step {answers : List Recv} {room : Bool}
    (keepAlive : ∀ r ∈ requests, HttpConn.KeepAlive r)
    (tracks : Tracks requests s) (inTurn : InTurn requests s (.read answers room))
    (step : s.next (.read answers room) = some t) :
    t.answers = s.answers ∧ Tracks requests t := by
  rw [next, Option.ite_none_right_eq_some] at step
  rcases step with ⟨reads, step⟩
  cases tracks with
  | complete phase | incomplete phase | writing phase =>
      rw [phase] at reads
      cases reads
  | reading phase b part holds short stands =>
      rcases Option.bind_eq_some_iff.mp step with ⟨rest, taken, step⟩
      rcases Option.map_eq_some_iff.mp step with ⟨⟨more, conn⟩, read, rfl⟩
      rcases read_left (holds.room inTurn) taken read with ⟨rfl, rfl, rfl⟩
      have accepted := inTurn.1
      subst accepted
      exact ⟨rfl, tracks_read keepAlive holds stands inTurn⟩

/-- The step of `write`. -/
theorem write_step {answers : List Send} (tracks : Tracks requests s)
    (step : s.next (.write answers) = some t) :
    t.answers = s.answers ∧ Tracks requests t := by
  rw [next, Option.ite_none_right_eq_some] at step
  rcases step with ⟨⟨writes, stays⟩, step⟩
  cases tracks with
  | reading phase | complete phase | incomplete phase =>
      rw [phase] at writes
      cases writes
  | writing phase done length prepared lingers follow =>
      rcases Option.map_eq_some_iff.mp step with ⟨w, written, rfl⟩
      have nonempty : ¬ s.conn.writeBuf.length = 0 :=
        fun empty => prepared.nonempty (List.eq_nil_of_length_eq_zero empty)
      unfold HttpConn.write at written
      rw [if_neg nonempty] at written
      rcases writeLoop_stays stays written with rfl | rfl
      · exact ⟨rfl, .writing rfl done length prepared lingers follow⟩
      · have result_eq := finishWrite_kept lingers
        have interest_eq := s.conn.finishWrite_interest
        rcases HttpConn.finishWrite_init result_eq with ⟨b, conn_eq⟩
        rcases follow with ⟨-, -, -, follow⟩
        constructor
        · rfl
        · apply tracks_init (b := b)
          · exact conn_eq
          · dsimp only
            rw [result_eq, if_neg (by simp), if_pos interest_eq]
          · exact follow

end Steps

/-! ## Runs -/

/-- The invariant of a run. -/
structure Sound (requests : List Request) (s : Dialogue) : Prop where
  answered : List.Forall₂ Answers (requests.take s.answers.length) s.answers
  tracks : Tracks requests s

section Sound

variable {requests : List Request} {s : Dialogue} {part : List Byte}

/-- In front of a response, the bytes in the object are a part of the next request. -/
theorem Holds.kept (holds : Holds requests s part) (phase : s.phase ≠ .writing) :
    ∃ received, received.length = s.conn.readIdx ∧
      (requests.drop s.sent).flatMap Request.bytes = received ++ (s.unread ++ s.toSend) := by
  unfold sent
  rw [if_neg phase]
  exact ⟨part, holds.length.symm, holds.follow⟩

/-- When all bytes are in the object and the next request is not complete, there is no
next request. -/
theorem Holds.settled (holds : Holds requests s part) (short : Short requests s part)
    (answered : List.Forall₂ Answers (requests.take s.answers.length) s.answers)
    (unread : s.unread = []) (toSend : s.toSend = []) :
    s.answers.length = requests.length := by
  have follow := holds.follow
  rw [unread, toSend, List.append_nil, List.append_nil] at follow
  have taken := answered.length_eq
  rw [List.length_take] at taken
  rcases next_cases requests s.answers.length with ⟨none, -⟩ | ⟨r, next, behind⟩
  · have beyond := List.getElem?_eq_none_iff.mp none
    omega
  · have less := short r next
    rw [← follow, behind, List.flatMap_cons, List.length_append] at less
    omega

theorem Sound.lossless (sound : Sound requests s) : Lossless requests s := by
  cases sound.tracks with
  | reading phase b part holds short stands =>
      refine ⟨by simp [phase], sound.answered, holds.kept (by simp [phase]), ?_, ?_⟩
      · intro _ _ r next
        rw [holds.length]
        exact short r next
      · intro _ unread toSend
        exact holds.settled short sound.answered unread toSend
  | complete phase b r next holds stands =>
      exact ⟨by simp [phase], sound.answered, holds.kept (by simp [phase]), by simp [phase],
        by simp [phase]⟩
  | incomplete phase b part holds short quiet stands =>
      exact ⟨by simp [phase], sound.answered, holds.kept (by simp [phase]), by simp [phase],
        by simp [phase]⟩
  | writing phase done length prepared lingers follow =>
      rcases follow with ⟨received, length_eq, follow, -⟩
      have sent_eq : s.sent = done := by
        unfold sent
        rw [if_pos phase, length, Nat.add_sub_cancel]
      refine ⟨by simp [phase], sound.answered, ⟨received, length_eq, ?_⟩, by simp [phase],
        by simp [phase]⟩
      rw [sent_eq]
      exact follow

end Sound

theorem sound_preserved {requests : List Request}
    (keepAlive : ∀ r ∈ requests, HttpConn.KeepAlive r) :
    Preserves next (InTurn requests) (Sound requests) := by
  intro s event t sound inTurn step
  cases event with
  | arrive count =>
      cases step
      exact ⟨sound.answered, tracks_arrive count sound.tracks⟩
  | read answers room =>
      rcases read_step keepAlive sound.tracks inTurn step with ⟨same, tracks⟩
      exact ⟨same ▸ sound.answered, tracks⟩
  | process fs =>
      rcases process_step keepAlive sound.answered sound.tracks step with ⟨answered, tracks⟩
      exact ⟨answered, tracks⟩
  | write answers =>
      rcases write_step sound.tracks step with ⟨same, tracks⟩
      exact ⟨same ▸ sound.answered, tracks⟩

theorem sound_start (c : HttpConn) (sockfd : Fd) (requests : List Request) :
    Sound requests (start c sockfd requests) := by
  constructor
  · exact .nil
  · apply tracks_init (b := { c with sockfd := sockfd })
    · rfl
    · rfl
    · rfl

/-- A step is defined unless its thread stores outside of `m_read_buf`. -/
def Defined (s : Dialogue) : Event → Prop
  | .process fs => s.phase = .queued → (s.conn.processRead fs).2.StoresWithin
  | .arrive _ | .read _ _ | .write _ => True

/-- The content of each request lies inside the buffer, so that each step is defined. -/
theorem Sound.isDefined {requests : List Request} {s : Dialogue} (sound : Sound requests s)
    (keepAlive : ∀ r ∈ requests, HttpConn.KeepAlive r)
    (content : ∀ r ∈ requests, HttpConn.ContentInside r) (event : Event) : s.Defined event := by
  cases event with
  | arrive count | read answers room | write answers => trivial
  | process fs =>
      intro queued
      have fresh : ∀ b : HttpConn, b.init.StoresWithin := fun b => b.init_bounded.within
      cases sound.tracks with
      | reading phase | writing phase =>
          rw [phase] at queued
          cases queued
      | complete phase b r next holds stands =>
          have mem := List.mem_of_getElem? next
          have loops := stands _ _ _ (HttpConn.processRead_loops fs holds.ordered)
          have accepts := (keepAlive r mem).accepts b
          exact (HttpConn.accepted_inside accepts (content r mem) loops).within (fresh b)
      | incomplete phase b part holds short quiet stands =>
          rcases quiet fs with ⟨d, loops, -⟩
          have room := holds.ordered.read
          rw [holds.length] at room
          have ordered : (b.init.append part).Ordered :=
            b.init_ordered.append (by change 0 + part.length ≤ _; omega)
          rw [stands.processRead_eq holds.ordered loops]
          exact (loops.inside ordered rfl).within (fresh b)

/-- Nothing is lost in a run in which each `read` is in turn, whenever the requests
arrive; and no step of the run is undefined. -/
theorem lossless_always (c : HttpConn) (sockfd : Fd) (requests : List Request)
    (events : List Event) (keepAlive : ∀ r ∈ requests, HttpConn.KeepAlive r)
    (content : ∀ r ∈ requests, HttpConn.ContentInside r)
    (inTurn : Meets next (InTurn requests) (start c sockfd requests) events) :
    Always next Defined (Lossless requests) (start c sockfd requests) events := by
  have preserved := sound_preserved keepAlive
  have start := sound_start c sockfd requests
  apply Always.of_along
  · exact (preserved.along start inTurn).mono fun _ sound => sound.lossless
  · exact preserved.meets (fun _ event sound _ => sound.isDefined keepAlive content event) start
      inTurn

/-! ## Two requests -/

/-- A request for the page `a`. -/
def firstPage : Request where
  requestLine := ascii "GET /a HTTP/1.1"
  headers := [ascii "Connection: keep-alive"]
  body := []
  plain := by decide +kernel
  named := by decide
  length_body := by decide
  fits := by decide

/-- A request for the page `b`. -/
def secondPage : Request where
  requestLine := ascii "GET /b HTTP/1.1"
  headers := [ascii "Connection: keep-alive"]
  body := []
  plain := by decide +kernel
  named := by decide
  length_body := by decide
  fits := by decide

/-- Both requests, of one client. -/
def bothPages : List Request :=
  [firstPage, secondPage]

/-- The first request arrives in two parts, and the second one while the first is
waiting for its thread. -/
def inTurnEvents : List Event :=
  [.arrive 20, .read [.data (firstPage.bytes.take 20), .again] true, .process noFiles,
    .arrive 23, .read [.data (firstPage.bytes.drop 20), .again] true, .arrive 43, .process noFiles,
    .write [.again], .write [.taken 119],
    .read [.data secondPage.bytes, .again] true, .process noFiles, .write [.taken 119]]

theorem lossless_always_inTurn :
    (run next (start zeroConn 5 bothPages) inTurnEvents).map (fun s => s.answers.length) = some 2 ∧
      Always next Defined (Lossless bothPages) (start zeroConn 5 bothPages) inTurnEvents := by
  constructor
  · decide +kernel
  · exact lossless_always zeroConn 5 bothPages inTurnEvents (by decide +kernel) (by decide +kernel)
      (by decide +kernel)

/-- Both requests have arrived when the first one is read. -/
def togetherEvents : List Event :=
  [.arrive 86, .read [.data (firstPage.bytes ++ secondPage.bytes), .again] true,
    .process noFiles, .write [.taken 119]]

/-- The second request is discarded with the first one, and has no response. -/
theorem together_not_lossless :
    (∀ r ∈ bothPages, HttpConn.KeepAlive r ∧ HttpConn.ContentInside r) ∧
      ∃ s, run next (start zeroConn 5 bothPages) togetherEvents = some s ∧
        s.answers.length = 1 ∧ ¬ Lossless bothPages s := by
  have outcome : (run next (start zeroConn 5 bothPages) togetherEvents).map
      (fun s => (s.phase, s.unread, s.toSend, s.answers.length)) = some (.reading, [], [], 1) := by
    decide +kernel
  rcases Option.map_eq_some_iff.mp outcome with ⟨s, ran, state⟩
  simp only [Prod.mk.injEq] at state
  rcases state with ⟨phase, unread, toSend, one⟩
  refine ⟨by decide +kernel, s, ran, one, fun lossless => ?_⟩
  have both := lossless.settled phase unread toSend
  rw [one] at both
  cases both

end Dialogue

end NetPractice.Http
