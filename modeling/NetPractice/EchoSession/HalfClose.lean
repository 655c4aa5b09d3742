import NetPractice.EchoSession.Core

/-!
# The client with `select` and `shutdown`

This module embeds `str_cli` of `select/strcliselect02.c` with the server.  The client copies
its standard input to the socket, and the socket to its standard output, and sends a FIN at
the end of its input.

`Select` reports the socket and the input when the event says so, the socket only where there
is something to read: a segment on its way is not yet reported.  What `Write` puts on the
standard output is out at once.  The wrappers exit when their call fails, so that a failing
call leads to no state.
-/

namespace NetPractice.EchoSession.HalfClose

open NetPractice.Socket
open NetPractice.Text
open NetPractice.Transition

/-- The statements of the loop.  `socket` is the `Read` of the socket, behind which the input
is read too where `Select` has reported it; `writen` has the rest of the buffer. -/
inductive Pc
  | select
  | socket (input : Bool)
  | input
  | writen (buf : List Byte)
  | returned
  | quit
  deriving DecidableEq, Repr

/-- What the client has read and not yet written. -/
def Pc.hand : Pc → List Byte
  | .writen buf => buf
  | _ => []

/-- The client with its input that is not yet read, and its output. -/
structure Session where
  pc : Pc
  stdineof : Bool
  stdin : List Byte
  stdout : List Byte
  peer : Peer
  deriving DecidableEq, Repr

/-- The session in front of the first `Select`. -/
def start (stdin : List Byte) : Session where
  pc := .select
  stdineof := false
  stdin := stdin
  stdout := []
  peer := .start

/-- `client` is the next call of the client, `server` that of the server; `n` bytes are moved.
`arrived` and `ready` are what `Select` says of the socket and of the input. -/
inductive Event
  | client (arrived ready : Bool) (n : Nat)
  | server (n : Nat)
  deriving DecidableEq, Repr

variable (toServer toClient : Nat)

/-- The next call of the client. -/
def clientNext (arrived ready : Bool) (n : Nat) (s : Session) : Option Session :=
  match s.pc with
  | .select =>
      let input := ready && !s.stdineof
      if arrived ∧ s.peer.down.Readable then some { s with pc := .socket input }
      else if input then some { s with pc := .input }
      else none
  | .socket input =>
      if s.peer.down.AtEnd ∧ n = 0 then
        some { s with pc := if s.stdineof then .returned else .quit }
      else if n ≤ MAXLINE then
        (s.peer.down.read n).map fun (chunk, down) =>
          { s with
            pc := if input then .input else .select
            stdout := s.stdout ++ chunk
            peer := { s.peer with down := down } }
      else none
  | .input =>
      if s.stdin = [] ∧ n = 0 then
        some { s with
          pc := .select
          stdineof := true
          peer := { s.peer with up := s.peer.up.shut } }
      else if 0 < n ∧ n ≤ MAXLINE ∧ n ≤ s.stdin.length then
        some { s with pc := .writen (s.stdin.take n), stdin := s.stdin.drop n }
      else none
  | .writen buf =>
      (s.peer.up.write toServer n buf).map fun (rest, up) =>
        { s with
          pc := if rest = [] then .select else .writen rest
          peer := { s.peer with up := up } }
  | .returned | .quit => none

/-- `toServer` and `toClient` are the room in the two directions. -/
def next : Step Session Event
  | s, .client arrived ready n => clientNext toServer arrived ready n s
  | s, .server n => (s.peer.next toClient n).map fun peer => { s with peer := peer }

/-- Both sides write, and neither reads. -/
def Deadlocked (s : Session) : Prop :=
  (∃ buf, s.pc = .writen buf) ∧ (∃ buf, s.peer.server = .writing buf) ∧
    toServer ≤ s.peer.up.bytes.length ∧ toClient ≤ s.peer.down.bytes.length

/-- All bytes of the input, in the order in which they are printed. -/
def Session.all (s : Session) : List Byte :=
  s.stdout ++ s.peer.inFlight ++ s.pc.hand ++ s.stdin

/-! ## Steps -/

/-- What is known in front of each statement. -/
def Session.Stage (s : Session) : Prop :=
  match s.pc with
  | .select => s.stdineof = true → s.stdin = []
  | .socket input =>
      s.peer.down.Readable ∧ (input = true → s.stdineof = false) ∧
        (s.stdineof = true → s.stdin = [])
  | .input => s.stdineof = false
  | .writen buf => s.stdineof = false ∧ buf ≠ []
  | .returned => s.stdineof = true ∧ s.stdin = [] ∧ s.peer.down.AtEnd
  | .quit => False

/-- The invariant. -/
structure Inv (input : List Byte) (s : Session) : Prop where
  all : s.all = input
  sound : s.peer.Sound
  closed : s.peer.up.closed = s.stdineof
  stage : s.Stage

/-- How far the client is from its next `Select`. -/
def Pc.rank : Pc → Nat
  | .select => 2
  | .socket _ | .input | .writen _ => 1
  | .returned | .quit => 0

/-- How much is still to be done. -/
def Session.measure (s : Session) : Nat :=
  2 * (5 * s.stdin.length + 4 * s.pc.hand.length + s.peer.work) + s.pc.rank +
    (if s.stdineof then 0 else 2) + (if s.peer.server = .returned then 0 else 1)

variable {toServer toClient n : Nat} {arrived ready : Bool} {input : List Byte} {s t : Session}

theorem inv_start (input : List Byte) : Inv input (start input) where
  all := rfl
  sound := Peer.sound_start
  closed := rfl
  stage := nofun

/-- The server has come to the end only behind the FIN of the client. -/
theorem Inv.ended (inv : Inv input s) (atEnd : s.peer.down.AtEnd) :
    s.peer.server = .returned ∧ s.stdineof = true := by
  have returned := inv.sound.returned_iff.mpr atEnd.2
  exact ⟨returned, inv.closed ▸ (inv.sound.drained returned).2⟩

/-- A step of the server leaves the client as it is. -/
theorem Inv.server {peer : Peer} (inv : Inv input s) (moved : Peer.Moved toClient s.peer peer) :
    Inv input { s with peer := peer } where
  all := by
    unfold Session.all
    rw [moved.inFlight_eq]
    exact inv.all
  sound := moved.sound inv.sound
  closed := moved.closed_eq.trans inv.closed
  stage := by
    have stage := inv.stage
    have readable : s.peer.down.Readable → peer.down.Readable := by
      intro readable
      cases moved with
      | read reading got le server down => rwa [down]
      | wrote writing wrote server up =>
          refine .inl fun empty => ?_
          have length := wrote.length
          rw [empty, List.length_nil] at length
          exact absurd wrote.pos (by omega)
      | returned reading atEnd eq =>
          rw [eq]
          exact .inr rfl
    unfold Session.Stage at stage ⊢
    cases pc : s.pc with
    | socket input =>
        rw [pc] at stage
        exact ⟨readable stage.1, stage.2⟩
    | returned =>
        rw [pc] at stage
        have ended := (inv.ended stage.2.2).1
        exfalso
        cases moved with
        | read reading _ _ _ _ => exact Server.noConfusion (reading.symm.trans ended)
        | wrote writing _ _ _ => exact Server.noConfusion (writing.symm.trans ended)
        | returned reading _ _ => exact Server.noConfusion (reading.symm.trans ended)
    | select | input | writen | quit => rwa [pc] at stage

theorem measure_server {peer : Peer} (moved : Peer.Moved toClient s.peer peer) :
    { s with peer := peer : Session }.measure < s.measure := by
  unfold Session.measure
  rcases moved.work_lt with nearer | ⟨reading, returned, same⟩
  · have alive : (if peer.server = .returned then 0 else 1) ≤ 1 := by
      split <;> omega
    dsimp only
    omega
  · simp only [returned, reading, same, reduceCtorEq, if_true, if_false]
    omega

/-- What one call of the client does. -/
inductive Moved (toServer : Nat) (s t : Session) : Prop
  | selected (input : Bool) (pc : s.pc = .select) (readable : s.peer.down.Readable)
      (unread : input = true → s.stdineof = false) (eq : t = { s with pc := .socket input })
  | selectedInput (pc : s.pc = .select) (unread : s.stdineof = false)
      (eq : t = { s with pc := .input })
  | ended (input : Bool) (pc : s.pc = .socket input) (atEnd : s.peer.down.AtEnd)
      (eq : t = { s with pc := if s.stdineof then .returned else .quit })
  | received {n : Nat} (input : Bool) {chunk : List Byte} {down : Pipe} (pc : s.pc = .socket input)
      (got : Pipe.Got n s.peer.down chunk down)
      (eq : t = { s with
        pc := if input then .input else .select
        stdout := s.stdout ++ chunk
        peer := { s.peer with down := down } })
  | closed (pc : s.pc = .input) (empty : s.stdin = [])
      (eq : t = { s with
        pc := .select
        stdineof := true
        peer := { s.peer with up := s.peer.up.shut } })
  | typed {n : Nat} (pc : s.pc = .input) (pos : 0 < n) (le : n ≤ s.stdin.length)
      (eq : t = { s with pc := .writen (s.stdin.take n), stdin := s.stdin.drop n })
  | wrote {n : Nat} {buf rest : List Byte} {up : Pipe} (pc : s.pc = .writen buf)
      (wrote : Pipe.Wrote toServer n buf s.peer.up rest up)
      (eq : t = { s with
        pc := if rest = [] then .select else .writen rest
        peer := { s.peer with up := up } })

theorem moved_of_clientNext (step : clientNext toServer arrived ready n s = some t) :
    Moved toServer s t := by
  unfold clientNext at step
  split at step
  · next pc =>
      dsimp only at step
      split at step
      · next readable =>
          cases step
          refine .selected _ pc readable.2 (fun both => ?_) rfl
          simpa using (Bool.and_eq_true_iff.mp both).2
      · split at step
        · next both =>
            cases step
            exact .selectedInput pc (by simpa using (Bool.and_eq_true_iff.mp both).2) rfl
        · cases step
  · next input pc =>
      split at step
      · next ends =>
          cases step
          exact .ended input pc ends.1 rfl
      · split at step
        · rcases Option.map_eq_some_iff.mp step with ⟨⟨chunk, down⟩, taken, rfl⟩
          exact .received input pc (Pipe.got_of_read taken) rfl
        · cases step
  · next pc =>
      split at step
      · next ends =>
          cases step
          exact .closed pc ends.1 rfl
      · split at step
        · next some_read =>
            cases step
            exact .typed pc some_read.1 some_read.2.2 rfl
        · cases step
  · next buf pc =>
      rcases Option.map_eq_some_iff.mp step with ⟨⟨rest, up⟩, written, rfl⟩
      exact .wrote pc (Pipe.wrote_of_write written) rfl
  · cases step
  · cases step

theorem hand_writen_or_select (rest : List Byte) :
    (if rest = [] then Pc.select else .writen rest).hand = rest ∧
      (if rest = [] then Pc.select else .writen rest).rank ≤ 2 := by
  split
  · next empty => exact ⟨empty.symm, Nat.le_refl 2⟩
  · exact ⟨rfl, Nat.le_succ 1⟩

theorem hand_input_or_select (input : Bool) :
    (if input then Pc.input else .select).hand = [] ∧
      (if input then Pc.input else .select).rank ≤ 2 := by
  cases input <;> decide

/-- The client keeps the bytes in their order. -/
theorem Moved.all_eq (moved : Moved toServer s t) : t.all = s.all := by
  unfold Session.all Peer.inFlight
  cases moved with
  | selected input pc readable unread eq =>
      rw [eq, pc]
      rfl
  | selectedInput pc unread eq =>
      rw [eq, pc]
      rfl
  | ended input pc atEnd eq =>
      rw [eq, pc]
      cases s.stdineof <;> rfl
  | received input pc got eq =>
      rw [eq, pc]
      dsimp only
      rw [(hand_input_or_select input).1, ← got.bytes]
      simp only [Pc.hand, List.append_assoc, List.nil_append]
  | closed pc empty eq =>
      rw [eq, pc]
      rfl
  | typed pc pos le eq =>
      rw [eq, pc]
      simp only [Pc.hand, List.append_assoc, List.nil_append, List.take_append_drop]
  | wrote pc wrote eq =>
      rw [eq, pc]
      dsimp only
      rw [(hand_writen_or_select _).1]
      simp only [Pc.hand, List.append_assoc]
      rw [← List.append_assoc _ _ s.stdin, wrote.bytes, List.append_assoc]

theorem Moved.measure_lt (moved : Moved toServer s t) (sound : s.Stage) :
    t.measure < s.measure := by
  unfold Session.measure Peer.work
  unfold Session.Stage at sound
  cases moved with
  | selected input pc readable unread eq =>
      rw [eq, pc]
      simp only [Pc.hand, Pc.rank]
      omega
  | selectedInput pc unread eq =>
      rw [eq, pc]
      simp only [Pc.hand, Pc.rank]
      omega
  | ended input pc atEnd eq =>
      rw [eq, pc]
      cases s.stdineof <;> simp only [Pc.hand, Pc.rank, if_true, if_false, Bool.false_eq_true] <;>
        omega
  | received input pc got eq =>
      have rank := (hand_input_or_select input).2
      have lengths := got.length
      have pos := got.pos
      rw [eq, pc]
      dsimp only
      rw [(hand_input_or_select input).1, show (Pc.socket input).hand = [] from rfl,
        show (Pc.socket input).rank = 1 from rfl]
      omega
  | closed pc empty eq =>
      rw [pc] at sound
      have unread : s.stdineof = false := sound
      rw [eq, pc, unread]
      simp only [Pc.hand, Pc.rank, Pipe.shut, if_true, Bool.false_eq_true, if_false]
      omega
  | typed pc pos le eq =>
      rw [eq, pc]
      simp only [Pc.hand, Pc.rank, List.length_take, List.length_drop, List.length_nil]
      omega
  | @wrote _ buf rest _ pc wrote eq =>
      have rank := (hand_writen_or_select rest).2
      have lengths := wrote.length
      have left := wrote.rest_length
      have pos := wrote.pos
      rw [eq, pc]
      dsimp only
      rw [(hand_writen_or_select rest).1, show (Pc.writen buf).hand = buf from rfl,
        show (Pc.writen buf).rank = 1 from rfl]
      omega

/-- The client leaves the server as it is. -/
theorem Moved.sound (moved : Moved toServer s t) (sound : s.peer.Sound) : t.peer.Sound := by
  rcases sound with ⟨hand, returned, drained⟩
  cases moved with
  | selected input pc readable unread eq => rw [eq]; exact ⟨hand, returned, drained⟩
  | selectedInput pc unread eq => rw [eq]; exact ⟨hand, returned, drained⟩
  | ended input pc atEnd eq => rw [eq]; exact ⟨hand, returned, drained⟩
  | received input pc got eq =>
      rw [eq]
      exact ⟨hand, by rw [got.closed]; exact returned, drained⟩
  | closed pc empty eq =>
      rw [eq]
      exact ⟨hand, returned, fun finished => ⟨(drained finished).1, rfl⟩⟩
  | typed pc pos le eq => rw [eq]; exact ⟨hand, returned, drained⟩
  | wrote pc wrote eq =>
      rw [eq]
      refine ⟨hand, returned, fun finished => ?_⟩
      exact absurd ((drained finished).2.symm.trans wrote.opened) (by decide)

theorem Moved.inv (inv : Inv input s) (moved : Moved toServer s t) : Inv input t where
  all := moved.all_eq.trans inv.all
  sound := moved.sound inv.sound
  closed := by
    have closed := inv.closed
    cases moved with
    | selected input pc readable unread eq => rw [eq]; exact closed
    | selectedInput pc unread eq => rw [eq]; exact closed
    | ended input pc atEnd eq => rw [eq]; exact closed
    | received input pc got eq => rw [eq]; exact closed
    | closed pc empty eq => rw [eq]; rfl
    | typed pc pos le eq => rw [eq]; exact closed
    | wrote pc wrote eq => rw [eq]; exact wrote.closed.trans closed
  stage := by
    have stage := inv.stage
    unfold Session.Stage at stage
    cases moved with
    | selected input pc readable unread eq =>
        rw [pc] at stage
        rw [eq]
        exact ⟨readable, unread, stage⟩
    | selectedInput pc unread eq =>
        rw [eq]
        exact unread
    | ended input pc atEnd eq =>
        rw [pc] at stage
        have eof := (inv.ended atEnd).2
        rw [eq, if_pos eof]
        exact ⟨eof, stage.2.2 eof, atEnd⟩
    | received input pc got eq =>
        rw [pc] at stage
        rw [eq]
        cases input with
        | true => exact stage.2.1 rfl
        | false => exact stage.2.2
    | closed pc empty eq =>
        rw [eq]
        exact fun _ => empty
    | typed pc pos le eq =>
        rw [pc] at stage
        rw [eq]
        refine ⟨stage, fun nothing => ?_⟩
        have length := List.length_take_of_le le
        rw [nothing, List.length_nil] at length
        exact pos.ne length
    | @wrote _ buf rest _ pc wrote eq =>
        rw [pc] at stage
        rw [eq]
        by_cases nothing : rest = []
        · rw [if_pos nothing]
          intro eof
          exact absurd (stage.1.symm.trans eof) (by decide)
        · rw [if_neg nothing]
          exact ⟨stage.1, nothing⟩

/-- Every step keeps the invariant, and leaves less to be done. -/
theorem lowers (input : List Byte) :
    Lowers (next toServer toClient) (Inv input) Session.measure := by
  intro s event t inv step
  cases event with
  | client arrived ready n =>
      have moved := moved_of_clientNext step
      exact ⟨moved.inv inv, moved.measure_lt inv.stage⟩
  | server n =>
      rcases Option.map_eq_some_iff.mp step with ⟨peer, moves, rfl⟩
      have moved := Peer.moved_of_next moves
      exact ⟨inv.server moved, measure_server moved⟩

/-! ## Where the session stops -/

/-- The client can move unless it has returned, waits for the server, or finds no room. -/
theorem clientNext_eq_none_iff (inv : Inv input s) :
    (∀ arrived ready n, clientNext toServer arrived ready n s = none) ↔
      s.pc = .returned ∨
        s.pc = .select ∧ s.stdineof = true ∧ ¬ s.peer.down.Readable ∨
        (∃ buf, s.pc = .writen buf) ∧ toServer ≤ s.peer.up.bytes.length := by
  have stage := inv.stage
  unfold Session.Stage at stage
  constructor
  · intro halted
    cases pc : s.pc with
    | returned => exact .inl rfl
    | quit =>
        rw [pc] at stage
        exact stage.elim
    | select =>
        have moves := halted true true 0
        unfold clientNext at moves
        rw [pc] at moves
        simp only [Bool.true_and, true_and] at moves
        split_ifs at moves with readable unread
        exact .inr (.inl ⟨rfl, by simpa using unread, readable⟩)
    | socket input =>
        rw [pc] at stage
        by_cases nonempty : s.peer.down.bytes = []
        · have atEnd : s.peer.down.AtEnd :=
            ⟨nonempty, stage.1.resolve_left (not_not.mpr nonempty)⟩
          have moves := halted true true 0
          simp [clientNext, pc, atEnd] at moves
        · rcases Pipe.exists_read nonempty with ⟨out, taken⟩
          have moves := halted true true 1
          simp [clientNext, pc, taken, MAXLINE] at moves
    | input =>
        by_cases nonempty : s.stdin = []
        · have moves := halted true true 0
          simp [clientNext, pc, nonempty] at moves
        · have moves := halted true true 1
          have pos := List.length_pos_iff.mpr nonempty
          simp [clientNext, pc, nonempty, MAXLINE] at moves
    | writen buf =>
        refine .inr (.inr ⟨⟨buf, rfl⟩, ?_⟩)
        rw [pc] at stage
        by_contra notFull
        have opened : s.peer.up.closed = false := inv.closed.trans stage.1
        rcases Pipe.exists_write stage.2 opened (by omega : _ < toServer) with ⟨out, written⟩
        have moves := halted true true 1
        simp [clientNext, pc, written] at moves
  · rintro (returned | ⟨pc, eof, blocked⟩ | ⟨⟨buf, pc⟩, full⟩) arrived ready n
    · rw [clientNext, returned]
    · rw [clientNext, pc]
      simp [blocked, eof]
    · rw [clientNext, pc]
      simp [Pipe.write_eq_none_of_full full]

/-- Nothing moves any more just when the client has returned, or both sides write. -/
theorem halted_iff (inv : Inv input s) (up : 0 < toServer) (down : 0 < toClient) :
    Halted (next toServer toClient) s ↔ s.pc = .returned ∨ Deadlocked toServer toClient s := by
  have stage := inv.stage
  unfold Session.Stage at stage
  have split : Halted (next toServer toClient) s ↔
      (∀ arrived ready n, clientNext toServer arrived ready n s = none) ∧
        ∀ n, s.peer.next toClient n = none := by
    constructor
    · intro halted
      exact ⟨fun arrived ready n => halted (.client arrived ready n),
        fun n => Option.map_eq_none_iff.mp (halted (.server n))⟩
    · rintro ⟨client, server⟩ (⟨arrived, ready, n⟩ | n)
      · exact client arrived ready n
      · exact Option.map_eq_none_iff.mpr (server n)
  rw [split, clientNext_eq_none_iff inv, Peer.next_eq_none_iff inv.sound]
  constructor
  · rintro ⟨returned | ⟨pc, eof, blocked⟩ | ⟨writes, fullUp⟩, server⟩
    · exact .inl returned
    · -- the client has sent its FIN, and the server is not yet through
      exfalso
      have shut : s.peer.up.closed = true := inv.closed.trans eof
      rcases server with returned | ⟨reading, waits⟩ | ⟨writing, fullDown⟩
      · exact blocked (.inr (inv.sound.returned_iff.mp returned))
      · exact waits (.inr shut)
      · refine blocked (.inl fun empty => ?_)
        rw [empty, List.length_nil] at fullDown
        exact absurd down (by omega)
    · rcases server with returned | ⟨reading, waits⟩ | ⟨writing, fullDown⟩
      · rcases writes with ⟨buf, pc⟩
        rw [pc] at stage
        have shut := (inv.sound.drained returned).2
        rw [inv.closed, stage.1] at shut
        exact absurd shut (by decide)
      · refine absurd (.inl fun empty => ?_) waits
        rw [empty, List.length_nil] at fullUp
        exact absurd up (by omega)
      · exact .inr ⟨writes, writing, fullUp, fullDown⟩
  · rintro (returned | ⟨writes, writing, fullUp, fullDown⟩)
    · rw [returned] at stage
      exact ⟨.inl returned, .inl (inv.ended stage.2.2).1⟩
    · exact ⟨.inr (.inr ⟨writes, fullUp⟩), .inr (.inr ⟨writing, fullDown⟩)⟩

/-- What a session does, in any order of the calls: the bytes come back in their order, the
server is never taken for one that has gone away, every call is one of a bounded number, and
the session stops only where the client has printed all of its input, or where both sides
write into full buffers.  That takes more input than fits into them. -/
theorem echoed {events : List Event} (up : 0 < toServer) (down : 0 < toClient)
    (finished : run (next toServer toClient) (start input) events = some s) :
    s.stdout ++ s.peer.inFlight ++ s.pc.hand ++ s.stdin = input ∧ s.pc ≠ .quit ∧
      events.length ≤ 10 * input.length + 5 ∧
      (Halted (next toServer toClient) s ↔
        s.pc = .returned ∨ Deadlocked toServer toClient s) ∧
      (s.pc = .returned → s.stdout = input) ∧
      (Deadlocked toServer toClient s → toServer + toClient + 2 ≤ input.length) := by
  have inv : Inv input s :=
    invariant_run (fun _ _ _ inv step => (lowers input inv step).1) (inv_start input) finished
  have bound := (lowers input).length_le (inv_start input) finished
  have stage := inv.stage
  unfold Session.Stage at stage
  refine ⟨inv.all, ?_, ?_, halted_iff inv up down, ?_, ?_⟩
  · intro quit
    rw [quit] at stage
    exact stage
  · have first : (start input).measure = 10 * input.length + 5 := by
      unfold Session.measure Peer.work
      simp only [start, Pc.hand, Pc.rank, Peer.start, Pipe.empty, Server.hand, List.length_nil,
        Bool.false_eq_true, if_false, reduceCtorEq]
      omega
    omega
  · intro returned
    rw [returned] at stage
    have server := (inv.ended stage.2.2).1
    have drained := (inv.sound.drained server).1
    have all := inv.all
    unfold Session.all Peer.inFlight at all
    rw [returned, stage.2.1, stage.2.2.1, server, drained] at all
    simpa only [Pc.hand, Server.hand, List.append_nil] using all
  · rintro ⟨⟨buf, pc⟩, ⟨sent, writing⟩, fullUp, fullDown⟩
    rw [pc] at stage
    have mine := List.length_pos_iff.mpr stage.2
    have its := List.length_pos_iff.mpr (inv.sound.hand_ne_nil sent writing)
    have all := congrArg List.length inv.all
    unfold Session.all Peer.inFlight at all
    rw [pc, writing] at all
    simp only [Pc.hand, Server.hand, List.length_append] at all
    omega

/-- Four bytes, with room for one in each direction. -/
theorem echoed_full :
    ∃ s, run (next 1 1) (start [1, 2, 3, 4])
        [.client false true 0, .client false false 4, .client false false 1, .server 1, .server 1,
          .client false false 1, .server 1, .client false false 1] = some s ∧
      s.stdout ++ s.peer.inFlight ++ s.pc.hand ++ s.stdin = [1, 2, 3, 4] ∧
      Halted (next 1 1) s := by
  have stuck : (run (next 1 1) (start [1, 2, 3, 4])
      [.client false true 0, .client false false 4, .client false false 1, .server 1, .server 1,
        .client false false 1, .server 1, .client false false 1]).map (fun s => (s.pc, s.peer)) =
      some (.writen [4], ⟨.writing [2], ⟨[3], false⟩, ⟨[1], false⟩⟩) := by decide
  rcases Option.map_eq_some_iff.mp stuck with ⟨s, finished, eq⟩
  have facts := echoed Nat.one_pos Nat.one_pos finished
  have pc : s.pc = .writen [4] := congrArg Prod.fst eq
  have peer : s.peer = ⟨.writing [2], ⟨[3], false⟩, ⟨[1], false⟩⟩ := congrArg Prod.snd eq
  refine ⟨s, finished, facts.1, facts.2.2.2.1.mpr (.inr ⟨⟨_, pc⟩, ⟨[2], ?_⟩, ?_, ?_⟩)⟩
  · rw [peer]
  · rw [peer]; exact Nat.le_refl 1
  · rw [peer]; exact Nat.le_refl 1

end NetPractice.EchoSession.HalfClose
