import NetPractice.Socket.Pipe
import NetPractice.Transition.Reachable

/-!
# The echo server and a connection to it

`str_echo` of `lib/str_echo.c` reads what the client has sent, and writes it back, until the
client has sent its FIN; the connection is closed when it returns.  This module embeds it with
the two directions of its connection.  A step is one call of `read` or `write`, with the number
of bytes that it moves; each direction has room for some bytes, so that `Writen` can block.
-/

namespace NetPractice.EchoSession

open NetPractice.Socket
open NetPractice.Text
open NetPractice.Transition

/-- The size of the buffers of client and server. -/
def MAXLINE : Nat := 4096

/-- `str_echo`, in front of `read`, or in `Writen` with the rest of its buffer. -/
inductive Server where
  | reading
  | writing (buf : List Byte)
  | returned
  deriving DecidableEq, Repr

/-- The statement of `str_echo` behind one that leaves this to be written. -/
def Server.goOn (buf : List Byte) : Server :=
  if buf = [] then .reading else .writing buf

/-- What the server has read and not yet written. -/
def Server.hand : Server → List Byte
  | .reading => []
  | .writing buf => buf
  | .returned => []

/-- The server with its connection: `up` is from the client to the server. -/
structure Peer where
  server : Server
  up : Pipe
  down : Pipe
  deriving DecidableEq, Repr

namespace Peer

/-- A connection that has just been accepted. -/
def start : Peer where
  server := .reading
  up := .empty
  down := .empty

/-- The next call of `str_echo`; `n` is 0 where `read` returns 0. -/
def next (size n : Nat) (p : Peer) : Option Peer :=
  match p.server with
  | .reading =>
      if p.up.AtEnd ∧ n = 0 then some { p with server := .returned, down := p.down.shut }
      else if n ≤ MAXLINE then
        (p.up.read n).map fun (chunk, up) => { p with server := .writing chunk, up := up }
      else none
  | .writing buf =>
      (p.down.write size n buf).map fun (rest, down) =>
        { p with server := .goOn rest, down := down }
  | .returned => none

/-- The bytes that are on their way back to the client, in order. -/
def inFlight (p : Peer) : List Byte :=
  p.down.bytes ++ p.server.hand ++ p.up.bytes

/-- The server has something to write while it writes, and returns behind the last byte. -/
structure Sound (p : Peer) : Prop where
  hand_ne_nil : ∀ buf, p.server = .writing buf → buf ≠ []
  returned_iff : p.server = .returned ↔ p.down.closed = true
  drained : p.server = .returned → p.up.AtEnd

/-- How far the bytes are from the client. -/
def work (p : Peer) : Nat :=
  3 * p.up.bytes.length + 2 * p.server.hand.length + p.down.bytes.length

variable {size n : Nat} {p q : Peer}

@[simp]
theorem hand_goOn (buf : List Byte) : (Server.goOn buf).hand = buf := by
  unfold Server.goOn
  split
  · next empty => exact empty.symm
  · rfl

theorem goOn_ne_returned (buf : List Byte) : Server.goOn buf ≠ .returned := by
  unfold Server.goOn
  split <;> exact Server.noConfusion

theorem ne_nil_of_goOn {buf rest : List Byte} (eq : Server.goOn rest = .writing buf) :
    buf ≠ [] := by
  unfold Server.goOn at eq
  split at eq
  · cases eq
  · next nonempty =>
      cases eq
      exact nonempty

theorem sound_start : start.Sound where
  hand_ne_nil := nofun
  returned_iff := by simp [start, Pipe.empty]
  drained := nofun

/-- What one step of the server does. -/
inductive Moved (size : Nat) (p q : Peer) : Prop
  | read {n : Nat} {chunk : List Byte} (reading : p.server = .reading)
      (got : Pipe.Got n p.up chunk q.up) (le : n ≤ MAXLINE) (server : q.server = .writing chunk)
      (down : q.down = p.down)
  | wrote {n : Nat} {buf rest : List Byte} (writing : p.server = .writing buf)
      (wrote : Pipe.Wrote size n buf p.down rest q.down) (server : q.server = .goOn rest)
      (up : q.up = p.up)
  | returned (reading : p.server = .reading) (atEnd : p.up.AtEnd)
      (peer : q = { p with server := .returned, down := p.down.shut })

theorem moved_of_next (step : p.next size n = some q) : Moved size p q := by
  unfold next at step
  split at step
  · next reading =>
      split at step
      · next ends =>
          cases step
          exact .returned reading ends.1 rfl
      · split at step
        · next le =>
            rcases Option.map_eq_some_iff.mp step with ⟨⟨chunk, up⟩, taken, rfl⟩
            exact .read reading (Pipe.got_of_read taken) le rfl rfl
        · cases step
  · next buf writing =>
      rcases Option.map_eq_some_iff.mp step with ⟨⟨rest, down⟩, written, rfl⟩
      exact .wrote writing (Pipe.wrote_of_write written) rfl rfl
  · cases step

theorem Moved.sound (sound : p.Sound) (moved : Moved size p q) : q.Sound := by
  cases moved with
  | read reading got le server down =>
      constructor
      · intro buf eq
        cases server.symm.trans eq
        exact got.ne_nil
      · rw [server, down, ← sound.returned_iff, reading]
        exact iff_of_false Server.noConfusion Server.noConfusion
      · intro eq
        cases server.symm.trans eq
  | wrote writing wrote server up =>
      constructor
      · intro buf eq
        exact ne_nil_of_goOn (server.symm.trans eq)
      · rw [server, wrote.closed, wrote.opened]
        exact iff_of_false (goOn_ne_returned _) Bool.false_ne_true
      · intro eq
        exact absurd (server.symm.trans eq) (goOn_ne_returned _)
  | returned reading atEnd peer =>
      cases peer
      exact ⟨nofun, iff_of_true rfl rfl, fun _ => atEnd⟩

/-- The server does not touch the FIN of the client. -/
theorem Moved.closed_eq (moved : Moved size p q) : q.up.closed = p.up.closed := by
  cases moved with
  | read reading got le server down => exact got.closed
  | wrote writing wrote server up => exact congrArg Pipe.closed up
  | returned reading atEnd peer => exact congrArg (·.up.closed) peer

/-- The server keeps the bytes in their order. -/
theorem Moved.inFlight_eq (moved : Moved size p q) : q.inFlight = p.inFlight := by
  unfold inFlight
  cases moved with
  | read reading got le server down =>
      rw [server, down, reading, ← got.bytes, Server.hand, Server.hand, List.append_nil,
        List.append_assoc]
  | wrote writing wrote server up =>
      rw [server, up, writing, hand_goOn, wrote.bytes, Server.hand]
  | returned reading atEnd peer =>
      rw [peer, reading]
      rfl

/-- A step brings some bytes nearer to the client, or is the last one. -/
theorem Moved.work_lt (moved : Moved size p q) :
    q.work < p.work ∨ p.server = .reading ∧ q.server = .returned ∧ q.work = p.work := by
  unfold work
  cases moved with
  | read reading got le server down =>
      have lengths := got.length
      have pos := got.pos
      have chunk := got.chunk_length
      rw [server, down, reading, Server.hand, Server.hand, chunk, List.length_nil]
      exact .inl (by omega)
  | wrote writing wrote server up =>
      have lengths := wrote.length
      have pos := wrote.pos
      have rest := wrote.rest_length
      rw [server, up, writing, hand_goOn, Server.hand]
      exact .inl (by omega)
  | returned reading atEnd peer =>
      rw [peer, reading]
      exact .inr ⟨rfl, rfl, rfl⟩

/-- The server can move unless it waits for the client. -/
theorem next_eq_none_iff (sound : p.Sound) :
    (∀ n, p.next size n = none) ↔
      p.server = .returned ∨ p.server = .reading ∧ ¬ p.up.Readable ∨
        (∃ buf, p.server = .writing buf) ∧ size ≤ p.down.bytes.length := by
  constructor
  · intro halted
    cases server : p.server with
    | returned => exact .inl rfl
    | reading =>
        refine .inr (.inl ⟨rfl, ?_⟩)
        rintro (nonempty | closed)
        · rcases Pipe.exists_read nonempty with ⟨out, taken⟩
          have moves := halted 1
          rw [next, server] at moves
          simp [taken, MAXLINE] at moves
        · by_cases nonempty : p.up.bytes = []
          · have moves := halted 0
            rw [next, server] at moves
            simp [Pipe.AtEnd, nonempty, closed] at moves
          · rcases Pipe.exists_read nonempty with ⟨out, taken⟩
            have moves := halted 1
            rw [next, server] at moves
            simp [taken, MAXLINE] at moves
    | writing buf =>
        refine .inr (.inr ⟨⟨buf, rfl⟩, ?_⟩)
        by_contra notFull
        have opened : p.down.closed = false := by
          rw [← Bool.not_eq_true, ← sound.returned_iff, server]
          exact Server.noConfusion
        rcases Pipe.exists_write (sound.hand_ne_nil buf server) opened (by omega : _ < size) with
          ⟨out, written⟩
        have moves := halted 1
        rw [next, server] at moves
        simp [written] at moves
  · rintro (returned | ⟨reading, blocked⟩ | ⟨⟨buf, writing⟩, full⟩) n
    · rw [next, returned]
    · have empty : p.up.bytes = [] := not_not.mp fun nonempty => blocked (.inl nonempty)
      have notAtEnd : ¬ p.up.AtEnd := fun atEnd => blocked (.inr atEnd.2)
      rw [next, reading]
      simp [notAtEnd, Pipe.read_eq_none_of_nil empty]
    · rw [next, writing]
      simp [Pipe.write_eq_none_of_full full]

end Peer

end NetPractice.EchoSession
