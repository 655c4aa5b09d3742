import NetPractice.EchoSession.Lines

/-!
# The clients that read and write at the same time

This module embeds `str_cli` of `nonblock/strclifork.c`, `threads/strclithread.c` and
`threads/strclithread2.c` with the server.  One process or thread copies the input to the
socket and sends a FIN, and another one copies the socket to the output, so that neither
waits for the other.  The three clients differ in what they do at the two ends of file.

A step of the reading side is one `read`, or one byte that `my_read` returns from its buffer.
The wrappers exit when their call fails.  When `str_cli` returns or calls `err_quit`, the
process ends with both threads.
-/

namespace NetPractice.EchoSession.Concurrent

open NetPractice.EchoSession.Lines (fgets lines)
open NetPractice.LineReader (newline)
open NetPractice.Socket
open NetPractice.Text
open NetPractice.Transition

/-- The three source files. -/
inductive Client
  | strclifork
  | strclithread
  | strclithread2
  deriving DecidableEq, Repr

/-- The parent, or the thread `copyto`.  `writen` has the rest of the line, and `setDone` is
the assignment `done = 1`. -/
inductive Sender
  | fgets
  | writen (buf : List Byte)
  | shutdown
  | pause
  | setDone
  | ended
  deriving DecidableEq, Repr

/-- The child, or the thread of `main`.  `readline` has what `Readline` has stored, and
`testDone` is the test of `done`. -/
inductive Receiver
  | readline (stored : List Byte)
  | kill
  | testDone
  | ended
  | quit
  deriving DecidableEq, Repr

/-- What the sender does behind `Shutdown`. -/
def Client.behindShutdown : Client → Sender
  | .strclifork => .pause
  | .strclithread => .ended
  | .strclithread2 => .setDone

/-- What the receiver does when `Readline` has returned 0. -/
def Client.behindEof : Client → Receiver
  | .strclifork => .kill
  | .strclithread => .ended
  | .strclithread2 => .testDone

/-- `Writen` of a string; without any bytes it makes no call. -/
def Sender.send (buf : List Byte) : Sender :=
  if buf = [] then .fgets else .writen buf

/-- Both parts of the client with the input that is not yet read, the output and the server. -/
structure Session where
  sender : Sender
  receiver : Receiver
  done : Bool
  readBuf : List Byte
  stdin : List Byte
  stdout : List Byte
  peer : Peer
  deriving DecidableEq, Repr

/-- The session in front of the first call. -/
def start (stdin : List Byte) : Session where
  sender := .fgets
  receiver := .readline []
  done := false
  readBuf := []
  stdin := stdin
  stdout := []
  peer := .start

/-- The next step of the sender, of the receiver or of the server; `n` bytes are moved. -/
inductive Event
  | sender (n : Nat)
  | receiver (n : Nat)
  | server (n : Nat)
  deriving DecidableEq, Repr

/-- The process has ended, or both of them. -/
def Receiver.Over : Receiver → Prop
  | .ended | .quit => True
  | _ => False

instance (receiver : Receiver) : Decidable receiver.Over := by
  cases receiver <;> first | exact isTrue trivial | exact isFalse not_false

variable (client : Client) (toServer toClient : Nat)

/-- The next step of the sender. -/
def senderNext (n : Nat) (s : Session) : Option Session :=
  match s.sender with
  | .fgets =>
      if s.stdin = [] then some { s with sender := .shutdown }
      else
        let sendline := fgets s.stdin
        some { s with sender := .send (cstr sendline), stdin := s.stdin.drop sendline.length }
  | .writen buf =>
      (s.peer.up.write toServer n buf).map fun (rest, up) =>
        { s with sender := .send rest, peer := { s.peer with up := up } }
  | .shutdown =>
      some { s with
        sender := client.behindShutdown
        peer := { s.peer with up := s.peer.up.shut } }
  | .pause => none
  | .setDone => some { s with sender := .ended, done := true }
  | .ended => none

/-- The next step of the receiver.  SIGTERM ends the parent, whatever it does. -/
def receiverNext (n : Nat) (s : Session) : Option Session :=
  match s.receiver with
  | .readline stored =>
      match s.readBuf with
      | c :: readBuf =>
          let stored := stored ++ [c]
          if c = newline ∨ stored.length = MAXLINE - 1 then
            some { s with
              receiver := .readline []
              readBuf := readBuf
              stdout := s.stdout ++ cstr stored }
          else some { s with receiver := .readline stored, readBuf := readBuf }
      | [] =>
          if s.peer.down.AtEnd ∧ n = 0 then
            if stored = [] then some { s with receiver := client.behindEof }
            else some { s with receiver := .readline [], stdout := s.stdout ++ cstr stored }
          else if n ≤ MAXLINE then
            (s.peer.down.read n).map fun (chunk, down) =>
              { s with readBuf := chunk, peer := { s.peer with down := down } }
          else none
  | .kill => some { s with receiver := .ended, sender := .ended }
  | .testDone => some { s with receiver := if s.done then .ended else .quit }
  | .ended | .quit => none

/-- `toServer` and `toClient` are the room in the two directions. -/
def next : Step Session Event
  | s, .sender n => if s.receiver.Over then none else senderNext client toServer n s
  | s, .receiver n => receiverNext client n s
  | s, .server n => (s.peer.next toClient n).map fun peer => { s with peer := peer }

/-- What comes back of an input: of each line, what is in front of its first NUL. -/
def echo (stdin : List Byte) : List Byte :=
  ((lines stdin).map cstr).flatten

/-- What the sender has taken from its input and not yet written. -/
def Sender.hand : Sender → List Byte
  | .writen buf => buf
  | _ => []

/-- What the receiver has stored and not yet printed. -/
def Receiver.hand : Receiver → List Byte
  | .readline stored => stored
  | _ => []

/-- All bytes that are printed in the end, in their order. -/
def Session.all (s : Session) : List Byte :=
  s.stdout ++ s.receiver.hand ++ s.readBuf ++ s.peer.inFlight ++ s.sender.hand ++ echo s.stdin

/-- The sender has sent its FIN. -/
def Sender.Finished : Sender → Prop
  | .pause | .setDone | .ended => True
  | _ => False

/-- What the three clients do differently, while they run. -/
def Session.Fits (s : Session) : Client → Prop
  | .strclifork =>
      s.receiver ≠ .testDone ∧ s.receiver ≠ .quit ∧ s.sender ≠ .setDone ∧
        (s.sender = .ended ↔ s.receiver = .ended)
  | .strclithread =>
      s.receiver ≠ .kill ∧ s.receiver ≠ .testDone ∧ s.receiver ≠ .quit ∧ s.sender ≠ .pause ∧
        s.sender ≠ .setDone
  | .strclithread2 =>
      s.receiver ≠ .kill ∧ s.sender ≠ .pause ∧ (s.done = true ↔ s.sender = .ended) ∧
        (s.receiver = .quit → s.done = false) ∧ (s.receiver = .ended → s.done = true)

/-- The invariant. -/
structure Inv (client : Client) (input : List Byte) (s : Session) : Prop where
  sound : s.peer.Sound
  all : s.all = echo input
  hand_ne_nil : ∀ buf, s.sender = .writen buf → buf ≠ []
  closed_iff : s.peer.up.closed = true ↔ s.sender.Finished
  drained : s.sender = .shutdown ∨ s.sender.Finished → s.stdin = []
  atEnd : (∀ stored, s.receiver ≠ .readline stored) → s.readBuf = [] ∧ s.peer.down.AtEnd
  fits : s.Fits client

/-- How far the sender is from its end. -/
def Sender.rank : Sender → Nat
  | .fgets | .writen _ => 3
  | .shutdown => 2
  | .pause | .setDone => 1
  | .ended => 0

/-- How far the receiver is from its end. -/
def Receiver.rank : Receiver → Nat
  | .readline stored => if stored = [] then 2 else 3
  | .kill | .testDone => 1
  | .ended | .quit => 0

/-- How much is still to be done. -/
def Session.measure (s : Session) : Nat :=
  2 * (6 * s.stdin.length + 5 * s.sender.hand.length + (s.peer.work + s.peer.inFlight.length) +
    s.readBuf.length) + s.sender.rank + s.receiver.rank +
    (if s.peer.server = .returned then 0 else 1)

variable {client : Client} {toServer toClient n : Nat} {input : List Byte} {s t : Session}

/-! ## The input -/

theorem echo_nil : echo [] = [] := by
  rw [echo, Lines.lines_nil, List.map_nil, List.flatten_nil]

theorem echo_of_ne_nil {stdin : List Byte} (more : stdin ≠ []) :
    echo stdin = cstr (fgets stdin) ++ echo (stdin.drop (fgets stdin).length) := by
  rw [echo, Lines.lines_of_ne_nil more, List.map_cons, List.flatten_cons, echo]

theorem zero_notMem_echo (stdin : List Byte) : 0 ∉ echo stdin := by
  intro member
  rcases List.mem_flatten.mp member with ⟨_, of, inside⟩
  rcases List.mem_map.mp of with ⟨line, _, rfl⟩
  exact zero_notMem_cstr line inside

/-- Text comes back as it is. -/
theorem echo_of_notMem {stdin : List Byte} (noNul : 0 ∉ stdin) : echo stdin = stdin := by
  have same : ∀ line ∈ lines stdin, cstr line = line := by
    intro line member
    apply cstr_of_notMem
    intro inside
    apply noNul
    rw [← Lines.flatten_lines stdin]
    exact List.mem_flatten_of_mem member inside
  rw [echo, List.map_congr_left same, List.map_id', Lines.flatten_lines]

end NetPractice.EchoSession.Concurrent
