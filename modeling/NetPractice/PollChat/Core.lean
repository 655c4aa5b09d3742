import NetPractice.Socket.Core
import NetPractice.Transition.Core
import Mathlib.Logic.Function.Basic

/-!
# The poll-based chat room

This module embeds the main loop of `ch9_IO_multiplexing/code_9_7.cpp`.  The
program polls the listening socket and its clients, and then handles one table
entry after the other; the answers of `accept`, `recv` and `send` come with the
event that handles the entry.  A `poll` event may report whatever the kernel can
report: requested conditions, and `POLLERR`, `POLLHUP` and `POLLNVAL` always.

`write_buf` points at the receive buffer of some `users` element and is modelled
by that element's index.  The clients' addresses are stored and never read, and
are left out.  A failing `poll` ends the program.
-/

namespace NetPractice.PollChat

open NetPractice.Text
open NetPractice.Socket

/-- The most clients. -/
def USER_LIMIT : Nat := 5

/-- The size of a client's buffer. -/
def BUFFER_SIZE : Nat := 64

/-- The `short` members of `struct pollfd`. -/
abbrev Mask := BitVec 16

/-- There is something to read. -/
def POLLIN : Mask := 0x0001#16

/-- There is room to write. -/
def POLLOUT : Mask := 0x0004#16

/-- An error has occurred. -/
def POLLERR : Mask := 0x0008#16

/-- The connection is gone. -/
def POLLHUP : Mask := 0x0010#16

/-- The descriptor is not open. -/
def POLLNVAL : Mask := 0x0020#16

/-- The other side has closed its half. -/
def POLLRDHUP : Mask := 0x2000#16

/-- The test `mask & flag` of a single flag. -/
def has (mask flag : Mask) : Prop :=
  mask &&& flag ≠ 0#16

instance (mask flag : Mask) : Decidable (has mask flag) :=
  inferInstanceAs (Decidable (¬ _ = _))

/-- A report within some conditions does not contain a flag outside of them. -/
theorem not_has_of_within {mask within flag : Mask} (report : mask &&& ~~~within = 0#16)
    (outside : flag &&& ~~~within = flag) : ¬ has mask flag := by
  rw [has, not_not]
  calc
    mask &&& flag = mask &&& (flag &&& ~~~within) := by rw [outside]
    _ = (mask &&& ~~~within) &&& flag := by
      rw [BitVec.and_assoc, BitVec.and_comm flag]
    _ = 0#16 := by rw [report, BitVec.zero_and]

/-- Adding flags keeps those that were there. -/
theorem has_or_of_has {mask flag : Mask} (holds : has mask flag) (other : Mask) :
    has (mask ||| other) flag := by
  intro none
  apply holds
  ext bit bound
  have orBit := congrArg (fun mask : Mask => mask[bit]) none
  simp only [BitVec.getElem_and, BitVec.getElem_or, BitVec.getElem_zero] at orBit ⊢
  revert orBit
  generalize mask[bit] = a, other[bit] = b, flag[bit] = c
  revert a b c
  decide

/-- Adding a flag sets it. -/
theorem has_or_self (mask : Mask) {flag : Mask} (nonzero : flag ≠ 0#16) :
    has (mask ||| flag) flag := by
  have absorb : (mask ||| flag) &&& flag = flag := by
    ext bit bound
    simp only [BitVec.getElem_and, BitVec.getElem_or]
    cases flag[bit] <;> simp
  rwa [has, absorb]

/-- `struct pollfd`. -/
structure PollFd where
  fd : Fd
  events : Mask
  revents : Mask
  deriving DecidableEq, Repr

/-- `client_data`. -/
structure ClientData where
  writeBuf : Option Fd
  buf : List Byte
  deriving DecidableEq, Repr

/-- The variables of `main`, and what the kernel keeps for them: the client
descriptors that are open, and the payloads that each of them accepted since it
was opened.  `i` is the index of the `for` loop; the loop is over when it has
passed `userCounter`. -/
structure Server where
  listenfd : Fd
  fds : Nat → PollFd
  users : Fd → ClientData
  userCounter : Nat
  i : Nat
  opened : Fd → Bool
  wire : Fd → List (List Byte)

namespace Server

/-- The state in front of the first `poll`.  `users` is allocated without
being initialised. -/
def initial (listenfd : Fd) (users : Fd → ClientData) : Server where
  listenfd := listenfd
  fds k := if k = 0 then ⟨listenfd, POLLIN ||| POLLERR, 0⟩ else ⟨-1, 0, 0⟩
  users := users
  userCounter := 0
  i := 1
  opened := fun _ => false
  wire := fun _ => []

end Server

/-- The system calls' answers while one entry is handled: the descriptor that
`accept` returns, what `recv` returns, and how many bytes `send` takes. -/
structure Sys where
  accept : Option Fd
  recv : Recv
  send : Option Nat

/-- The branch of the `if` chain that handles an entry. -/
inductive Branch where
  | accept | error | hangup | readable | writable | idle
  deriving DecidableEq, Repr

/-- The conditions that `poll` reports unasked. -/
def unasked : Mask := POLLERR ||| POLLHUP ||| POLLNVAL

namespace Server

/-- The `if` chain, in source order. -/
def branch (s : Server) : Branch :=
  let entry := s.fds s.i
  if entry.fd = s.listenfd ∧ has entry.revents POLLIN then .accept
  else if has entry.revents POLLERR then .error
  else if has entry.revents POLLRDHUP then .hangup
  else if has entry.revents POLLIN then .readable
  else if has entry.revents POLLOUT then .writable
  else .idle

/-- `++i` of the `for` loop. -/
def advance (s : Server) : Server :=
  { s with i := s.i + 1 }

/-- `close(fd)` of a client descriptor. -/
def close (s : Server) (fd : Fd) : Server :=
  { s with opened := Function.update s.opened fd false }

/-- A new client takes the entry behind the last one. -/
def letIn (s : Server) (connfd : Fd) : Server :=
  let s := { s with
    opened := Function.update s.opened connfd true
    wire := Function.update s.wire connfd [] }
  let s := { s with userCounter := s.userCounter + 1 }
  { s with
    fds := Function.update s.fds s.userCounter
      ⟨connfd, POLLIN ||| POLLRDHUP ||| POLLERR, 0⟩ }

/-- The branch of the listening socket.  A client above the limit is told and
closed at once. -/
def onAccept (s : Server) : Option Fd → Server
  | none => s.advance
  | some connfd =>
      if s.userCounter ≥ USER_LIMIT then s.advance else (s.letIn connfd).advance

/-- `users[fds[i].fd] = users[fds[user_counter].fd]; fds[i] = fds[user_counter]`. -/
def moveLast (s : Server) : Server :=
  let s := { s with
    users := Function.update s.users (s.fds s.i).fd (s.users (s.fds s.userCounter).fd) }
  { s with fds := Function.update s.fds s.i (s.fds s.userCounter) }

/-- `--i; --user_counter`, followed by the loop's `++i`. -/
def dropLast (s : Server) : Server :=
  { s with userCounter := s.userCounter - 1 }

/-- The `POLLRDHUP` branch.  The descriptor to close is read after the entry
was overwritten. -/
def onHangup (s : Server) : Server :=
  let s := s.moveLast
  (s.close (s.fds s.i).fd).dropLast

/-- The body of the loop that prepares the other clients for writing. -/
def broadcastStep (connfd : Fd) (s : Server) (j : Nat) : Server :=
  if (s.fds j).fd = connfd then
    s
  else
    let s := { s with
      fds := Function.update s.fds j
        { s.fds j with events := (s.fds j).events ||| ~~~POLLIN ||| POLLOUT } }
    { s with
      users := Function.update s.users (s.fds j).fd
        { s.users (s.fds j).fd with writeBuf := some connfd } }

/-- `for(int j = 1; j <= user_counter; ++j)`. -/
def broadcast (s : Server) (connfd : Fd) : Server :=
  (List.range' 1 s.userCounter).foldl (broadcastStep connfd) s

/-- `memset` of the receive buffer, and the bytes that `recv` puts in front of
the NULs. -/
def fillBuf (s : Server) (connfd : Fd) (bytes : List Byte) : Server :=
  { s with
    users := Function.update s.users connfd
      { s.users connfd with
        buf := bytes ++ List.replicate (BUFFER_SIZE - bytes.length) 0 } }

/-- The `POLLIN` branch. -/
def onReadable (s : Server) (recv : Recv) : Server :=
  let connfd := (s.fds s.i).fd
  match recv with
  | .data bytes => ((s.fillBuf connfd bytes).broadcast connfd).advance
  | .eof | .again => (s.fillBuf connfd []).advance
  | .fail => (((s.fillBuf connfd []).close connfd).moveLast).dropLast

/-- The bytes behind `users[fd].write_buf`. -/
def writeText (s : Server) (fd : Fd) : Option (List Byte) :=
  (s.users fd).writeBuf.map fun owner => cstr (s.users owner).buf

/-- The `POLLOUT` branch. -/
def onWritable (s : Server) (send : Option Nat) : Server :=
  let connfd := (s.fds s.i).fd
  match s.writeText connfd with
  | none => s.advance
  | some text =>
      let s := match send with
        | none => s
        | some count => { s with
            wire := Function.update s.wire connfd (s.wire connfd ++ [text.take count]) }
      let s := { s with
        users := Function.update s.users connfd
          { s.users connfd with writeBuf := none } }
      let s := { s with
        fds := Function.update s.fds s.i
          { s.fds s.i with events := (s.fds s.i).events ||| ~~~POLLIN ||| POLLIN } }
      s.advance

/-- One iteration of the `for` loop. -/
def handle (s : Server) (sys : Sys) : Server :=
  match s.branch with
  | .accept => s.onAccept sys.accept
  | .error => s.advance
  | .hangup => s.onHangup
  | .readable => s.onReadable sys.recv
  | .writable => s.onWritable sys.send
  | .idle => s.advance

/-- What `poll` reports, and the restart of the `for` loop. -/
def poll (s : Server) (revents : Nat → Mask) : Server :=
  { s with
    fds := fun k =>
      if k ≤ s.userCounter then { s.fds k with revents := revents k } else s.fds k
    i := 0 }

/-- `poll` reports requested conditions and the unasked ones only. -/
def Reports (s : Server) (revents : Nat → Mask) : Prop :=
  ∀ k, k < s.userCounter + 1 → revents k &&& ~~~((s.fds k).events ||| unasked) = 0#16

/-- `accept` returns a descriptor that is not open, and `recv` at most the
bytes it was asked for. -/
def Answers (s : Server) (sys : Sys) : Prop :=
  (∀ connfd ∈ sys.accept, s.opened connfd = false ∧ connfd ≠ s.listenfd) ∧
    sys.recv.AtMost (BUFFER_SIZE - 1)

instance (s : Server) (revents : Nat → Mask) : Decidable (s.Reports revents) :=
  inferInstanceAs (Decidable (∀ k, k < _ → _ = _))

instance (s : Server) (sys : Sys) : Decidable (s.Answers sys) :=
  inferInstanceAs (Decidable (_ ∧ _))

end Server

/-! ## The room the program is meant to keep -/

/-- The abstract chat room: who is connected, and which messages each of them is
owed since it joined. -/
structure Room where
  members : Fd → Bool
  owed : Fd → List (List Byte)

/-- What the environment did while an entry was handled. -/
inductive RoomEvent where
  | join (fd : Fd)
  | leave (fd : Fd)
  | say (fd : Fd) (message : List Byte)
  | quiet

namespace Room

/-- Nobody is in the room. -/
def empty : Room where
  members := fun _ => false
  owed := fun _ => []

/-- A message is owed to every other member. -/
def next (room : Room) : RoomEvent → Room
  | .join fd =>
      { members := Function.update room.members fd true
        owed := Function.update room.owed fd [] }
  | .leave fd => { room with members := Function.update room.members fd false }
  | .say fd message =>
      { room with owed := fun other =>
          if room.members other ∧ other ≠ fd then room.owed other ++ [message]
          else room.owed other }
  | .quiet => room

end Room

namespace Server

/-- The room event behind the handling of the current entry: a client that is
let in joins, and one that hangs up or cannot be read leaves. -/
def observe (s : Server) (sys : Sys) : RoomEvent :=
  match s.branch with
  | .accept =>
      match sys.accept with
      | some connfd => if s.userCounter ≥ USER_LIMIT then .quiet else .join connfd
      | none => .quiet
  | .hangup => .leave (s.fds s.i).fd
  | .readable =>
      match sys.recv with
      | .data bytes => .say (s.fds s.i).fd bytes
      | .fail => .leave (s.fds s.i).fd
      | .eof | .again => .quiet
  | .error | .writable | .idle => .quiet

end Server

/-- The program next to the room it is meant to keep. -/
structure World where
  server : Server
  room : Room

/-- One `poll`, or one iteration of the `for` loop. -/
inductive Event where
  | poll (revents : Nat → Mask)
  | entry (sys : Sys)

namespace World

/-- In front of the first `poll`, with an empty room. -/
def initial (listenfd : Fd) (users : Fd → ClientData) : World where
  server := Server.initial listenfd users
  room := Room.empty

/-- `poll` is called when the `for` loop is over, and an entry is handled while
it is not. -/
def next (w : World) : Event → Option World
  | .poll revents =>
      if w.server.userCounter < w.server.i ∧ w.server.Reports revents then
        some { w with server := w.server.poll revents }
      else none
  | .entry sys =>
      if w.server.i ≤ w.server.userCounter ∧ w.server.Answers sys then
        some { server := w.server.handle sys, room := w.room.next (w.server.observe sys) }
      else none

end World

end NetPractice.PollChat
