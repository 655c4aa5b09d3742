import NetPractice.Socket.Core
import NetPractice.Transition.Core
import Mathlib.Logic.Function.Basic

/-!
# The shared-memory chat room

This module embeds `ch13_process/code_13_4.cpp`: a parent that accepts clients,
and one child for each of them, which shares the clients' receive buffers with
the others and exchanges buffer indices with the parent over a pipe.

The parent and the children take their steps in any order.  Each step is one
system call or one access to the shared memory, together with the local
computation behind it; what the calls answer comes with the event.  The pipes
carry whole `int`s.  Every pipe end is registered edge-triggered: an arrival
sets its `ready` flag, `epoll_wait` clears the flag and hands out one event,
and further arrivals before that call are not told apart.

The clients' addresses are stored and never read, and are left out.  `fork`
returns process ids below `PROCESS_LIMIT`, and a failing `socketpair` ends the
program.
-/

namespace NetPractice.ShmChat

open NetPractice.Text
open NetPractice.Socket

/-- Process identifiers. -/
abbrev Pid := Nat

/-- The most clients. -/
def USER_LIMIT : Nat := 5

/-- The size of a segment. -/
def BUFFER_SIZE : Nat := 1024

/-! ## The children -/

/-- The part of the shared memory that one index stands for. -/
abbrev Segment := List Byte

/-- `share_mem`, by segments. -/
abbrev Memory := Nat → Segment

/-- A segment after `memset`. -/
def zeros : Segment :=
  List.replicate BUFFER_SIZE 0

/-- A segment after `recv` has stored bytes at its front. -/
def overlaid (bytes : List Byte) (segment : Segment) : Segment :=
  bytes ++ segment.drop bytes.length

/-- The descriptors that a child polls. -/
inductive ChildSource where
  | conn | pipe
  deriving DecidableEq, Repr

/-- Where a child is inside its loops: at the head of the `for` loop, between
`memset` and `recv`, between `recv` and the notification of the parent, or
between the parent's notification and `send`. -/
inductive Doing where
  | loop | cleared | announcing | sending (client : Nat)
  deriving DecidableEq, Repr

/-- A child running `run_child`, and the kernel's part of its descriptors.
`pipefd` is the parent's number of the pipe; `sent` lists what the client's
socket accepted, call by call. -/
structure Child where
  idx : Nat
  pipefd : Fd
  doing : Doing
  batch : List ChildSource
  stopChild : Bool
  exited : Bool
  connReady : Bool
  pipeReady : Bool
  parentReady : Bool
  toChild : List Nat
  toParent : List Nat
  sent : List (List Byte)
  deriving DecidableEq, Repr

/-- The steps of a child: `SIGTERM`, `epoll_wait`, and the calls of the loop's
branches. -/
inductive ChildStep where
  | term
  | wait (batch : List ChildSource)
  | clear
  | recv (answer : Recv)
  | announce (sent : Bool)
  | notice (closed : Bool)
  | send (answer : Send)
  | exit
  deriving DecidableEq, Repr

namespace Child

/-- A child behind `fork`. -/
def start (idx : Nat) (pipefd : Fd) : Child where
  idx := idx
  pipefd := pipefd
  doing := .loop
  batch := []
  stopChild := false
  exited := false
  connReady := false
  pipeReady := false
  parentReady := false
  toChild := []
  toParent := []
  sent := []

/-- `child_term_handler`. -/
def term (c : Child) : Child :=
  { c with stopChild := true }

/-- `epoll_wait` hands out some of the descriptors that are ready.  A call that
is interrupted hands out none. -/
def wait (c : Child) (batch : List ChildSource) : Option Child :=
  if c.doing = .loop ∧ c.batch = [] ∧ c.stopChild = false ∧ batch.Nodup ∧
      (.conn ∈ batch → c.connReady = true) ∧ (.pipe ∈ batch → c.pipeReady = true) then
    some { c with
      batch := batch
      connReady := c.connReady && !decide (.conn ∈ batch)
      pipeReady := c.pipeReady && !decide (.pipe ∈ batch) }
  else none

/-- `memset(share_mem + idx * BUFFER_SIZE, '\0', BUFFER_SIZE)`. -/
def clear (c : Child) (mem : Memory) : Option (Child × Memory) :=
  match c.doing, c.batch with
  | .loop, .conn :: batch =>
      some ({ c with batch := batch, doing := .cleared }, Function.update mem c.idx zeros)
  | _, _ => none

/-- `recv` from the client into the own segment. -/
def recv (c : Child) (mem : Memory) (answer : Recv) : Option (Child × Memory) :=
  if c.doing = .cleared ∧ answer.AtMost (BUFFER_SIZE - 1) then
    match answer with
    | .data bytes =>
        some ({ c with doing := .announcing },
          Function.update mem c.idx (overlaid bytes (mem c.idx)))
    | .again => some ({ c with doing := .loop }, mem)
    | .eof | .fail => some ({ c with doing := .loop, stopChild := true }, mem)
  else none

/-- `send(pipefd, (char*)&idx, sizeof(idx), 0)`, whose result is ignored. -/
def announce (c : Child) (sent : Bool) : Option Child :=
  if c.doing = .announcing then
    if sent then
      some { c with doing := .loop, toParent := c.toParent ++ [c.idx], parentReady := true }
    else some { c with doing := .loop }
  else none

/-- `recv` of an index from the pipe.  An empty pipe may also be closed. -/
def notice (c : Child) (closed : Bool) : Option Child :=
  match c.doing, c.batch with
  | .loop, .pipe :: batch =>
      match c.toChild with
      | [] => some { c with batch := batch, stopChild := c.stopChild || closed }
      | client :: toChild =>
          some { c with batch := batch, toChild := toChild, doing := .sending client }
  | _, _ => none

/-- `send(connfd, share_mem + client * BUFFER_SIZE, BUFFER_SIZE, 0)`, whose
result is ignored. -/
def send (c : Child) (mem : Memory) (answer : Send) : Option Child :=
  match c.doing with
  | .sending client =>
      match answer with
      | .taken count =>
          some { c with doing := .loop, sent := c.sent ++ [(mem client).take count] }
      | .again | .gone => some { c with doing := .loop }
  | _ => none

/-- The end of the loop: `stop_child` is set, or `epoll_wait` failed.  The exit
closes the pipe, which the parent's `epoll` reports. -/
def exit (c : Child) : Option Child :=
  if c.doing = .loop ∧ c.batch = [] then
    some { c with exited := true, parentReady := true }
  else none

/-- The step of a running child. -/
def next (c : Child) (mem : Memory) (step : ChildStep) : Option (Child × Memory) :=
  if c.exited then none
  else
    match step with
    | .term => some (c.term, mem)
    | .wait batch => (c.wait batch).map (·, mem)
    | .clear => c.clear mem
    | .recv answer => c.recv mem answer
    | .announce sent => (c.announce sent).map (·, mem)
    | .notice closed => (c.notice closed).map (·, mem)
    | .send answer => (c.send mem answer).map (·, mem)
    | .exit => c.exit.map (·, mem)

end Child

/-! ## The parent -/

/-- `client_data`. -/
structure ClientData where
  connfd : Fd
  pid : Pid
  pipefd : Fd × Fd
  deriving DecidableEq, Repr

/-- The descriptors that the parent polls: the listening socket, the pipe of the
signal handler, and the pipes to the children. -/
inductive Source where
  | listen
  | signal
  | pipe (sockfd : Fd)
  deriving DecidableEq, Repr

/-- The signal numbers that the parent tells apart. -/
inductive Signal where
  | chld | term | int | other
  deriving DecidableEq, Repr

/-- Where the parent is inside its loops: at the head of the loop over the
events, in the loop over the received signals, in the `waitpid` loop, or in the
loop that relays an index, at its `j`-th client. -/
inductive Task where
  | loop
  | signals (rest : List Signal)
  | reaping (rest : List Signal)
  | relaying (sockfd : Fd) (child : Nat) (j : Nat)
  deriving DecidableEq, Repr

/-- The variables of `main`, the children that are not reaped, and the kernel's
part of the parent's descriptors: those that the loop opened, and the child at
the other end of a pipe. -/
structure Server where
  users : Nat → ClientData
  subProcess : Pid → Int
  userCount : Nat
  terminate : Bool
  stopServer : Bool
  batch : List Source
  task : Task
  opened : Fd → Bool
  peer : Fd → Option Pid
  children : Pid → Option Child
  shareMem : Memory

/-- What `accept`, `socketpair` and `fork` return for a new client. -/
structure Accepted where
  connfd : Fd
  pipefd : Fd × Fd
  pid : Option Pid
  deriving DecidableEq, Repr

namespace Server

/-- The state in front of the first `epoll_wait`.  `users` is allocated without
being initialised, and the shared memory object is new. -/
def initial (users : Nat → ClientData) : Server where
  users := users
  subProcess := fun _ => -1
  userCount := 0
  terminate := false
  stopServer := false
  batch := []
  task := .loop
  opened := fun _ => false
  peer := fun _ => none
  children := fun _ => none
  shareMem := fun _ => zeros

/-- A descriptor is opened. -/
def openFd (s : Server) (fd : Fd) : Server :=
  { s with opened := Function.update s.opened fd true }

/-- `close(fd)`. -/
def close (s : Server) (fd : Fd) : Server :=
  { s with
    opened := Function.update s.opened fd false
    peer := Function.update s.peer fd none }

/-- The pipe has an event that was not handed out yet.  Nothing is assumed about
the other two descriptors. -/
def Reported (s : Server) : Source → Prop
  | .listen | .signal => True
  | .pipe sockfd => ∃ pid ∈ s.peer sockfd, ∃ c ∈ s.children pid,
      c.pipefd = sockfd ∧ c.parentReady = true

instance (s : Server) : ∀ source, Decidable (s.Reported source)
  | .listen | .signal => isTrue trivial
  | .pipe _ => inferInstanceAs (Decidable (∃ pid ∈ s.peer _, ∃ c ∈ s.children pid, _ ∧ _))

/-- `epoll_wait` hands out some of the descriptors that are ready. -/
def Ready (s : Server) (batch : List Source) : Prop :=
  s.task = .loop ∧ s.batch = [] ∧ s.stopServer = false ∧ batch.Nodup ∧
    ∀ source ∈ batch, s.Reported source

instance (s : Server) (batch : List Source) : Decidable (s.Ready batch) :=
  inferInstanceAs (Decidable (_ ∧ _ ∧ _ ∧ _ ∧ _))

/-- `epoll_wait` of the parent. -/
def wait (s : Server) (batch : List Source) : Server :=
  { s with
    batch := batch
    children := fun pid => (s.children pid).map fun c =>
      { c with parentReady := c.parentReady && !decide (.pipe c.pipefd ∈ batch) } }

/-- Both processes after a successful `fork`. -/
def fork (s : Server) (pid : Pid) (pipefd : Fd × Fd) : Server :=
  let s := { s with
    children := Function.update s.children pid (some (Child.start s.userCount pipefd.1))
    peer := Function.update s.peer pipefd.1 (some pid) }
  let s := { s with
    users := Function.update s.users s.userCount { s.users s.userCount with pid := pid } }
  let s := { s with subProcess := Function.update s.subProcess pid s.userCount }
  { s with userCount := s.userCount + 1 }

/-- The branch of the listening socket. -/
def onAccept (s : Server) : Option Accepted → Server
  | none => s
  | some answer =>
      let s := s.openFd answer.connfd
      if s.userCount ≥ USER_LIMIT then
        s.close answer.connfd
      else
        let s := (s.openFd answer.pipefd.1).openFd answer.pipefd.2
        let s := { s with
          users := Function.update s.users s.userCount
            { s.users s.userCount with connfd := answer.connfd, pipefd := answer.pipefd } }
        match answer.pid with
        | none => s.close answer.connfd
        | some pid => ((s.fork pid answer.pipefd).close answer.connfd).close answer.pipefd.2

/-- New descriptors are not open, and a new process has no number of a child that
is not reaped. -/
def Fresh (s : Server) (answer : Accepted) : Prop :=
  s.opened answer.connfd = false ∧ s.opened answer.pipefd.1 = false ∧
    s.opened answer.pipefd.2 = false ∧ answer.pipefd.1 ≠ answer.connfd ∧
    answer.pipefd.2 ≠ answer.connfd ∧ answer.pipefd.1 ≠ answer.pipefd.2 ∧
    ∀ pid ∈ answer.pid, s.children pid = none

instance (s : Server) (answer : Accepted) : Decidable (s.Fresh answer) :=
  inferInstanceAs (Decidable (_ ∧ _ ∧ _ ∧ _ ∧ _ ∧ _ ∧ _))

/-- The `switch` over one signal.  The children that `kill` reaches take their
own step. -/
def onSignal (s : Server) (rest : List Signal) : Signal → Server
  | .chld => { s with task := .reaping rest }
  | .term | .int =>
      if s.userCount = 0 then { s with stopServer := true, task := .signals rest }
      else { s with terminate := true, task := .signals rest }
  | .other => { s with task := .signals rest }

/-- The body of the `waitpid` loop. -/
def reap (s : Server) (pid : Pid) : Server :=
  let delUser := s.subProcess pid
  let s := { s with
    children := Function.update s.children pid none
    subProcess := Function.update s.subProcess pid (-1) }
  if delUser < 0 ∨ delUser > USER_LIMIT then s
  else
    let del := delUser.toNat
    let s := s.close (s.users del).pipefd.1
    let s := { s with userCount := s.userCount - 1 }
    let s := { s with users := Function.update s.users del (s.users s.userCount) }
    { s with subProcess := Function.update s.subProcess (s.users del).pid delUser }

/-- The end of the `waitpid` loop. -/
def endReaping (s : Server) (rest : List Signal) : Server :=
  { s with
    task := .signals rest
    stopServer := s.stopServer || (s.terminate && decide (s.userCount = 0)) }

/-- `recv` of an index from a child's pipe, or of nothing. -/
def onPipe (s : Server) (sockfd : Fd) : Server :=
  match s.peer sockfd with
  | none => s
  | some pid =>
      match s.children pid with
      | none => s
      | some c =>
          match c.toParent with
          | [] => s
          | child :: toParent =>
              { s with
                children := Function.update s.children pid (some { c with toParent := toParent })
                task := .relaying sockfd child 0 }

/-- The kernel's side of a notification of a child. -/
def notify (s : Server) (pid : Pid) (child : Nat) : Server :=
  { s with
    children := Function.update s.children pid ((s.children pid).map fun c =>
      { c with toChild := c.toChild ++ [child], pipeReady := true }) }

/-- One iteration of the loop that relays an index. -/
def relay (s : Server) (sockfd : Fd) (child j : Nat) (sent : Bool) : Server :=
  let pipefd := (s.users j).pipefd.1
  let s := { s with task := .relaying sockfd child (j + 1) }
  if pipefd = sockfd then s
  else
    match s.peer pipefd with
    | some pid => if sent then s.notify pid child else s
    | none => s

end Server

/-- The steps of the system.  `arrive` is the client of a child that sends
something or closes its connection. -/
inductive Event where
  | wait (batch : List Source)
  | accept (answer : Option Accepted)
  | signals (received : Option (List Signal))
  | signal
  | waitpid (pid : Option Pid)
  | pipe
  | relay (sent : Bool)
  | arrive (pid : Pid)
  | child (pid : Pid) (step : ChildStep)

namespace Server

/-- `waitpid` reports a child that has exited, or none. -/
def next (s : Server) : Event → Option Server
  | .wait batch => if s.Ready batch then some (s.wait batch) else none
  | .accept answer =>
      match s.task, s.batch with
      | .loop, .listen :: batch =>
          if ∀ accepted ∈ answer, s.Fresh accepted then
            some ({ s with batch := batch }.onAccept answer)
          else none
      | _, _ => none
  | .signals received =>
      match s.task, s.batch with
      | .loop, .signal :: batch =>
          some { s with batch := batch, task := .signals (received.getD []) }
      | _, _ => none
  | .signal =>
      match s.task with
      | .signals [] => some { s with task := .loop }
      | .signals (signal :: rest) => some (s.onSignal rest signal)
      | _ => none
  | .waitpid pid =>
      match s.task with
      | .reaping rest =>
          match pid with
          | none => some (s.endReaping rest)
          | some pid => if ∃ c ∈ s.children pid, c.exited = true then some (s.reap pid) else none
      | _ => none
  | .pipe =>
      match s.task, s.batch with
      | .loop, .pipe sockfd :: batch => some ({ s with batch := batch }.onPipe sockfd)
      | _, _ => none
  | .relay sent =>
      match s.task with
      | .relaying sockfd child j =>
          if j < s.userCount then some (s.relay sockfd child j sent)
          else some { s with task := .loop }
      | _ => none
  | .arrive pid =>
      (s.children pid).map fun c =>
        { s with children := Function.update s.children pid (some { c with connReady := true }) }
  | .child pid step =>
      (s.children pid).bind fun c =>
        (c.next s.shareMem step).map fun after =>
          { s with
            children := Function.update s.children pid (some after.1)
            shareMem := after.2 }

end Server

/-! ## The room the program is meant to keep -/

/-- The abstract chat room: whose clients are connected, the announced contents
that the parent has not read, and the contents that each client is owed since it
joined. -/
structure Room where
  members : Pid → Bool
  unread : Pid → List Segment
  owed : Pid → List Segment

/-- What a step of the system means for the room. -/
inductive RoomEvent where
  | join (pid : Pid)
  | leave (pid : Pid)
  | announce (pid : Pid) (content : Segment)
  | relay (pid : Pid)
  | quiet

namespace Room

/-- Nobody is in the room. -/
def empty : Room where
  members := fun _ => false
  unread := fun _ => []
  owed := fun _ => []

/-- The oldest announced content is owed to every other client that is connected
when the parent reads the announcement. -/
def next (room : Room) : RoomEvent → Room
  | .join pid =>
      { room with
        members := Function.update room.members pid true
        owed := Function.update room.owed pid [] }
  | .leave pid => { room with members := Function.update room.members pid false }
  | .announce pid content =>
      { room with unread := Function.update room.unread pid (room.unread pid ++ [content]) }
  | .relay pid =>
      match room.unread pid with
      | [] => room
      | content :: unread =>
          { room with
            unread := Function.update room.unread pid unread
            owed := fun other =>
              if room.members other ∧ other ≠ pid then room.owed other ++ [content]
              else room.owed other }
  | .quiet => room

end Room

namespace Child

/-- A client joins when its child is forked; it has left when a call on its
socket says so, and when its child exits. -/
def observe (c : Child) (mem : Memory) (pid : Pid) : ChildStep → RoomEvent
  | .recv .eof | .recv .fail | .send .gone | .exit => .leave pid
  | .announce true => .announce pid (mem c.idx)
  | _ => .quiet

end Child

namespace Server

/-- What an event of the server means for the room. -/
def observe (s : Server) : Event → RoomEvent
  | .accept (some answer) =>
      match answer.pid with
      | some pid => if s.userCount ≥ USER_LIMIT then .quiet else .join pid
      | none => .quiet
  | .pipe =>
      match s.batch with
      | .pipe sockfd :: _ =>
          match s.peer sockfd with
          | some pid => if ∃ c ∈ s.children pid, c.toParent ≠ [] then .relay pid else .quiet
          | none => .quiet
      | _ => .quiet
  | .child pid step =>
      match s.children pid with
      | some c => c.observe s.shareMem pid step
      | none => .quiet
  | _ => .quiet

end Server

/-- The program next to the room it is meant to keep. -/
structure World where
  server : Server
  room : Room

namespace World

/-- In front of the first `epoll_wait`, with an empty room. -/
def initial (users : Nat → ClientData) : World where
  server := Server.initial users
  room := Room.empty

/-- The server and the room go on. -/
def next (w : World) (event : Event) : Option World :=
  (w.server.next event).map fun server =>
    { server := server, room := w.room.next (w.server.observe event) }

end World

end NetPractice.ShmChat
