import NetPractice.Socket.Core
import NetPractice.Transition.Threads
import Mathlib.Logic.Function.Basic

/-!
# The server with one-shot registrations

This module embeds `ch9_IO_multiplexing/code_9_4.cpp`: a main thread that waits for
events, and one worker thread for each event of a connection.  The registration of a
connection is disarmed when it is reported, and its worker arms it again.

The argument of a worker is the address of `fds_for_new_worker`, a local variable of the
loop body of `main`.  The loop uses the same memory in every iteration, and a worker
reads it at any time behind `pthread_create`, member by member.
-/

namespace NetPractice.OneShot

open NetPractice.Socket
open NetPractice.Transition

/-- The most events that one `epoll_wait` returns. -/
def MAX_EVENT_NUMBER : Nat := 1024

/-- The size of the buffer of a worker. -/
def BUFFER_SIZE : Nat := 1024

/-- `fds`. -/
structure Fds where
  epollfd : Fd
  sockfd : Fd
  deriving DecidableEq, Repr

/-- An element of `events`: the listening socket, or a connection with whether
`EPOLLIN` is set. -/
inductive Report where
  | listen
  | client (sockfd : Fd) (readable : Bool)
  deriving DecidableEq, Repr

/-- The connection that a report is about. -/
def Report.sockfd : Report → Option Fd
  | .listen => none
  | .client sockfd _ => some sockfd

/-- Where a worker is: in front of its two reads of the argument, between them, in the
`recv` loop, or behind it. -/
inductive Doing where
  | started
  | half (sockfd : Fd)
  | receiving (fds : Fds)
  | ended
  deriving DecidableEq, Repr

/-- A worker thread, and the descriptor of the event that it was created for. -/
structure Worker where
  event : Fd
  doing : Doing
  deriving DecidableEq, Repr

/-- The server.  `argument` is the memory of `fds_for_new_worker`.  The kernel's part
are the open connections and the armed registrations; `unserved` lists the events for
which `pthread_create` failed. -/
structure Server where
  epollfd : Fd
  argument : Fds
  batch : List Report
  workers : List Worker
  opened : Fd → Bool
  armed : Fd → Bool
  unserved : List Fd

/-- What happens next.  `accept` carries its result, and what its branch leaves in the
memory of `fds_for_new_worker` if the compiler puts its local variables there; `dispatch`
tells whether `pthread_create` succeeds. -/
inductive Event where
  | wait (batch : List Report)
  | accept (connfd : Fd) (overwritten : Option Fds)
  | dispatch (created : Bool)
  | other
  | readSockfd (worker : Nat)
  | readEpollfd (worker : Nat)
  | recv (worker : Nat) (answer : Recv)
  deriving DecidableEq, Repr

namespace Server

/-- The server in front of its loop. -/
def start (epollfd : Fd) (argument : Fds) : Server where
  epollfd := epollfd
  argument := argument
  batch := []
  workers := []
  opened := fun _ => false
  armed := fun _ => false
  unserved := []

/-- `epoll_wait` reports a descriptor at most once, and a connection only while it is
armed. -/
def Reports (s : Server) (batch : List Report) : Prop :=
  (batch.map Report.sockfd).Nodup ∧ batch.length ≤ MAX_EVENT_NUMBER ∧
    ∀ report ∈ batch, ∀ sockfd ∈ report.sockfd, s.armed sockfd = true

instance (s : Server) (batch : List Report) : Decidable (s.Reports batch) :=
  inferInstanceAs (Decidable (_ ∧ _ ∧ ∀ report ∈ batch, ∀ sockfd ∈ report.sockfd, _))

/-- The reported registrations are disarmed. -/
def reported (s : Server) (batch : List Report) : Server :=
  { s with
    batch := batch
    armed := fun sockfd => s.armed sockfd && !decide (some sockfd ∈ batch.map Report.sockfd) }

/-- The branch of the listening socket.  A failing `accept` is not tested, and then
`addfd` fails. -/
def accept (s : Server) (connfd : Fd) (overwritten : Option Fds) : Option Server :=
  let s := { s with argument := overwritten.getD s.argument }
  if connfd < 0 then some s
  else if s.opened connfd then none
  else
    some { s with
      opened := Function.update s.opened connfd true
      armed := Function.update s.armed connfd true }

/-- The branch of `EPOLLIN`: `fds_for_new_worker` is filled in, and a worker is
created. -/
def dispatch (s : Server) (sockfd : Fd) (created : Bool) : Server :=
  let s := { s with argument := ⟨s.epollfd, sockfd⟩ }
  if created then { s with workers := s.workers ++ [⟨sockfd, .started⟩] }
  else { s with unserved := s.unserved ++ [sockfd] }

/-- One worker is set, and the others stay. -/
def setWorker (s : Server) (worker : Nat) (state : Worker) : Server :=
  { s with workers := s.workers.set worker state }

/-- `close(sockfd)`. -/
def close (s : Server) (sockfd : Fd) : Server :=
  { s with
    opened := Function.update s.opened sockfd false
    armed := Function.update s.armed sockfd false }

/-- `reset_oneshot(epollfd, sockfd)`, which fails for another `epollfd` and for a
descriptor that is not open. -/
def resetOneshot (s : Server) (fds : Fds) : Server :=
  if fds.epollfd = s.epollfd ∧ s.opened fds.sockfd = true then
    { s with armed := Function.update s.armed fds.sockfd true }
  else s

/-- What a worker does with the result of `recv`: any other error than `EAGAIN` is
tried again. -/
def received (s : Server) (worker : Nat) (event : Fd) (fds : Fds) : Recv → Server
  | .eof => (s.close fds.sockfd).setWorker worker ⟨event, .ended⟩
  | .again => (s.resetOneshot fds).setWorker worker ⟨event, .ended⟩
  | .data _ | .fail => s

/-- The next step of the main thread, of a worker, or of the kernel. -/
def next (s : Server) : Event → Option Server
  | .wait batch => if s.batch = [] ∧ s.Reports batch then some (s.reported batch) else none
  | .accept connfd overwritten =>
      match s.batch with
      | .listen :: batch => { s with batch := batch }.accept connfd overwritten
      | _ => none
  | .dispatch created =>
      match s.batch with
      | .client sockfd true :: batch => some ({ s with batch := batch }.dispatch sockfd created)
      | _ => none
  | .other =>
      match s.batch with
      | .client _ false :: batch => some { s with batch := batch }
      | _ => none
  | .readSockfd worker =>
      match s.workers[worker]? with
      | some ⟨event, .started⟩ => some (s.setWorker worker ⟨event, .half s.argument.sockfd⟩)
      | _ => none
  | .readEpollfd worker =>
      match s.workers[worker]? with
      | some ⟨event, .half sockfd⟩ =>
          some (s.setWorker worker ⟨event, .receiving ⟨s.argument.epollfd, sockfd⟩⟩)
      | _ => none
  | .recv worker answer =>
      match s.workers[worker]? with
      | some ⟨event, .receiving fds⟩ =>
          if answer.AtMost (BUFFER_SIZE - 1) then some (s.received worker event fds answer)
          else none
      | _ => none

end Server

end NetPractice.OneShot
