import NetPractice.Transition.Core
import NetPractice.Transition.Reachable

/-!
# The server with one child for each client

This module embeds the main loop of `tcpcliserv/tcpserv03.c` and `tcpserv04.c`, with the
handler of SIGCHLD of `sigchldwait.c`, which calls `wait` once, or of `sigchldwaitpid.c`, which
calls `waitpid` until no child is left that has terminated.  A child that has terminated is
a zombie until the parent waits for it.

The parent does nothing else while its handler runs, and SIGCHLD is blocked for so long.  A
signal that is raised while it is pending is not queued.  `accept` is called again when it
has been interrupted.  A child is named by its connection, and connections are numbered in
the order of their arrival; a child can terminate at any time.
-/

namespace NetPractice.ForkServer

open NetPractice.Transition

/-- The statements of the main loop. -/
inductive Pc
  | accept
  | fork (connfd : Nat)
  | close (connfd : Nat)
  deriving DecidableEq, Repr

/-- `arrived` is the number of connections that have arrived.  `handler` is set while the
handler runs, and `pending` while SIGCHLD is raised and not delivered.  `printed` has the
children that the handler has told about. -/
structure Server where
  pc : Pc
  arrived : Nat
  backlog : List Nat
  alive : List Nat
  zombies : List Nat
  pending : Bool
  handler : Bool
  printed : List Nat
  deriving DecidableEq, Repr

/-- The parent in front of its first `accept`. -/
def start : Server where
  pc := .accept
  arrived := 0
  backlog := []
  alive := []
  zombies := []
  pending := false
  handler := false
  printed := []

/-- `parent` is the next call of the main loop.  `wait` is a call in the handler: it returns a
child, or none. -/
inductive Event
  | arrive
  | parent
  | exit (pid : Nat)
  | deliver
  | wait (pid : Option Nat)
  deriving DecidableEq, Repr

/-- The handler calls `waitpid` in a loop, or `wait` once. -/
inductive Handler
  | wait
  | waitpid
  deriving DecidableEq, Repr

/-- The next call of the main loop. -/
def parentNext (s : Server) : Option Server :=
  match s.pc with
  | .accept =>
      match s.backlog with
      | connfd :: backlog => some { s with pc := .fork connfd, backlog := backlog }
      | [] => none
  | .fork connfd => some { s with pc := .close connfd, alive := s.alive ++ [connfd] }
  | .close _ => some { s with pc := .accept }

/-- A call of `wait` or `waitpid`.  Without a zombie, `waitpid` returns 0 or -1, and `wait`
returns -1 where there is no child, and blocks where there is one. -/
def waitNext (kind : Handler) (s : Server) : Option Nat → Option Server
  | some pid =>
      if pid ∈ s.zombies then
        some { s with
          zombies := s.zombies.erase pid
          printed := s.printed ++ [pid]
          handler := decide (kind = .waitpid) }
      else none
  | none =>
      if s.zombies = [] ∧ (kind = .waitpid ∨ s.alive = []) then some { s with handler := false }
      else none

/-- The next event; while the handler runs, the main loop does not go on. -/
def next (kind : Handler) : Step Server Event
  | s, .arrive => some { s with backlog := s.backlog ++ [s.arrived], arrived := s.arrived + 1 }
  | s, .parent => if s.handler then none else parentNext s
  | s, .exit pid =>
      if pid ∈ s.alive then
        some { s with
          alive := s.alive.erase pid
          zombies := s.zombies ++ [pid]
          pending := true }
      else none
  | s, .deliver =>
      if s.pending && !s.handler then some { s with pending := false, handler := true } else none
  | s, .wait pid => if s.handler then waitNext kind s pid else none

end NetPractice.ForkServer
