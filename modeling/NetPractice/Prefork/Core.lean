import NetPractice.Transition.Core
import NetPractice.Transition.Reachable

/-!
# Children that lock around accept

This module embeds `child_main` of `child03.c` and `child04.c` with the lock of
`lock_fcntl.c` or of `lock_pthread.c`.  A step is one call of a child.  A child can be killed
in front of each of them, or end itself.
-/

namespace NetPractice.Prefork

open NetPractice.Transition

/-- `my_lock_wait` and `my_lock_release` with a record lock, or with a mutex in shared
memory. -/
inductive LockKind
  | fcntl
  | pthread
  deriving DecidableEq, Repr

/-- `child_main`, by the call that comes next: `my_lock_wait`, `Accept`, `my_lock_release`,
and `web_child` up to `Close`. -/
inductive Control
  | locking
  | accepting
  | releasing (connfd : Nat)
  | serving (connfd : Nat)
  | dead
  deriving DecidableEq, Repr

/-- The children.  `holder` is the child that has the lock.  `backlog` has the connections
that wait for `Accept`, `arrived` all that ever came, and `accepted` those that were accepted,
each with its child. -/
structure Server where
  holder : Option Nat
  children : List Control
  backlog : List Nat
  arrived : List Nat
  accepted : List (Nat × Nat)
  deriving DecidableEq, Repr

/-- The server, once the parent has made all children. -/
def create (nchildren : Nat) : Server :=
  { holder := none
    children := List.replicate nchildren .locking
    backlog := []
    arrived := []
    accepted := [] }

/-- A statement of a child, a connection that arrives, or a child that dies. -/
inductive Event
  | child (i : Nat)
  | arrive (connfd : Nat)
  | die (i : Nat)
  deriving DecidableEq, Repr

/-- The holder when a process ends: its record locks are released, and its mutexes are not. -/
def LockKind.afterDeath (kind : LockKind) (holder : Option Nat) (i : Nat) : Option Nat :=
  match kind with
  | .fcntl => if holder = some i then none else holder
  | .pthread => holder

namespace Server

/-- One call of a child. -/
def step (s : Server) (i : Nat) : Control → Option Server
  | .locking =>
      if s.holder = none then
        some { s with holder := some i, children := s.children.set i .accepting }
      else none
  | .accepting =>
      match s.backlog with
      | connfd :: backlog =>
          some { s with
            backlog := backlog
            accepted := s.accepted ++ [(i, connfd)]
            children := s.children.set i (.releasing connfd) }
      | [] => none
  | .releasing connfd =>
      some { s with holder := none, children := s.children.set i (.serving connfd) }
  | .serving _ => some { s with children := s.children.set i .locking }
  | .dead => none

/-- What an event does. -/
def next (kind : LockKind) (s : Server) : Event → Option Server
  | .child i => s.children[i]?.bind (s.step i)
  | .arrive connfd =>
      some { s with backlog := s.backlog ++ [connfd], arrived := s.arrived ++ [connfd] }
  | .die i => do
      let control ← s.children[i]?
      if control = .dead then none
      else some { s with
        holder := kind.afterDeath s.holder i
        children := s.children.set i .dead }

/-- Some child is in `Accept`, or can be brought there. -/
def Open (kind : LockKind) (s : Server) : Prop :=
  ∃ t, Reaches (next kind) s t ∧ .accepting ∈ t.children

end Server

end NetPractice.Prefork
