import NetPractice.Transition.Core
import NetPractice.Transition.Threads

/-!
# The prethreaded server

This module embeds the main loop of `serv08.c` and `thread_main` of `pthread08.c`.
The main thread puts accepted descriptors into the ring `clifd`, and the threads
take them out.  A step is one call on the mutex or the condition variable, or
what a thread does to the ring between two such calls.

A failing `Accept` ends the program, so that a run has no step behind it.
-/

namespace NetPractice.Prethreaded

open NetPractice.Transition

/-- The size of `clifd`. -/
def MAXNCLI : Nat := 32

/-- The main thread, by the statement that comes next.  `quit` is `err_quit`,
which is called with the mutex locked. -/
inductive Main
  | accepting
  | locking (connfd : Int)
  | storing (connfd : Int)
  | signalling
  | unlocking
  | quit
  deriving DecidableEq, Repr

/-- The descriptor that is not yet stored. -/
def Main.connfd : Main → Option Int
  | .locking connfd | .storing connfd => some connfd
  | .accepting | .signalling | .unlocking | .quit => none

/-- `thread_main`, by the statement that comes next.  `waiting` is blocked in
`Pthread_cond_wait`, and `woken` has left the condition variable and has to lock
the mutex again. -/
inductive Position
  | locking
  | testing
  | waiting
  | woken
  | unlocking (connfd : Int)
  | serving (connfd : Int)
  deriving DecidableEq, Repr

/-- The local variable `connfd`, while it is in use. -/
def Position.connfd : Position → Option Int
  | .unlocking connfd | .serving connfd => some connfd
  | .locking | .testing | .waiting | .woken => none

/-- A `Thread` of `tptr`. -/
structure Thread where
  position : Position
  threadCount : Nat
  deriving DecidableEq, Repr

/-- The program.  `clifdMutex` is set while the mutex is locked.  `accepted` has
the descriptors that `Accept` returned, and `taken` those that were read from
`clifd`, each with the thread that read it. -/
structure Server where
  clifd : List Int
  iget : Nat
  iput : Nat
  clifdMutex : Bool
  main : Main
  tptr : List Thread
  accepted : List Int
  taken : List (Nat × Int)
  deriving DecidableEq, Repr

/-- `main` in front of its loop, once the threads are created. -/
def create (nthreads : Nat) : Server :=
  { clifd := List.replicate MAXNCLI 0
    iget := 0
    iput := 0
    clifdMutex := false
    main := .accepting
    tptr := List.replicate nthreads { position := .locking, threadCount := 0 }
    accepted := []
    taken := [] }

/-- `accept` is a connection, `signal` the call of `Pthread_cond_signal` with the
thread that it wakes up, `main` any other statement of the main thread, `thread`
one of a thread, and `wakeup` a `Pthread_cond_wait` that returns without a
signal. -/
inductive Event
  | accept (connfd : Int)
  | main
  | signal (woken : Option Nat)
  | thread (i : Nat)
  | wakeup (i : Nat)
  deriving DecidableEq, Repr

/-- `if (++index == MAXNCLI) index = 0`. -/
def advance (index : Nat) : Nat :=
  if index + 1 = MAXNCLI then 0 else index + 1

namespace Server

/-- A thread goes on at another statement. -/
def move (s : Server) (i : Nat) (thread : Thread) (position : Position) : Server :=
  { s with tptr := s.tptr.set i { thread with position := position } }

/-- The statements of the main thread but `Accept` and `Pthread_cond_signal`. -/
def mainStep (s : Server) : Option Server :=
  match s.main with
  | .accepting | .signalling | .quit => none
  | .locking connfd =>
      if s.clifdMutex then none
      else some { s with clifdMutex := true, main := .storing connfd }
  | .storing connfd =>
      some { s with
        clifd := s.clifd.set s.iput connfd
        iput := advance s.iput
        main := if advance s.iput = s.iget then .quit else .signalling }
  | .unlocking => some { s with clifdMutex := false, main := .accepting }

/-- `Pthread_cond_signal` wakes up a thread, unless none is blocked. -/
def signalStep (s : Server) : Option Nat → Option Server
  | none =>
      if ∃ thread ∈ s.tptr, thread.position = .waiting then none
      else some { s with main := .unlocking }
  | some i => do
      let thread ← s.tptr[i]?
      if thread.position = .waiting then
        some ({ s with main := .unlocking }.move i thread .woken)
      else none

/-- The statements of `thread_main`. -/
def threadStep (s : Server) (i : Nat) (thread : Thread) : Option Server :=
  match thread.position with
  | .locking | .woken =>
      if s.clifdMutex then none
      else some ({ s with clifdMutex := true }.move i thread .testing)
  | .testing =>
      if s.iget = s.iput then
        some ({ s with clifdMutex := false }.move i thread .waiting)
      else do
        let connfd ← s.clifd[s.iget]?
        some ({ s with
          iget := advance s.iget
          taken := s.taken ++ [(i, connfd)] }.move i thread (.unlocking connfd))
  | .waiting => none
  | .unlocking connfd =>
      some ({ s with clifdMutex := false }.move i
        { thread with threadCount := thread.threadCount + 1 } (.serving connfd))
  | .serving _ => some (s.move i thread .locking)

/-- The next step of the main thread or of another one. -/
def next (s : Server) : Event → Option Server
  | .accept connfd =>
      if s.main = .accepting then
        some { s with main := .locking connfd, accepted := s.accepted ++ [connfd] }
      else none
  | .main => s.mainStep
  | .signal woken => if s.main = .signalling then s.signalStep woken else none
  | .thread i => s.tptr[i]?.bind (s.threadStep i)
  | .wakeup i => do
      let thread ← s.tptr[i]?
      if thread.position = .waiting then some (s.move i thread .woken) else none

/-! ## What is in the ring -/

/-- The number of descriptors that were stored in `clifd`: all but the one that
the main thread is about to store. -/
def stored (s : Server) : Nat :=
  s.accepted.length - s.main.connfd.toList.length

section

variable (s : Server) (i : Nat) (thread : Thread) (position : Position)

@[simp]
theorem move_main : (s.move i thread position).main = s.main :=
  rfl

@[simp]
theorem move_clifdMutex : (s.move i thread position).clifdMutex = s.clifdMutex :=
  rfl

@[simp]
theorem move_taken : (s.move i thread position).taken = s.taken :=
  rfl

@[simp]
theorem move_stored : (s.move i thread position).stored = s.stored :=
  rfl

@[simp]
theorem move_tptr : (s.move i thread position).tptr =
    s.tptr.set i { thread with position := position } :=
  rfl

end

/-- Every thread is blocked in `Pthread_cond_wait`, and not woken up. -/
def Blocked (s : Server) : Prop :=
  ∀ thread ∈ s.tptr, thread.position = .waiting

/-- The main thread has stored a descriptor and not yet signalled. -/
def Unsignalled (s : Server) : Prop :=
  s.main = .signalling ∨ s.main = .quit

instance (s : Server) : Decidable s.Blocked :=
  inferInstanceAs (Decidable (∀ thread ∈ s.tptr, _))

instance (s : Server) : Decidable s.Unsignalled :=
  inferInstanceAs (Decidable (_ ∨ _))

end Server

end NetPractice.Prethreaded
