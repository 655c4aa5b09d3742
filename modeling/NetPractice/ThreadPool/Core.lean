import NetPractice.Transition.Core
import NetPractice.Transition.Threads

/-!
# The thread pool

This module embeds `append` and `run` of `threadpool.h`, with the mutex and the
semaphore of `locker.h`.  A step is one statement that another thread can see:
`lock`, the work on the queue between `lock` and `unlock`, `unlock`, `post`,
`wait`, and the call of `process`.

The pool is not destroyed while threads use it, so that `m_stop` stays false.
-/

namespace NetPractice.ThreadPool

open NetPractice.Transition

universe u

variable {R : Type u}

/-- A thread that calls `append`, by the statement that comes next.  A request is
a pointer, which may be null.  `unlocking` and `posting` keep the number of the
request among all requests that have been pushed. -/
inductive Appender (R : Type u) where
  | outside
  | locking (request : Option R)
  | testing (request : Option R)
  | refusing
  | unlocking (ticket : Nat) (request : Option R)
  | posting (ticket : Nat) (request : Option R)

/-- A worker in `run`, by the statement that comes next.  `unlocking` has what was
removed from the queue, if it was not empty. -/
inductive Worker (R : Type u) where
  | waiting
  | locking
  | testing
  | unlocking (removed : Option (Option R))
  | processing (request : R)

/-- `threadpool`.  `queuelocker` is set while the mutex is locked, and `queuestat`
is the value of the semaphore.  `pushed` and `popped` have all requests that were
put into the queue and taken out of it, with the worker that took them, and
`accepted` those for which `append` has returned `true`. -/
structure Pool (R : Type u) where
  maxRequests : Nat
  workqueue : List (Option R)
  queuelocker : Bool
  queuestat : Nat
  appenders : List (Appender R)
  workers : List (Worker R)
  pushed : List (Option R)
  popped : List (Nat × Option R)
  accepted : List (Nat × Option R)

/-- The constructor, which throws an exception for a number that is not positive;
`appenders` is the number of threads that will call `append`. -/
def create (threadNumber maxRequests : Int) (appenders : Nat) : Option (Pool R) :=
  if threadNumber ≤ 0 ∨ maxRequests ≤ 0 then none
  else some {
    maxRequests := maxRequests.toNat
    workqueue := []
    queuelocker := false
    queuestat := 0
    appenders := List.replicate appenders .outside
    workers := List.replicate threadNumber.toNat .waiting
    pushed := []
    popped := []
    accepted := [] }

/-- Which thread takes a step, by its place among the appenders or the workers.
`interrupt` is a `wait` that returns with an error. -/
inductive Event (R : Type u) where
  | call (appender : Nat) (request : Option R)
  | append (appender : Nat)
  | run (worker : Nat)
  | interrupt (worker : Nat)

namespace Pool

/-- The next statement of `append`. -/
def appendStep (s : Pool R) (i : Nat) : Appender R → Option (Pool R)
  | .outside => none
  | .locking request =>
      if s.queuelocker then none
      else some { s with
        queuelocker := true
        appenders := s.appenders.set i (.testing request) }
  | .testing request =>
      if s.workqueue.length > s.maxRequests then
        some { s with appenders := s.appenders.set i .refusing }
      else
        some { s with
          workqueue := s.workqueue ++ [request]
          pushed := s.pushed ++ [request]
          appenders := s.appenders.set i (.unlocking s.pushed.length request) }
  | .refusing =>
      some { s with
        queuelocker := false
        appenders := s.appenders.set i .outside }
  | .unlocking ticket request =>
      some { s with
        queuelocker := false
        appenders := s.appenders.set i (.posting ticket request) }
  | .posting ticket request =>
      some { s with
        queuestat := s.queuestat + 1
        accepted := s.accepted ++ [(ticket, request)]
        appenders := s.appenders.set i .outside }

/-- Behind `unlock`, a request is processed, and a null pointer is skipped. -/
def afterUnlock : Option (Option R) → Worker R
  | none | some none => .waiting
  | some (some request) => .processing request

/-- The next statement of `run`. -/
def runStep (s : Pool R) (i : Nat) : Worker R → Option (Pool R)
  | .waiting =>
      if s.queuestat = 0 then none
      else some { s with
        queuestat := s.queuestat - 1
        workers := s.workers.set i .locking }
  | .locking =>
      if s.queuelocker then none
      else some { s with
        queuelocker := true
        workers := s.workers.set i .testing }
  | .testing =>
      match s.workqueue with
      | [] => some { s with workers := s.workers.set i (.unlocking none) }
      | request :: workqueue =>
          some { s with
            workqueue := workqueue
            popped := s.popped ++ [(i, request)]
            workers := s.workers.set i (.unlocking (some request)) }
  | .unlocking removed =>
      some { s with
        queuelocker := false
        workers := s.workers.set i (afterUnlock removed) }
  | .processing _ => some { s with workers := s.workers.set i .waiting }

/-- The next step of an appending thread or of a worker. -/
def next (s : Pool R) : Event R → Option (Pool R)
  | .call i request =>
      match s.appenders[i]? with
      | some .outside => some { s with appenders := s.appenders.set i (.locking request) }
      | _ => none
  | .append i => s.appenders[i]?.bind (s.appendStep i)
  | .run i => s.workers[i]?.bind (s.runStep i)
  | .interrupt i =>
      match s.workers[i]? with
      | some .waiting => some { s with workers := s.workers.set i .locking }
      | _ => none

/-! ## Threads that block, and threads between two statements -/

/-- Every worker is blocked in `wait`. -/
def Blocked (s : Pool R) : Prop :=
  ∀ worker ∈ s.workers, worker = .waiting ∧ s.queuestat = 0

end Pool

/-- The request that a call of `append` has pushed and not yet posted. -/
def Appender.pending : Appender R → Option (Nat × Option R)
  | .unlocking ticket request | .posting ticket request => some (ticket, request)
  | .outside | .locking _ | .testing _ | .refusing => none

/-- No call of `append` is between its push and its post. -/
def Pool.Posted (s : Pool R) : Prop :=
  ∀ appender ∈ s.appenders, appender.pending = none

end NetPractice.ThreadPool
