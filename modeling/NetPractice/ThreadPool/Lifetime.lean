import NetPractice.ThreadPool.Core

/-!
# Construction and destruction of the thread pool

The constructor of `threadpool` creates its workers one by one, and a worker runs from
then on, also while the constructor fails or the destructor returns.  A step is one
call or statement of the constructor or the destructor, the test `while(!m_stop)` of
one worker, or a step of the threads inside the pool.

A call that fails is followed by `delete[] m_threads` and the destructors of the
members in one step, since no thread sees what lies between.  An access to a destroyed
queue, lock or semaphore is undefined, and `m_stop` of a destroyed pool has any value.
-/

namespace NetPractice.ThreadPool

open NetPractice.Transition

universe u

variable {R : Type u}

/-- The thread that owns the pool, by the call or statement that comes next.  `thrown`
is behind an exception of the constructor, and `destroyed` behind the destructor. -/
inductive Owner where
  | allocating
  | creating (i : Nat)
  | detaching (i : Nat)
  | built
  | stopping
  | thrown
  | destroyed
  deriving DecidableEq, Repr

/-- Where a worker is in `run`: at the test of `m_stop`, in the body of the loop, or
behind the loop. -/
inductive Stage where
  | test
  | body
  | left
  deriving DecidableEq, Repr

/-- A started worker. -/
structure Thread where
  stage : Stage
  detached : Bool
  deriving DecidableEq, Repr

/-- The object with its workers.  `array` is set while `m_threads` is allocated, and
`members` while the queue, the lock and the semaphore are constructed. -/
structure Lifetime (R : Type u) where
  threadNumber : Nat
  owner : Owner
  array : Bool
  members : Bool
  stop : Bool
  threads : List Thread
  pool : Pool R

/-- `allocate`, `create` and `detach` have the outcome of `new`, `pthread_create` and
`pthread_detach`, and `test` the value of `m_stop` that the worker reads. -/
inductive Act (R : Type u) where
  | allocate (succeeds : Bool)
  | create (succeeds : Bool)
  | detach (succeeds : Bool)
  | stop
  | destroy
  | test (worker : Nat) (stop : Bool)
  | thread (event : Event R)

/-- The statement uses the queue, the lock or the semaphore. -/
def Worker.accesses : Worker R → Bool
  | .waiting | .locking | .testing | .unlocking _ => true
  | .processing _ => false

/-- The worker is at the beginning of the loop's body. -/
def Worker.begins : Worker R → Bool
  | .waiting => true
  | .locking | .testing | .unlocking _ | .processing _ => false

namespace Lifetime

/-- The constructor is entered, and has constructed the members; it throws an exception
for a number that is not positive. -/
def construct (threadNumber maxRequests : Int) (appenders : Nat) : Lifetime R where
  threadNumber := threadNumber.toNat
  owner := if threadNumber ≤ 0 ∨ maxRequests ≤ 0 then .thrown else .allocating
  array := false
  members := ! decide (threadNumber ≤ 0 ∨ maxRequests ≤ 0)
  stop := false
  threads := []
  pool := {
    maxRequests := maxRequests.toNat
    workqueue := []
    queuelocker := false
    queuestat := 0
    appenders := List.replicate appenders .outside
    workers := []
    pushed := []
    popped := []
    accepted := [] }

/-- `delete[] m_threads` and the exception, which destroys the members. -/
def throwing (s : Lifetime R) : Lifetime R :=
  { s with
    owner := .thrown
    array := false
    members := false }

/-- The worker is about to use the queue, the lock or the semaphore, or is blocked in
doing so. -/
def accesses (s : Lifetime R) (i : Nat) : Bool :=
  match s.threads[i]?, s.pool.workers[i]? with
  | some ⟨.body, _⟩, some worker => worker.accesses
  | _, _ => false

/-- A step of the threads inside the pool: a call of `append` on the constructed pool,
or a statement in the body of the loop of a worker. -/
def threadStep (s : Lifetime R) : Event R → Option (Lifetime R)
  | .call i request =>
      if s.owner = .built then
        (s.pool.next (.call i request)).map fun pool => { s with pool := pool }
      else none
  | .append i =>
      if s.members = true then
        (s.pool.next (.append i)).map fun pool => { s with pool := pool }
      else none
  | .run i =>
      match s.threads[i]? with
      | some ⟨.body, detached⟩ =>
          if s.accesses i = true ∧ s.members = false then none
          else (s.pool.next (.run i)).map fun pool =>
            -- A worker that is back at `wait` tests `m_stop` first.
            let stage := if pool.workers[i]?.any Worker.begins then .test else .body
            { s with
              pool := pool
              threads := s.threads.set i ⟨stage, detached⟩ }
      | _ => none
  | .interrupt i =>
      match s.threads[i]? with
      | some ⟨.body, _⟩ =>
          if s.members = true then
            (s.pool.next (.interrupt i)).map fun pool => { s with pool := pool }
          else none
      | _ => none

/-- The next act of the owner or of a thread. -/
def next (s : Lifetime R) : Act R → Option (Lifetime R)
  | .allocate succeeds =>
      if s.owner = .allocating then
        some (if succeeds then { s with owner := .creating 0, array := true } else s.throwing)
      else none
  | .create succeeds =>
      match s.owner with
      | .creating i =>
          some (if succeeds then
            { s with
              owner := .detaching i
              threads := s.threads ++ [⟨.test, false⟩]
              pool := { s.pool with workers := s.pool.workers ++ [.waiting] } }
          else s.throwing)
      | _ => none
  | .detach succeeds =>
      match s.owner with
      | .detaching i =>
          some (if succeeds then
            { s with
              owner := if i + 1 < s.threadNumber then .creating (i + 1) else .built
              threads := s.threads.modify i fun thread => { thread with detached := true } }
          else s.throwing)
      | _ => none
  | .stop =>
      if s.owner = .built then
        some { s with owner := .stopping, array := false, stop := true }
      else none
  | .destroy =>
      if s.owner = .stopping then some { s with owner := .destroyed, members := false }
      else none
  | .test i stop =>
      match s.threads[i]? with
      | some ⟨.test, detached⟩ =>
          if s.members = true ∧ stop ≠ s.stop then none
          else
            let stage := if stop then .left else .body
            some { s with threads := s.threads.set i ⟨stage, detached⟩ }
      | _ => none
  | .thread event => s.threadStep event

/-! ## All or nothing -/

/-- Behind an exception of the constructor, every started worker has left `run` and is
detached, and nothing of the pool remains; a constructed pool has `m_thread_number`
detached workers in `run`; and behind the destructor, no worker uses the queue, the lock
or the semaphore. -/
structure AllOrNothing (s : Lifetime R) : Prop where
  thrown : s.owner = .thrown → s.array = false ∧ s.members = false ∧
    ∀ thread ∈ s.threads, thread.stage = .left ∧ thread.detached = true
  built : s.owner = .built → s.threads.length = s.threadNumber ∧
    ∀ thread ∈ s.threads, thread.stage ≠ .left ∧ thread.detached = true
  destroyed : s.owner = .destroyed → s.array = false ∧ s.members = false ∧
    ∀ i, s.accesses i = false

/-- The constructor fails before it has started a worker; when the destructor returns,
each worker is at the test of `m_stop`, in `process` or behind the loop; and a worker
that tests `m_stop` afterwards still finds it set. -/
def Orderly (s : Lifetime R) : Act R → Prop
  | .create succeeds => succeeds = true ∨ s.threads = []
  | .detach succeeds => succeeds = true
  | .destroy => ∀ i < s.threads.length, s.accesses i = false
  | .test _ stop => s.owner = .destroyed → stop = true
  | .allocate _ | .stop | .thread _ => True

instance (s : Lifetime R) : ∀ act, Decidable (s.Orderly act)
  | .create succeeds => inferInstanceAs (Decidable (succeeds = true ∨ s.threads = []))
  | .detach succeeds => inferInstanceAs (Decidable (succeeds = true))
  | .destroy => inferInstanceAs (Decidable (∀ i < s.threads.length, s.accesses i = false))
  | .test _ stop => inferInstanceAs (Decidable (s.owner = .destroyed → stop = true))
  | .allocate _ | .stop | .thread _ => isTrue trivial

end Lifetime

end NetPractice.ThreadPool
