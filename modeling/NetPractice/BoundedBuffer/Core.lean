import NetPractice.Transition.Core
import NetPractice.Transition.Reachable

/-!
# A producer and a consumer

This module embeds `example03.c`.  `produce` waits while the buffer is full, and `consume`
while it is empty; each of them signals the condition that the other one waits for.  A step
is one call on the mutex or on a condition variable, or what is done to the buffer between
two such calls.
-/

namespace NetPractice.BoundedBuffer

open NetPractice.Transition

/-- How many values are put and got. -/
def NLOOP : Nat := 50

/-- How many values the buffer has room for. -/
def BUFFSIZE : Nat := 10

/-- `struct buf_t` without the mutex and the condition variables. -/
structure Buf where
  b_buf : List Nat
  b_nitems : Nat
  b_nextget : Nat
  b_nextput : Nat
  deriving DecidableEq, Repr

/-- `if (++index >= BUFFSIZE) index = 0`. -/
def advance (index : Nat) : Nat :=
  if BUFFSIZE ≤ index + 1 then 0 else index + 1

namespace Buf

/-- What `produce` does to the buffer when there is room. -/
def put (b : Buf) (val : Nat) : Buf :=
  { b with
    b_buf := b.b_buf.set b.b_nextput val
    b_nextput := advance b.b_nextput
    b_nitems := b.b_nitems + 1 }

/-- What `consume` does to the buffer when there is data. -/
def get (b : Buf) : Option (Nat × Buf) := do
  let val ← b.b_buf[b.b_nextget]?
  some (val, { b with b_nextget := advance b.b_nextget, b_nitems := b.b_nitems - 1 })

end Buf

/-- The two threads. -/
inductive Role
  | producer
  | consumer
  deriving DecidableEq, Repr

/-- The thread that a signal is for. -/
def Role.other : Role → Role
  | .producer => .consumer
  | .consumer => .producer

/-- The statement that comes next.  `waiting` is blocked in `Pthread_cond_wait`, and `woken`
has left the condition variable and has to lock the mutex again. -/
inductive Position
  | loop
  | locking
  | testing
  | waiting
  | woken
  | signalling
  | unlocking
  | returned
  deriving DecidableEq, Repr

/-- `produce_loop` or `consume_loop`, with its local variable. -/
structure Thread where
  i : Nat
  position : Position
  deriving DecidableEq, Repr

/-- The program once both threads are created.  `b_mutex` is set while the mutex is locked.
`consumed` has the values that `consume` returned or is about to return. -/
structure Program where
  buf : Buf
  b_mutex : Bool
  threads : Role → Thread
  consumed : List Nat

/-- The program behind both calls of `Pthread_create`. -/
def create : Program :=
  { buf := ⟨List.replicate BUFFSIZE 0, 0, 0, 0⟩
    b_mutex := false
    threads := fun _ => ⟨0, .loop⟩
    consumed := [] }

/-- `step` is a statement of a thread, and `wakeup` a `Pthread_cond_wait` that returns
without a signal. -/
inductive Event
  | step (role : Role)
  | wakeup (role : Role)
  deriving DecidableEq, Repr

namespace Program

/-- One thread is set, and the other one stays. -/
def setThread (s : Program) (role : Role) (thread : Thread) : Program :=
  { s with threads := Function.update s.threads role thread }

/-- The thread goes on at another statement. -/
def goto (s : Program) (role : Role) (position : Position) : Program :=
  s.setThread role { s.threads role with position := position }

/-- The condition of the loop around `Pthread_cond_wait`. -/
def mustWait (s : Program) : Role → Bool
  | .producer => BUFFSIZE ≤ s.buf.b_nitems
  | .consumer => s.buf.b_nitems ≤ 0

/-- What is done behind that loop. -/
def access (s : Program) : Role → Option Program
  | .producer => some { s with buf := s.buf.put (s.threads .producer).i }
  | .consumer => do
      let (val, buf) ← s.buf.get
      some { s with buf := buf, consumed := s.consumed ++ [val] }

/-- `Pthread_cond_signal` wakes up the other thread when that is blocked. -/
def wake (s : Program) (role : Role) : Program :=
  if (s.threads role).position = .waiting then s.goto role .woken else s

/-- One statement of a thread. -/
def step (nloop : Nat) (s : Program) (role : Role) : Option Program :=
  match (s.threads role).position with
  | .loop => some (s.goto role (if (s.threads role).i < nloop then .locking else .returned))
  | .locking | .woken =>
      if s.b_mutex then none else some ({ s with b_mutex := true }.goto role .testing)
  | .testing =>
      if s.mustWait role then some ({ s with b_mutex := false }.goto role .waiting)
      else do
        let s ← s.access role
        some (s.goto role .signalling)
  | .waiting | .returned => none
  | .signalling => some ((s.wake role.other).goto role .unlocking)
  | .unlocking =>
      some ({ s with b_mutex := false }.setThread role ⟨(s.threads role).i + 1, .loop⟩)

/-- A statement of a thread, or a return of `Pthread_cond_wait` without a signal. -/
def next (nloop : Nat) (s : Program) : Event → Option Program
  | .step role => s.step nloop role
  | .wakeup role =>
      if (s.threads role).position = .waiting then some (s.goto role .woken) else none

/-- Both threads have returned, so that `main` has joined them. -/
def Joined (s : Program) : Prop :=
  ∀ role, (s.threads role).position = .returned

end Program

end NetPractice.BoundedBuffer
