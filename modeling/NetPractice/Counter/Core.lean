import NetPractice.Transition.Reachable
import NetPractice.Transition.Threads

/-!
# Two threads that increment a counter

This module embeds `example01.c` and `example02.c`.  Both threads run `doit`, which fetches,
prints and increments the global counter `NLOOP` times.  In `example02.c` it does so with
`counter_mutex` locked.  A step is one statement of one thread.
-/

namespace NetPractice.Counter

open NetPractice.Transition

/-- How often each thread increments the counter. -/
def NLOOP : Nat := 5000

/-- `doit`, by the statement that comes next, with its locals `i` and `val`. -/
inductive Control
  | test (i : Nat)
  | lock (i : Nat)
  | fetch (i : Nat)
  | print (i val : Nat)
  | store (i val : Nat)
  | unlock (i : Nat)
  | returned
  deriving DecidableEq, Repr

/-- The program once both threads are created.  `counterMutex` is set while the mutex is
locked.  `printed` has the lines of output: the thread and the value. -/
structure Program where
  counter : Nat
  counterMutex : Bool
  doit : List Control
  printed : List (Nat × Nat)
  deriving DecidableEq, Repr

/-- The program behind both calls of `Pthread_create`. -/
def create : Program :=
  { counter := 0
    counterMutex := false
    doit := [.test 0, .test 0]
    printed := [] }

namespace Program

/-- The thread goes on at another statement. -/
def goto (s : Program) (thread : Nat) (control : Control) : Program :=
  { s with doit := s.doit.set thread control }

/-- One statement of a thread.  `locks` is set for `example02.c`. -/
def step (locks : Bool) (nloop : Nat) (s : Program) (thread : Nat) : Control → Option Program
  | .test i =>
      if i < nloop then some (s.goto thread (if locks then .lock i else .fetch i))
      else some (s.goto thread .returned)
  | .lock i =>
      if s.counterMutex then none
      else some ({ s with counterMutex := true }.goto thread (.fetch i))
  | .fetch i => some (s.goto thread (.print i s.counter))
  | .print i val =>
      some ({ s with printed := s.printed ++ [(thread, val + 1)] }.goto thread (.store i val))
  | .store i val =>
      some ({ s with counter := val + 1 }.goto thread
        (if locks then .unlock i else .test (i + 1)))
  | .unlock i => some ({ s with counterMutex := false }.goto thread (.test (i + 1)))
  | .returned => none

/-- A step of the program is one of a thread that is scheduled. -/
def next (locks : Bool) (nloop : Nat) (s : Program) (thread : Nat) : Option Program :=
  s.doit[thread]?.bind (s.step locks nloop thread)

/-- Both threads have returned, so that `main` has joined them. -/
def Joined (s : Program) : Prop :=
  ∀ control ∈ s.doit, control = .returned

end Program

/-! ## What the threads have done -/

/-- The number of values that a thread has stored. -/
def Control.stored (nloop : Nat) : Control → Nat
  | .test i | .lock i | .fetch i | .print i _ | .store i _ => i
  | .unlock i => i + 1
  | .returned => nloop

/-- The statements that a thread still executes. -/
def Control.left (nloop : Nat) : Control → Nat
  | .test i => 6 * (nloop - i) + 1
  | .lock i => 6 * (nloop - i)
  | .fetch i => 6 * (nloop - i) - 1
  | .print i _ => 6 * (nloop - i) - 2
  | .store i _ => 6 * (nloop - i) - 3
  | .unlock i => 6 * (nloop - i) - 4
  | .returned => 0

/-- The count of a thread in its loop. -/
def Control.Counts (nloop : Nat) : Control → Prop
  | .test i => i ≤ nloop
  | .lock i | .fetch i | .print i _ | .store i _ | .unlock i => i < nloop
  | .returned => True

namespace Program

/-- The values that were stored. -/
def stored (nloop : Nat) (s : Program) : Nat :=
  total (Control.stored nloop) s.doit

/-- The statements that are still executed. -/
def left (nloop : Nat) (s : Program) : Nat :=
  total (Control.left nloop) s.doit

section Steps

variable {locks : Bool} {nloop thread : Nat} {s t : Program} {old : Control}

@[simp]
theorem goto_counter (control : Control) : (s.goto thread control).counter = s.counter :=
  rfl

@[simp]
theorem goto_counterMutex (control : Control) :
    (s.goto thread control).counterMutex = s.counterMutex :=
  rfl

@[simp]
theorem goto_printed (control : Control) : (s.goto thread control).printed = s.printed :=
  rfl

@[simp]
theorem goto_doit (control : Control) :
    (s.goto thread control).doit = s.doit.set thread control :=
  rfl

theorem next_eq_some_iff :
    s.next locks nloop thread = some t ↔
      ∃ control, s.doit[thread]? = some control ∧ s.step locks nloop thread control = some t :=
  Option.bind_eq_some_iff

/-- A thread goes from one statement to the next one, which is closer to the end. -/
theorem step_control (counts : old.Counts nloop) (step : s.step locks nloop thread old = some t) :
    ∃ new, t.doit = s.doit.set thread new ∧ new.Counts nloop ∧
      new.left nloop < old.left nloop := by
  cases old with
  | test i =>
      by_cases more : i < nloop
      · rw [Program.step, if_pos more] at step
        cases step
        refine ⟨_, rfl, ?_⟩
        cases locks <;> simp only [Control.Counts, Control.left, Bool.false_eq_true, if_true,
          if_false] <;> omega
      · rw [Program.step, if_neg more] at step
        cases step
        exact ⟨_, rfl, trivial, Nat.succ_pos _⟩
  | lock i =>
      rcases Option.ite_none_left_eq_some.mp step with ⟨-, moved⟩
      cases moved
      refine ⟨_, rfl, counts, ?_⟩
      simp only [Control.Counts, Control.left] at counts ⊢
      omega
  | store i val =>
      cases step
      refine ⟨_, rfl, ?_⟩
      simp only [Control.Counts] at counts
      cases locks <;> simp only [Control.Counts, Control.left, Bool.false_eq_true, if_true,
        if_false] <;> omega
  | fetch i | print i val | unlock i =>
      cases step
      refine ⟨_, rfl, ?_⟩
      simp only [Control.Counts, Control.left] at counts ⊢
      omega
  | returned => cases step

/-- Both threads are in their loops, or have returned. -/
structure Looping (nloop : Nat) (s : Program) : Prop where
  both : s.doit.length = 2
  counts : ∀ control ∈ s.doit, control.Counts nloop

theorem create_looping (nloop : Nat) : create.Looping nloop where
  both := rfl
  counts control mem := by
    have first : control = .test 0 := by simpa [create] using mem
    rw [first]
    exact Nat.zero_le nloop

/-- Every step is one statement less to come. -/
theorem lowers_left (locks : Bool) (nloop : Nat) :
    Lowers (next locks nloop) (Looping nloop) (left nloop) := by
  intro s thread t looping step
  rcases next_eq_some_iff.mp step with ⟨old, running, step⟩
  rcases step_control (looping.counts old (List.mem_of_getElem? running)) step with
    ⟨new, moved, counts, less⟩
  refine ⟨⟨?_, ?_⟩, ?_⟩
  · rw [moved, List.length_set, looping.both]
  · intro control mem
    rw [moved] at mem
    rcases List.mem_or_eq_of_mem_set mem with other | rfl
    · exact looping.counts control other
    · exact counts
  · have change := total_set (Control.left nloop) running new
    rw [left, left, moved]
    omega

theorem Joined.eq_replicate (looping : s.Looping nloop) (joined : s.Joined) :
    s.doit = List.replicate 2 .returned :=
  List.eq_replicate_iff.mpr ⟨looping.both, joined⟩

theorem Joined.stored (looping : s.Looping nloop) (joined : s.Joined) :
    s.stored nloop = 2 * nloop := by
  rw [Program.stored, joined.eq_replicate looping, total_replicate]
  rfl

end Steps

end Program

end NetPractice.Counter
