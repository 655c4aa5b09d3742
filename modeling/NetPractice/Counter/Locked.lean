import NetPractice.Counter.Core

/-!
# The counter with a mutex

Whoever has the mutex locked is alone between fetching and storing.  So what was fetched is
still the value of the counter when one more is stored, and every value is printed once, in
order.  A thread can only be held up by the other one, which is then able to go on.
-/

namespace NetPractice.Counter

open NetPractice.Transition

/-! ## Weights -/

/-- Whether the thread has locked the mutex. -/
def Control.holds : Control → Nat
  | .fetch _ | .print _ _ | .store _ _ | .unlock _ => 1
  | .test _ | .lock _ | .returned => 0

/-- Whether the thread has printed a value that it has not stored. -/
def Control.pending : Control → Nat
  | .store _ _ => 1
  | .test _ | .lock _ | .fetch _ | .print _ _ | .unlock _ | .returned => 0

/-- The value that the thread has fetched. -/
def Control.val : Control → Option Nat
  | .print _ val | .store _ val => some val
  | .test _ | .lock _ | .fetch _ | .unlock _ | .returned => none

theorem Control.holds_of_val {control : Control} {val : Nat} (fetched : val ∈ control.val) :
    control.holds = 1 := by
  cases control with
  | print i value | store i value => rfl
  | test i | lock i | fetch i | unlock i | returned => cases fetched

namespace Program

/-- The invariant. -/
structure Exclusive (nloop : Nat) (s : Program) : Prop extends Looping nloop s where
  holders : total Control.holds s.doit = if s.counterMutex then 1 else 0
  counted : s.counter = s.stored nloop
  current : ∀ control ∈ s.doit, ∀ val ∈ control.val, val = s.counter
  ascending : s.printed.map Prod.snd =
    List.range' 1 (s.counter + total Control.pending s.doit)

section Steps

variable {nloop thread : Nat} {s t : Program} {old new : Control}

/-- A step that neither prints nor stores. -/
theorem Exclusive.moves (exclusive : s.Exclusive nloop) (looping : t.Looping nloop)
    (running : s.doit[thread]? = some old) (moved : t.doit = s.doit.set thread new)
    (holders : (if t.counterMutex then 1 else 0) + old.holds =
      (if s.counterMutex then 1 else 0) + new.holds)
    (same : t.counter = s.counter) (printed : t.printed = s.printed)
    (stored : new.stored nloop = old.stored nloop) (pending : new.pending = old.pending)
    (fetches : ∀ val ∈ new.val, val ∈ old.val ∨ val = s.counter) : t.Exclusive nloop := by
  refine ⟨looping, ?_, ?_, ?_, ?_⟩
  · have change := total_set Control.holds running new
    have before := exclusive.holders
    rw [moved]
    omega
  · have change := total_set (Control.stored nloop) running new
    have before := exclusive.counted
    unfold Program.stored at before ⊢
    rw [moved, same]
    omega
  · intro control mem val value
    rw [moved] at mem
    rw [same]
    rcases List.mem_or_eq_of_mem_set mem with other | rfl
    · exact exclusive.current control other val value
    · rcases fetches val value with before | equal
      · exact exclusive.current old (List.mem_of_getElem? running) val before
      · exact equal
  · have change := total_set Control.pending running new
    have equal : total Control.pending t.doit = total Control.pending s.doit := by
      rw [moved]
      omega
    rw [printed, same, equal]
    exact exclusive.ascending

/-- The thread with the mutex is alone. -/
theorem Exclusive.alone (exclusive : s.Exclusive nloop) (running : s.doit[thread]? = some old)
    (holds : old.holds = 1) {i : Nat} {other : Control} (found : s.doit[i]? = some other)
    (different : i ≠ thread) : other.holds = 0 := by
  have two := add_le_total Control.holds running found (Ne.symm different)
  have holders := exclusive.holders
  split at holders <;> omega

theorem Exclusive.locked (exclusive : s.Exclusive nloop) (running : s.doit[thread]? = some old)
    (holds : old.holds = 1) : s.counterMutex = true := by
  have some := weight_le_total Control.holds (List.mem_of_getElem? running)
  have holders := exclusive.holders
  by_contra free
  rw [if_neg free] at holders
  omega

theorem Exclusive.prints {i val : Nat} (exclusive : s.Exclusive nloop)
    (running : s.doit[thread]? = some (.print i val))
    (step : s.step true nloop thread (.print i val) = some t) (looping : t.Looping nloop) :
    t.Exclusive nloop := by
  have current := exclusive.current _ (List.mem_of_getElem? running) val rfl
  have nobody : total Control.pending s.doit = 0 := by
    apply total_eq_zero_iff.mpr
    intro control mem
    rcases List.getElem?_of_mem mem with ⟨j, found⟩
    by_cases acting : j = thread
    · subst acting
      cases Option.some.inj (running.symm.trans found)
      rfl
    · have idle := exclusive.alone running rfl found acting
      cases control <;> simp_all [Control.holds, Control.pending]
  cases step
  refine ⟨looping, ?_, ?_, ?_, ?_⟩
  · have change := total_set Control.holds running (.store i val)
    have before := exclusive.holders
    simp only [Control.holds] at change
    change total Control.holds (s.doit.set thread (.store i val)) = if s.counterMutex then 1 else 0
    rw [← before]
    omega
  · have change := total_set (Control.stored nloop) running (.store i val)
    have before := exclusive.counted
    simp only [Control.stored] at change
    unfold Program.stored at before ⊢
    simp only [goto_doit, goto_counter]
    omega
  · intro control mem value fetched
    rcases List.mem_or_eq_of_mem_set mem with other | rfl
    · exact exclusive.current control other value fetched
    · cases fetched
      exact current
  · have change := total_set Control.pending running (.store i val)
    have ascending := exclusive.ascending
    simp only [Control.pending, nobody] at change
    rw [nobody, Nat.add_zero] at ascending
    have one : total Control.pending (s.doit.set thread (.store i val)) = 1 := by omega
    simp only [goto_doit, goto_counter, goto_printed, List.map_append, List.map_cons,
      List.map_nil]
    rw [one, ascending, current, List.range'_1_concat, Nat.add_comm 1]

theorem Exclusive.stores {i val : Nat} (exclusive : s.Exclusive nloop)
    (running : s.doit[thread]? = some (.store i val))
    (step : s.step true nloop thread (.store i val) = some t) (looping : t.Looping nloop) :
    t.Exclusive nloop := by
  have current := exclusive.current _ (List.mem_of_getElem? running) val rfl
  cases step
  refine ⟨looping, ?_, ?_, ?_, ?_⟩
  · have change := total_set Control.holds running (.unlock i)
    have before := exclusive.holders
    simp only [Control.holds] at change
    simp only [goto_doit, goto_counterMutex, if_true]
    omega
  · have change := total_set (Control.stored nloop) running (.unlock i)
    have before := exclusive.counted
    simp only [Control.stored] at change
    unfold Program.stored at before ⊢
    simp only [goto_doit, goto_counter, if_true]
    omega
  · intro control mem value fetched
    rcases List.getElem?_of_mem mem with ⟨j, found⟩
    by_cases acting : j = thread
    · subst acting
      rw [goto_doit, List.getElem?_set_self (List.getElem?_eq_some_iff.mp running).1] at found
      cases found
      cases fetched
    · rw [goto_doit, List.getElem?_set_ne (Ne.symm acting)] at found
      have idle := exclusive.alone running rfl found acting
      rw [control.holds_of_val fetched] at idle
      cases idle
  · have change := total_set Control.pending running (.unlock i)
    have ascending := exclusive.ascending
    simp only [Control.pending] at change
    simp only [goto_doit, goto_counter, goto_printed, if_true]
    rw [ascending, current]
    congr 1
    omega

theorem Exclusive.next (exclusive : s.Exclusive nloop) (step : s.next true nloop thread = some t) :
    t.Exclusive nloop := by
  have looping := (lowers_left true nloop exclusive.toLooping step).1
  rcases next_eq_some_iff.mp step with ⟨old, running, step⟩
  have counts := exclusive.counts old (List.mem_of_getElem? running)
  cases old with
  | test i =>
      by_cases more : i < nloop
      · rw [Program.step, if_pos more] at step
        cases step
        exact exclusive.moves looping running rfl rfl rfl rfl rfl rfl fun val mem => by cases mem
      · rw [Program.step, if_neg more] at step
        cases step
        exact exclusive.moves looping running rfl rfl rfl rfl
          (Nat.le_antisymm (Nat.le_of_not_lt more) counts) rfl fun val mem => by cases mem
  | lock i =>
      rcases Option.ite_none_left_eq_some.mp step with ⟨free, moved⟩
      cases moved
      refine exclusive.moves looping running rfl ?_ rfl rfl rfl rfl fun val mem => by cases mem
      rw [if_neg free]
      rfl
  | fetch i =>
      cases step
      exact exclusive.moves looping running rfl rfl rfl rfl rfl rfl
        fun val mem => .inr (Option.some.inj mem).symm
  | print i val => exact exclusive.prints running step looping
  | store i val => exact exclusive.stores running step looping
  | unlock i =>
      have locked := exclusive.locked running rfl
      cases step
      refine exclusive.moves looping running rfl ?_ rfl rfl rfl rfl fun val mem => by cases mem
      rw [locked]
      rfl
  | returned => cases step

theorem create_exclusive (nloop : Nat) : create.Exclusive nloop where
  toLooping := create_looping nloop
  holders := rfl
  counted := rfl
  current control mem val fetched := by
    have first : control = .test 0 := by simpa [create] using mem
    rw [first] at fetched
    cases fetched
  ascending := rfl

/-! ## What is reached -/

/-- A thread that cannot go on has returned, or waits for the mutex. -/
theorem step_isSome (unlocked : s.counterMutex = false ∨ old.holds = 1)
    (running : old ≠ .returned) :
    (s.step true nloop thread old).isSome := by
  cases old with
  | test i =>
      rw [Program.step]
      split <;> rfl
  | lock i =>
      rcases unlocked with free | holds
      · rw [Program.step, free]
        rfl
      · cases holds
  | fetch i | print i val | store i val | unlock i => rfl
  | returned => exact absurd rfl running

theorem Exclusive.halted_iff (exclusive : s.Exclusive nloop) :
    Halted (Program.next true nloop) s ↔ s.Joined := by
  have goes : ∀ (thread : Nat) (control : Control), Halted (Program.next true nloop) s →
      s.doit[thread]? = some control → control ≠ .returned →
        ¬ (s.counterMutex = false ∨ control.holds = 1) := by
    intro thread control halted found running unlocked
    have possible : (s.step true nloop thread control).isSome := step_isSome unlocked running
    have none := halted thread
    rw [Program.next, found, Option.bind_some] at none
    rw [none] at possible
    cases possible
  constructor
  · intro halted control mem
    by_contra running
    rcases List.getElem?_of_mem mem with ⟨i, found⟩
    have blocked := goes i control halted found running
    rw [not_or, Bool.not_eq_false] at blocked
    have holders := exclusive.holders
    rw [if_pos blocked.1] at holders
    rcases exists_of_total_pos (Nat.lt_of_lt_of_eq Nat.one_pos holders.symm) with
      ⟨j, holder, foundHolder, holds⟩
    have one : holder.holds = 1 := by
      have most := weight_le_total Control.holds (List.mem_of_getElem? foundHolder)
      omega
    refine goes j holder halted foundHolder ?_ (.inr one)
    rintro rfl
    cases one
  · intro joined thread
    cases found : s.doit[thread]? with
    | none => rw [Program.next, found, Option.bind_none]
    | some control =>
        rw [Program.next, found, Option.bind_some, joined control (List.mem_of_getElem? found)]
        rfl

/-- Every schedule prints 1, 2, 3 and so on, is over after a bounded number of statements,
cannot get stuck, and counts what both threads add. -/
theorem locked_counts {events : List Nat}
    (finished : run (Program.next true nloop) create events = some s) :
    s.printed.map Prod.snd = List.range' 1 s.printed.length ∧
      events.length ≤ 2 * (6 * nloop + 1) ∧
      (Halted (Program.next true nloop) s ↔ s.Joined) ∧
      (s.Joined → s.counter = 2 * nloop ∧ s.printed.length = 2 * nloop) := by
  have exclusive := invariant_run (fun _ _ _ exclusive => Exclusive.next exclusive)
    (create_exclusive nloop) finished
  have ascending := exclusive.ascending
  have length_eq : s.printed.length = s.counter + total Control.pending s.doit := by
    rw [← List.length_map (f := Prod.snd), ascending, List.length_range']
  refine ⟨?_, ?_, exclusive.halted_iff, ?_⟩
  · rw [ascending, length_eq]
  · have bound := (lowers_left true nloop).length_le (create_looping nloop) finished
    have all : create.left nloop = 2 * (6 * nloop + 1) := by
      simp only [Program.left, create, total_cons, total_nil, Control.left]
      omega
    omega
  · intro joined
    have counter : s.counter = 2 * nloop :=
      exclusive.counted.trans (joined.stored exclusive.toLooping)
    have none : total Control.pending s.doit = 0 := by
      apply total_eq_zero_iff.mpr
      intro control mem
      rw [joined control mem]
      rfl
    rw [length_eq, none, counter]
    exact ⟨rfl, rfl⟩

/-- The second thread waits for the first one. -/
theorem locked_counts_contended :
    let events := [0, 1, 0, 0, 0, 0, 0, 1, 1, 1, 1, 0, 1, 1]
    let s : Program := ⟨2, false, [.returned, .returned], [(0, 1), (1, 2)]⟩
    run (Program.next true 1) create events = some s ∧ events.length ≤ 2 * (6 * 1 + 1) ∧
      Halted (Program.next true 1) s ∧ s.counter = 2 * 1 ∧ s.printed.length = 2 * 1 := by
  intro events s
  have finished : run (Program.next true 1) create events = some s := by decide
  have joined : s.Joined := by
    intro control mem
    simpa [s] using mem
  rcases locked_counts finished with ⟨-, bound, halted, counted⟩
  exact ⟨finished, bound, halted.mpr joined, counted joined⟩

end Steps

end Program

end NetPractice.Counter
