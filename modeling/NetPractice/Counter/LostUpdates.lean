import NetPractice.Counter.Core
import Mathlib.Order.Interval.Set.Basic

/-!
# The counter without a mutex

A value that is stored is one more than one that was fetched, and there may have been other
values in between.  So no more is counted than what both threads add.  As little as 2 is
counted when each thread keeps an old value while the other one goes through its loop: the
last value that is stored was fetched by a thread that had already stored one.
-/

namespace NetPractice.Counter.Program

open NetPractice.Transition

/-! ## Bounds of the counter -/

/-- The value that a thread has fetched. -/
def fetched : Control → Option Nat
  | .print _ val | .store _ val => some val
  | .test _ | .lock _ | .fetch _ | .unlock _ | .returned => none

section Bounds

variable {nloop thread : Nat} {s t : Program} {old : Control}

/-- The invariant.  The thread that stored last may have stored only once. -/
structure Bounded (nloop : Nat) (s : Program) : Prop extends Looping nloop s where
  counter_le : s.counter ≤ s.stored nloop
  fetched_le : ∀ control ∈ s.doit, ∀ val ∈ fetched control, val ≤ s.stored nloop
  counter_pos : 0 < s.stored nloop → 0 < s.counter
  fetched_pos : ∀ control ∈ s.doit, ∀ val ∈ fetched control,
    0 < control.stored nloop → 0 < val
  last : 0 < s.stored nloop →
    ∃ control ∈ s.doit, 0 < control.stored nloop ∧ (1 < control.stored nloop → 1 < s.counter)

/-- A statement stores the value that was fetched, or leaves the counter as it is. -/
theorem step_counter (counts : old.Counts nloop) (step : s.step false nloop thread old = some t) :
    ∃ new, t.doit = s.doit.set thread new ∧
      (t.counter = s.counter ∧ new.stored nloop = old.stored nloop ∧
          (∀ val ∈ fetched new, val ∈ fetched old ∨ val = s.counter) ∨
        ∃ i val, old = .store i val ∧ t.counter = val + 1 ∧ new.stored nloop = i + 1 ∧
          fetched new = none) := by
  cases old with
  | test i =>
      by_cases more : i < nloop
      · rw [Program.step, if_pos more] at step
        cases step
        exact ⟨_, rfl, .inl ⟨rfl, rfl, fun val mem => by cases mem⟩⟩
      · rw [Program.step, if_neg more] at step
        cases step
        exact ⟨_, rfl, .inl ⟨rfl, Nat.le_antisymm (Nat.le_of_not_lt more) counts,
          fun val mem => by cases mem⟩⟩
  | lock i =>
      rcases Option.ite_none_left_eq_some.mp step with ⟨-, moved⟩
      cases moved
      exact ⟨_, rfl, .inl ⟨rfl, rfl, fun val mem => by cases mem⟩⟩
  | fetch i =>
      cases step
      exact ⟨_, rfl, .inl ⟨rfl, rfl, fun val mem => .inr (Option.some.inj mem).symm⟩⟩
  | print i val =>
      cases step
      exact ⟨_, rfl, .inl ⟨rfl, rfl, fun val mem => .inl mem⟩⟩
  | store i val =>
      cases step
      exact ⟨_, rfl, .inr ⟨i, val, rfl, rfl, rfl, rfl⟩⟩
  | unlock i =>
      cases step
      exact ⟨_, rfl, .inl ⟨rfl, rfl, fun val mem => by cases mem⟩⟩
  | returned => cases step

theorem Bounded.kept {new : Control} (bounded : s.Bounded nloop) (looping : t.Looping nloop)
    (running : s.doit[thread]? = some old) (moved : t.doit = s.doit.set thread new)
    (same : t.counter = s.counter) (stored : new.stored nloop = old.stored nloop)
    (fetches : ∀ val ∈ fetched new, val ∈ fetched old ∨ val = s.counter) :
    t.Bounded nloop := by
  have mem := List.mem_of_getElem? running
  have total : t.stored nloop = s.stored nloop := by
    have change := total_set (Control.stored nloop) running new
    rw [Program.stored, Program.stored, moved]
    omega
  refine ⟨looping, ?_, ?_, ?_, ?_, ?_⟩
  · rw [same, total]
    exact bounded.counter_le
  · intro control here val value
    rw [total]
    rw [moved] at here
    rcases List.mem_or_eq_of_mem_set here with other | rfl
    · exact bounded.fetched_le control other val value
    · rcases fetches val value with before | rfl
      · exact bounded.fetched_le old mem val before
      · exact bounded.counter_le
  · rw [same, total]
    exact bounded.counter_pos
  · intro control here val value positive
    rw [moved] at here
    rcases List.mem_or_eq_of_mem_set here with other | rfl
    · exact bounded.fetched_pos control other val value positive
    · rw [stored] at positive
      rcases fetches val value with before | rfl
      · exact bounded.fetched_pos old mem val before positive
      · have part := weight_le_total (Control.stored nloop) mem
        exact bounded.counter_pos (Nat.lt_of_lt_of_le positive part)
  · rw [same, total]
    intro positive
    rcases bounded.last positive with ⟨control, here, once, twice⟩
    rcases List.getElem?_of_mem here with ⟨i, found⟩
    by_cases acting : thread = i
    · subst acting
      obtain rfl : old = control := Option.some.inj (running.symm.trans found)
      refine ⟨new, ?_, ?_⟩
      · rw [moved]
        exact List.mem_of_getElem? (List.getElem?_set_self (List.getElem?_eq_some_iff.mp running).1)
      · rw [stored]
        exact ⟨once, twice⟩
    · refine ⟨control, ?_, once, twice⟩
      rw [moved]
      exact List.mem_of_getElem? ((List.getElem?_set_ne acting).trans found)

/-- A thread that has stored a value before does not store 1. -/
theorem Bounded.stores {new : Control} {i val : Nat} (bounded : s.Bounded nloop)
    (looping : t.Looping nloop) (running : s.doit[thread]? = some (.store i val))
    (moved : t.doit = s.doit.set thread new) (counter : t.counter = val + 1)
    (stored : new.stored nloop = i + 1) (none : fetched new = none) : t.Bounded nloop := by
  have mem := List.mem_of_getElem? running
  have total : t.stored nloop = s.stored nloop + 1 := by
    have change := total_set (Control.stored nloop) running new
    rw [Program.stored, Program.stored, moved]
    rw [stored] at change
    change total _ _ + i = _ at change
    omega
  have fetched_le := bounded.fetched_le _ mem val rfl
  refine ⟨looping, ?_, ?_, ?_, ?_, ?_⟩
  · rw [counter, total]
    exact Nat.succ_le_succ fetched_le
  · intro control here other value
    rw [total]
    rw [moved] at here
    rcases List.mem_or_eq_of_mem_set here with before | rfl
    · exact Nat.le_succ_of_le (bounded.fetched_le control before other value)
    · rw [none] at value
      cases value
  · intro _
    rw [counter]
    exact Nat.succ_pos val
  · intro control here other value positive
    rw [moved] at here
    rcases List.mem_or_eq_of_mem_set here with before | rfl
    · exact bounded.fetched_pos control before other value positive
    · rw [none] at value
      cases value
  · intro _
    refine ⟨new, ?_, ?_, ?_⟩
    · rw [moved]
      exact List.mem_of_getElem? (List.getElem?_set_self (List.getElem?_eq_some_iff.mp running).1)
    · rw [stored]
      exact Nat.succ_pos i
    · intro twice
      rw [stored] at twice
      have positive := bounded.fetched_pos _ mem val rfl (Nat.lt_of_succ_lt_succ twice)
      rw [counter]
      exact Nat.succ_lt_succ positive

theorem Bounded.next (bounded : s.Bounded nloop) (step : s.next false nloop thread = some t) :
    t.Bounded nloop := by
  have looping := (lowers_left false nloop bounded.toLooping step).1
  rcases next_eq_some_iff.mp step with ⟨old, running, step⟩
  have counts := bounded.counts old (List.mem_of_getElem? running)
  rcases step_counter counts step with
    ⟨new, moved, ⟨same, stored, fetches⟩ | ⟨i, val, rfl, counter, stored, none⟩⟩
  · exact bounded.kept looping running moved same stored fetches
  · exact bounded.stores looping running moved counter stored none

theorem create_bounded (nloop : Nat) : create.Bounded nloop := by
  have first : ∀ control ∈ create.doit, control = .test 0 := by
    intro control mem
    simpa [create] using mem
  refine ⟨create_looping nloop, ?_, ?_, ?_, ?_, ?_⟩
  · exact Nat.zero_le _
  · intro control mem val value
    rw [first control mem] at value
    cases value
  · intro positive
    exact absurd positive (Nat.lt_irrefl 0)
  · intro control mem val value
    rw [first control mem] at value
    cases value
  · intro positive
    exact absurd positive (Nat.lt_irrefl 0)

/-- Both threads have added all their values, or fewer, but not less than 2. -/
theorem Bounded.joined (bounded : s.Bounded nloop) (joined : s.Joined) :
    s.counter ∈ Set.Icc (min nloop 2) (2 * nloop) := by
  have stored := joined.stored bounded.toLooping
  have upper := bounded.counter_le
  rw [stored] at upper
  refine ⟨?_, upper⟩
  by_cases none : nloop = 0
  · rw [none]
    exact Nat.zero_le _
  · have positive : 0 < s.stored nloop := by omega
    have counter_pos := bounded.counter_pos positive
    rcases bounded.last positive with ⟨control, mem, -, twice⟩
    rw [joined control mem] at twice
    change 1 < nloop → 1 < s.counter at twice
    omega

end Bounds

/-! ## Schedules -/

section Schedules

variable {nloop counter thread i k val : Nat} {s : Program} {doit : List Control}

/-- Some schedule leads to the counter and to the statements. -/
def Leads (nloop : Nat) (s : Program) (counter : Nat) (doit : List Control) : Prop :=
  ∃ printed, Reaches (next false nloop) s ⟨counter, s.counterMutex, doit, printed⟩

theorem next_of_running {old : Control} (running : s.doit[thread]? = some old) :
    s.next false nloop thread = s.step false nloop thread old := by
  rw [next, running, Option.bind_some]

theorem Leads.step {old : Control} {counter' : Nat} {doit' : List Control}
    (leads : Leads nloop s counter doit) (running : doit[thread]? = some old)
    (moves : ∀ printed, ∃ printed', step false nloop ⟨counter, s.counterMutex, doit, printed⟩
      thread old = some ⟨counter', s.counterMutex, doit', printed'⟩) :
    Leads nloop s counter' doit' := by
  rcases leads with ⟨printed, reaches⟩
  rcases moves printed with ⟨printed', moved⟩
  exact ⟨printed', reaches.trans (.single ((next_of_running running).trans moved))⟩

/-- The thread is about to store one more than the counter. -/
theorem Leads.fetch (leads : Leads nloop s counter doit) (thread : Nat)
    (running : doit[thread]? = some (.test i)) (more : i < nloop) :
    Leads nloop s counter (doit.set thread (.store i counter)) := by
  have inside := (List.getElem?_eq_some_iff.mp running).1
  have tested : Leads nloop s counter (doit.set thread (.fetch i)) :=
    leads.step running fun printed => ⟨printed, if_pos more⟩
  have fetched : Leads nloop s counter (doit.set thread (.print i counter)) := by
    refine tested.step (List.getElem?_set_self inside) fun printed => ⟨printed, ?_⟩
    rw [Program.step, goto, List.set_set]
  refine fetched.step (List.getElem?_set_self inside) fun printed =>
    ⟨printed ++ [(thread, counter + 1)], ?_⟩
  rw [Program.step, goto, List.set_set]

theorem Leads.store (leads : Leads nloop s counter doit) (thread : Nat)
    (running : doit[thread]? = some (.store i val)) :
    Leads nloop s (val + 1) (doit.set thread (.test (i + 1))) :=
  leads.step running fun printed => ⟨printed, rfl⟩

/-- The thread goes through its loop while the other one does nothing. -/
theorem Leads.loop (leads : Leads nloop s counter doit) (thread : Nat)
    (running : doit[thread]? = some (.test i)) (k : Nat) (fits : i + k ≤ nloop) :
    Leads nloop s (counter + k) (doit.set thread (.test (i + k))) := by
  have inside := (List.getElem?_eq_some_iff.mp running).1
  induction k with
  | zero =>
      have same : doit.set thread (.test i) = doit := by
        rw [← (List.getElem?_eq_some_iff.mp running).2, List.set_getElem_self]
      rw [Nat.add_zero, Nat.add_zero, same]
      exact leads
  | succ k ih =>
      have looped := (ih (by omega)).fetch thread (List.getElem?_set_self inside) (by omega)
      rw [List.set_set] at looped
      have stored := looped.store thread (List.getElem?_set_self inside)
      rw [List.set_set] at stored
      exact stored

theorem Leads.finish (leads : Leads nloop s counter doit) (thread : Nat)
    (running : doit[thread]? = some (.test nloop)) :
    Leads nloop s counter (doit.set thread .returned) :=
  leads.step running fun printed => ⟨printed, if_neg (Nat.lt_irrefl nloop)⟩

theorem Leads.both (leads : Leads nloop s counter [.test nloop, .test nloop]) :
    Leads nloop s counter [.returned, .returned] :=
  (leads.finish 0 rfl).finish 1 rfl

/-- One thread stores 1 when the other one has gone through its loop `lost` times. -/
theorem leads_once (lost : Nat) (some : 0 < nloop) (fits : lost ≤ nloop) :
    Leads nloop create (2 * nloop - lost) [.returned, .returned] := by
  have start : Leads nloop create 0 [.test 0, .test 0] := ⟨[], .refl _ _⟩
  have fetched : Leads nloop create 0 [.store 0 0, .test 0] := start.fetch 0 rfl some
  have other : Leads nloop create (0 + lost) [.store 0 0, .test (0 + lost)] :=
    fetched.loop 1 rfl lost (by omega)
  have stored : Leads nloop create 1 [.test 1, .test (0 + lost)] := other.store 0 rfl
  have first : Leads nloop create (1 + (nloop - 1)) [.test (1 + (nloop - 1)), .test (0 + lost)] :=
    stored.loop 0 rfl (nloop - 1) (by omega)
  have second : Leads nloop create (1 + (nloop - 1) + (nloop - lost))
      [.test (1 + (nloop - 1)), .test (0 + lost + (nloop - lost))] :=
    first.loop 1 rfl (nloop - lost) (by omega)
  have counter : 1 + (nloop - 1) + (nloop - lost) = 2 * nloop - lost := by omega
  have ends : 1 + (nloop - 1) = nloop := by omega
  have ends' : 0 + lost + (nloop - lost) = nloop := by omega
  rw [counter, ends, ends'] at second
  exact second.both

/-- The other thread has fetched that 1 for its last round, and stores 2 when the first one
has gone through its loop `lost` times more. -/
theorem leads_twice (lost : Nat) (two : 2 ≤ nloop) (fits : lost < nloop) :
    Leads nloop create (nloop + 1 - lost) [.returned, .returned] := by
  have start : Leads nloop create 0 [.test 0, .test 0] := ⟨[], .refl _ _⟩
  have fetched : Leads nloop create 0 [.store 0 0, .test 0] :=
    start.fetch 0 rfl (by omega)
  have other : Leads nloop create (0 + (nloop - 1)) [.store 0 0, .test (0 + (nloop - 1))] :=
    fetched.loop 1 rfl (nloop - 1) (by omega)
  have stored : Leads nloop create 1 [.test 1, .test (0 + (nloop - 1))] :=
    other.store 0 rfl
  have last : Leads nloop create 1 [.test 1, .store (0 + (nloop - 1)) 1] :=
    stored.fetch 1 rfl (by omega)
  have first : Leads nloop create (1 + lost) [.test (1 + lost), .store (0 + (nloop - 1)) 1] :=
    last.loop 0 rfl lost (by omega)
  have two : Leads nloop create 2 [.test (1 + lost), .test (0 + (nloop - 1) + 1)] :=
    first.store 1 rfl
  have rest : Leads nloop create (2 + (nloop - 1 - lost))
      [.test (1 + lost + (nloop - 1 - lost)), .test (0 + (nloop - 1) + 1)] :=
    two.loop 0 rfl (nloop - 1 - lost) (by omega)
  have counter : 2 + (nloop - 1 - lost) = nloop + 1 - lost := by omega
  have ends : 1 + lost + (nloop - 1 - lost) = nloop := by omega
  have ends' : 0 + (nloop - 1) + 1 = nloop := by omega
  rw [counter, ends, ends'] at rest
  exact rest.both

end Schedules

/-- The values that the counter may have when both threads have returned. -/
theorem counters_eq (nloop : Nat) :
    {counter | ∃ s, Reaches (next false nloop) create s ∧ s.Joined ∧ s.counter = counter} =
      Set.Icc (min nloop 2) (2 * nloop) := by
  apply Set.Subset.antisymm
  · rintro _ ⟨s, reaches, joined, rfl⟩
    have bounded := reaches.invariant (fun _ _ _ bounded => Bounded.next bounded)
      (create_bounded nloop)
    exact bounded.joined joined
  · rintro counter ⟨lower, upper⟩
    have leads : Leads nloop create counter [.returned, .returned] := by
      by_cases none : nloop = 0
      · obtain rfl : counter = 0 := by omega
        subst none
        exact Leads.both ⟨[], .refl _ _⟩
      · by_cases many : nloop ≤ counter
        · have once := leads_once (2 * nloop - counter) (Nat.pos_of_ne_zero none) (by omega)
          rwa [Nat.sub_sub_self upper] at once
        · have two : 2 ≤ nloop := by omega
          have twice := leads_twice (nloop + 1 - counter) two (by omega)
          rwa [Nat.sub_sub_self (by omega)] at twice
    rcases leads with ⟨printed, reaches⟩
    refine ⟨_, reaches, ?_, rfl⟩
    intro control mem
    simpa using mem

end NetPractice.Counter.Program
