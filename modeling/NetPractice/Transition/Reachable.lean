import NetPractice.Transition.Core
import Mathlib.Algebra.Ring.Nat

/-!
# Reachable and halted states

A state is reached by some run.  A state is halted when no event can occur in it.  When
every step of a program lowers a measure, its runs are bounded and each of them can be
continued to a halted state.
-/

namespace NetPractice.Transition

universe u v

variable {σ : Type u} {ε : Type v} {next : Step σ ε} {source middle target : σ}

/-- Some run leads from the one state to the other. -/
def Reaches (next : Step σ ε) (source target : σ) : Prop :=
  ∃ events, run next source events = some target

theorem Reaches.refl (next : Step σ ε) (state : σ) : Reaches next state state :=
  ⟨[], rfl⟩

theorem Reaches.trans (first : Reaches next source middle) (second : Reaches next middle target) :
    Reaches next source target := by
  rcases first with ⟨front, finished⟩
  rcases second with ⟨back, rest⟩
  refine ⟨front ++ back, ?_⟩
  rw [run_append, finished, Option.bind_some, rest]

theorem Reaches.head {event : ε} (step : next source event = some middle)
    (rest : Reaches next middle target) : Reaches next source target := by
  rcases rest with ⟨events, finished⟩
  exact ⟨event :: events, (run_cons_of_step step events).trans finished⟩

theorem Reaches.single {event : ε} (step : next source event = some target) :
    Reaches next source target :=
  .head step (.refl next target)

theorem Reaches.invariant {inv : σ → Prop}
    (preserved : ∀ ⦃state event target⦄, inv state → next state event = some target → inv target)
    (start : inv source) (reaches : Reaches next source target) : inv target := by
  rcases reaches with ⟨events, finished⟩
  exact invariant_run preserved start finished

/-- No event can occur. -/
def Halted (next : Step σ ε) (state : σ) : Prop :=
  ∀ event, next state event = none

/-- Every step lowers the measure. -/
def Lowers (next : Step σ ε) (inv : σ → Prop) (measure : σ → Nat) : Prop :=
  ∀ ⦃state event target⦄, inv state → next state event = some target →
    inv target ∧ measure target < measure state

variable {inv : σ → Prop} {measure : σ → Nat}

theorem Lowers.length_le (lowers : Lowers next inv measure) (start : inv source)
    {events : List ε} (finished : run next source events = some target) :
    events.length + measure target ≤ measure source := by
  induction events generalizing source with
  | nil =>
      cases finished
      rw [List.length_nil, Nat.zero_add]
  | cons event events ih =>
      rcases (run_cons_eq_some_iff _ _ _ _ _).mp finished with ⟨middle, step, rest⟩
      rcases lowers start step with ⟨holds, less⟩
      have bound := ih holds rest
      rw [List.length_cons]
      omega

/-- A goal is reached when some step leads nearer to it from everywhere else. -/
theorem exists_reaches {goal : σ → Prop} (measure : σ → Nat)
    (nearer : ∀ ⦃state⦄, inv state → goal state ∨ ∃ event target,
      next state event = some target ∧ inv target ∧ measure target < measure state)
    (start : inv source) : ∃ target, Reaches next source target ∧ inv target ∧ goal target := by
  induction size : measure source using Nat.strong_induction_on generalizing source with
  | _ size ih =>
    rcases nearer start with done | ⟨event, middle, step, holds, less⟩
    · exact ⟨source, .refl next source, start, done⟩
    · rcases ih (measure middle) (size ▸ less) holds rfl with ⟨target, reaches, final⟩
      exact ⟨target, .head step reaches, final⟩

/-- A run that is continued as long as possible halts. -/
theorem Lowers.exists_halted (lowers : Lowers next inv measure) (start : inv source) :
    ∃ target, Reaches next source target ∧ inv target ∧ Halted next target := by
  apply exists_reaches measure _ start
  intro state holds
  by_cases halted : Halted next state
  · exact .inl halted
  · rcases not_forall.mp halted with ⟨event, possible⟩
    rcases Option.ne_none_iff_exists'.mp possible with ⟨middle, step⟩
    exact .inr ⟨event, middle, step, lowers holds step⟩

end NetPractice.Transition
