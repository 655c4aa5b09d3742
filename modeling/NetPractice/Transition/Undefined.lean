import NetPractice.Transition.Core

/-!
# Steps with undefined behaviour

A step may be undefined in the language of the program: it overwrites memory that it
does not own.  Such a step may leave any state behind.  A property is safe when it holds
in every state that the program may then be in, so that a run keeps it exactly when it
keeps it step by step and no step is undefined.
-/

namespace NetPractice.Transition

universe u v

variable {σ : Type u} {ε : Type v} {next : Step σ ε} {defined guard : σ → ε → Prop}
  {property inv : σ → Prop} {state target : σ} {events : List ε}

/-- An event that occurs and is not defined may lead to any state. -/
def MayLead (next : Step σ ε) (defined : σ → ε → Prop) (state : σ) (event : ε)
    (target : σ) : Prop :=
  next state event = some target ∨ ((next state event).isSome ∧ ¬ defined state event)

/-- The property holds in every state that the program may be in during the run, whatever
its undefined steps leave behind. -/
def Always (next : Step σ ε) (defined : σ → ε → Prop) (property : σ → Prop) :
    σ → List ε → Prop
  | state, [] => property state
  | state, event :: events =>
      property state ∧
        ∀ middle, MayLead next defined state event middle →
          Always next defined property middle events

theorem Always.head (always : Always next defined property state events) :
    property state := by
  cases events with
  | nil => exact always
  | cons event events => exact always.1

/-- A run without undefined steps is the run of the transition. -/
theorem Always.of_along (along : Along next property state events)
    (meets : Meets next defined state events) : Always next defined property state events := by
  induction events generalizing state with
  | nil => exact along
  | cons event events ih =>
      refine ⟨along.1, fun middle leads => ?_⟩
      rcases leads with step | ⟨-, undefined⟩
      · exact ih (along.2 middle step) (meets.2 middle step)
      · exact absurd meets.1 undefined

theorem Always.along (always : Always next defined property state events) :
    Along next property state events := by
  induction events generalizing state with
  | nil => exact always
  | cons event events ih =>
      exact ⟨always.1, fun middle step => ih (always.2 middle (Or.inl step))⟩

/-- A property that can fail at all is lost behind an undefined step. -/
theorem Always.meets {bad : σ} (fails : ¬ property bad)
    (always : Always next defined property state events)
    (finished : run next state events = some target) : Meets next defined state events := by
  induction events generalizing state with
  | nil => trivial
  | cons event events ih =>
      rcases (run_cons_eq_some_iff _ _ _ _ _).mp finished with ⟨middle, step, rest⟩
      have isDefined : defined state event := by
        by_contra undefined
        have occurs : (next state event).isSome := by rw [step]; rfl
        exact fails (always.2 bad (Or.inr ⟨occurs, undefined⟩)).head
      refine ⟨isDefined, fun other otherStep => ?_⟩
      obtain rfl : middle = other := Option.some.inj (step.symm.trans otherStep)
      exact ih (always.2 middle (Or.inl step)) rest

theorem always_iff {bad : σ} (fails : ¬ property bad)
    (finished : run next state events = some target) :
    Always next defined property state events ↔
      Along next property state events ∧ Meets next defined state events :=
  ⟨fun always => ⟨always.along, always.meets fails finished⟩,
    fun both => Always.of_along both.1 both.2⟩

/-- A property is safe in a run exactly when the run meets the guard of the property and
the guard that keeps its steps defined. -/
theorem always_iff_meets {allowed : σ → ε → Prop} {bad : σ} (fails : ¬ property bad)
    (exact_guard : Along next property state events ↔ Meets next allowed state events)
    (preserves : Preserves next guard inv)
    (agree : ∀ state event, inv state → (defined state event ↔ guard state event))
    (start : inv state) (finished : run next state events = some target) :
    Always next defined property state events ↔
      Meets next (fun state event => allowed state event ∧ guard state event) state events := by
  rw [always_iff fails finished, exact_guard, meets_congr preserves agree start, meets_and]

end NetPractice.Transition
