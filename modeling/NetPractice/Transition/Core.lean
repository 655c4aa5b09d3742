import Mathlib.Data.List.Basic

/-!
# Labelled partial transitions

An event-driven program is a partial function of its state and of one event.
The event carries what the environment decided: the result of a system call,
the bytes that arrived, the thread that was scheduled.  An undefined step means
that the event cannot occur in that state, so that every interleaving and every
behaviour of the environment is one list of events.

Safety is proved through an invariant that a guarded step preserves.  The rules
below carry such an invariant from one step to every state of a run.
-/

namespace NetPractice.Transition

universe u v

/-- A partial transition on `σ`, labelled by the events `ε`. -/
abbrev Step (σ : Type u) (ε : Type v) := σ → ε → Option σ

variable {σ : Type u} {ε : Type v}

/-! ## Steps behind a test -/

theorem guarded_eq_some_iff {p : Prop} [Decidable p] {value target : σ} :
    (if p then some value else none) = some target ↔ p ∧ value = target := by
  rw [Option.ite_none_right_eq_some, Option.some.injEq]

theorem refused_eq_some_iff {p : Prop} [Decidable p] {value target : σ} :
    (if p then none else some value) = some target ↔ ¬ p ∧ value = target := by
  rw [Option.ite_none_left_eq_some, Option.some.injEq]

theorem dependent_eq_some_iff {p : Prop} [Decidable p] {value : p → σ} {target : σ} :
    (if holds : p then some (value holds) else none) = some target ↔
      ∃ holds, value holds = target := by
  simp only [Option.dite_none_right_eq_some, Option.some.injEq]

/-! ## Runs -/

/-- Execute a list of events.  An undefined intermediate step propagates to
the result. -/
def run (next : Step σ ε) : σ → List ε → Option σ
  | state, [] => some state
  | state, event :: events =>
      (next state event).bind fun middle => run next middle events

@[simp]
theorem run_nil (next : Step σ ε) (state : σ) : run next state [] = some state :=
  rfl

theorem run_cons (next : Step σ ε) (state : σ) (event : ε) (events : List ε) :
    run next state (event :: events) =
      (next state event).bind fun middle => run next middle events :=
  rfl

theorem run_cons_of_step {next : Step σ ε} {state middle : σ} {event : ε}
    (step : next state event = some middle) (events : List ε) :
    run next state (event :: events) = run next middle events := by
  rw [run_cons, step, Option.bind_some]

theorem run_cons_eq_some_iff (next : Step σ ε) (state target : σ) (event : ε)
    (events : List ε) :
    run next state (event :: events) = some target ↔
      ∃ middle, next state event = some middle ∧ run next middle events = some target := by
  rw [run_cons]
  exact Option.bind_eq_some_iff

/-- A run splits at every prefix of its events. -/
theorem run_append (next : Step σ ε) (state : σ) (first second : List ε) :
    run next state (first ++ second) =
      (run next state first).bind fun middle => run next middle second := by
  induction first generalizing state with
  | nil => rfl
  | cons event first ih =>
      rw [List.cons_append, run_cons, run_cons, Option.bind_assoc]
      congr 1
      funext middle
      exact ih middle

/-- What every step preserves holds in the last state of a run. -/
theorem invariant_run {next : Step σ ε} {inv : σ → Prop}
    (preserved : ∀ ⦃state event target⦄, inv state → next state event = some target → inv target)
    {state target : σ} {events : List ε} (start : inv state)
    (finished : run next state events = some target) : inv target := by
  induction events generalizing state with
  | nil =>
      cases finished
      exact start
  | cons event events ih =>
      obtain ⟨middle, step, rest⟩ := (run_cons_eq_some_iff _ _ _ _ _).mp finished
      exact ih (preserved start step) rest

/-! ## Guarded runs -/

/-- Every step of the run starts in a state that meets the guard of its
event. -/
def Meets (next : Step σ ε) (guard : σ → ε → Prop) : σ → List ε → Prop
  | _, [] => True
  | state, event :: events =>
      guard state event ∧
        ∀ middle, next state event = some middle → Meets next guard middle events

/-- A guarded run is checked by executing it. -/
instance decidableMeets (next : Step σ ε) (guard : σ → ε → Prop)
    [decideGuard : ∀ state event, Decidable (guard state event)] :
    ∀ state events, Decidable (Meets next guard state events)
  | _, [] => isTrue trivial
  | state, event :: events =>
      match step : next state event with
      | none => decidable_of_iff (guard state event) (by simp [Meets, step])
      | some middle =>
          have := decidableMeets next guard middle events
          decidable_of_iff (guard state event ∧ Meets next guard middle events)
            (by simp [Meets, step])

/-- The property holds in every state that the run reaches, the first one
included. -/
def Along (next : Step σ ε) (property : σ → Prop) : σ → List ε → Prop
  | state, [] => property state
  | state, event :: events =>
      property state ∧
        ∀ middle, next state event = some middle → Along next property middle events

theorem Along.head {next : Step σ ε} {property : σ → Prop} {state : σ}
    {events : List ε} (along : Along next property state events) : property state := by
  cases events with
  | nil => exact along
  | cons event events => exact along.1

theorem Along.mono {next : Step σ ε} {first second : σ → Prop}
    (weaken : ∀ state, first state → second state) {state : σ} {events : List ε}
    (along : Along next first state events) : Along next second state events := by
  induction events generalizing state with
  | nil => exact weaken state along
  | cons event events ih =>
      exact ⟨weaken state along.1, fun middle step => ih (along.2 middle step)⟩

/-- A property that holds along a run holds in its last state. -/
theorem Along.last {next : Step σ ε} {property : σ → Prop} {state target : σ}
    {events : List ε} (along : Along next property state events)
    (finished : run next state events = some target) : property target := by
  induction events generalizing state with
  | nil =>
      cases finished
      exact along
  | cons event events ih =>
      obtain ⟨middle, step, rest⟩ := (run_cons_eq_some_iff _ _ _ _ _).mp finished
      exact ih (along.2 middle step) rest

/-- `inv` survives every step that meets `guard`. -/
def Preserves (next : Step σ ε) (guard : σ → ε → Prop) (inv : σ → Prop) : Prop :=
  ∀ ⦃state event target⦄,
    inv state → guard state event → next state event = some target → inv target

/-- The step lemma of an invariant gives the run lemma. -/
theorem Preserves.along {next : Step σ ε} {guard : σ → ε → Prop} {inv : σ → Prop}
    (preserves : Preserves next guard inv) {state : σ} {events : List ε}
    (start : inv state) (meets : Meets next guard state events) :
    Along next inv state events := by
  induction events generalizing state with
  | nil => exact start
  | cons event events ih =>
      exact ⟨start, fun middle step =>
        ih (preserves start meets.1 step) (meets.2 middle step)⟩

/-- When the invariant also enables every guarded event, a guarded run never
gets stuck. -/
theorem Preserves.exists_run {next : Step σ ε} {guard : σ → ε → Prop} {inv : σ → Prop}
    (preserves : Preserves next guard inv)
    (enabled : ∀ state event, inv state → guard state event →
      ∃ target, next state event = some target)
    {state : σ} {events : List ε} (start : inv state)
    (meets : Meets next guard state events) :
    ∃ target, Transition.run next state events = some target ∧ inv target := by
  induction events generalizing state with
  | nil => exact ⟨state, rfl, start⟩
  | cons event events ih =>
      obtain ⟨middle, step⟩ := enabled state event start meets.1
      obtain ⟨target, rest, holds⟩ := ih (preserves start meets.1 step) (meets.2 middle step)
      exact ⟨target, (run_cons_of_step step events).trans rest, holds⟩

/-- A run is guarded by `True`. -/
theorem meets_true {next : Step σ ε} {state : σ} {events : List ε} :
    Meets next (fun _ _ => True) state events := by
  induction events generalizing state with
  | nil => trivial
  | cons event events ih => exact ⟨trivial, fun _ _ => ih⟩

theorem meets_and {next : Step σ ε} {first second : σ → ε → Prop} {state : σ} {events : List ε} :
    Meets next (fun state event => first state event ∧ second state event) state events ↔
      Meets next first state events ∧ Meets next second state events := by
  induction events generalizing state with
  | nil => exact ⟨fun _ => ⟨trivial, trivial⟩, fun _ => trivial⟩
  | cons event events ih =>
      constructor
      · intro meets
        exact ⟨⟨meets.1.1, fun middle step => (ih.mp (meets.2 middle step)).1⟩,
          ⟨meets.1.2, fun middle step => (ih.mp (meets.2 middle step)).2⟩⟩
      · intro meets
        exact ⟨⟨meets.1.1, meets.2.1⟩, fun middle step =>
          ih.mpr ⟨meets.1.2 middle step, meets.2.2 middle step⟩⟩

/-- A guard that the invariant gives in front of each guarded step. -/
theorem Preserves.meets {next : Step σ ε} {guard defined : σ → ε → Prop} {inv : σ → Prop}
    (preserves : Preserves next guard inv) {state : σ} {events : List ε}
    (implies : ∀ state event, inv state → guard state event → defined state event)
    (start : inv state) (meets : Meets next guard state events) :
    Meets next defined state events := by
  induction events generalizing state with
  | nil => trivial
  | cons event events ih =>
      exact ⟨implies state event start meets.1, fun middle step =>
        ih (preserves start meets.1 step) (meets.2 middle step)⟩

/-- Two guards that agree where the invariant holds are met by the same runs, when the
steps that meet one of them keep the invariant. -/
theorem meets_congr {next : Step σ ε} {guard defined : σ → ε → Prop} {inv : σ → Prop}
    (preserves : Preserves next guard inv) {state : σ} {events : List ε}
    (agree : ∀ state event, inv state → (defined state event ↔ guard state event))
    (start : inv state) : Meets next defined state events ↔ Meets next guard state events := by
  induction events generalizing state with
  | nil => exact Iff.rfl
  | cons event events ih =>
      have same := agree state event start
      constructor
      · intro meets
        have guarded := same.mp meets.1
        exact ⟨guarded, fun middle step =>
          (ih (preserves start guarded step)).mp (meets.2 middle step)⟩
      · intro meets
        exact ⟨same.mpr meets.1, fun middle step =>
          (ih (preserves start meets.1 step)).mpr (meets.2 middle step)⟩

/-- Among the events that the environment allows, a guard is exact when the invariant
implies the property, guarded steps keep the invariant, and every other step loses the
property.  A run whose every event occurs then keeps the property exactly when it is
guarded. -/
theorem along_iff_meets_of_allowed {next : Step σ ε} {allowed guard : σ → ε → Prop}
    {inv property : σ → Prop}
    (preserves : Preserves next (fun state event => allowed state event ∧ guard state event) inv)
    (implies : ∀ state, inv state → property state)
    (loses : ∀ ⦃state event target⦄, inv state → allowed state event → ¬ guard state event →
      next state event = some target → ¬ property target)
    {state target : σ} {events : List ε} (start : inv state)
    (meets : Meets next allowed state events)
    (finished : run next state events = some target) :
    Along next property state events ↔ Meets next guard state events := by
  constructor
  · intro along
    induction events generalizing state with
    | nil => trivial
    | cons event events ih =>
        obtain ⟨middle, step, rest⟩ := (run_cons_eq_some_iff _ _ _ _ _).mp finished
        have guarded : guard state event := by
          by_contra unguarded
          exact loses start meets.1 unguarded step (along.2 middle step).head
        refine ⟨guarded, fun other otherStep => ?_⟩
        obtain rfl : middle = other := Option.some.inj (step.symm.trans otherStep)
        exact ih (preserves start ⟨meets.1, guarded⟩ step) (meets.2 middle step) rest
          (along.2 middle step)
  · intro guarded
    induction events generalizing state with
    | nil => exact implies state start
    | cons event events ih =>
        obtain ⟨middle, step, rest⟩ := (run_cons_eq_some_iff _ _ _ _ _).mp finished
        refine ⟨implies state start, fun other otherStep => ?_⟩
        obtain rfl : middle = other := Option.some.inj (step.symm.trans otherStep)
        exact ih (preserves start ⟨meets.1, guarded.1⟩ step) (meets.2 middle step) rest
          (guarded.2 middle step)

/-- The same when the environment allows every event. -/
theorem along_iff_meets {next : Step σ ε} {guard : σ → ε → Prop}
    {inv property : σ → Prop} (preserves : Preserves next guard inv)
    (implies : ∀ state, inv state → property state)
    (loses : ∀ ⦃state event target⦄, inv state → ¬ guard state event →
      next state event = some target → ¬ property target)
    {state target : σ} {events : List ε} (start : inv state)
    (finished : run next state events = some target) :
    Along next property state events ↔ Meets next guard state events :=
  along_iff_meets_of_allowed (fun _ _ _ inv guarded step => preserves inv guarded.2 step) implies
    (fun _ _ _ inv _ unguarded step => loses inv unguarded step) start meets_true finished

theorem along_iff_meets_of_isSome {next : Step σ ε} {guard : σ → ε → Prop}
    {inv property : σ → Prop} (preserves : Preserves next guard inv)
    (implies : ∀ state, inv state → property state)
    (loses : ∀ ⦃state event target⦄, inv state → ¬ guard state event →
      next state event = some target → ¬ property target)
    {state : σ} {events : List ε} (start : inv state)
    (possible : (run next state events).isSome) :
    Along next property state events ↔ Meets next guard state events := by
  rcases Option.isSome_iff_exists.mp possible with ⟨target, finished⟩
  exact along_iff_meets preserves implies loses start finished

end NetPractice.Transition
