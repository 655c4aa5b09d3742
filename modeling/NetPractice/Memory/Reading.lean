import Mathlib.Data.List.Basic

/-!
# Computations that read a memory

A computation says which cell it reads next, given what it has read before.  On a memory it
has a result and the list of the cells that it reads; the result depends on these cells
alone.
-/

namespace NetPractice.Memory

universe u

/-- A computation with cells `κ`, each holding a `β`. -/
inductive Reading (κ β : Type) (α : Type u) where
  | done (a : α)
  | read (k : κ) (next : β → Reading κ β α)

namespace Reading

variable {κ β ι : Type} {α γ : Type u}

/-- One computation behind the other. -/
def bind : Reading κ β α → (α → Reading κ β γ) → Reading κ β γ
  | done a, f => f a
  | read k next, f => read k fun b => (next b).bind f

instance : Monad (Reading κ β) where
  pure := done
  bind := bind

/-- What one cell holds. -/
def cell (k : κ) : Reading κ β β :=
  read k done

/-- One computation for each item. -/
def each (f : ι → Reading κ β α) : List ι → Reading κ β (List α)
  | [] => pure []
  | i :: rest => do
      let a ← f i
      let as ← each f rest
      return a :: as

/-- The result, for what the cells hold. -/
def result (mem : κ → β) : Reading κ β α → α
  | done a => a
  | read k next => result mem (next (mem k))

/-- The cells that are read, in order. -/
def reads (mem : κ → β) : Reading κ β α → List κ
  | done _ => []
  | read k next => k :: reads mem (next (mem k))

/-- Only cells with `P` are read. -/
def Within (mem : κ → β) (P : κ → Prop) (p : Reading κ β α) : Prop :=
  ∀ k ∈ p.reads mem, P k

variable {mem : κ → β} {P Q : κ → Prop}

/-! ## Results -/

@[simp]
theorem result_pure (a : α) : (pure a : Reading κ β α).result mem = a :=
  rfl

@[simp]
theorem result_cell (k : κ) : (cell k : Reading κ β β).result mem = mem k := by
  rw [cell, result, result]

@[simp]
theorem result_bind (p : Reading κ β α) (f : α → Reading κ β γ) :
    (p >>= f).result mem = (f (p.result mem)).result mem := by
  induction p with
  | done a => rfl
  | read k next ih => exact ih (mem k)

@[simp]
theorem result_each (f : ι → Reading κ β α) (items : List ι) :
    (each f items).result mem = items.map fun i => (f i).result mem := by
  induction items with
  | nil => rfl
  | cons i rest ih =>
      unfold each
      simp only [result_bind, result_pure, ih, List.map_cons]

/-! ## The cells that are read -/

@[simp]
theorem within_pure (a : α) : (pure a : Reading κ β α).Within mem P := by
  intro k mem
  cases mem

@[simp]
theorem within_cell (k : κ) : (cell k : Reading κ β β).Within mem P ↔ P k := by
  unfold Within cell reads reads
  rw [List.forall_mem_singleton]

theorem reads_bind (p : Reading κ β α) (f : α → Reading κ β γ) :
    (p >>= f).reads mem = p.reads mem ++ (f (p.result mem)).reads mem := by
  induction p with
  | done a => rfl
  | read k next ih => exact congrArg (k :: ·) (ih (mem k))

@[simp]
theorem within_bind (p : Reading κ β α) (f : α → Reading κ β γ) :
    (p >>= f).Within mem P ↔ p.Within mem P ∧ (f (p.result mem)).Within mem P := by
  unfold Within
  rw [reads_bind, List.forall_mem_append]

@[simp]
theorem within_each (f : ι → Reading κ β α) (items : List ι) :
    (each f items).Within mem P ↔ ∀ i ∈ items, (f i).Within mem P := by
  induction items with
  | nil => exact iff_of_true (within_pure []) (List.forall_mem_nil _)
  | cons i rest ih =>
      unfold each
      rw [within_bind, within_bind, List.forall_mem_cons, ih]
      exact and_congr_right fun _ => and_iff_left (within_pure _)

theorem Within.mono {p : Reading κ β α} (within : p.Within mem P) (wider : ∀ k, P k → Q k) :
    p.Within mem Q :=
  fun k read => wider k (within k read)

end Reading

end NetPractice.Memory
