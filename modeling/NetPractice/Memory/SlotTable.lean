import Mathlib.Data.List.Basic
import Mathlib.Logic.Function.Basic

/-!
# Tables of slots

A table holds keys in its first `limit` slots; a negative entry is a free slot.  A new key
goes to the first free slot, and a slot is freed where it is, so the used slots need not
stand side by side.
-/

namespace NetPractice.Memory

variable {limit k : Nat} {slot : Nat → Int} {key other : Int}

/-- The key stands in a slot. -/
def InUse (limit : Nat) (slot : Nat → Int) (key : Int) : Prop :=
  0 ≤ key ∧ ∃ i, i < limit ∧ slot i = key

/-- The keys of different slots are different. -/
def Distinct (limit : Nat) (slot : Nat → Int) : Prop :=
  ∀ i j, i < limit → j < limit → 0 ≤ slot i → slot i = slot j → i = j

/-- No slot behind this one is used. -/
def Within (limit : Nat) (slot : Nat → Int) (last : Int) : Prop :=
  ∀ i, i < limit → 0 ≤ slot i → i ≤ last

/-- The first free slot. -/
def firstFree (limit : Nat) (slot : Nat → Int) : Option Nat :=
  (List.range limit).find? fun i => slot i < 0

theorem firstFree_spec (found : firstFree limit slot = some k) : k < limit ∧ slot k < 0 := by
  unfold firstFree at found
  constructor
  · exact List.mem_range.mp (List.mem_of_find?_eq_some found)
  · have free : decide (slot k < 0) = true :=
      @List.find?_some _ (fun i => decide (slot i < 0)) k (List.range limit) found
    exact of_decide_eq_true free

theorem inUse_slot (below : k < limit) (used : 0 ≤ slot k) : InUse limit slot (slot k) :=
  ⟨used, k, below, rfl⟩

/-! ## The last slot -/

section Last

variable {last : Int}

/-- The slots up to the last one are slots of the table, -/
theorem lt_of_mem_range {i : Nat} (bound : last < limit) (mem : i ∈ List.range (last + 1).toNat) :
    i < limit := by
  have below := List.mem_range.mp mem
  omega

/-- and they have all keys. -/
theorem Within.mem_range {i : Nat} (within : Within limit slot last) (inside : i < limit)
    (used : 0 ≤ slot i) : i ∈ List.range (last + 1).toNat := by
  have bound := within i inside used
  rw [List.mem_range]
  omega

theorem last_occupy (bound : last < limit) (below : k < limit) :
    (if (k : Int) > last then (k : Int) else last) < limit := by
  split <;> omega

end Last

/-! ## A key in a free slot -/

section Occupy

theorem inUse_occupy (below : k < limit) (free : slot k < 0) (nonneg : 0 ≤ key) :
    InUse limit (Function.update slot k key) other ↔ other = key ∨ InUse limit slot other := by
  constructor
  · rintro ⟨used, i, inside, rfl⟩
    by_cases new : i = k
    · rw [new, Function.update_self]
      exact .inl rfl
    · rw [Function.update_of_ne new] at used ⊢
      exact .inr ⟨used, i, inside, rfl⟩
  · rintro (rfl | ⟨used, i, inside, rfl⟩)
    · exact ⟨nonneg, k, below, Function.update_self k other slot⟩
    · have old : i ≠ k := by
        rintro rfl
        omega
      exact ⟨used, i, inside, Function.update_of_ne old key slot⟩

theorem Distinct.occupy (distinct : Distinct limit slot) (nonneg : 0 ≤ key)
    (fresh : ¬ InUse limit slot key) : Distinct limit (Function.update slot k key) := by
  have taken : ∀ i, i < limit → slot i ≠ key := fun i inside equal =>
    fresh ⟨nonneg, i, inside, equal⟩
  intro i j inside inside' used equal
  by_cases new : i = k
  · by_cases new' : j = k
    · rw [new, new']
    · rw [new, Function.update_self, Function.update_of_ne new'] at equal
      exact absurd equal.symm (taken j inside')
  · rw [Function.update_of_ne new] at used equal
    by_cases new' : j = k
    · rw [new', Function.update_self] at equal
      exact absurd equal (taken i inside)
    · rw [Function.update_of_ne new'] at equal
      exact distinct i j inside inside' used equal

theorem Within.occupy {last : Int} (within : Within limit slot last) :
    Within limit (Function.update slot k key) (if (k : Int) > last then k else last) := by
  intro i inside used
  by_cases new : i = k
  · rw [new]
    split <;> omega
  · rw [Function.update_of_ne new] at used
    have bound := within i inside used
    split <;> omega

end Occupy

/-! ## A slot that is freed -/

section Vacate

/-- A slot that is still used is another one. -/
theorem used_of_vacate {i : Nat} (used : 0 ≤ Function.update slot k (-1) i) :
    i ≠ k ∧ Function.update slot k (-1) i = slot i := by
  have ne : i ≠ k := by
    rintro rfl
    rw [Function.update_self] at used
    omega
  exact ⟨ne, Function.update_of_ne ne (-1) slot⟩

theorem inUse_vacate (distinct : Distinct limit slot) (below : k < limit) (used : 0 ≤ slot k) :
    InUse limit (Function.update slot k (-1)) other ↔
      other ≠ slot k ∧ InUse limit slot other := by
  constructor
  · rintro ⟨used', i, inside, rfl⟩
    rcases used_of_vacate used' with ⟨ne, same⟩
    rw [same] at used' ⊢
    exact ⟨fun equal => ne (distinct i k inside below used' equal), used', i, inside, rfl⟩
  · rintro ⟨ne, used', i, inside, rfl⟩
    refine ⟨used', i, inside, Function.update_of_ne ?_ (-1) slot⟩
    rintro rfl
    exact ne rfl

theorem Distinct.vacate (distinct : Distinct limit slot) :
    Distinct limit (Function.update slot k (-1)) := by
  intro i j inside inside' used equal
  have same := (used_of_vacate used).2
  have same' := (used_of_vacate (equal ▸ used)).2
  rw [same] at used equal
  rw [same'] at equal
  exact distinct i j inside inside' used equal

theorem Within.vacate {last : Int} (within : Within limit slot last) :
    Within limit (Function.update slot k (-1)) last := by
  intro i inside used
  rw [(used_of_vacate used).2] at used
  exact within i inside used

end Vacate

end NetPractice.Memory
