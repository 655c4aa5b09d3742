import Mathlib.Data.Finset.Basic

/-!
# Sets that mirror a list of records

Records have keys, and a set is meant to have the keys of the records with some property.
One record is replaced at a time, and its key enters the set, leaves it or stays.
-/

namespace NetPractice.Memory

universe u v

variable {α : Type u} {κ : Type v} {p q : α → Prop} {key : α → κ} {items : List α} {i : Nat}
  {a b : α} {s : Finset κ}

/-- Different records with `p` have different keys. -/
def DistinctKeys (p : α → Prop) (key : α → κ) (items : List α) : Prop :=
  ∀ (i j : Nat) (a b : α), items[i]? = some a → items[j]? = some b → p a → p b →
    key a = key b → i = j

/-- The set has the keys of the records with `p`. -/
def Mirrors (s : Finset κ) (p : α → Prop) (key : α → κ) (items : List α) : Prop :=
  ∀ k, k ∈ s ↔ ∃ a ∈ items, p a ∧ key a = k

/-! ## The other records -/

/-- A record that stands somewhere else in the list. -/
def Elsewhere (items : List α) (i : Nat) (c : α) : Prop :=
  ∃ j, i ≠ j ∧ items[j]? = some c

theorem Elsewhere.mem {c : α} (elsewhere : Elsewhere items i c) : c ∈ items := by
  rcases elsewhere with ⟨j, _, there⟩
  exact List.mem_of_getElem? there

theorem exists_mem_iff {P : α → Prop} (present : items[i]? = some a) :
    (∃ c ∈ items, P c) ↔ P a ∨ ∃ c, Elsewhere items i c ∧ P c := by
  constructor
  · rintro ⟨c, mem, holds⟩
    rcases List.mem_iff_getElem?.mp mem with ⟨j, there⟩
    by_cases here : i = j
    · subst here
      obtain rfl := Option.some.inj (present.symm.trans there)
      exact Or.inl holds
    · exact Or.inr ⟨c, ⟨j, here, there⟩, holds⟩
  · rintro (holds | ⟨c, elsewhere, holds⟩)
    · exact ⟨a, List.mem_of_getElem? present, holds⟩
    · exact ⟨c, elsewhere.mem, holds⟩

theorem elsewhere_set_iff {c : α} : Elsewhere (items.set i b) i c ↔ Elsewhere items i c := by
  unfold Elsewhere
  refine exists_congr fun j => and_congr_right fun ne => ?_
  rw [List.getElem?_set_ne ne]

theorem exists_mem_set_iff {P : α → Prop} (present : items[i]? = some a) :
    (∃ c ∈ items.set i b, P c) ↔ P b ∨ ∃ c, Elsewhere items i c ∧ P c := by
  have inside := (List.getElem?_eq_some_iff.mp present).1
  rw [exists_mem_iff (List.getElem?_set_self inside)]
  simp only [elsewhere_set_iff]

/-! ## Replacing a record -/

theorem DistinctKeys.mono (distinct : DistinctKeys p key items) (narrower : ∀ a, q a → p a) :
    DistinctKeys q key items :=
  fun i j a b first second qa qb => distinct i j a b first second (narrower a qa) (narrower b qb)

/-- The key of the other records with `p` are not that of this one. -/
theorem DistinctKeys.ne (distinct : DistinctKeys p key items) (present : items[i]? = some a)
    (pa : p a) {c : α} (elsewhere : Elsewhere items i c) (pc : p c) : key c ≠ key a := by
  rcases elsewhere with ⟨j, ne, there⟩
  exact fun equal => ne (distinct i j a c present there pa pc equal.symm)

theorem DistinctKeys.set (distinct : DistinctKeys p key items) (present : items[i]? = some a)
    (fresh : p b → ∀ c, Elsewhere items i c → p c → key c ≠ key b) :
    DistinctKeys p key (items.set i b) := by
  have inside := (List.getElem?_eq_some_iff.mp present).1
  intro j k c d first second pc pd equal
  by_cases here : i = j
  · subst here
    rw [List.getElem?_set_self inside] at first
    obtain rfl := Option.some.inj first
    by_contra ne
    rw [List.getElem?_set_ne ne] at second
    exact fresh pc d ⟨k, ne, second⟩ pd equal.symm
  · by_cases there : i = k
    · subst there
      rw [List.getElem?_set_self inside] at second
      obtain rfl := Option.some.inj second
      rw [List.getElem?_set_ne here] at first
      exact absurd equal (fresh pd c ⟨j, here, first⟩ pc)
    · rw [List.getElem?_set_ne here] at first
      rw [List.getElem?_set_ne there] at second
      exact distinct j k c d first second pc pd equal

/-- A record with the same key, or with none before and after. -/
theorem Mirrors.keep (mirrors : Mirrors s p key items) (present : items[i]? = some a)
    (same : ∀ k, p a ∧ key a = k ↔ p b ∧ key b = k) : Mirrors s p key (items.set i b) := by
  intro k
  rw [mirrors k, exists_mem_iff present, exists_mem_set_iff present, same k]

variable [DecidableEq κ]

theorem Mirrors.insert (mirrors : Mirrors s p key items) (present : items[i]? = some a)
    (out : ¬ p a) (enters : p b) : Mirrors (insert (key b) s) p key (items.set i b) := by
  intro k
  rw [Finset.mem_insert, mirrors k, exists_mem_iff present, exists_mem_set_iff present]
  simp only [out, enters, false_and, true_and, false_or]
  rw [eq_comm]

theorem Mirrors.erase (mirrors : Mirrors s p key items) (distinct : DistinctKeys p key items)
    (present : items[i]? = some a) (leaves : p a) (out : ¬ p b) :
    Mirrors (s.erase (key a)) p key (items.set i b) := by
  intro k
  rw [Finset.mem_erase, mirrors k, exists_mem_iff present, exists_mem_set_iff present]
  simp only [out, leaves, false_and, true_and, false_or]
  constructor
  · rintro ⟨ne, equal | other⟩
    · exact absurd equal.symm ne
    · exact other
  · rintro ⟨c, elsewhere, pc, rfl⟩
    exact ⟨distinct.ne present leaves elsewhere pc, Or.inr ⟨c, elsewhere, pc, rfl⟩⟩

end NetPractice.Memory
