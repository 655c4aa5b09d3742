import Mathlib.Data.Set.Card

/-!
# Dense tables with an index

A dense table keeps `count` keys in front of an array; an index maps every key to
its position, and everything else to `-1`.  A key is added behind the last one
and removed by moving the last key into its place.  Moving is right for every
position but the last: there the entry of the removed key is written again.
-/

namespace NetPractice.Memory

variable {κ : Type}

/-- The index maps exactly the first `count` keys to their positions, and is `-1`
everywhere else. -/
structure Indexed (key : Nat → κ) (count : Nat) (index : κ → Int) : Prop where
  found : ∀ k (i : Nat), index k = i ↔ i < count ∧ key i = k
  other : ∀ k, index k < 0 → index k = -1

namespace Indexed

variable {key : Nat → κ} {count : Nat} {index : κ → Int}

theorem empty (key : Nat → κ) : Indexed key 0 (fun _ => -1) where
  found k i := by
    constructor
    · intro impossible
      omega
    · rintro ⟨below, -⟩
      exact absurd below (Nat.not_lt_zero i)
  other _ _ := rfl

/-- Only the first `count` keys matter. -/
theorem congr (indexed : Indexed key count index) {other : Nat → κ}
    (same : ∀ i, i < count → other i = key i) : Indexed other count index where
  found k i := by
    rw [indexed.found k i]
    constructor
    · rintro ⟨below, is_key⟩
      exact ⟨below, (same i below).trans is_key⟩
    · rintro ⟨below, is_key⟩
      exact ⟨below, (same i below).symm.trans is_key⟩
  other := indexed.other

theorem index_key (indexed : Indexed key count index) {i : Nat} (below : i < count) :
    index (key i) = i :=
  (indexed.found (key i) i).mpr ⟨below, rfl⟩

theorem key_injective (indexed : Indexed key count index) {i j : Nat} (iBelow : i < count)
    (jBelow : j < count) (equal : key i = key j) : i = j := by
  have same := indexed.index_key iBelow
  rw [equal, indexed.index_key jBelow] at same
  exact (Int.ofNat_inj.mp same).symm

/-- A key in the table has a position. -/
theorem nonneg_iff (indexed : Indexed key count index) (k : κ) :
    0 ≤ index k ↔ ∃ i, i < count ∧ key i = k := by
  constructor
  · intro nonneg
    exact ⟨(index k).toNat, (indexed.found k _).mp (Int.toNat_of_nonneg nonneg).symm⟩
  · rintro ⟨i, below, rfl⟩
    rw [indexed.index_key below]
    exact Int.natCast_nonneg i

/-- The table holds `count` different keys. -/
theorem encard_keys (indexed : Indexed key count index) :
    {k | 0 ≤ index k}.encard = count := by
  have image : {k | 0 ≤ index k} = key '' {i | i < count} := by
    ext k
    exact indexed.nonneg_iff k
  have injective : Set.InjOn key {i | i < count} :=
    fun _ iBelow _ jBelow equal => indexed.key_injective iBelow jBelow equal
  rw [image, injective.encard_image]
  have finset : {i | i < count} = (Finset.range count : Set Nat) := by
    ext i
    simp
  rw [finset, Set.encard_coe_eq_coe_finsetCard, Finset.card_range]

variable [DecidableEq κ]

/-- A new key is added behind the last one. -/
theorem push (indexed : Indexed key count index) {k : κ} (fresh : index k < 0) :
    Indexed (Function.update key count k) (count + 1) (Function.update index k count) where
  found k' i := by
    by_cases is_new : k' = k
    · subst is_new
      rw [Function.update_self]
      constructor
      · intro position
        obtain rfl := Int.ofNat_inj.mp position
        exact ⟨Nat.lt_add_one _, Function.update_self ..⟩
      · rintro ⟨below, is_key⟩
        by_cases last : i = count
        · rw [last]
        · rw [Function.update_of_ne last] at is_key
          have position := (indexed.found k' i).mpr ⟨by omega, is_key⟩
          omega
    · rw [Function.update_of_ne is_new, indexed.found]
      constructor
      · rintro ⟨below, is_key⟩
        exact ⟨Nat.lt_succ_of_lt below,
          (Function.update_of_ne (Nat.ne_of_lt below) _ _).trans is_key⟩
      · rintro ⟨below, is_key⟩
        by_cases last : i = count
        · rw [last, Function.update_self] at is_key
          exact absurd is_key.symm is_new
        · rw [Function.update_of_ne last] at is_key
          exact ⟨by omega, is_key⟩
  other k' negative := by
    by_cases is_new : k' = k
    · subst is_new
      rw [Function.update_self] at negative
      omega
    · rw [Function.update_of_ne is_new] at negative ⊢
      exact indexed.other k' negative

/-- The index after the key at `i` is removed, and the last key has moved there. -/
def removed (key : Nat → κ) (count : Nat) (index : κ → Int) (i : Nat) : κ → Int :=
  Function.update (Function.update index (key i) (-1)) (key (count - 1)) i

/-- Removing a key that is not the last one. -/
theorem swapRemove (indexed : Indexed key count index) {i : Nat} (below : i < count - 1) :
    Indexed (Function.update key i (key (count - 1))) (count - 1)
      (removed key count index i) where
  found k j := by
    have last_ne : key i ≠ key (count - 1) := fun equal => by
      have := indexed.key_injective (by omega) (by omega) equal
      omega
    by_cases moved : k = key (count - 1)
    · subst moved
      rw [removed, Function.update_self]
      constructor
      · intro position
        obtain rfl := Int.ofNat_inj.mp position
        exact ⟨below, Function.update_self ..⟩
      · rintro ⟨jBelow, is_key⟩
        by_cases gap : j = i
        · rw [gap]
        · rw [Function.update_of_ne gap] at is_key
          have := indexed.key_injective (by omega) (by omega) is_key
          omega
    · rw [removed, Function.update_of_ne moved]
      by_cases gone : k = key i
      · subst gone
        rw [Function.update_self]
        constructor
        · intro impossible
          omega
        · rintro ⟨jBelow, is_key⟩
          by_cases gap : j = i
          · rw [gap, Function.update_self] at is_key
            exact absurd is_key.symm last_ne
          · rw [Function.update_of_ne gap] at is_key
            exact absurd (indexed.key_injective (by omega) (by omega) is_key) gap
      · rw [Function.update_of_ne gone, indexed.found]
        constructor
        · rintro ⟨jBelow, rfl⟩
          have gap : j ≠ i := fun equal => gone (equal ▸ rfl)
          have notLast : j ≠ count - 1 := fun equal => moved (equal ▸ rfl)
          exact ⟨by omega, Function.update_of_ne gap _ _⟩
        · rintro ⟨jBelow, is_key⟩
          by_cases gap : j = i
          · rw [gap, Function.update_self] at is_key
            exact absurd is_key.symm moved
          · rw [Function.update_of_ne gap] at is_key
            exact ⟨by omega, is_key⟩
  other k negative := by
    unfold removed at negative ⊢
    by_cases moved : k = key (count - 1)
    · subst moved
      rw [Function.update_self] at negative
      omega
    · rw [Function.update_of_ne moved] at negative ⊢
      by_cases gone : k = key i
      · subst gone
        rw [Function.update_self]
      · rw [Function.update_of_ne gone] at negative ⊢
        exact indexed.other k negative

/-- Moving the last key onto itself leaves a removed key in the index. -/
theorem not_swapRemove_last (key other : Nat → κ) (count : Nat) (index : κ → Int) :
    ¬ Indexed other (count - 1) (removed key count index (count - 1)) := by
  intro indexed
  have position := (indexed.found (key (count - 1)) (count - 1)).mp (Function.update_self ..)
  exact Nat.lt_irrefl _ position.1

end Indexed

end NetPractice.Memory
