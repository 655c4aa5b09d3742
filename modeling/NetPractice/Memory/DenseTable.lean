import Mathlib.Data.Set.Function
import Mathlib.Data.Nat.SuccPred

/-!
# Dense tables

The keys of a dense table stand at the first `count` positions of an array.  A
key is added behind the last one and removed by moving the last key into its
place.  As long as no key stands at two positions, that removes this key and no
other.
-/

namespace NetPractice.Memory

variable {κ : Type} {key : Nat → κ} {count i : Nat} {k : κ}

theorem eqOn_push (key : Nat → κ) (count : Nat) (k : κ) :
    Set.EqOn (Function.update key count k) key (Set.Iio count) := by
  intro j below
  exact Function.update_of_ne (Nat.ne_of_lt below) _ _

/-- A key that is written behind the others. -/
theorem image_push (key : Nat → κ) (count : Nat) (k : κ) :
    Function.update key count k '' Set.Iio (count + 1) = insert k (key '' Set.Iio count) := by
  have grown : Set.Iio (count + 1) = insert count (Set.Iio count) :=
    Order.Iio_succ_eq_insert count
  rw [grown, Set.image_insert_eq, Function.update_self, (eqOn_push key count k).image_eq]

theorem injOn_push (injective : Set.InjOn key (Set.Iio count))
    (fresh : k ∉ key '' Set.Iio count) :
    Set.InjOn (Function.update key count k) (Set.Iio (count + 1)) := by
  have grown : Set.Iio (count + 1) = insert count (Set.Iio count) :=
    Order.Iio_succ_eq_insert count
  rw [grown]
  apply (Set.injOn_insert Set.self_notMem_Iio).mpr
  rw [Function.update_self, (eqOn_push key count k).image_eq]
  exact ⟨(eqOn_push key count k).injOn_iff.mpr injective, fresh⟩

/-- What the positions in front of the last one hold when the last key has been
moved to position `i`. -/
theorem swapRemove_apply (key : Nat → κ) (count i j : Nat) :
    Function.update key i (key (count - 1)) j = key (if j = i then count - 1 else j) := by
  by_cases moved : j = i
  · rw [moved, Function.update_self, if_pos rfl]
  · rw [Function.update_of_ne moved, if_neg moved]

theorem injOn_swapRemove (injective : Set.InjOn key (Set.Iio count)) :
    Set.InjOn (Function.update key i (key (count - 1))) (Set.Iio (count - 1)) := by
  intro j jBelow l lBelow equal
  rw [Set.mem_Iio] at jBelow lBelow
  rw [swapRemove_apply, swapRemove_apply] at equal
  have same := injective (by rw [Set.mem_Iio]; split <;> omega)
    (by rw [Set.mem_Iio]; split <;> omega) equal
  split at same <;> split at same <;> omega

theorem image_swapRemove (injective : Set.InjOn key (Set.Iio count)) (below : i < count) :
    Function.update key i (key (count - 1)) '' Set.Iio (count - 1) =
      (key '' Set.Iio count) \ {key i} := by
  ext k
  constructor
  · rintro ⟨j, jBelow, rfl⟩
    rw [Set.mem_Iio] at jBelow
    rw [swapRemove_apply]
    have inside : (if j = i then count - 1 else j) < count := by
      split <;> omega
    constructor
    · exact ⟨_, inside, rfl⟩
    · intro equal
      have same := injective inside below equal
      split at same <;> omega
  · rintro ⟨⟨j, jBelow, rfl⟩, other⟩
    rw [Set.mem_Iio] at jBelow
    have different : j ≠ i := by
      rintro rfl
      exact other rfl
    by_cases last : j = count - 1
    · refine ⟨i, ?_, ?_⟩
      · rw [Set.mem_Iio]
        omega
      · rw [Function.update_self, last]
    · refine ⟨j, ?_, Function.update_of_ne different _ _⟩
      rw [Set.mem_Iio]
      omega

end NetPractice.Memory
