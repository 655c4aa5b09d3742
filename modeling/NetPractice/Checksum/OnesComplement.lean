import Mathlib.Algebra.BigOperators.Group.List.Basic
import Mathlib.Data.Nat.ModEq

/-!
# One's complement sums

Numbers up to `m` are added with an end-around carry.  Such a sum is known modulo `m`, and it
is 0 for zeros only; that tells it from all other numbers up to `m`.
-/

namespace NetPractice.Checksum

variable {m a b : Nat}

/-- A carry is added at the other end. -/
def onesAdd (m a b : Nat) : Nat :=
  if a + b ≤ m then a + b else a + b - m

/-- The one's complement sum of some words. -/
def onesSum (m : Nat) (words : List Nat) : Nat :=
  words.foldr (onesAdd m) 0

theorem onesAdd_modEq (m a b : Nat) : onesAdd m a b ≡ a + b [MOD m] := by
  unfold onesAdd
  split_ifs with fits
  · exact Nat.ModEq.refl _
  · have carry : a + b - m + m = a + b := by omega
    calc a + b - m ≡ a + b - m + m [MOD m] := (Nat.add_modEq_right).symm
      _ = a + b := carry

theorem onesAdd_le (left : a ≤ m) (right : b ≤ m) : onesAdd m a b ≤ m := by
  unfold onesAdd
  split_ifs <;> omega

theorem onesAdd_eq_zero_iff : onesAdd m a b = 0 ↔ a + b = 0 := by
  unfold onesAdd
  split_ifs <;> omega

theorem onesSum_modEq (m : Nat) (words : List Nat) : onesSum m words ≡ words.sum [MOD m] := by
  induction words with
  | nil => exact Nat.ModEq.refl _
  | cons word words ih =>
      rw [List.sum_cons]
      exact (onesAdd_modEq m word _).trans (Nat.ModEq.add_left word ih)

theorem onesSum_le {words : List Nat} (bound : ∀ word ∈ words, word ≤ m) :
    onesSum m words ≤ m := by
  induction words with
  | nil => exact Nat.zero_le m
  | cons word words ih =>
      rw [List.forall_mem_cons] at bound
      exact onesAdd_le bound.1 (ih bound.2)

theorem onesSum_eq_zero_iff (words : List Nat) : onesSum m words = 0 ↔ words.sum = 0 := by
  induction words with
  | nil => exact iff_of_true rfl rfl
  | cons word words ih =>
      have step : onesSum m (word :: words) = 0 ↔ word + onesSum m words = 0 :=
        onesAdd_eq_zero_iff
      rw [List.sum_cons, step]
      omega

/-- Numbers up to `m` that agree modulo `m`, and on being 0, are equal. -/
theorem eq_of_modEq (left : a ≤ m) (right : b ≤ m) (same : a ≡ b [MOD m])
    (zero : a = 0 ↔ b = 0) : a = b := by
  rcases lt_or_eq_of_le left with leftLt | rfl
  · rcases lt_or_eq_of_le right with rightLt | rfl
    · exact Nat.ModEq.eq_of_lt_of_lt same leftLt rightLt
    · have dvd : b ∣ a := (Nat.modEq_zero_iff_dvd).mp (same.trans (Nat.mod_self b))
      have none : a = 0 := Nat.eq_zero_of_dvd_of_lt dvd leftLt
      rw [none, zero.mp none]
  · have dvd : a ∣ b := (Nat.modEq_zero_iff_dvd).mp (same.symm.trans (Nat.mod_self a))
    rcases lt_or_eq_of_le right with rightLt | equal
    · have none : b = 0 := Nat.eq_zero_of_dvd_of_lt dvd rightLt
      rw [none, zero.mpr none]
    · exact equal.symm

/-- The sum is `m`, which is the other zero, for a multiple of `m`. -/
theorem onesSum_eq_of_dvd {words : List Nat} (bound : ∀ word ∈ words, word ≤ m)
    (some : words.sum ≠ 0) (dvd : m ∣ words.sum) : onesSum m words = m := by
  refine eq_of_modEq (onesSum_le bound) le_rfl ?_ ?_
  · calc onesSum m words ≡ words.sum [MOD m] := onesSum_modEq m words
      _ ≡ 0 [MOD m] := (Nat.modEq_zero_iff_dvd).mpr dvd
      _ ≡ m [MOD m] := (Nat.mod_self m).symm
  · rw [onesSum_eq_zero_iff]
    refine iff_of_false some fun none => ?_
    rw [none] at dvd
    exact some (Nat.eq_zero_of_zero_dvd dvd)

/-! ## Carries that are added at the end -/

/-- With the base `m + 1`, the digits of a number may be added instead. -/
theorem fold_modEq (m s : Nat) : s / (m + 1) + s % (m + 1) ≡ s [MOD m] := by
  have base : m + 1 ≡ 1 [MOD m] := Nat.add_modEq_left
  calc s / (m + 1) + s % (m + 1)
      = 1 * (s / (m + 1)) + s % (m + 1) := by rw [Nat.one_mul]
    _ ≡ (m + 1) * (s / (m + 1)) + s % (m + 1) [MOD m] :=
        Nat.ModEq.add_right _ (base.symm.mul_right _)
    _ = s := Nat.div_add_mod s (m + 1)

theorem fold_eq_zero_iff (m s : Nat) : s / (m + 1) + s % (m + 1) = 0 ↔ s = 0 := by
  have parts := Nat.div_add_mod s (m + 1)
  constructor
  · intro zero
    rcases Nat.add_eq_zero_iff.mp zero with ⟨high, low⟩
    rw [← parts, high, low, Nat.mul_zero]
  · rintro rfl
    rw [Nat.zero_div, Nat.zero_mod]

end NetPractice.Checksum
