import NetPractice.Checksum.OnesComplement
import NetPractice.Memory.ByteOrder
import Mathlib.Algebra.Order.BigOperators.Group.List
import Mathlib.Algebra.Order.Group.Nat

/-!
# The Internet checksum

This module embeds `libfree/in_cksum.c`.  The function adds the words of some bytes, as the
host loads them, in an accumulator of 32 bits, adds the carries at the end, and returns the
complement.
-/

namespace NetPractice.Checksum

open NetPractice.Memory
open NetPractice.Text

variable (order : ByteOrder)

/-- The 16-bit words of some bytes; an odd byte is followed by a zero. -/
def words : List Byte → List Nat
  | [] => []
  | [last] => [order.load [last, 0]]
  | first :: second :: rest => order.load [first, second] :: words rest

/-- The loop of `in_cksum` and the odd byte behind it, with `sum` so far. -/
def accumulate (sum : UInt32) : List Byte → UInt32
  | [] => sum
  | [last] => sum + .ofNat (order.load [last, 0])
  | first :: second :: rest => accumulate (sum + .ofNat (order.load [first, second])) rest

/-- The carries are added back, and the sum is truncated to its complement in 16 bits. -/
def foldCarries (sum : UInt32) : UInt16 :=
  let sum := (sum >>> 16) + (sum &&& 0xffff)
  let sum := sum + (sum >>> 16)
  (~~~sum).toUInt16

/-- `in_cksum` of the `len` bytes at `addr`. -/
def inCksum (bytes : List Byte) : UInt16 :=
  foldCarries (accumulate order 0 bytes)

/-! ## Words -/

variable {order : ByteOrder}

theorem load_pair (first second : Byte) : order.load [first, second] =
    match order with
    | .little => first.toNat + 256 * second.toNat
    | .big => second.toNat + 256 * first.toNat := by
  cases order <;> rfl

theorem load_pair_le (first second : Byte) : order.load [first, second] ≤ 65535 := by
  have high := first.toNat_lt
  have low := second.toNat_lt
  rw [load_pair]
  cases order <;> dsimp only <;> omega

theorem le_of_mem_words {bytes : List Byte} : ∀ word ∈ words order bytes, word ≤ 65535 := by
  fun_induction words order bytes with
  | case1 => simp
  | case2 last => simpa using load_pair_le last 0
  | case3 first second rest ih => exact List.forall_mem_cons.mpr ⟨load_pair_le first second, ih⟩

theorem length_words (bytes : List Byte) :
    2 * (words order bytes).length ≤ bytes.length + 1 := by
  fun_induction words order bytes with
  | case1 => exact Nat.zero_le _
  | case2 last => exact le_rfl
  | case3 first second rest ih =>
      simp only [List.length_cons]
      omega

theorem sum_words_le (bytes : List Byte) :
    (words order bytes).sum ≤ (words order bytes).length * 65535 :=
  List.sum_le_card_nsmul (words order bytes) 65535 le_of_mem_words

/-- The words of two parts, when the first one does not end inside a word. -/
theorem words_append {front : List Byte} (even : 2 ∣ front.length) (back : List Byte) :
    words order (front ++ back) = words order front ++ words order back := by
  fun_induction words order front with
  | case1 => rfl
  | case2 last => exact absurd (Nat.dvd_one.mp even) (by decide)
  | case3 first second rest ih =>
      have evenRest : 2 ∣ rest.length := by
        rw [List.length_cons, List.length_cons] at even
        omega
      rw [List.cons_append, List.cons_append, words, ih evenRest, List.cons_append]

/-- On a host with the other byte order, a sum is 256 times as large, up to carries. -/
theorem sum_words_modEq (bytes : List Byte) :
    (words .big bytes).sum ≡ 256 * (words .little bytes).sum [MOD 65535] := by
  have swap (first second : Byte) :
      (ByteOrder.big.load [first, second]) ≡ 256 * ByteOrder.little.load [first, second]
        [MOD 65535] := by
    rw [load_pair, load_pair]
    unfold Nat.ModEq
    dsimp only
    omega
  fun_induction words .big bytes with
  | case1 => exact Nat.ModEq.refl _
  | case2 last => exact swap last 0
  | case3 first second rest ih =>
      rw [words, List.sum_cons, List.sum_cons, Nat.mul_add]
      exact (swap first second).add ih

/-- Whether there is anything to add does not depend on the host. -/
theorem sum_words_eq_zero_iff (bytes : List Byte) :
    (words order bytes).sum = 0 ↔ ∀ byte ∈ bytes, byte = 0 := by
  have pair (first second : Byte) :
      order.load [first, second] = 0 ↔ first = 0 ∧ second = 0 := by
    have zero : (0 : Byte).toNat = 0 := rfl
    rw [load_pair, ← UInt8.toNat_inj, ← UInt8.toNat_inj, zero]
    cases order <;> dsimp only <;> omega
  fun_induction words order bytes with
  | case1 => simp
  | case2 last => simp [pair]
  | case3 first second rest ih =>
      simp only [List.sum_cons, Nat.add_eq_zero_iff, pair, ih, List.forall_mem_cons, and_assoc]

/-! ## The accumulator -/

/-- Nothing is lost while the words are added, if their sum fits. -/
theorem toNat_accumulate {bytes : List Byte} {sum : UInt32}
    (fits : sum.toNat + (words order bytes).sum < 2 ^ 32) :
    (accumulate order sum bytes).toNat = sum.toNat + (words order bytes).sum := by
  have step {sum : UInt32} {word : Nat} (fits : sum.toNat + word < 2 ^ 32) :
      (sum + .ofNat word).toNat = sum.toNat + word := by
    rw [UInt32.toNat_add, UInt32.toNat_ofNat', Nat.add_mod_mod]
    exact Nat.mod_eq_of_lt fits
  fun_induction words order bytes generalizing sum with
  | case1 => rfl
  | case2 last =>
      rw [List.sum_singleton] at fits ⊢
      exact step fits
  | case3 first second rest ih =>
      rw [List.sum_cons, ← Nat.add_assoc] at fits ⊢
      have added := step (lt_of_le_of_lt (Nat.le_add_right _ _) fits)
      rw [accumulate, ih (by rwa [added]), added]

/-- A packet is far from filling the accumulator. -/
theorem sum_words_lt {bytes : List Byte} (fits : bytes.length ≤ 2 ^ 17) :
    (words order bytes).sum < 2 ^ 32 := by
  have sum := @sum_words_le order bytes
  have length := @length_words order bytes
  omega

theorem accumulate_exact {bytes : List Byte} (fits : bytes.length ≤ 2 ^ 17) :
    (accumulate order 0 bytes).toNat = (words order bytes).sum := by
  have zero : (0 : UInt32).toNat = 0 := rfl
  rw [toNat_accumulate (by rw [zero, Nat.zero_add]; exact sum_words_lt fits), zero, Nat.zero_add]

theorem toNat_high (sum : UInt32) : (sum >>> 16).toNat = sum.toNat / 65536 := by
  rw [UInt32.toNat_shiftRight, Nat.shiftRight_eq_div_pow]
  rfl

theorem toNat_low (sum : UInt32) : (sum &&& 0xffff).toNat = sum.toNat % 65536 := by
  rw [UInt32.toNat_and]
  exact Nat.and_two_pow_sub_one_eq_mod sum.toNat 16

/-- The second addition leaves no carry. -/
theorem toNat_foldCarries (sum : UInt32) :
    let once := sum.toNat / 65536 + sum.toNat % 65536
    (foldCarries sum).toNat = 65535 - (once / 65536 + once % 65536) := by
  have small := sum.toNat_lt
  have once : ((sum >>> 16) + (sum &&& 0xffff)).toNat =
      sum.toNat / 65536 + sum.toNat % 65536 := by
    rw [UInt32.toNat_add, toNat_high, toNat_low]
    omega
  intro folded
  unfold foldCarries
  rw [UInt32.toNat_toUInt16, UInt32.toNat_not, UInt32.toNat_add, toNat_high, once]
  change (2 ^ 32 - 1 - (folded + folded / 65536) % 2 ^ 32) % 2 ^ 16 = _
  omega

/-- The carries are added back completely: what is complemented is the one's complement sum. -/
theorem folded_eq_onesSum {bytes : List Byte} (fits : bytes.length ≤ 2 ^ 17) :
    let once := (words order bytes).sum / 65536 + (words order bytes).sum % 65536
    once / 65536 + once % 65536 = onesSum 65535 (words order bytes) := by
  intro once
  have small := @sum_words_lt order bytes fits
  refine eq_of_modEq ?_ (onesSum_le le_of_mem_words) ?_ ?_
  · omega
  · calc once / 65536 + once % 65536 ≡ once [MOD 65535] := fold_modEq 65535 once
      _ ≡ (words order bytes).sum [MOD 65535] := fold_modEq 65535 _
      _ ≡ onesSum 65535 (words order bytes) [MOD 65535] := (onesSum_modEq 65535 _).symm
  · calc once / 65536 + once % 65536 = 0 ↔ once = 0 := fold_eq_zero_iff 65535 once
      _ ↔ (words order bytes).sum = 0 := fold_eq_zero_iff 65535 _
      _ ↔ onesSum 65535 (words order bytes) = 0 := (onesSum_eq_zero_iff _).symm

/-- `in_cksum` is the complement of the complete one's complement sum. -/
theorem toNat_inCksum {bytes : List Byte} (fits : bytes.length ≤ 2 ^ 17) :
    (inCksum order bytes).toNat = 65535 - onesSum 65535 (words order bytes) := by
  rw [inCksum, toNat_foldCarries, accumulate_exact fits, folded_eq_onesSum fits]

/-! ## A checksum among the words -/

theorem words_store {value : Nat} (fits : value ≤ 65535) :
    words order (order.store 2 value) = [value] := by
  rcases List.length_eq_two.mp (@ByteOrder.length_store order 2 value) with ⟨first, second, stored⟩
  have load : order.load (order.store 2 value) = value :=
    ByteOrder.load_store (by omega : value < 256 ^ 2)
  rw [stored] at load ⊢
  rw [words, load]
  rfl

/-- The words in front of a word, the word, and the words behind it. -/
theorem sum_words_insert {front : List Byte} (even : 2 ∣ front.length) {value : Nat}
    (fits : value ≤ 65535) (back : List Byte) :
    (words order (front ++ (order.store 2 value ++ back))).sum =
      value + (words order (front ++ ([0, 0] ++ back))).sum := by
  have zero : words order [0, 0] = [0] := by cases order <;> rfl
  have two : 2 ∣ (order.store 2 value).length := by rw [ByteOrder.length_store]
  rw [words_append even, words_append two, words_append even, words_append (by decide),
    words_store fits, zero]
  simp only [List.sum_append, List.sum_singleton]
  omega

/-- With its checksum in the place of two zeros, the words of a packet add up to a multiple of
`0xffff`. -/
theorem dvd_sum_words_insert {front back : List Byte} (even : 2 ∣ front.length)
    (fits : (front ++ ([0, 0] ++ back)).length ≤ 2 ^ 17) {field : Nat} (word : field ≤ 65535)
    (checksum : field ≡ (inCksum order (front ++ ([0, 0] ++ back))).toNat [MOD 65535]) :
    65535 ∣ (words order (front ++ (order.store 2 field ++ back))).sum := by
  have le := onesSum_le (@le_of_mem_words order (front ++ ([0, 0] ++ back)))
  rw [toNat_inCksum fits] at checksum
  rw [sum_words_insert even word, ← Nat.modEq_zero_iff_dvd]
  calc field + (words order (front ++ ([0, 0] ++ back))).sum
      ≡ (65535 - onesSum 65535 (words order (front ++ ([0, 0] ++ back)))) +
          onesSum 65535 (words order (front ++ ([0, 0] ++ back))) [MOD 65535] :=
        checksum.add (onesSum_modEq 65535 _).symm
    _ = 65535 := Nat.sub_add_cancel le
    _ ≡ 0 [MOD 65535] := Nat.mod_self 65535

/-- On the network, the sum is a multiple when it is one on the host. -/
theorem dvd_sum_words_big {bytes : List Byte} (dvd : 65535 ∣ (words order bytes).sum) :
    65535 ∣ (words .big bytes).sum := by
  cases order with
  | big => exact dvd
  | little =>
      rw [← Nat.modEq_zero_iff_dvd] at dvd ⊢
      exact (sum_words_modEq bytes).trans (dvd.mul_left 256)

end NetPractice.Checksum
