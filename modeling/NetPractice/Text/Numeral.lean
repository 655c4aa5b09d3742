import NetPractice.Text.StringFunctions
import Mathlib.Data.Nat.Digits.Lemmas

/-!
# Numerals

A scanner builds the value of a numeral from its digits, the first digit first, and
may test the value at every digit.  The value never shrinks, so that a bound on the
whole numeral is a bound at each of its digits.
-/

namespace NetPractice.Text

/-! ## Values of digits -/

/-- The value of digits, the most significant first. -/
def valueOf (base : Nat) (digits : List Nat) : Nat :=
  digits.foldl (fun value digit => base * value + digit) 0

@[simp]
theorem valueOf_nil (base : Nat) : valueOf base [] = 0 :=
  rfl

/-- One more digit. -/
theorem valueOf_concat (base : Nat) (digits : List Nat) (digit : Nat) :
    valueOf base (digits ++ [digit]) = base * valueOf base digits + digit := by
  rw [valueOf, List.foldl_append]
  rfl

@[simp]
theorem valueOf_singleton (base digit : Nat) : valueOf base [digit] = digit := by
  simp [valueOf]

/-- The value does not shrink from digit to digit. -/
theorem valueOf_le_append {base : Nat} (positive : 0 < base) (digits more : List Nat) :
    valueOf base digits ≤ valueOf base (digits ++ more) := by
  induction more using List.reverseRecOn with
  | nil => rw [List.append_nil]
  | append_singleton more digit ih =>
      rw [← List.append_assoc, valueOf_concat]
      have grows := Nat.le_mul_of_pos_left (valueOf base (digits ++ more)) positive
      omega

/-! ## Printed numbers -/

/-- The digits of a number as a conversion such as `%u` or `%x` prints them. -/
def digitsOf (base value : Nat) : List Nat :=
  if value = 0 then [0] else (Nat.digits base value).reverse

theorem digitsOf_ne_nil (base value : Nat) : digitsOf base value ≠ [] := by
  unfold digitsOf
  by_cases zero : value = 0
  · rw [if_pos zero]
    exact List.cons_ne_nil 0 []
  · rw [if_neg zero]
    exact fun empty => Nat.digits_ne_nil_iff_ne_zero.mpr zero (List.reverse_eq_nil_iff.mp empty)

theorem digitsOf_lt {base value digit : Nat} (base_gt : 1 < base)
    (mem : digit ∈ digitsOf base value) : digit < base := by
  unfold digitsOf at mem
  by_cases zero : value = 0
  · rw [if_pos zero, List.mem_singleton] at mem
    omega
  · rw [if_neg zero, List.mem_reverse] at mem
    exact Nat.digits_lt_base base_gt mem

/-- A printed number has the value that was printed. -/
theorem valueOf_digitsOf (base value : Nat) : valueOf base (digitsOf base value) = value := by
  unfold digitsOf
  by_cases zero : value = 0
  · rw [if_pos zero, zero, valueOf_singleton]
  · have horner : ∀ digits : List Nat,
        valueOf base digits.reverse = Nat.ofDigits base digits := by
      intro digits
      induction digits with
      | nil => rfl
      | cons digit digits ih =>
          rw [List.reverse_cons, valueOf_concat, ih, Nat.ofDigits_cons]
          exact Nat.add_comm _ _
    rw [if_neg zero, horner, Nat.ofDigits_digits]

theorem length_digitsOf_le {base value width : Nat} (base_gt : 1 < base) (positive : 0 < width)
    (fits : value < base ^ width) : (digitsOf base value).length ≤ width := by
  unfold digitsOf
  by_cases zero : value = 0
  · rw [if_pos zero]
    exact positive
  · rw [if_neg zero, List.length_reverse]
    exact (Nat.digits_length_le_iff base_gt value).mpr fits

/-- The last digit and those in front of it. -/
theorem digitsOf_step {base value : Nat} (base_gt : 1 < base) (le : base ≤ value) :
    digitsOf base value = digitsOf base (value / base) ++ [value % base] := by
  have value_ne : value ≠ 0 := by omega
  have quotient_ne : value / base ≠ 0 := (Nat.div_pos le (by omega)).ne'
  rw [digitsOf, if_neg value_ne, digitsOf, if_neg quotient_ne,
    Nat.digits_eq_cons_digits_div base_gt value_ne, List.reverse_cons]

theorem digitsOf_of_lt {base value : Nat} (lt : value < base) : digitsOf base value = [value] := by
  unfold digitsOf
  by_cases zero : value = 0
  · rw [if_pos zero, zero]
  · rw [if_neg zero, Nat.digits_of_lt base value zero lt, List.reverse_singleton]

/-- A decimal digit in ASCII. -/
def decimalDigit (digit : Nat) : Byte :=
  (48 + digit).toUInt8

/-- A hexadecimal digit in ASCII, as `%x` prints it. -/
def hexDigit (digit : Nat) : Byte :=
  if digit < 10 then (48 + digit).toUInt8 else (87 + digit).toUInt8

/-- The digits of a number, as `%x` prints them. -/
def hexadecimal (value : Nat) : List Byte :=
  (digitsOf 16 value).map hexDigit

theorem decimal_eq_map (value : Nat) : decimal value = (digitsOf 10 value).map decimalDigit := by
  have digit_eq : ∀ digit, digit < 10 →
      (Nat.digitChar digit).toNat.toUInt8 = decimalDigit digit := by
    decide
  induction value using Nat.strong_induction_on with
  | _ value ih =>
    rw [decimal]
    by_cases single : value < 10
    · rw [Nat.toDigits_of_lt_base single, digitsOf_of_lt single]
      simp [digit_eq value single]
    · have last : value % 10 < 10 := Nat.mod_lt value (by decide)
      rw [Nat.toDigits_of_base_le (by decide) (by omega), digitsOf_step (by decide) (by omega),
        List.map_append, List.map_append, ← decimal, ih (value / 10) (by omega)]
      simp [digit_eq (value % 10) last]

/-! ## Decimal text -/

/-- The value of a text of decimal digits. -/
def decimalValue (text : List Byte) : Nat :=
  valueOf 10 (text.map fun ch => ch.toNat - 48)

@[simp]
theorem decimalValue_nil : decimalValue [] = 0 :=
  rfl

theorem decimalValue_concat (text : List Byte) (ch : Byte) :
    decimalValue (text ++ [ch]) = decimalValue text * 10 + (ch.toNat - 48) := by
  rw [decimalValue, List.map_append, List.map_singleton, valueOf_concat, Nat.mul_comm]
  rfl

theorem decimalValue_le_append (text more : List Byte) :
    decimalValue text ≤ decimalValue (text ++ more) := by
  rw [decimalValue, decimalValue, List.map_append]
  exact valueOf_le_append (by decide) _ _

theorem decimalValue_decimal (value : Nat) : decimalValue (decimal value) = value := by
  have digit_eq : ∀ digit, digit < 10 → (decimalDigit digit).toNat - 48 = digit := by
    decide
  have same : ((digitsOf 10 value).map decimalDigit).map (fun ch => ch.toNat - 48) =
      digitsOf 10 value := by
    rw [List.map_map]
    conv => rhs; rw [← List.map_id (digitsOf 10 value)]
    apply List.map_congr_left
    intro digit mem
    exact digit_eq digit (digitsOf_lt (by decide) mem)
  rw [decimalValue, decimal_eq_map, same, valueOf_digitsOf]

/-! ## Pieces of a text -/

/-- Text without a separator belongs to the first piece of what it stands in front of. -/
theorem exists_splitOn_append {sep : Byte} {front : List Byte} (absent : sep ∉ front)
    (rest : List Byte) : ∃ first others, rest.splitOn sep = first :: others ∧
      (front ++ rest).splitOn sep = (front ++ first) :: others := by
  rcases List.exists_cons_of_ne_nil (List.splitOn_ne_nil sep rest) with ⟨first, others, split⟩
  refine ⟨first, others, split, ?_⟩
  induction front with
  | nil => exact split
  | cons ch front ih =>
      have ch_ne : ch ≠ sep := fun equal => absent (equal ▸ List.mem_cons_self)
      have absent' : sep ∉ front := fun mem => absent (List.mem_cons_of_mem ch mem)
      rw [List.cons_append, List.splitOn_cons_eq_if_modifyHead, if_neg (by simpa using ch_ne),
        ih absent']
      rfl

end NetPractice.Text
