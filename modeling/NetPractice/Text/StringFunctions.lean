import NetPractice.Text.CString
import Mathlib.Algebra.Group.Int.Defs
import Mathlib.Algebra.Group.Nat.Defs

/-!
# The string functions that the parsers call

The functions take the C string behind a pointer, and return offsets in it where
the library returns pointers.  Comparison ignores the case of ASCII letters, as
in the C locale.
-/

namespace NetPractice.Text

/-- The bytes of an ASCII literal. -/
def ascii (literal : String) : List Byte :=
  literal.toList.map fun char => char.toNat.toUInt8

/-- `'\r'`. -/
def CR : Byte := 13

/-- `'\n'`. -/
def LF : Byte := 10

/-- The bytes of the set `" \t"`. -/
def isBlank (byte : Byte) : Bool :=
  byte == 32 || byte == 9

/-- `strpbrk(text, " \t")`. -/
def strpbrk (text : List Byte) : Option Nat :=
  text.findIdx? isBlank

/-- `strspn(text, " \t")`. -/
def strspn (text : List Byte) : Nat :=
  (text.takeWhile isBlank).length

/-- `strchr(text, '/')`. -/
def strchrSlash (text : List Byte) : Option Nat :=
  text.findIdx? (· == 47)

/-- `tolower`. -/
def toLower (byte : Byte) : Byte :=
  if 65 ≤ byte ∧ byte ≤ 90 then byte + 32 else byte

/-- `strcasecmp(text, other) == 0`. -/
def strcasecmp (text other : List Byte) : Bool :=
  text.map toLower == other.map toLower

/-- `strncasecmp(text, other, n) == 0`, where `n` is the length of `other`. -/
def strncasecmp (text other : List Byte) : Bool :=
  (text.take other.length).map toLower == other.map toLower

/-- `isspace`. -/
def isSpace (byte : Byte) : Bool :=
  byte == 32 || (9 ≤ byte && byte ≤ 13)

/-- `isdigit`. -/
def isDigit (byte : Byte) : Bool :=
  48 ≤ byte && byte ≤ 57

/-- The value of the leading decimal digits. -/
def leadingNat (text : List Byte) : Nat :=
  (text.takeWhile isDigit).foldl (fun value byte => 10 * value + (byte.toNat - 48)) 0

/-- `strtol(text, NULL, 10)`, which saturates at the bounds of a 64-bit `long`. -/
def strtol (text : List Byte) : Int :=
  match text.dropWhile isSpace with
  | [] => 0
  | first :: rest =>
      if first = 45 then max (-(leadingNat rest : Int)) (-2 ^ 63)
      else if first = 43 then min (leadingNat rest : Int) (2 ^ 63 - 1)
      else min (leadingNat (first :: rest) : Int) (2 ^ 63 - 1)

/-- The value of an expression of type `int` or a conversion to it. -/
def toInt (value : Int) : Int :=
  value.bmod (2 ^ 32)

/-- `atoi(text)`. -/
def atoi (text : List Byte) : Int :=
  toInt (strtol text)

/-- A value in the range of `int` is itself. -/
theorem toInt_of_range {value : Int} (lower : -2 ^ 31 ≤ value) (upper : value < 2 ^ 31) :
    toInt value = value := by
  unfold toInt
  rw [Int.bmod_def]
  omega

example : atoi (ascii " 42\r") = 42 := by decide
example : atoi (ascii "-7x") = -7 := by decide
example : atoi (ascii "99999999999999999999") = -1 := by decide

/-! ## Tokens -/

theorem strpbrk_lt {text : List Byte} {blank : Nat} (found : strpbrk text = some blank) :
    blank < text.length :=
  (List.findIdx?_eq_some_iff_getElem.mp found).1

/-- No blank is in front of the first one. -/
theorem strspn_take {text : List Byte} {blank : Nat} (found : strpbrk text = some blank) :
    strspn (text.take blank) = 0 := by
  rcases List.findIdx?_eq_some_iff_getElem.mp found with ⟨lt, -, before⟩
  cases blank with
  | zero => rfl
  | succ blank =>
      have first := before 0 (Nat.succ_pos blank)
      cases text with
      | nil => rfl
      | cons byte text =>
          rw [strspn, List.take_succ_cons, List.takeWhile_cons_of_neg]
          · rfl
          · simpa using first

/-- Behind the blanks that `strspn` counts. -/
theorem drop_strspn (text : List Byte) : text.drop (strspn text) = text.dropWhile isBlank :=
  calc
    text.drop (text.takeWhile isBlank).length =
        (text.takeWhile isBlank ++ text.dropWhile isBlank).drop
          (text.takeWhile isBlank).length := by rw [List.takeWhile_append_dropWhile]
    _ = text.dropWhile isBlank := List.drop_left

theorem strspn_le (text : List Byte) : strspn text ≤ text.length :=
  (List.takeWhile_sublist _).length_le

section Tokens

variable {text first rest other : List Byte} {byte : Byte} {k : Nat}

theorem strpbrk_append (noBlank : ∀ byte ∈ first, ¬ isBlank byte) (blank : isBlank byte) :
    strpbrk (first ++ byte :: rest) = some first.length := by
  induction first with
  | nil => simp [strpbrk, List.findIdx?_cons, blank]
  | cons head first ih =>
      have here : ¬ isBlank head := noBlank head (by simp)
      have others := ih fun byte mem => noBlank byte (List.mem_cons_of_mem _ mem)
      unfold strpbrk at others ⊢
      simp [List.findIdx?_cons, here, others]

theorem strpbrk_eq_some (found : strpbrk text = some k) :
    ∃ first byte rest, text = first ++ byte :: rest ∧ first.length = k ∧
      (∀ byte ∈ first, ¬ isBlank byte) ∧ isBlank byte := by
  rcases List.findIdx?_eq_some_iff_getElem.mp found with ⟨lt, blank, before⟩
  refine ⟨text.take k, text[k], text.drop (k + 1), ?_, ?_, ?_, blank⟩
  · rw [List.getElem_cons_drop, List.take_append_drop]
  · rw [List.length_take, Nat.min_eq_left (Nat.le_of_lt lt)]
  · intro byte mem
    rcases List.getElem_of_mem mem with ⟨j, j_lt, rfl⟩
    rw [List.length_take] at j_lt
    rw [List.getElem_take]
    exact before j (by omega)

theorem strspn_append (blanks : ∀ byte ∈ first, isBlank byte)
    (stops : ∀ byte ∈ rest.head?, ¬ isBlank byte) : strspn (first ++ rest) = first.length := by
  unfold strspn
  rw [List.takeWhile_append_of_pos blanks]
  cases rest with
  | nil => simp
  | cons byte rest => rw [List.takeWhile_cons_of_neg (stops byte rfl), List.append_nil]

/-- Blanks at the beginning of a text, and what is behind them. -/
theorem strspn_split (text : List Byte) :
    ∃ blanks, text = blanks ++ text.drop (strspn text) ∧ ∀ byte ∈ blanks, isBlank byte :=
  ⟨text.take (strspn text), (List.take_append_drop _ _).symm, fun byte mem => by
    unfold strspn at mem
    rw [← List.prefix_iff_eq_take.mp (List.takeWhile_prefix _)] at mem
    exact List.mem_takeWhile_imp mem⟩

/-- The first word of a text. -/
theorem takeWhile_of_strpbrk (found : strpbrk text = some k) :
    text.takeWhile (! isBlank ·) = text.take k := by
  rcases strpbrk_eq_some found with ⟨first, byte, rest, rfl, rfl, noBlank, isBlank⟩
  rw [List.takeWhile_append_of_pos (by simpa using noBlank), List.takeWhile_cons_of_neg (by simpa),
    List.append_nil, List.take_left]

/-- The text behind the first word and the blanks that follow it. -/
theorem dropWhile_of_strpbrk (found : strpbrk text = some k) :
    (text.dropWhile (! isBlank ·)).dropWhile isBlank =
      (text.drop (k + 1)).drop (strspn (text.drop (k + 1))) := by
  rcases strpbrk_eq_some found with ⟨first, byte, rest, rfl, rfl, noBlank, isBlank⟩
  have behind : (first ++ byte :: rest).drop (first.length + 1) = rest := by simp
  rw [behind, List.dropWhile_append_of_pos (by simpa using noBlank),
    List.dropWhile_cons_of_neg (by simpa), List.dropWhile_cons_of_pos isBlank, drop_strspn]

/-- The text from its first slash on. -/
theorem drop_of_strchrSlash (found : strchrSlash text = some k) :
    text.drop k = text.dropWhile (· != 47) := by
  rcases List.findIdx?_eq_some_iff_getElem.mp found with ⟨lt, slash, before⟩
  have split := List.take_append_drop k text
  have others : ∀ byte ∈ text.take k, (byte != 47) = true := by
    intro byte mem
    rcases List.getElem_of_mem mem with ⟨j, j_lt, rfl⟩
    rw [List.length_take] at j_lt
    rw [List.getElem_take]
    simpa using before j (by omega)
  conv_rhs => rw [← split, List.dropWhile_append_of_pos others]
  rw [List.drop_eq_getElem_cons lt, List.dropWhile_cons_of_neg]
  simpa using slash

theorem strcasecmp_length (same : strcasecmp text other = true) : text.length = other.length := by
  simpa using congrArg List.length (beq_iff_eq.mp same)

/-- A word without blanks is spelled without them. -/
theorem noBlank_of_strcasecmp (same : strcasecmp text other = true)
    (noBlank : ∀ byte ∈ other.map toLower, ¬ isBlank byte) : ∀ byte ∈ text, ¬ isBlank byte := by
  intro byte mem blank
  have lower : toLower byte = byte := by
    simp only [isBlank, Bool.or_eq_true, beq_iff_eq] at blank
    rcases blank with rfl | rfl
    · rfl
    · rfl
  have mem' : byte ∈ text.map toLower := List.mem_map.mpr ⟨byte, mem, lower⟩
  rw [beq_iff_eq.mp same] at mem'
  exact noBlank byte mem' blank

theorem length_le_of_strncasecmp (equal : strncasecmp text other = true) :
    other.length ≤ text.length := by
  have length_eq := congrArg List.length (beq_iff_eq.mp equal)
  simp only [List.length_map, List.length_take] at length_eq
  omega

/-- Texts that begin with the same word agree in each of its bytes. -/
theorem getElem?_of_strncasecmp (equal : strncasecmp text other = true) (lt : k < other.length) :
    text[k]?.map toLower = other[k]?.map toLower := by
  have byte_eq := congrArg (fun text => text[k]?) (beq_iff_eq.mp equal)
  simp only [List.getElem?_map] at byte_eq
  rwa [List.getElem?_take_of_lt lt] at byte_eq

theorem strncasecmp_iff : strncasecmp text other = true ↔
    ∃ scheme rest, text = scheme ++ rest ∧ strcasecmp scheme other = true := by
  constructor
  · intro same
    exact ⟨text.take other.length, text.drop other.length, (List.take_append_drop _ _).symm, same⟩
  · rintro ⟨scheme, rest, rfl, same⟩
    rw [strncasecmp, ← strcasecmp_length same, List.take_left]
    exact same

end Tokens

/-! ## Decimal numbers -/

/-- The digits of a number, as `%u` prints them. -/
def decimal (value : Nat) : List Byte :=
  (Nat.toDigits 10 value).map fun char => char.toNat.toUInt8

theorem isDigit_of_mem_decimal {value : Nat} {byte : Byte} (mem : byte ∈ decimal value) :
    isDigit byte := by
  rcases List.mem_map.mp mem with ⟨char, charMem, rfl⟩
  have range := Char.isDigit_iff_toNat.mp
    (Nat.isDigit_of_mem_toDigits (by decide) (by decide) charMem)
  have lower : 48 ≤ char.toNat := range.1
  have upper : char.toNat ≤ 57 := range.2
  have code : (char.toNat.toUInt8).toNat = char.toNat := Nat.mod_eq_of_lt (by omega)
  simp only [isDigit, Bool.and_eq_true, decide_eq_true_eq, UInt8.le_iff_toNat_le, code]
  exact ⟨lower, upper⟩

theorem length_decimal_le {value digits : Nat} (positive : 0 < digits) (lt : value < 10 ^ digits) :
    (decimal value).length ≤ digits := by
  rw [decimal, List.length_map]
  exact (Nat.length_toDigits_le_iff (by decide) positive).mpr lt

/-- Reading a printed number gives the number. -/
theorem leadingNat_decimal (value : Nat) : leadingNat (decimal value) = value := by
  have digits : (decimal value).takeWhile isDigit = decimal value :=
    List.takeWhile_eq_self_iff.mpr fun byte mem => isDigit_of_mem_decimal mem
  have byte_eq : ∀ char ∈ Nat.toDigits 10 value, ∀ sum : Nat,
      10 * sum + (char.toNat.toUInt8.toNat - 48) = 10 * sum + (char.toNat - '0'.toNat) := by
    intro char mem sum
    have range := Char.isDigit_iff_toNat.mp
      (Nat.isDigit_of_mem_toDigits (by decide) (by decide) mem)
    have upper : char.toNat ≤ 57 := range.2
    have code : (char.toNat.toUInt8).toNat = char.toNat := Nat.mod_eq_of_lt (by omega)
    rw [code]
    rfl
  unfold leadingNat
  rw [digits, decimal, List.foldl_map]
  refine Eq.trans ?_ (Nat.ofDigitChars_ten_toDigits (n := value))
  unfold Nat.ofDigitChars
  generalize Nat.toDigits 10 value = chars at byte_eq
  generalize 0 = sum
  induction chars generalizing sum with
  | nil => rfl
  | cons char chars ih =>
      rw [List.foldl_cons, List.foldl_cons, byte_eq char List.mem_cons_self]
      exact ih (fun other mem => byte_eq other (List.mem_cons_of_mem char mem)) _

theorem decimal_injective {value other : Nat} (equal : decimal value = decimal other) :
    value = other := by
  rw [← leadingNat_decimal value, equal, leadingNat_decimal]

end NetPractice.Text
