import NetPractice.Inet.Core
import NetPractice.Text.Joined
import Mathlib.Data.List.Forall2

/-!
# Dotted quads

`inet_pton4` accepts four decimal numbers with dots between them, and nothing else.
`inet_aton` accepts that and more: fewer numbers, empty ones, and numbers that wrap
around to a byte in the 64 bits of its accumulator.
-/

namespace NetPractice.Inet

open NetPractice.Text

/-- A number of a dotted quad and its value. -/
structure Octet (piece : List Byte) (byte : Byte) : Prop where
  nonempty : piece ≠ []
  digits : ∀ ch ∈ piece, isDigit ch
  value : decimalValue piece = byte.toNat

/-- Four numbers with dots between them. -/
def DottedQuad (text addr : List Byte) : Prop :=
  addr.length = INADDRSZ ∧ List.Forall₂ Octet (text.splitOn dot) addr

theorem strchr_digits (ch : Byte) :
    strchr digits ch = if isDigit ch then some (ch.toNat - 48) else none := by
  have all : ∀ code, code < 256 → strchr digits (UInt8.ofNat code) =
      if isDigit (UInt8.ofNat code) then some ((UInt8.ofNat code).toNat - 48) else none := by
    decide +kernel
  simpa using all ch.toNat ch.toNat_lt

theorem dot_notMem {text : List Byte} (digits : ∀ ch ∈ text, isDigit ch) : dot ∉ text :=
  fun mem => absurd (digits dot mem) (by decide)

/-- The bytes begin with `front`, and the pieces stand for those behind it. -/
def Behind (stands : List Byte → Byte → Prop) (front : List Byte) (pieces : List (List Byte))
    (bytes : List Byte) : Prop :=
  ∃ rest, bytes = front ++ rest ∧ List.Forall₂ stands pieces rest

section Behind

variable {stands : List Byte → Byte → Prop} {front piece bytes : List Byte}
  {pieces : List (List Byte)}

theorem behind_nil : Behind stands front [] bytes ↔ bytes = front := by
  simp [Behind]

/-- The first piece is read. -/
theorem behind_cons {byte : Byte} (first : stands piece byte)
    (unique : ∀ other, stands piece other → other = byte) :
    Behind stands front (piece :: pieces) bytes ↔
      Behind stands (front ++ [byte]) pieces bytes := by
  constructor
  · rintro ⟨rest, rfl, all⟩
    rcases List.forall₂_cons_left_iff.mp all with ⟨other, others, stand, behind, rfl⟩
    obtain rfl := unique other stand
    exact ⟨others, by simp, behind⟩
  · rintro ⟨rest, rfl, all⟩
    exact ⟨byte :: rest, by simp, .cons first all⟩

theorem Behind.first (behind : Behind stands front (piece :: pieces) bytes) :
    ∃ byte, stands piece byte := by
  rcases behind with ⟨rest, -, all⟩
  rcases List.forall₂_cons_left_iff.mp all with ⟨byte, -, stand, -, -⟩
  exact ⟨byte, stand⟩

theorem Behind.length_eq (behind : Behind stands front pieces bytes) :
    front.length + pieces.length = bytes.length := by
  rcases behind with ⟨rest, rfl, all⟩
  rw [all.length_eq, List.length_append]

/-- The first piece begins with the text in front of the first dot. -/
theorem Behind.first_of_front {src : List Byte} (noDot : dot ∉ piece)
    (behind : Behind stands front ((piece ++ src).splitOn dot) bytes) :
    ∃ more byte, stands (piece ++ more) byte := by
  rcases exists_splitOn_append noDot src with ⟨more, others, -, split⟩
  rw [split] at behind
  exact ⟨more, behind.first⟩

end Behind

theorem Octet.unique {piece : List Byte} {byte : Byte} (octet : Octet piece byte) (other : Byte)
    (octet' : Octet piece other) : other = byte :=
  UInt8.toNat_inj.mp (octet'.value.symm.trans octet.value)

section Scan4

variable {front cur src addr : List Byte}

/-- The locals in front of the rest of a number, when `cur` has been read of it. -/
def scanned4 (front cur : List Byte) : Scan4 :=
  ⟨front, (decimalValue cur).toUInt8, front.length + if cur = [] then 0 else 1, cur ≠ []⟩

theorem scanned4_digit {ch : Byte} (digit : isDigit ch) (room : front.length < INADDRSZ)
    (fits : decimalValue (cur ++ [ch]) ≤ 255) :
    (scanned4 front cur).next ch = some (scanned4 front (cur ++ [ch])) := by
  have before := Nat.le_trans (decimalValue_le_append cur [ch]) fits
  have last : (decimalValue cur).toUInt8.toNat = decimalValue cur :=
    Nat.mod_eq_of_lt (by omega)
  have nonempty : cur ++ [ch] ≠ [] :=
    List.append_ne_nil_of_right_ne_nil cur (List.cons_ne_nil ch [])
  rw [INADDRSZ] at room
  rw [decimalValue_concat] at fits
  unfold Scan4.next scanned4
  rw [strchr_digits, if_pos digit]
  dsimp only
  rw [last, if_neg (by omega), decimalValue_concat, if_neg nonempty]
  by_cases first : cur = []
  · subst first
    simp [show ¬ 4 < front.length + 1 by omega]
  · simp [first]

theorem scanned4_overflow {ch : Byte} (digit : isDigit ch) (fits : decimalValue cur ≤ 255)
    (overflow : 255 < decimalValue (cur ++ [ch])) : (scanned4 front cur).next ch = none := by
  have last : (decimalValue cur).toUInt8.toNat = decimalValue cur :=
    Nat.mod_eq_of_lt (by omega)
  rw [decimalValue_concat] at overflow
  unfold Scan4.next scanned4
  rw [strchr_digits, if_pos digit]
  dsimp only
  rw [last, if_pos overflow]

theorem scanned4_dot (nonempty : cur ≠ []) : (scanned4 front cur).next dot =
    if front.length + 1 = INADDRSZ then none
    else some (scanned4 (front ++ [(decimalValue cur).toUInt8]) []) := by
  unfold Scan4.next scanned4
  rw [strchr_digits, if_neg (by decide)]
  simp [nonempty, INADDRSZ]

theorem scanned4_other {ch : Byte} (noDigit : ¬ isDigit ch) (noDot : ¬ (ch = dot ∧ cur ≠ [])) :
    (scanned4 front cur).next ch = none := by
  unfold Scan4.next scanned4
  rw [strchr_digits, if_neg noDigit]
  have refused : ¬ (ch = dot ∧ decide (cur ≠ []) = true) := by simpa using noDot
  exact if_neg refused

/-- The part of `inet_pton4` behind its loop. -/
def Scan4.finish (s : Scan4) : Option (List Byte) :=
  if s.octets < 4 then none else some (s.front ++ [s.last])

theorem octet_of_fits (digits : ∀ ch ∈ cur, isDigit ch) (fits : decimalValue cur ≤ 255)
    (nonempty : cur ≠ []) : Octet cur (decimalValue cur).toUInt8 :=
  have value : (decimalValue cur).toUInt8.toNat = decimalValue cur := Nat.mod_eq_of_lt (by omega)
  ⟨nonempty, digits, value.symm⟩

/-- The last number. -/
theorem finish4_eq_some_iff (room : front.length < INADDRSZ) (digits : ∀ ch ∈ cur, isDigit ch)
    (fits : decimalValue cur ≤ 255) :
    (scanned4 front cur).finish = some addr ↔
      addr.length = INADDRSZ ∧ Behind Octet front [cur] addr := by
  unfold Scan4.finish scanned4
  rw [INADDRSZ] at room ⊢
  by_cases empty : cur = []
  · refine iff_of_false ?_ fun both => ?_
    · simp [empty, room]
    · rcases both.2.first with ⟨byte, octet⟩
      exact octet.nonempty empty
  · have octet := octet_of_fits digits fits empty
    rw [behind_cons octet octet.unique, behind_nil]
    simp only [empty, if_false, Option.ite_none_left_eq_some, Option.some.injEq]
    constructor
    · rintro ⟨complete, rfl⟩
      refine ⟨?_, rfl⟩
      rw [List.length_append, List.length_singleton]
      omega
    · rintro ⟨length_eq, rfl⟩
      rw [List.length_append, List.length_singleton] at length_eq
      exact ⟨by omega, rfl⟩

/-- A character that is neither a digit nor a dot behind a number. -/
theorem not_behind_other {ch : Byte} (noDot : dot ∉ cur) (noDigit : ¬ isDigit ch)
    (noEnd : ¬ (ch = dot ∧ cur ≠ [])) :
    ¬ Behind Octet front ((cur ++ [ch] ++ src).splitOn dot) addr := by
  intro behind
  by_cases isDot : ch = dot
  · have empty : cur = [] := not_not.mp fun nonempty => noEnd ⟨isDot, nonempty⟩
    rw [empty, isDot, List.nil_append, List.singleton_append,
      List.splitOn_cons_eq_if_modifyHead, if_pos (by simp)] at behind
    rcases behind.first with ⟨byte, octet⟩
    exact octet.nonempty rfl
  · have noDot' : dot ∉ cur ++ [ch] := by
      simpa [noDot] using Ne.symm isDot
    rcases behind.first_of_front noDot' with ⟨more, byte, octet⟩
    exact noDigit (octet.digits ch (by simp))

/-- What is left to read completes the number that is being read, and gives the numbers
behind it. -/
theorem scan4_eq_some_iff (room : front.length < INADDRSZ) (digits : ∀ ch ∈ cur, isDigit ch)
    (fits : decimalValue cur ≤ 255) :
    (src.foldlM Scan4.next (scanned4 front cur)).bind Scan4.finish = some addr ↔
      addr.length = INADDRSZ ∧ Behind Octet front ((cur ++ src).splitOn dot) addr := by
  have noDot := dot_notMem digits
  induction src generalizing front cur with
  | nil =>
      rw [List.append_nil, List.splitOn_eq_singleton noDot, List.foldlM_nil]
      exact finish4_eq_some_iff room digits fits
  | cons ch src ih =>
      have assoc : cur ++ ch :: src = cur ++ [ch] ++ src := by simp
      rw [List.foldlM_cons, assoc]
      by_cases digit : isDigit ch
      · have digits' : ∀ c ∈ cur ++ [ch], isDigit c :=
          List.forall_mem_append.mpr ⟨digits, List.forall_mem_singleton.mpr digit⟩
        by_cases fits' : decimalValue (cur ++ [ch]) ≤ 255
        · rw [scanned4_digit digit room fits']
          exact ih room digits' fits' (dot_notMem digits')
        · rw [scanned4_overflow digit fits (by omega)]
          refine iff_of_false (by simp) fun both => ?_
          rcases both.2.first_of_front (dot_notMem digits') with ⟨more, byte, octet⟩
          have value_le := decimalValue_le_append (cur ++ [ch]) more
          rw [octet.value] at value_le
          have byte_lt := byte.toNat_lt
          omega
      · by_cases ends : ch = dot ∧ cur ≠ []
        · rcases ends with ⟨rfl, nonempty⟩
          have pieces : (cur ++ [dot] ++ src).splitOn dot = cur :: src.splitOn dot := by
            rw [← assoc, List.splitOn_append_cons_self_of_not_mem noDot]
          rw [scanned4_dot nonempty, pieces]
          by_cases full : front.length + 1 = INADDRSZ
          · rw [if_pos full]
            refine iff_of_false (by simp) fun both => ?_
            have count := both.2.length_eq
            have more := List.length_pos_iff.mpr (List.splitOn_ne_nil dot src)
            rw [List.length_cons, both.1] at count
            omega
          · have octet := octet_of_fits digits fits nonempty
            have room' : (front ++ [(decimalValue cur).toUInt8]).length < INADDRSZ := by
              rw [List.length_append, List.length_singleton]
              omega
            rw [if_neg full, behind_cons octet octet.unique]
            exact ih room' (by simp) (by decide) (by simp)
        · rw [scanned4_other digit ends]
          exact iff_of_false (by simp) fun both => not_behind_other noDot digit ends both.2

theorem inetPton4_eq_some_iff (src addr : List Byte) :
    inetPton4 src = some addr ↔ DottedQuad src addr := by
  have room : ([] : List Byte).length < INADDRSZ := by decide
  have digits : ∀ ch ∈ ([] : List Byte), isDigit ch := fun ch mem => by cases mem
  refine Iff.trans (by rfl) ((scan4_eq_some_iff room digits (by decide)).trans ?_)
  simp [DottedQuad, Behind]

end Scan4

/-! ## Printed quads -/

section QuadText

variable {addr : List Byte}

theorem octet_decimal (byte : Byte) : Octet (decimal byte.toNat) byte where
  nonempty := by
    rw [decimal_eq_map]
    exact fun empty => digitsOf_ne_nil 10 byte.toNat (List.map_eq_nil_iff.mp empty)
  digits _ mem := isDigit_of_mem_decimal mem
  value := decimalValue_decimal byte.toNat

theorem dottedQuad_quadText (length_eq : addr.length = INADDRSZ) :
    DottedQuad (quadText addr) addr := by
  have noDot : ∀ piece ∈ addr.map fun byte => decimal byte.toNat, dot ∉ piece := by
    intro piece mem
    rcases List.mem_map.mp mem with ⟨byte, -, rfl⟩
    exact dot_notMem fun ch mem => isDigit_of_mem_decimal mem
  have nonempty : (addr.map fun byte => decimal byte.toNat) ≠ [] := by
    intro empty
    rw [List.map_eq_nil_iff.mp empty] at length_eq
    cases length_eq
  have pieces : (quadText addr).splitOn dot = addr.map fun byte => decimal byte.toNat := by
    unfold quadText
    rw [List.take_of_length_le (Nat.le_of_eq length_eq),
      List.splitOn_intercalate dot noDot nonempty]
  refine ⟨length_eq, ?_⟩
  rw [pieces, List.forall₂_map_left_iff, List.forall₂_same]
  exact fun byte _ => octet_decimal byte

theorem zero_notMem_quadText (addr : List Byte) : 0 ∉ quadText addr := by
  intro mem
  rcases mem_intercalate mem with isDot | ⟨piece, pieceMem, here⟩
  · exact absurd isDot (by decide)
  · rcases List.mem_map.mp pieceMem with ⟨byte, -, rfl⟩
    exact absurd (isDigit_of_mem_decimal here) (by decide)

theorem length_quadText_le (addr : List Byte) : (quadText addr).length ≤ 15 := by
  have widths : ∀ piece ∈ (addr.take INADDRSZ).map (fun byte => decimal byte.toNat),
      piece.length ≤ 3 := by
    intro piece mem
    rcases List.mem_map.mp mem with ⟨byte, -, rfl⟩
    have byte_lt := byte.toNat_lt
    exact length_decimal_le (by decide) (by omega)
  have count : ((addr.take INADDRSZ).map fun byte => decimal byte.toNat).length ≤ 4 := by
    rw [List.length_map]
    exact List.length_take_le INADDRSZ addr
  have total := length_intercalate_le dot widths
  unfold quadText
  omega

theorem quadText_take (addr : List Byte) :
    (quadText addr).take (Ipv4.INET_ADDRSTRLEN - 1) = quadText addr :=
  List.take_of_length_le (length_quadText_le addr)

/-- What `inet_ntop4` stores reads back as the address. -/
theorem inetPton4_of_printed (length_eq : addr.length = INADDRSZ) {size : Nat}
    {stored : List Byte} (printed : inetNtop4 addr size = some stored) :
    inetPton4 (cstr stored) = some addr := by
  rcases Option.ite_none_left_eq_some.mp printed with ⟨-, same⟩
  cases same
  rw [cstr_append_nul (zero_notMem_quadText addr)]
  exact (inetPton4_eq_some_iff _ _).mpr (dottedQuad_quadText length_eq)

/-- What `inet_ntop4` stores reads back as the address.  Where the text alone fills `dst`
the NUL byte is stored behind it, and there the version for IPv4 only returns NULL. -/
theorem inetNtop4_spec (length_eq : addr.length = INADDRSZ) (size : Nat) :
    (inetNtop4 addr size = Ipv4.inetNtop .inet addr size ↔ size ≠ (quadText addr).length) ∧
      ∀ stored, inetNtop4 addr size = some stored →
        inetPton4 (cstr stored) = some addr ∧
          (stored.length ≤ size ↔ size ≠ (quadText addr).length) := by
  have readBack : ∀ stored, inetNtop4 addr size = some stored →
      inetPton4 (cstr stored) = some addr := fun _ => inetPton4_of_printed length_eq
  unfold inetNtop4 Ipv4.inetNtop
  dsimp only
  rw [quadText_take]
  by_cases small : size < (quadText addr).length
  · rw [if_pos small, if_pos (Nat.le_of_lt small)]
    exact ⟨iff_of_true rfl (Nat.ne_of_lt small), fun _ none => by cases none⟩
  · rw [if_neg small]
    constructor
    · by_cases full : size = (quadText addr).length
      · rw [if_pos (Nat.le_of_eq full)]
        exact iff_of_false (by simp) (not_not.mpr full)
      · rw [if_neg (by omega)]
        exact iff_of_true rfl full
    · intro stored printed
      refine ⟨readBack stored ((if_neg small).trans printed), ?_⟩
      cases printed
      rw [List.length_append, List.length_singleton]
      omega

/-- The last address at a buffer of the length of its text. -/
theorem inetNtop4_spec_broadcast :
    [255, 255, 255, 255].length = INADDRSZ ∧
      inetNtop4 [255, 255, 255, 255] 15 ≠ Ipv4.inetNtop .inet [255, 255, 255, 255] 15 ∧
      ∃ stored, inetNtop4 [255, 255, 255, 255] 15 = some stored ∧
        inetPton4 (cstr stored) = some [255, 255, 255, 255] ∧ ¬ stored.length ≤ 15 := by
  have size : ([255, 255, 255, 255] : List Byte).length = INADDRSZ := rfl
  have spec := inetNtop4_spec size 15
  have length_eq : (quadText [255, 255, 255, 255]).length = 15 := by decide +kernel
  have printed : inetNtop4 [255, 255, 255, 255] 15 =
      some (ascii "255.255.255.255" ++ [0]) := by decide +kernel
  refine ⟨rfl, ?_, _, printed, (spec.2 _ printed).1, ?_⟩
  · rw [ne_eq, spec.1, length_eq]
    decide
  · rw [(spec.2 _ printed).2, length_eq]
    decide

end QuadText

/-! ## inet_aton -/

/-- A number as `inet_aton` reads it: it may be empty, and it wraps around. -/
structure Number (piece : List Byte) (byte : Byte) : Prop where
  digits : ∀ ch ∈ piece, isDigit ch
  value : decimalValue piece % 2 ^ 64 = byte.toNat

theorem Octet.number {piece : List Byte} {byte : Byte} (octet : Octet piece byte) :
    Number piece byte where
  digits := octet.digits
  value := by
    have byte_lt := byte.toNat_lt
    rw [octet.value]
    exact Nat.mod_eq_of_lt (by omega)

/-- Up to four numbers with dots between them; what is missing is zero. -/
def DottedNumbers (text addr : List Byte) : Prop :=
  ∃ bytes, List.Forall₂ Number (text.splitOn dot) bytes ∧ bytes.length ≤ INADDRSZ ∧
    addr = bytes ++ List.replicate (INADDRSZ - bytes.length) 0

section ScanAton

variable {front cur src addr : List Byte}

/-- The number that bytes form in network order. -/
def packed (bytes : List Byte) : Nat :=
  valueOf 256 (bytes.map UInt8.toNat)

theorem packed_concat (bytes : List Byte) (byte : Byte) :
    packed (bytes ++ [byte]) = 256 * packed bytes + byte.toNat := by
  rw [packed, List.map_append, List.map_singleton, valueOf_concat]
  rfl

theorem packed_lt (bytes : List Byte) : packed bytes < 256 ^ bytes.length := by
  induction bytes using List.reverseRecOn with
  | nil => decide
  | append_singleton bytes byte ih =>
      have byte_lt := byte.toNat_lt
      rw [packed_concat, List.length_append, List.length_singleton, Nat.pow_succ]
      omega

theorem packed_replicate (bytes : List Byte) (count : Nat) :
    packed (bytes ++ List.replicate count 0) = packed bytes * 256 ^ count := by
  induction count with
  | zero => simp
  | succ count ih =>
      rw [List.replicate_succ', ← List.append_assoc, packed_concat, ih, Nat.pow_succ]
      change 256 * (packed bytes * 256 ^ count) + 0 = _
      ring

/-- `htonl` undoes the packing. -/
theorem htonl_packed {bytes : List Byte} (length_eq : bytes.length = INADDRSZ) :
    htonl (UInt64.ofNat (packed bytes)) = bytes := by
  obtain ⟨a, b, c, d, rfl⟩ : ∃ a b c d, bytes = [a, b, c, d] := by
    match bytes, length_eq with
    | [a, b, c, d], _ => exact ⟨a, b, c, d, rfl⟩
  have a_lt := a.toNat_lt
  have b_lt := b.toNat_lt
  have c_lt := c.toNat_lt
  have d_lt := d.toNat_lt
  have value : packed [a, b, c, d] =
      256 * (256 * (256 * a.toNat + b.toNat) + c.toNat) + d.toNat := by
    simp [packed, valueOf]
  rw [value]
  unfold htonl
  congr 1
  · apply UInt8.toNat_inj.mp
    simp only [UInt64.toNat_toUInt8, UInt64.toNat_shiftRight, UInt64.toNat_ofNat']
    simp [Nat.shiftRight_eq_div_pow]
    omega
  congr 1
  · apply UInt8.toNat_inj.mp
    simp only [UInt64.toNat_toUInt8, UInt64.toNat_shiftRight, UInt64.toNat_ofNat']
    simp [Nat.shiftRight_eq_div_pow]
    omega
  congr 1
  · apply UInt8.toNat_inj.mp
    simp only [UInt64.toNat_toUInt8, UInt64.toNat_shiftRight, UInt64.toNat_ofNat']
    simp [Nat.shiftRight_eq_div_pow]
    omega
  congr 1
  · apply UInt8.toNat_inj.mp
    simp only [UInt64.toNat_toUInt8, UInt64.toNat_ofNat']
    omega

/-- The bytes that are missing are zero. -/
theorem packed_shiftLeft {bytes : List Byte} {count : Nat} (few : count ≤ 3) :
    UInt64.ofNat (packed bytes) <<< (8 * count).toUInt64 =
      UInt64.ofNat (packed (bytes ++ List.replicate count 0)) := by
  have power : 256 ^ count = 2 ^ (8 * count) := by
    rw [Nat.pow_mul]
  rw [packed_replicate, power]
  apply UInt64.toNat_inj.mp
  have width : (8 * count).toUInt64.toNat % 64 = 8 * count := by
    change (8 * count) % 2 ^ 64 % 64 = 8 * count
    omega
  rw [UInt64.toNat_shiftLeft, width, UInt64.toNat_ofNat', UInt64.toNat_ofNat', Nat.shiftLeft_eq,
    Nat.mod_mul_mod]

/-- The locals in front of the rest of a number, when `cur` has been read of it. -/
def scannedAton (front cur : List Byte) : ScanAton :=
  ⟨front.length, UInt64.ofNat (decimalValue cur), UInt64.ofNat (packed front)⟩

theorem scannedAton_digit {ch : Byte} (digit : isDigit ch) :
    (scannedAton front cur).next ch = some (scannedAton front (cur ++ [ch])) := by
  have lower : 48 ≤ ch.toNat := by
    simp only [isDigit, Bool.and_eq_true, decide_eq_true_eq] at digit
    exact UInt8.le_iff_toNat_le.mp digit.1
  have difference : (ch - 48).toNat = ch.toNat - 48 := by
    rw [UInt8.toNat_sub_of_le _ _ lower]
    rfl
  have word : (ch - 48).toUInt64 = UInt64.ofNat (ch.toNat - 48) := by
    rw [← difference]
    exact UInt64.toNat_inj.mp (by simp)
  unfold ScanAton.next scannedAton
  rw [if_pos digit, decimalValue_concat, word, UInt64.ofNat_add, UInt64.ofNat_mul]
  rfl

/-- A number that wraps around to more than a byte is refused. -/
theorem number_eq_none {s : ScanAton} (acc_eq : s.acc = UInt64.ofNat (decimalValue cur))
    (large : 255 < decimalValue cur % 2 ^ 64) : s.number = none := by
  unfold ScanAton.number
  rw [acc_eq]
  refine if_pos (UInt64.lt_iff_toNat_lt.mpr ?_)
  rw [UInt64.toNat_ofNat']
  exact large

/-- Any other number becomes the next byte of the address. -/
theorem number_eq_some {s : ScanAton} {byte : Byte}
    (acc_eq : s.acc = UInt64.ofNat (decimalValue cur))
    (addr_eq : s.addr = UInt64.ofNat (packed front)) (room : front.length < INADDRSZ)
    (value : decimalValue cur % 2 ^ 64 = byte.toNat) :
    s.number = some ⟨s.dots, 0, UInt64.ofNat (packed (front ++ [byte]))⟩ := by
  have byte_lt := byte.toNat_lt
  have acc : UInt64.ofNat (decimalValue cur) = UInt64.ofNat byte.toNat := by
    apply UInt64.toNat_inj.mp
    rw [UInt64.toNat_ofNat', UInt64.toNat_ofNat', value, Nat.mod_eq_of_lt (by omega)]
  have small : packed front < 256 ^ 3 :=
    Nat.lt_of_lt_of_le (packed_lt front) (Nat.pow_le_pow_right (by decide) (Nat.le_of_lt_succ room))
  have joined : packed front <<< 8 ||| byte.toNat = 256 * packed front + byte.toNat := by
    rw [← Nat.shiftLeft_add_eq_or_of_lt (i := 8) byte_lt, Nat.shiftLeft_eq]
    omega
  have shifted : packed front <<< 8 % 2 ^ 64 = packed front <<< 8 := by
    apply Nat.mod_eq_of_lt
    rw [Nat.shiftLeft_eq]
    omega
  have word : UInt64.ofNat (packed front) <<< 8 ||| UInt64.ofNat byte.toNat =
      UInt64.ofNat (packed (front ++ [byte])) := by
    apply UInt64.toNat_inj.mp
    rw [packed_concat, ← joined]
    simp only [UInt64.toNat_or, UInt64.toNat_shiftLeft, UInt64.toNat_ofNat']
    rw [Nat.mod_eq_of_lt (a := packed front) (by omega),
      Nat.mod_eq_of_lt (a := byte.toNat) (by omega), joined,
      Nat.mod_eq_of_lt (a := 256 * packed front + byte.toNat) (by omega), ← joined]
    exact congrArg (· ||| byte.toNat) shifted
  unfold ScanAton.number
  rw [acc_eq, acc, addr_eq, word]
  refine if_neg fun large => ?_
  have large' := UInt64.lt_iff_toNat_lt.mp large
  rw [UInt64.toNat_ofNat', Nat.mod_eq_of_lt (by omega)] at large'
  change 255 < byte.toNat at large'
  omega

theorem scannedAton_dot (room : front.length < INADDRSZ) : (scannedAton front cur).next dot =
    if front.length = 3 then none
    else ({ scannedAton front cur with dots := front.length + 1 } : ScanAton).number := by
  have last_iff : 3 < front.length + 1 ↔ front.length = 3 := by
    rw [INADDRSZ] at room
    omega
  unfold ScanAton.next scannedAton
  rw [if_neg (by decide), if_pos rfl]
  simp only [last_iff]

/-- The part of `inet_aton` at the NUL byte. -/
def ScanAton.finish (s : ScanAton) : Option (List Byte) := do
  let s ← s.number
  let addr := if s.dots < 3 then s.addr <<< (8 * (3 - s.dots)).toUInt64 else s.addr
  some (htonl addr)

theorem finish_eq_some {byte : Byte} (room : front.length < INADDRSZ)
    (value : decimalValue cur % 2 ^ 64 = byte.toNat) :
    (scannedAton front cur).finish =
      some (front ++ [byte] ++ List.replicate (INADDRSZ - (front ++ [byte]).length) 0) := by
  rw [ScanAton.finish, number_eq_some rfl rfl room value]
  have padding : INADDRSZ - (front ++ [byte]).length = 3 - front.length := by
    rw [List.length_append, List.length_singleton, INADDRSZ]
    omega
  have shifted : (if front.length < 3 then
      UInt64.ofNat (packed (front ++ [byte])) <<< (8 * (3 - front.length)).toUInt64
      else UInt64.ofNat (packed (front ++ [byte]))) =
        UInt64.ofNat (packed (front ++ [byte] ++ List.replicate (3 - front.length) 0)) := by
    by_cases fewer : front.length < 3
    · rw [if_pos fewer, packed_shiftLeft (Nat.sub_le 3 front.length)]
    · have none : 3 - front.length = 0 := by omega
      rw [if_neg fewer, none, List.replicate_zero, List.append_nil]
  have length_eq : (front ++ [byte] ++ List.replicate (3 - front.length) 0).length = INADDRSZ := by
    simp only [List.length_append, List.length_singleton, List.length_replicate]
    rw [INADDRSZ] at room ⊢
    omega
  rw [padding, ← htonl_packed length_eq, ← shifted]
  rfl

/-- The pieces are the numbers of an address, behind those that were read before; the rest of
the address is zero. -/
def NumbersBehind (front : List Byte) (pieces : List (List Byte)) (addr : List Byte) : Prop :=
  ∃ bytes, Behind Number front pieces bytes ∧ bytes.length ≤ INADDRSZ ∧
    addr = bytes ++ List.replicate (INADDRSZ - bytes.length) 0

theorem Number.unique {byte : Byte} (number : Number cur byte) (other : Byte)
    (number' : Number cur other) : other = byte :=
  UInt8.toNat_inj.mp (number'.value.symm.trans number.value)

/-- The first number is read. -/
theorem numbersBehind_cons {byte : Byte} (number : Number cur byte) {pieces : List (List Byte)} :
    NumbersBehind front (cur :: pieces) addr ↔ NumbersBehind (front ++ [byte]) pieces addr := by
  unfold NumbersBehind
  simp only [behind_cons number number.unique]

theorem numbersBehind_nil : NumbersBehind front [] addr ↔
    front.length ≤ INADDRSZ ∧ addr = front ++ List.replicate (INADDRSZ - front.length) 0 := by
  simp [NumbersBehind, behind_nil]

theorem Number.le {byte : Byte} (number : Number cur byte) :
    ¬ 255 < decimalValue cur % 2 ^ 64 := by
  have byte_lt := byte.toNat_lt
  have value := number.value
  omega

theorem number_of_le (digits : ∀ ch ∈ cur, isDigit ch) (le : ¬ 255 < decimalValue cur % 2 ^ 64) :
    ∃ byte, Number cur byte := by
  have value : decimalValue cur % 2 ^ 64 = (decimalValue cur % 2 ^ 64).toUInt8.toNat :=
    (Nat.mod_eq_of_lt (by omega)).symm
  exact ⟨_, digits, value⟩

/-- The last number. -/
theorem finishAton_eq_some_iff (room : front.length < INADDRSZ) (digits : ∀ ch ∈ cur, isDigit ch) :
    (scannedAton front cur).finish = some addr ↔ NumbersBehind front [cur] addr := by
  by_cases large : 255 < decimalValue cur % 2 ^ 64
  · rw [ScanAton.finish, number_eq_none rfl large]
    refine iff_of_false (by simp) fun behind => ?_
    rcases behind with ⟨bytes, behind, -⟩
    rcases behind.first with ⟨byte, number⟩
    exact number.le large
  · rcases number_of_le digits large with ⟨byte, number⟩
    rw [finish_eq_some room number.value, numbersBehind_cons number, numbersBehind_nil]
    have length_le : (front ++ [byte]).length ≤ INADDRSZ := by
      rw [List.length_append, List.length_singleton]
      exact room
    rw [and_iff_right length_le, Option.some.injEq]
    exact eq_comm

/-- A number in front of a dot, with room for it and for another one. -/
theorem number_behind_dot (room : front.length < INADDRSZ) {byte : Byte}
    (number : Number cur byte) :
    ({ scannedAton front cur with dots := front.length + 1 } : ScanAton).number =
      some (scannedAton (front ++ [byte]) []) := by
  rw [number_eq_some rfl rfl room number.value]
  simp [scannedAton]

/-- What is left to read completes the number that is being read, and gives the numbers
behind it. -/
theorem scanAton_eq_some_iff (room : front.length < INADDRSZ) (digits : ∀ ch ∈ cur, isDigit ch) :
    (src.foldlM ScanAton.next (scannedAton front cur)).bind ScanAton.finish = some addr ↔
      NumbersBehind front ((cur ++ src).splitOn dot) addr := by
  have noDot := dot_notMem digits
  induction src generalizing front cur with
  | nil =>
      rw [List.append_nil, List.splitOn_eq_singleton noDot, List.foldlM_nil]
      exact finishAton_eq_some_iff room digits
  | cons ch src ih =>
      have assoc : cur ++ ch :: src = cur ++ [ch] ++ src := by simp
      rw [List.foldlM_cons, assoc]
      by_cases digit : isDigit ch
      · have digits' : ∀ c ∈ cur ++ [ch], isDigit c :=
          List.forall_mem_append.mpr ⟨digits, List.forall_mem_singleton.mpr digit⟩
        rw [scannedAton_digit digit]
        exact ih room digits' (dot_notMem digits')
      by_cases isDot : ch = dot
      · subst isDot
        have pieces : (cur ++ [dot] ++ src).splitOn dot = cur :: src.splitOn dot := by
          rw [← assoc, List.splitOn_append_cons_self_of_not_mem noDot]
        rw [pieces, scannedAton_dot room]
        by_cases full : front.length = 3
        · rw [if_pos full]
          refine iff_of_false (by simp) fun behind => ?_
          rcases behind with ⟨bytes, behind, length_le, -⟩
          have count := behind.length_eq
          have more := List.length_pos_iff.mpr (List.splitOn_ne_nil dot src)
          rw [List.length_cons] at count
          rw [INADDRSZ] at length_le
          omega
        rw [if_neg full]
        by_cases large : 255 < decimalValue cur % 2 ^ 64
        · rw [number_eq_none rfl large]
          refine iff_of_false (by simp) fun behind => ?_
          rcases behind with ⟨bytes, behind, -⟩
          rcases behind.first with ⟨byte, number⟩
          exact number.le large
        · rcases number_of_le digits large with ⟨byte, number⟩
          have room' : (front ++ [byte]).length < INADDRSZ := by
            rw [List.length_append, List.length_singleton]
            rw [INADDRSZ] at room ⊢
            omega
          rw [number_behind_dot room number, numbersBehind_cons number]
          exact ih room' (by simp) (by simp)
      · have stuck : (scannedAton front cur).next ch = none := by
          unfold ScanAton.next
          rw [if_neg digit, if_neg isDot]
        rw [stuck]
        refine iff_of_false (by simp) fun behind => ?_
        have noDot' : dot ∉ cur ++ [ch] := by
          simpa [noDot] using Ne.symm isDot
        rcases behind with ⟨bytes, behind, -⟩
        rcases behind.first_of_front noDot' with ⟨more, byte, number⟩
        exact digit (number.digits ch (by simp))

theorem inetAton_eq_some_iff (cp addr : List Byte) :
    inetAton cp = some addr ↔ DottedNumbers cp addr := by
  have room : ([] : List Byte).length < INADDRSZ := by decide
  have digits : ∀ ch ∈ ([] : List Byte), isDigit ch := fun ch mem => by cases mem
  refine Iff.trans (by rfl) ((scanAton_eq_some_iff room digits).trans ?_)
  simp [DottedNumbers, NumbersBehind, Behind]

/-- What the version for IPv4 only accepts, and the address that it stores. -/
theorem ipv4InetPton_accepts_iff (family : Family) (strptr addr : List Byte) :
    Ipv4.inetPton family strptr = .address addr ↔
      family = .inet ∧ DottedNumbers strptr addr := by
  cases family with
  | inet =>
      rw [← inetAton_eq_some_iff, Ipv4.inetPton]
      cases inetAton strptr <;> simp
  | inet6 | other => exact iff_of_false Pton.noConfusion fun both => Family.noConfusion both.1

/-- `inet_pton` accepts the texts of the version for IPv4 only in which no number is missing
or empty, and none wraps around. -/
theorem inetPton_eq_address_iff (src addr : List Byte) :
    inetPton .inet src = .address addr ↔
      Ipv4.inetPton .inet src = .address addr ∧ (src.splitOn dot).length = INADDRSZ ∧
        ∀ piece ∈ src.splitOn dot, piece ≠ [] ∧ decimalValue piece < 2 ^ 64 := by
  have strict : inetPton .inet src = .address addr ↔ DottedQuad src addr := by
    rw [← inetPton4_eq_some_iff, inetPton]
    cases inetPton4 src <;> simp
  have lax : Ipv4.inetPton .inet src = .address addr ↔ DottedNumbers src addr := by
    rw [← inetAton_eq_some_iff, Ipv4.inetPton]
    cases inetAton src <;> simp
  rw [strict, lax]
  constructor
  · rintro ⟨length_eq, octets⟩
    refine ⟨⟨addr, octets.imp fun _ _ => Octet.number, Nat.le_of_eq length_eq, ?_⟩,
      octets.length_eq.trans length_eq, ?_⟩
    · rw [length_eq, Nat.sub_self, List.replicate_zero, List.append_nil]
    · intro piece mem
      rcases List.forall₂_iff_get.mp octets with ⟨same, each⟩
      rcases List.mem_iff_get.mp mem with ⟨i, rfl⟩
      have octet := each i i.isLt (same ▸ i.isLt)
      have byte_lt := (addr.get ⟨i, same ▸ i.isLt⟩).toNat_lt
      have value := octet.value
      simp only [List.get_eq_getElem] at octet value byte_lt ⊢
      exact ⟨octet.nonempty, by omega⟩
  · rintro ⟨⟨bytes, numbers, -, rfl⟩, count, whole⟩
    have length_eq : bytes.length = INADDRSZ := numbers.length_eq.symm.trans count
    have none : INADDRSZ - bytes.length = 0 := by omega
    rw [none, List.replicate_zero, List.append_nil]
    refine ⟨length_eq, ?_⟩
    have octets : List.Forall₂ (fun piece byte => (piece ≠ [] ∧ decimalValue piece < 2 ^ 64) ∧
        Number piece byte) (src.splitOn dot) bytes :=
      (List.forall₂_and_left _ _).mpr ⟨whole, numbers⟩
    refine octets.imp fun piece byte holds => ⟨holds.1.1, holds.2.digits, ?_⟩
    rw [← holds.2.value, Nat.mod_eq_of_lt holds.1.2]

end ScanAton

end NetPractice.Inet
