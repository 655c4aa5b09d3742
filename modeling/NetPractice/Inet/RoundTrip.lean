import NetPractice.Inet.Canonical

/-!
# What inet_ntop prints, inet_pton reads

The text that `inet_ntop6` prints is one of those that `inet_pton6` accepts, and it stands
for the bytes that were printed: the words that the `::` leaves out are zero, and they are
at least two.
-/

namespace NetPractice.Inet

open NetPractice.Text
open NetPractice.Sequence

/-! ## Words and bytes -/

/-- The bytes of successive words. -/
def wordBytes (src : List Byte) (first count : Nat) : List Byte :=
  (List.range' first count).flatMap fun i => groupBytes (word src i)

section Words

variable {src : List Byte} {first count i : Nat}

theorem groupBytes_word (high low : Byte) :
    groupBytes (high.toNat <<< 8 ||| low.toNat) = [high, low] := by
  have low_lt := low.toNat_lt
  have value : high.toNat <<< 8 ||| low.toNat = 256 * high.toNat + low.toNat := by
    rw [← Nat.shiftLeft_add_eq_or_of_lt (i := 8) low_lt, Nat.shiftLeft_eq, Nat.mul_comm]
  have quotient : (256 * high.toNat + low.toNat) / 256 = high.toNat := by omega
  have upper : ((256 * high.toNat + low.toNat) >>> 8).toUInt8 = high := by
    rw [Nat.shiftRight_eq_div_pow, show 2 ^ 8 = 256 from rfl, quotient]
    exact UInt8.ofNat_toNat
  have lower : (256 * high.toNat + low.toNat).toUInt8 = low := by
    apply UInt8.toNat.inj
    change (256 * high.toNat + low.toNat) % 256 = low.toNat
    omega
  rw [groupBytes, value, upper, lower]

theorem wordBytes_eq (inside : 2 * (first + count) ≤ src.length) :
    wordBytes src first count = (src.drop (2 * first)).take (2 * count) := by
  induction count generalizing first with
  | zero => rfl
  | succ count ih =>
      have inside' : 2 * (first + 1 + count) ≤ src.length := by omega
      have behind := ih inside'
      have lt : 2 * first < src.length := by omega
      have lt' : 2 * first + 1 < src.length := by omega
      have word_eq : groupBytes (word src first) = [src[2 * first], src[2 * first + 1]] := by
        rw [word, List.getD_eq_getElem?_getD, List.getD_eq_getElem?_getD,
          List.getElem?_eq_getElem lt, List.getElem?_eq_getElem lt']
        exact groupBytes_word _ _
      rw [List.drop_eq_getElem_cons lt, List.drop_eq_getElem_cons lt',
        show 2 * (count + 1) = 2 * count + 1 + 1 by omega, List.take_succ_cons,
        List.take_succ_cons]
      rw [wordBytes, List.range'_succ, List.flatMap_cons, word_eq, ← wordBytes, behind,
        show 2 * (first + 1) = 2 * first + 1 + 1 by omega]
      rfl

theorem length_wordBytes (src : List Byte) (first count : Nat) :
    (wordBytes src first count).length = 2 * count := by
  induction count generalizing first with
  | zero => rfl
  | succ count ih =>
      rw [wordBytes, List.range'_succ, List.flatMap_cons, ← wordBytes, List.length_append, ih]
      change 2 + 2 * count = _
      omega

theorem wordBytes_append (src : List Byte) (first count more : Nat) :
    wordBytes src first (count + more) =
      wordBytes src first count ++ wordBytes src (first + count) more := by
  rw [wordBytes, ← List.range'_append_1, List.flatMap_append]
  rfl

theorem wordBytes_zero (zero : ∀ i, first ≤ i → i < first + count → word src i = 0) :
    wordBytes src first count = List.replicate (2 * count) 0 := by
  induction count generalizing first with
  | zero => rfl
  | succ count ih =>
      have here := zero first (Nat.le_refl first) (by omega)
      have zero' : ∀ i, first + 1 ≤ i → i < first + 1 + count → word src i = 0 :=
        fun i le lt => zero i (by omega) (by omega)
      have behind := ih zero'
      rw [wordBytes, List.range'_succ, List.flatMap_cons, here, ← wordBytes, behind,
        show 2 * (count + 1) = 2 * count + 1 + 1 by omega]
      rfl

theorem wordBytes_all (length_eq : src.length = IN6ADDRSZ) : wordBytes src 0 8 = src := by
  have inside : 2 * (0 + 8) ≤ src.length := Nat.le_of_eq length_eq.symm
  rw [wordBytes_eq inside, Nat.mul_zero, List.drop_zero]
  exact List.take_of_length_le (Nat.le_of_eq length_eq)

end Words

/-! ## The text is one of an address -/

section Text

variable {src : List Byte} {first count : Nat} {run : Run}

theorem xdigit_hexDigit {digit : Nat} (lt : digit < 16) : xdigit (hexDigit digit) = some digit := by
  have all : ∀ digit, digit < 16 → xdigit (hexDigit digit) = some digit := by
    decide +kernel
  exact all digit lt

theorem group_hexadecimal {value : Nat} (fits : value ≤ 0xffff) :
    Group (hexadecimal value) value where
  nonempty := by
    rw [hexadecimal, ne_eq, List.map_eq_nil_iff]
    exact digitsOf_ne_nil 16 value
  digits := by
    intro ch mem
    rcases List.mem_map.mp mem with ⟨digit, digitMem, rfl⟩
    rw [xdigit_hexDigit (digitsOf_lt (by decide) digitMem)]
    rfl
  value := by
    have digits : ((digitsOf 16 value).map hexDigit).map (fun ch => (xdigit ch).getD 0) =
        digitsOf 16 value := by
      rw [List.map_map]
      refine (List.map_congr_left ?_).trans (List.map_id _)
      intro digit mem
      rw [Function.comp_apply, xdigit_hexDigit (digitsOf_lt (by decide) mem)]
      rfl
    rw [hexValue, hexadecimal, digits, valueOf_digitsOf]
  fits := fits

theorem group_word (src : List Byte) (i : Nat) : Group (hexadecimal (word src i)) (word src i) :=
  group_hexadecimal (Nat.le_of_lt_succ (word_lt src i))

theorem groups_words (src : List Byte) (first count : Nat) :
    Groups ((groupTexts src first count).flatMap fun text => text ++ [colon])
      (wordBytes src first count) := by
  induction count generalizing first with
  | zero => exact .nil
  | succ count ih =>
      have groups := Groups.cons (group_word src first) (ih (first + 1))
      rw [← List.singleton_append, ← List.append_assoc] at groups
      exact groups

/-- A text that ends in a tail. -/
theorem exists_groups_tail (src : List Byte) (first count : Nat) :
    ∃ mid block tail last, List.intercalate [colon] (groupTexts src first count) = mid ++ tail ∧
      Groups mid block ∧ Tail tail last ∧ block ++ last = wordBytes src first count := by
  cases count with
  | zero => exact ⟨[], [], [], [], rfl, .nil, .none, rfl⟩
  | succ count =>
      have pieces : groupTexts src first (count + 1) =
          groupTexts src first count ++ [hexadecimal (word src (first + count))] := by
        rw [groupTexts, List.range'_1_concat, List.map_append]
        rfl
      have bytes : wordBytes src first (count + 1) =
          wordBytes src first count ++ groupBytes (word src (first + count)) := by
        rw [wordBytes_append]
        rfl
      rw [pieces, bytes, intercalate_concat_eq_flatMap]
      exact ⟨_, _, _, _, rfl, groups_words src first count, .group (group_word src _), rfl⟩

/-- The text behind the run. -/
theorem exists_behindRun (length_eq : src.length = IN6ADDRSZ)
    (inside : run.base + run.len ≤ 8) :
    ∃ mid block tail last, List.intercalate [colon] (behindRun src run) = mid ++ tail ∧
      Groups mid block ∧ Tail tail last ∧
        block ++ last = wordBytes src (run.base + run.len) (8 - (run.base + run.len)) := by
  unfold behindRun
  by_cases isIPv4 : encapsulated src (some run) = true
  · rcases encapsulated_spec isIPv4 with ⟨base_eq, len_eq⟩
    have quad : DottedQuad (quadText (src.drop 12)) (src.drop 12) := by
      apply dottedQuad_quadText
      rw [List.length_drop, length_eq]
      rfl
    have last : wordBytes src 6 2 = src.drop 12 := by
      have inside : 2 * (6 + 2) ≤ src.length := Nat.le_of_eq length_eq.symm
      rw [wordBytes_eq inside]
      apply List.take_of_length_le
      rw [List.length_drop, length_eq]
      exact Nat.le_refl 4
    have split : wordBytes src (run.base + run.len) (8 - (run.base + run.len)) =
        wordBytes src (run.base + run.len) (6 - (run.base + run.len)) ++ src.drop 12 := by
      have six : run.base + run.len + (6 - (run.base + run.len)) = 6 := by omega
      have count : 8 - (run.base + run.len) = 6 - (run.base + run.len) + 2 := by omega
      rw [count, wordBytes_append, six, last]
    rw [if_pos isIPv4, intercalate_concat_eq_flatMap, split]
    exact ⟨_, _, _, _, rfl, groups_words src _ _, .quad quad, rfl⟩
  · rw [if_neg isIPv4]
    exact exists_groups_tail src _ _

/-- In front of the run each group has a colon behind it. -/
theorem front_text (src : List Byte) (base : Nat) (more : List Byte) :
    List.intercalate [colon] (groupTexts src 0 base) ++ colon :: colon :: more =
      (if ((groupTexts src 0 base).flatMap fun text => text ++ [colon]) = [] then [colon]
        else (groupTexts src 0 base).flatMap fun text => text ++ [colon]) ++ colon :: more := by
  cases base with
  | zero => rfl
  | succ base =>
      have nonempty : ((groupTexts src 0 (base + 1)).flatMap fun text => text ++ [colon]) ≠ [] := by
        rw [groupTexts, List.range'_succ, List.map_cons, List.flatMap_cons]
        simp
      have pieces : groupTexts src 0 (base + 1) =
          groupTexts src 0 base ++ [hexadecimal (word src (0 + base))] := by
        rw [groupTexts, List.range'_1_concat, List.map_append]
        rfl
      rw [if_neg nonempty, pieces, intercalate_concat_eq_flatMap, List.flatMap_append]
      simp

theorem address6_canonical (length_eq : src.length = IN6ADDRSZ) :
    Address6 (canonical src) src := by
  have spec := bestRun_spec src
  unfold canonical
  generalize bestRun src = best at spec
  cases best with
  | none =>
      rcases exists_groups_tail src 0 8 with ⟨mid, block, tail, last, text, groups, ends, bytes⟩
      rw [wordBytes_all length_eq] at bytes
      have whole : Address6 (mid ++ tail) (block ++ last) := by
        refine .whole groups ends ?_
        rw [← List.length_append, bytes, length_eq]
      rw [bytes, ← text] at whole
      exact whole
  | some run =>
      rcases spec with ⟨long, found⟩
      have inside := found.inside
      rcases exists_behindRun length_eq inside with
        ⟨mid, block, tail, last, text, groups, ends, bytes⟩
      have zero : wordBytes src run.base run.len = List.replicate (2 * run.len) 0 := by
        apply wordBytes_zero
        intro i le lt
        exact eq_of_beq (found.picks i le lt)
      have split : src = wordBytes src 0 run.base ++ List.replicate (2 * run.len) 0 ++
          (block ++ last) := by
        have all : 8 = run.base + run.len + (8 - (run.base + run.len)) := by omega
        conv_lhs => rw [← wordBytes_all length_eq, all]
        rw [wordBytes_append, wordBytes_append, Nat.zero_add, Nat.zero_add, zero, bytes]
      have count : (block ++ last).length = 2 * (8 - (run.base + run.len)) := by
        rw [bytes, length_wordBytes]
      have fits : (wordBytes src 0 run.base).length + (block ++ last).length ≤ IN6ADDRSZ := by
        rw [count, length_wordBytes, show IN6ADDRSZ = 16 from rfl]
        omega
      have address := Address6.compressed (groups_words src 0 run.base) groups ends fits
      have gap : placed (wordBytes src 0 run.base) (block ++ last) = src := by
        have notFull : (wordBytes src 0 run.base).length + (block ++ last).length ≠ IN6ADDRSZ := by
          rw [count, length_wordBytes, show IN6ADDRSZ = 16 from rfl]
          omega
        have zeros : IN6ADDRSZ - ((wordBytes src 0 run.base).length + (block ++ last).length) =
            2 * run.len := by
          rw [count, length_wordBytes, show IN6ADDRSZ = 16 from rfl]
          omega
        rw [placed, if_neg notFull, zeros, ← split]
      rw [← front_text, ← text, gap] at address
      exact address

end Text

/-- The bytes of an address of a family. -/
def addressSize : Family → Nat
  | .inet => INADDRSZ
  | .inet6 => IN6ADDRSZ
  | .other => 0

/-- What `inet_ntop` stores is read back as the address that it was called with. -/
theorem inetPton_inetNtop {af : Family} {src stored : List Byte} {size : Nat}
    (length_eq : src.length = addressSize af) (printed : inetNtop af src size = some stored) :
    inetPton af (cstr stored) = .address src := by
  cases af with
  | inet =>
      have read := inetPton4_of_printed length_eq printed
      change (inetPton4 (cstr stored)).elim Pton.invalid Pton.address = _
      rw [read]
      rfl
  | inet6 =>
      change inetNtop6 src size = some stored at printed
      rw [inetNtop6_eq, Option.ite_none_left_eq_some] at printed
      rcases printed with ⟨-, stored_eq⟩
      cases stored_eq
      have read := (inetPton6_eq_some_iff _ _).mpr (address6_canonical length_eq)
      rw [cstr_append_nul (zero_notMem_canonical src)]
      change (inetPton6 (canonical src)).elim Pton.invalid Pton.address = _
      rw [read]
      rfl
  | other => cases printed

/-- An address with two runs of zero words of one length. -/
theorem inetPton_inetNtop_runs :
    let src := [0x20, 0x01, 0, 0, 0, 0, 0, 0xab, 0, 0, 0, 0, 0, 1, 0x0f, 0xff]
    src.length = addressSize .inet6 ∧
      inetNtop .inet6 src 46 = some (ascii "2001::ab:0:0:1:fff" ++ [0]) ∧
      inetPton .inet6 (cstr (ascii "2001::ab:0:0:1:fff" ++ [0])) = .address src := by
  intro src
  have printed : inetNtop .inet6 src 46 = some (ascii "2001::ab:0:0:1:fff" ++ [0]) := by
    decide +kernel
  exact ⟨rfl, printed, inetPton_inetNtop rfl printed⟩

end NetPractice.Inet
