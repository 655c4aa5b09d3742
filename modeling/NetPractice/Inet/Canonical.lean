import NetPractice.Inet.Grammar

/-!
# The text that inet_ntop6 prints

The first of the longest runs of zero words is printed as `::` when it has at least two
words.  The other words are printed in hexadecimal, or the last two of them as a dotted
quad.  Text of this form is read back as the address.
-/

namespace NetPractice.Inet

open NetPractice.Text
open NetPractice.Sequence

/-! ## The text -/

/-- The words from `first` on in hexadecimal. -/
def groupTexts (src : List Byte) (first count : Nat) : List (List Byte) :=
  (List.range' first count).map fun i => hexadecimal (word src i)

/-- What stands behind the run. -/
def behindRun (src : List Byte) (run : Run) : List (List Byte) :=
  if encapsulated src (some run) then
    groupTexts src (run.base + run.len) (6 - (run.base + run.len)) ++ [quadText (src.drop 12)]
  else groupTexts src (run.base + run.len) (8 - (run.base + run.len))

/-- The text of an address. -/
def canonical (src : List Byte) : List Byte :=
  match bestRun src with
  | none => List.intercalate [colon] (groupTexts src 0 8)
  | some run =>
      List.intercalate [colon] (groupTexts src 0 run.base) ++
        colon :: colon :: List.intercalate [colon] (behindRun src run)

section Format

variable {src tmp : List Byte} {best : Option Run} {run : Run} {indices rest : List Nat}

/-- The run that is printed as `::`, if there is one. -/
theorem bestRun_spec (src : List Byte) :
    match bestRun src with
    | none => ∀ run, IsRun (fun i => word src i == 0) 8 run → run.len < 2
    | some run => 2 ≤ run.len ∧ FirstLongest (fun i => word src i == 0) 8 run := by
  have found := best_longestRun (fun i => word src i == 0) 8
  unfold bestRun
  rw [show IN6ADDRSZ / INT16SZ = 8 from rfl]
  cases longest : longestRun (fun i => word src i == 0) 8 with
  | none =>
      rw [longest] at found
      exact fun run isRun => absurd isRun (found run)
  | some run =>
      rw [longest] at found
      by_cases long : 2 ≤ run.len
      · rw [Option.filter_some, if_pos (by simpa using long)]
        exact ⟨long, found⟩
      · rw [Option.filter_some, if_neg (by simpa using long)]
        intro other isRun
        have shorter := found.longest other isRun
        omega

/-- A word in front of which stands a colon, unless it is the first one. -/
def putWord (src tmp : List Byte) (i : Nat) : List Byte :=
  (if i ≠ 0 then tmp ++ [colon] else tmp) ++ hexadecimal (word src i)

/-- The words that are printed in hexadecimal. -/
theorem formatWords_words (outside : ∀ i ∈ indices, covers best i = false)
    (noQuad : ∀ i ∈ indices, ¬ (i = 6 ∧ encapsulated src best)) :
    formatWords src best (indices ++ rest) tmp =
      formatWords src best rest (indices.foldl (putWord src) tmp) := by
  induction indices generalizing tmp with
  | nil => rfl
  | cons i indices ih =>
      have covered := outside i List.mem_cons_self
      rw [List.cons_append, formatWords, if_neg (by simp [covered])]
      dsimp only
      rw [if_neg (noQuad i List.mem_cons_self), ih
        (fun j mem => outside j (List.mem_cons_of_mem i mem))
        (fun j mem => noQuad j (List.mem_cons_of_mem i mem))]
      rfl

theorem formatWords_all (outside : ∀ i ∈ indices, covers best i = false)
    (noQuad : ∀ i ∈ indices, ¬ (i = 6 ∧ encapsulated src best)) :
    formatWords src best indices tmp = some (indices.foldl (putWord src) tmp) := by
  conv_lhs => rw [← List.append_nil indices]
  exact formatWords_words outside noQuad

/-- The words of the run behind its first one. -/
theorem formatWords_covered {first count : Nat} (base_lt : run.base < first)
    (inside : first + count ≤ run.base + run.len) :
    formatWords src (some run) (List.range' first count ++ rest) tmp =
      formatWords src (some run) rest tmp := by
  induction count generalizing first with
  | zero => rfl
  | succ count ih =>
      have covered : covers (some run) first = true := by
        simp only [covers, Option.any_some, Bool.and_eq_true, decide_eq_true_eq]
        omega
      have notFirst : ¬ Option.any (fun best => first == best.base) (some run) = true := by
        simp only [Option.any_some, beq_iff_eq]
        omega
      rw [List.range'_succ, List.cons_append, formatWords, if_pos covered, if_neg notFirst]
      exact ih (by omega) (by omega)

/-- The words of the run. -/
theorem formatWords_run (positive : 0 < run.len) :
    formatWords src (some run) (List.range' run.base run.len ++ rest) tmp =
      formatWords src (some run) rest (tmp ++ [colon]) := by
  obtain ⟨len, len_eq⟩ : ∃ len, run.len = len + 1 := ⟨run.len - 1, by omega⟩
  have covered : covers (some run) run.base = true := by
    simp only [covers, Option.any_some, Bool.and_eq_true, decide_eq_true_eq]
    omega
  rw [len_eq, List.range'_succ, List.cons_append, formatWords, if_pos covered,
    if_pos (by simp)]
  exact formatWords_covered (Nat.lt_succ_self run.base) (by omega)

/-- Words behind others: a colon in front of each of them. -/
theorem foldl_putWord {first count : Nat} (behind : first ≠ 0) (some : count ≠ 0) :
    (List.range' first count).foldl (putWord src) tmp =
      tmp ++ colon :: List.intercalate [colon] (groupTexts src first count) := by
  obtain ⟨count, rfl⟩ := Nat.exists_eq_succ_of_ne_zero some
  induction count with
  | zero => simp [putWord, behind, groupTexts]
  | succ count ih =>
      have last : groupTexts src first (count + 1 + 1) =
          groupTexts src first (count + 1) ++ [hexadecimal (word src (first + (count + 1)))] := by
        rw [groupTexts, List.range'_1_concat, List.map_append]
        rfl
      have nonempty : groupTexts src first (count + 1) ≠ [] := by
        simp [groupTexts]
      rw [List.range'_1_concat, List.foldl_append, ih (Nat.succ_ne_zero count), last,
        intercalate_concat nonempty]
      simp [putWord]

/-- The words at the start of the address. -/
theorem foldl_putWord_start (count : Nat) :
    (List.range' 0 count).foldl (putWord src) [] =
      List.intercalate [colon] (groupTexts src 0 count) := by
  cases count with
  | zero => rfl
  | succ count =>
      have first : groupTexts src 0 (count + 1) =
          hexadecimal (word src 0) :: groupTexts src 1 count := rfl
      have start : putWord src [] 0 = hexadecimal (word src 0) := rfl
      rw [List.range'_succ, List.foldl_cons, start, first]
      by_cases none : count = 0
      · subst none
        simp [groupTexts]
      · have nonempty : groupTexts src 1 count ≠ [] := by
          simpa [groupTexts] using none
        rw [foldl_putWord Nat.one_ne_zero none, List.intercalate_cons_of_ne_nil nonempty]
        simp

theorem not_covers {i : Nat} (outside : i < run.base ∨ run.base + run.len ≤ i) :
    covers (some run) i = false := by
  simp only [covers, Option.any_some]
  rcases outside with before | after
  · simp [Nat.not_le.mpr before]
  · simp [Nat.not_lt.mpr after]

theorem encapsulated_spec (isIPv4 : encapsulated src (some run) = true) :
    run.base = 0 ∧ (run.len = 6 ∨ run.len = 5) := by
  simp only [encapsulated, Option.any_some, Bool.and_eq_true, Bool.or_eq_true, beq_iff_eq]
    at isIPv4
  exact ⟨isIPv4.1, isIPv4.2.imp_right And.left⟩

theorem word_lt (src : List Byte) (i : Nat) : word src i < 65536 := by
  have high := (src.getD (2 * i) 0).toNat_lt
  have low := (src.getD (2 * i + 1) 0).toNat_lt
  unfold word
  rw [← Nat.shiftLeft_add_eq_or_of_lt (i := 8) low, Nat.shiftLeft_eq]
  omega

theorem length_hexadecimal_word_le (src : List Byte) (i : Nat) :
    (hexadecimal (word src i)).length ≤ 4 := by
  rw [hexadecimal, List.length_map]
  exact length_digitsOf_le (by decide) (by decide) (word_lt src i)

/-- The last two words of an encapsulated IPv4 address. -/
theorem formatWords_quad (isIPv4 : encapsulated src (some run) = true) (small : tmp.length ≤ 30) :
    formatWords src (some run) [6, 7] tmp =
      some (tmp ++ colon :: quadText (src.drop 12)) := by
  rcases encapsulated_spec isIPv4 with ⟨base_eq, len_eq⟩
  have outside : covers (some run) 6 = false := not_covers (.inr (by omega))
  have width := length_quadText_le (src.drop 12)
  have stored : inetNtop4 (src.drop 12) (TMPSZ - (tmp ++ [colon]).length) =
      some (quadText (src.drop 12) ++ [0]) := by
    unfold inetNtop4
    rw [if_neg]
    rw [List.length_append, List.length_singleton, TMPSZ]
    omega
  rw [formatWords, if_neg (by simp [outside])]
  dsimp only
  rw [if_pos ⟨rfl, isIPv4⟩, if_pos (by decide), stored]
  change some (tmp ++ [colon] ++ cstr (quadText (src.drop 12) ++ [0])) = _
  rw [cstr_append_nul (zero_notMem_quadText _)]
  simp

/-- The words behind the run. -/
theorem formatWords_behind (src : List Byte) (long : 2 ≤ run.len)
    (small : run.base = 0 → tmp.length ≤ 25) :
    formatWords src (some run) (List.range' (run.base + run.len) (8 - (run.base + run.len))) tmp =
      some (if behindRun src run = [] then tmp
        else tmp ++ colon :: List.intercalate [colon] (behindRun src run)) := by
  have outside : ∀ count, ∀ i ∈ List.range' (run.base + run.len) count,
      covers (some run) i = false := by
    intro count i mem
    exact not_covers (.inr (List.mem_range'_1.mp mem).1)
  by_cases isIPv4 : encapsulated src (some run) = true
  · rcases encapsulated_spec isIPv4 with ⟨base_eq, len_eq⟩
    have small := small base_eq
    have split : List.range' (run.base + run.len) (8 - (run.base + run.len)) =
        List.range' (run.base + run.len) (6 - (run.base + run.len)) ++ [6, 7] := by
      rcases len_eq with len_eq | len_eq <;> rw [base_eq, len_eq] <;> rfl
    have notQuad : ∀ i ∈ List.range' (run.base + run.len) (6 - (run.base + run.len)),
        ¬ (i = 6 ∧ encapsulated src (some run)) := by
      rintro i mem ⟨rfl, -⟩
      have upper := (List.mem_range'_1.mp mem).2
      omega
    have behind : behindRun src run =
        groupTexts src (run.base + run.len) (6 - (run.base + run.len)) ++
          [quadText (src.drop 12)] := if_pos isIPv4
    have room : ((List.range' (run.base + run.len) (6 - (run.base + run.len))).foldl
        (putWord src) tmp).length ≤ 30 := by
      rcases len_eq with len_eq | len_eq
      · rw [base_eq, len_eq]
        exact Nat.le_trans small (by decide)
      · have width := length_hexadecimal_word_le src 5
        rw [base_eq, len_eq]
        change (tmp ++ [colon] ++ hexadecimal (word src 5)).length ≤ 30
        rw [List.length_append, List.length_append, List.length_singleton]
        omega
    rw [split, formatWords_words (outside _) notQuad, formatWords_quad isIPv4 room, behind,
      if_neg (List.append_ne_nil_of_right_ne_nil _ (List.cons_ne_nil _ []))]
    rcases len_eq with len_eq | len_eq
    · have none : groupTexts src 6 0 = [] := rfl
      rw [base_eq, len_eq, none, List.nil_append, List.intercalate_singleton]
      rfl
    · have nonempty : groupTexts src 5 1 ≠ [] := List.cons_ne_nil _ _
      rw [base_eq, len_eq]
      change some ((List.range' 5 1).foldl (putWord src) tmp ++ _) =
        some (tmp ++ colon :: List.intercalate [colon] (groupTexts src 5 1 ++ _))
      rw [foldl_putWord (by decide) (by decide), intercalate_concat nonempty, List.append_assoc,
        List.cons_append]
  · have behind : behindRun src run =
        groupTexts src (run.base + run.len) (8 - (run.base + run.len)) := if_neg isIPv4
    rw [formatWords_all (outside (8 - (run.base + run.len))) (fun i _ both => isIPv4 both.2),
      behind]
    by_cases none : 8 - (run.base + run.len) = 0
    · rw [none]
      rfl
    · have nonempty : groupTexts src (run.base + run.len) (8 - (run.base + run.len)) ≠ [] := by
        simpa [groupTexts] using none
      rw [foldl_putWord (by omega) none, if_neg nonempty]

theorem behindRun_eq_nil_iff (src : List Byte) (run : Run) :
    behindRun src run = [] ↔ 8 ≤ run.base + run.len := by
  unfold behindRun
  by_cases isIPv4 : encapsulated src (some run) = true
  · rcases encapsulated_spec isIPv4 with ⟨base_eq, len_eq⟩
    rw [if_pos isIPv4]
    refine iff_of_false (List.append_ne_nil_of_right_ne_nil _ (List.cons_ne_nil _ [])) ?_
    omega
  · rw [if_neg isIPv4, groupTexts, List.map_eq_nil_iff, List.range'_eq_nil_iff]
    omega

theorem length_groupTexts (src : List Byte) (first count : Nat) :
    (groupTexts src first count).length = count := by
  rw [groupTexts, List.length_map, List.length_range']

/-- Groups take at most four digits and a colon each. -/
theorem length_groups_le (src : List Byte) (first count : Nat) :
    (List.intercalate [colon] (groupTexts src first count)).length ≤ count * 5 - 1 := by
  have widths : ∀ piece ∈ groupTexts src first count, piece.length ≤ 4 := by
    intro piece mem
    rcases List.mem_map.mp mem with ⟨i, -, rfl⟩
    exact length_hexadecimal_word_le src i
  have total := length_intercalate_le colon widths
  rw [length_groupTexts] at total
  exact total

/-- What stands in the buffer in front of the NUL byte. -/
theorem formatWords_spec (src : List Byte) :
    ∃ tmp, formatWords src (bestRun src) (List.range (IN6ADDRSZ / INT16SZ)) [] = some tmp ∧
      (if (bestRun src).any (fun best => best.base + best.len == IN6ADDRSZ / INT16SZ)
        then tmp ++ [colon] else tmp) = canonical src := by
  have spec := bestRun_spec src
  unfold canonical
  rw [show List.range (IN6ADDRSZ / INT16SZ) = List.range' 0 8 from rfl,
    show IN6ADDRSZ / INT16SZ = 8 from rfl]
  generalize bestRun src = best at spec
  cases best with
  | none =>
      refine ⟨List.intercalate [colon] (groupTexts src 0 8), ?_, rfl⟩
      rw [formatWords_all (fun _ _ => rfl) (fun _ _ both => by cases both.2), foldl_putWord_start]
  | some run =>
      rcases spec with ⟨long, found⟩
      have inside := found.inside
      have words : List.range' 0 8 =
          List.range' 0 run.base ++ (List.range' run.base run.len ++
            List.range' (run.base + run.len) (8 - (run.base + run.len))) := by
        have behind : run.len + (8 - (run.base + run.len)) = 8 - run.base := by omega
        have all : run.base + (8 - run.base) = 8 := by omega
        have start := List.range'_append_1 (s := 0) (m := run.base) (n := 8 - run.base)
        rw [List.range'_append_1, behind]
        rw [Nat.zero_add, all] at start
        exact start.symm
      have front : ∀ i ∈ List.range' 0 run.base, covers (some run) i = false := by
        intro i mem
        have before := (List.mem_range'_1.mp mem).2
        exact not_covers (.inl (by omega))
      have noQuad : ∀ i ∈ List.range' 0 run.base, ¬ (i = 6 ∧ encapsulated src (some run)) := by
        rintro i mem ⟨rfl, isIPv4⟩
        have before := (List.mem_range'_1.mp mem).2
        have base_eq := (encapsulated_spec isIPv4).1
        omega
      have small : run.base = 0 →
          (List.intercalate [colon] (groupTexts src 0 run.base) ++ [colon]).length ≤ 25 := by
        intro base_eq
        rw [base_eq]
        exact Nat.le_of_ble_eq_true rfl
      have printed := formatWords_behind src long small
      rw [← formatWords_run (by omega), ← foldl_putWord_start, ← formatWords_words front noQuad,
        ← words] at printed
      refine ⟨_, printed, ?_⟩
      by_cases last : 8 ≤ run.base + run.len
      · have none := (behindRun_eq_nil_iff src run).mpr last
        have ends : run.base + run.len = 8 := by omega
        simp [none, ends, foldl_putWord_start]
      · have some : behindRun src run ≠ [] := mt (behindRun_eq_nil_iff src run).mp last
        have ends : run.base + run.len ≠ 8 := by omega
        simp [some, ends, foldl_putWord_start]

/-- `inet_ntop6` copies the text when the buffer has room for it and the NUL byte. -/
theorem inetNtop6_eq (src : List Byte) (size : Nat) :
    inetNtop6 src size =
      if size ≤ (canonical src).length then none else some (canonical src ++ [0]) := by
  rcases formatWords_spec src with ⟨tmp, printed, ends⟩
  unfold inetNtop6
  dsimp only
  rw [printed, Option.bind_eq_bind, Option.bind_some, ends, List.length_append,
    List.length_singleton]
  exact if_congr Nat.lt_succ_iff rfl rfl

theorem notMem_groupTexts {ch : Byte} {piece : List Byte} {first count : Nat}
    (noDigit : ∀ digit, digit < 16 → ch ≠ hexDigit digit)
    (mem : piece ∈ groupTexts src first count) : ch ∉ piece := by
  rcases List.mem_map.mp mem with ⟨i, -, rfl⟩
  intro here
  rcases List.mem_map.mp here with ⟨digit, digitMem, equal⟩
  exact noDigit digit (digitsOf_lt (by decide) digitMem) equal.symm

theorem zero_notMem_groups (src : List Byte) (first count : Nat) :
    0 ∉ List.intercalate [colon] (groupTexts src first count) := by
  intro mem
  rcases mem_intercalate mem with isColon | ⟨piece, pieceMem, here⟩
  · exact absurd isColon (by decide)
  · exact notMem_groupTexts (by decide) pieceMem here

theorem zero_notMem_behindRun (src : List Byte) (run : Run) :
    0 ∉ List.intercalate [colon] (behindRun src run) := by
  unfold behindRun
  by_cases isIPv4 : encapsulated src (some run) = true
  · rw [if_pos isIPv4]
    intro mem
    rcases mem_intercalate mem with isColon | ⟨piece, pieceMem, here⟩
    · exact absurd isColon (by decide)
    · rcases List.mem_append.mp pieceMem with groups | quad
      · exact notMem_groupTexts (by decide) groups here
      · rw [List.mem_singleton.mp quad] at here
        exact zero_notMem_quadText _ here
  · rw [if_neg isIPv4]
    exact zero_notMem_groups src _ _

theorem zero_notMem_canonical (src : List Byte) : 0 ∉ canonical src := by
  unfold canonical
  cases bestRun src with
  | none => exact zero_notMem_groups src 0 8
  | some run =>
      intro mem
      rcases List.mem_append.mp mem with front | behind
      · exact zero_notMem_groups src 0 run.base front
      · rcases List.mem_cons.mp behind with isColon | behind
        · exact absurd isColon (by decide)
        · rcases List.mem_cons.mp behind with isColon | behind
          · exact absurd isColon (by decide)
          · exact zero_notMem_behindRun src run behind

theorem length_behindRun_le (src : List Byte) (run : Run) :
    (List.intercalate [colon] (behindRun src run)).length ≤
      if encapsulated src (some run) then 20 else (8 - (run.base + run.len)) * 5 - 1 := by
  unfold behindRun
  by_cases isIPv4 : encapsulated src (some run) = true
  · rw [if_pos isIPv4, if_pos isIPv4, intercalate_concat_eq_flatMap, List.length_append]
    have quad := length_quadText_le (src.drop 12)
    rcases encapsulated_spec isIPv4 with ⟨base_eq, len_eq | len_eq⟩
    · rw [base_eq, len_eq]
      change 0 + (quadText (src.drop 12)).length ≤ 20
      omega
    · have width := length_hexadecimal_word_le src 5
      have front : ((groupTexts src 5 1).flatMap fun text => text ++ [colon]).length ≤ 5 := by
        change ((hexadecimal (word src 5) ++ [colon]) ++ []).length ≤ 5
        rw [List.append_nil, List.length_append, List.length_singleton]
        omega
      rw [base_eq, len_eq]
      change ((groupTexts src 5 1).flatMap fun text => text ++ [colon]).length +
        (quadText (src.drop 12)).length ≤ 20
      omega
  · rw [if_neg isIPv4, if_neg isIPv4]
    exact length_groups_le src _ _

/-- The text takes no more than eight full groups. -/
theorem length_canonical_le (src : List Byte) : (canonical src).length ≤ 39 := by
  have spec := bestRun_spec src
  unfold canonical
  generalize bestRun src = best at spec
  cases best with
  | none => exact length_groups_le src 0 8
  | some run =>
      rcases spec with ⟨long, found⟩
      have inside := found.inside
      have front := length_groups_le src 0 run.base
      have behind := length_behindRun_le src run
      dsimp only
      rw [List.length_append, List.length_cons, List.length_cons]
      by_cases isIPv4 : encapsulated src (some run) = true
      · rw [if_pos isIPv4] at behind
        rw [(encapsulated_spec isIPv4).1] at front ⊢
        omega
      · rw [if_neg isIPv4] at behind
        omega

/-- `inet_ntop6` prints the first of the longest runs of zero words as `::` when it has two
words or more, never runs over its buffer, and copies the text where there is room for it
and the NUL byte. -/
theorem inetNtop6_spec (src : List Byte) (size : Nat) :
    inetNtop6 src size =
        (if size ≤ (canonical src).length then none else some (canonical src ++ [0])) ∧
      (canonical src).length < TMPSZ ∧ 0 ∉ canonical src ∧
      match bestRun src with
      | none => ∀ run, IsRun (fun i => word src i == 0) 8 run → run.len < 2
      | some run => 2 ≤ run.len ∧ FirstLongest (fun i => word src i == 0) 8 run := by
  refine ⟨inetNtop6_eq src size, ?_, zero_notMem_canonical src, bestRun_spec src⟩
  exact Nat.lt_of_le_of_lt (length_canonical_le src) (by decide)

end Format

end NetPractice.Inet
