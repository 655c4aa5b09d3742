import NetPractice.RequestReader.Judgment

/-!
# The request line in the buffer

`parse_requestline` puts NULs into the line and moves pointers in it.  What it returns is the
judgment on the string that it is called with, and it writes in front of the end of the line
only.
-/

namespace NetPractice.RequestReader

open NetPractice.Text
open NetPractice.Http (Plain)

/-! ## Strings of the buffer -/

namespace Reader

section Strings

variable (r : Reader) {text k index : Nat}

theorem str_add (le : k ≤ (r.str text).length) : r.str (text + k) = (r.str text).drop k := by
  unfold str
  rw [← List.drop_drop, cstr_drop le]

theorem store_str (lt : k < (r.str text).length) :
    (r.store (text + k)).str text = (r.str text).take k := by
  unfold str store
  rw [List.drop_set, if_neg (by omega), Nat.add_sub_cancel_left]
  exact cstr_set lt

theorem store_str_of_lt (lt : index < text) : (r.store index).str text = r.str text := by
  unfold str store
  rw [List.drop_set_of_lt lt]

theorem byte_eq_iff {byte : Byte} (nonzero : byte ≠ 0) :
    r.byte text = byte ↔ (r.str text).head? = some byte := by
  unfold Reader.byte str
  rw [List.getD_eq_getElem?_getD, ← List.head?_drop]
  cases r.buffer.drop text with
  | nil => simpa [cstr] using Ne.symm nonzero
  | cons first rest =>
      rw [cstr_cons]
      by_cases nul : first = 0
      · simpa [nul] using Ne.symm nonzero
      · simp [nul]

theorem byte_eq_zero_iff : r.byte text = 0 ↔ r.str text = [] := by
  unfold Reader.byte str
  rw [List.getD_eq_getElem?_getD, ← List.head?_drop]
  cases r.buffer.drop text with
  | nil => simp
  | cons first rest =>
      rw [cstr_cons]
      by_cases nul : first = 0
      · simp [nul]
      · simp [nul]

end Strings

/-! ## The request line -/

/-- A pointer to the first slash behind this one. -/
theorem strchrSlash_cases (r : Reader) (start : Nat) :
    (∃ offset, strchrSlash (r.str start) = some offset ∧ r.byte (start + offset) = 47 ∧
        (r.str start).contains 47 = true) ∨
      (strchrSlash (r.str start) = none ∧ (r.str start).contains 47 = false) := by
  cases found : strchrSlash (r.str start) with
  | none =>
      have others := List.findIdx?_eq_none_iff.mp found
      refine .inr ⟨rfl, ?_⟩
      rw [List.contains_eq_any_beq, List.any_eq_false]
      intro byte mem equal
      have other := others byte mem
      rw [← beq_iff_eq.mp equal] at other
      cases other
  | some offset =>
      rcases List.findIdx?_eq_some_iff_getElem.mp found with ⟨lt, slash, -⟩
      refine .inl ⟨offset, rfl, ?_, ?_⟩
      · rw [byte_eq_iff r (by decide), str_add r (Nat.le_of_lt lt), List.head?_drop,
          List.getElem?_eq_getElem lt, beq_iff_eq.mp slash]
      · rw [List.contains_iff_mem, ← beq_iff_eq.mp slash]
        exact List.getElem_mem lt

/-- Behind the scheme, the URL goes on to its first slash. -/
theorem behindScheme_eq (r : Reader) (start : Nat) :
    (match (strchrSlash (r.str start)).map (start + ·) with
      | none => (HttpCode.badRequest, r)
      | some path => if r.byte path ≠ 47 then (.badRequest, r)
          else (.noRequest, { r with checkstate := .header })) =
    if (r.str start).contains 47 then (.noRequest, { r with checkstate := .header })
    else (.badRequest, r) := by
  rcases r.strchrSlash_cases start with ⟨offset, found, slash, contains⟩ | ⟨found, contains⟩
  · rw [found, contains, Option.map_some]
    simp only [slash, ne_eq, not_true, if_false, if_true]
  · rw [found, contains, Option.map_none]
    rfl

theorem checkUrl_eq (r : Reader) (url : Nat) :
    r.checkUrl url =
      if urlOk (r.str url) then (.noRequest, { r with checkstate := .header })
      else (.badRequest, r) := by
  unfold checkUrl skipScheme urlOk
  by_cases http : strncasecmp (r.str url) (ascii "http://") = true
  · rw [if_pos http, if_pos http,
      ← str_add r (k := 7) (length_le_of_strncasecmp http)]
    exact r.behindScheme_eq (url + 7)
  · rw [if_neg http, if_neg http]
    by_cases https : strncasecmp (r.str url) (ascii "https://") = true
    · rw [if_pos https, if_pos https,
        ← str_add r (k := 8) (length_le_of_strncasecmp https)]
      exact r.behindScheme_eq (url + 8)
    · rw [if_neg https, if_neg https]
      have first : r.byte url = 47 ↔ (r.str url).head? = some 47 := r.byte_eq_iff (by decide)
      by_cases slash : r.byte url = 47
      · simp only [slash, first.mp slash, ne_eq, not_true, if_false, beq_self_eq_true, if_true]
      · have other : ((r.str url).head? == some 47) = false :=
          beq_eq_false_iff_ne.mpr fun equal => slash (first.mpr equal)
        simp only [slash, other, ne_eq, not_false_iff, if_true, Bool.false_eq_true, if_false]

/-- What the analysis of a line leaves: the state of the main machine, and the bytes
behind the line. -/
structure LineDone (r : Reader) (state : CheckState) (nul : Nat) (r' : Reader) : Prop where
  frame : r' = { r with buffer := r'.buffer, checkstate := state }
  length_eq : r'.buffer.length = r.buffer.length
  behind : r'.buffer.drop nul = r.buffer.drop nul

theorem LineDone.of_store {r r' : Reader} {state : CheckState} {index nul : Nat}
    (done : LineDone (r.store index) state nul r') (lt : index < nul) :
    LineDone r state nul r' := by
  constructor
  · rw [done.frame]
    rfl
  · rw [done.length_eq, store, List.length_set]
  · rw [done.behind, store, List.drop_set_of_lt lt]

/-- The state of the main machine behind a request line. -/
def stateAfter (accepts : Bool) (state : CheckState) : CheckState :=
  if accepts then .header else state

/-- The code behind a request line. -/
def codeAfter (accepts : Bool) : HttpCode :=
  if accepts then .noRequest else .badRequest

theorem checkUrl_done (r : Reader) (url nul : Nat) :
    (r.checkUrl url).1 = codeAfter (urlOk (r.str url)) ∧
      LineDone r (stateAfter (urlOk (r.str url)) r.checkstate) nul (r.checkUrl url).2 := by
  rw [checkUrl_eq]
  cases urlOk (r.str url) with
  | true => exact ⟨rfl, rfl, rfl, rfl⟩
  | false => exact ⟨rfl, rfl, rfl, rfl⟩

theorem refused_done (r : Reader) (nul : Nat) :
    codeAfter false = .badRequest ∧ LineDone r (stateAfter false r.checkstate) nul r :=
  ⟨rfl, rfl, rfl, rfl⟩

theorem checkVersion_done (r : Reader) {url nul : Nat} (le : url + (r.str url).length ≤ nul) :
    (r.checkVersion url).1 = codeAfter (versionOk (r.str url)) ∧
      LineDone r (stateAfter (versionOk (r.str url)) r.checkstate) nul (r.checkVersion url).2 := by
  unfold checkVersion versionOk
  cases found : strpbrk (r.str url) with
  | none => exact r.refused_done nul
  | some blank =>
      have lt := strpbrk_lt found
      have version : (r.store (url + blank)).str (url + blank + 1) =
          (r.str url).drop (blank + 1) := by
        rw [store_str_of_lt r (Nat.lt_add_one _), Nat.add_assoc, str_add r lt]
      dsimp only
      rw [store_str r lt, strspn_take found, Nat.add_zero, version]
      cases strcasecmp ((r.str url).drop (blank + 1)) (ascii "HTTP/1.1") with
      | false =>
          rw [if_neg Bool.false_ne_true, Bool.false_and]
          have done := (r.store (url + blank)).refused_done nul
          exact ⟨rfl, done.2.of_store (by omega)⟩
      | true =>
          rw [if_pos rfl, Bool.true_and]
          have done := (r.store (url + blank)).checkUrl_done url nul
          rw [store_str r lt] at done
          exact ⟨done.1, done.2.of_store (by omega)⟩

theorem parseRequestline_done (r : Reader) {temp nul : Nat}
    (le : temp + (r.str temp).length ≤ nul) :
    (r.parseRequestline temp).1 = codeAfter (requestLineOk (r.str temp)) ∧
      LineDone r (stateAfter (requestLineOk (r.str temp)) r.checkstate) nul
        (r.parseRequestline temp).2 := by
  unfold parseRequestline requestLineOk
  cases found : strpbrk (r.str temp) with
  | none => exact r.refused_done nul
  | some blank =>
      have lt := strpbrk_lt found
      have rest : (r.store (temp + blank)).str (temp + blank + 1) =
          (r.str temp).drop (blank + 1) := by
        rw [store_str_of_lt r (Nat.lt_add_one _), Nat.add_assoc, str_add r lt]
      dsimp only
      rw [store_str r lt, rest]
      cases strcasecmp ((r.str temp).take blank) (ascii "GET") with
      | false =>
          rw [if_neg Bool.false_ne_true, Bool.false_and]
          have done := (r.store (temp + blank)).refused_done nul
          exact ⟨rfl, done.2.of_store (by omega)⟩
      | true =>
          rw [if_pos rfl, Bool.true_and]
          have blanks := strspn_le ((r.str temp).drop (blank + 1))
          rw [← rest] at blanks
          have url := (r.store (temp + blank)).str_add blanks
          rw [rest] at blanks url
          have lengths := congrArg List.length url
          simp only [List.length_drop] at lengths blanks
          have behind : temp + blank + 1 + strspn ((r.str temp).drop (blank + 1)) +
              ((r.store (temp + blank)).str (temp + blank + 1 +
                strspn ((r.str temp).drop (blank + 1)))).length ≤ nul := by
            omega
          have done := (r.store (temp + blank)).checkVersion_done behind
          rw [url] at done
          exact ⟨done.1, done.2.of_store (by omega)⟩

end Reader

end NetPractice.RequestReader
