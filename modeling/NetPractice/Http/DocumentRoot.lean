import NetPractice.Http.Segmentation
import NetPractice.Text.Path

/-!
# The document root of `http_conn`

`do_request` puts the URL behind `doc_root` as it is.
-/

namespace NetPractice.Http

open NetPractice.Text

/-- The target of a request line: its second word. -/
def requestTarget (line : List Byte) : List Byte :=
  ((line.dropWhile (! isBlank ·)).dropWhile isBlank).takeWhile (! isBlank ·)

/-- The path of a target, behind its scheme and its host. -/
def requestPath (target : List Byte) : List Byte :=
  if strncasecmp target (ascii "http://") then (target.drop 7).dropWhile (· != 47)
  else if strncasecmp target (ascii "https://") then (target.drop 8).dropWhile (· != 47)
  else target

namespace HttpConn

section Strings

variable {c : HttpConn} {text k index : Nat}

theorem store_str (lt : k < (c.str text).length) :
    (c.store (text + k : Nat)).str text = (c.str text).take k := by
  have buffer_eq :
      (List.range' text (READ_BUFFER_SIZE - text)).map (c.store (text + k : Nat)).readBuf =
      ((List.range' text (READ_BUFFER_SIZE - text)).map c.readBuf).set k 0 := by
    apply List.ext_getElem
    · simp
    · intro i lt₁ lt₂
      rw [List.getElem_set]
      simp only [List.getElem_map, List.getElem_range', Nat.one_mul, store_readBuf]
      by_cases here : k = i
      · simp [here]
      · rw [if_neg here, if_neg (by omega)]
  unfold str at lt ⊢
  rw [buffer_eq]
  exact cstr_set lt

theorem store_str_of_lt (lt : index < text) : (c.store index).str text = c.str text := by
  unfold str
  congr 1
  apply List.map_congr_left
  intro k mem
  have le := (List.mem_range'_1.mp mem).1
  rw [store_readBuf, if_neg (by omega)]

end Strings

/-- The slash that `strchr` finds is where the path begins. -/
theorem strchrSlash_str {c : HttpConn} {start offset : Nat}
    (found : strchrSlash (c.str start) = some offset) :
    c.str (start + offset) = (c.str start).dropWhile (· != 47) := by
  have lt := (List.findIdx?_eq_some_iff_getElem.mp found).1
  rw [str_add (Nat.le_of_lt lt), drop_of_strchrSlash found]

theorem checkUrl_urlText {c d : HttpConn} {url : Nat} (checked : c.checkUrl url = (.noRequest, d)) :
    d.urlText = requestPath (c.str url) := by
  have scheme : ∀ start, (∃ path, (strchrSlash (c.str start)).map (start + ·) = some path ∧
      d.urlText = c.str path) → d.urlText = (c.str start).dropWhile (· != 47) := by
    rintro start ⟨path, located, text_eq⟩
    rcases Option.map_eq_some_iff.mp located with ⟨offset, found, rfl⟩
    rw [text_eq, strchrSlash_str found]
  have path_eq : ∃ path, c.skipScheme url = some path ∧ d.urlText = c.str path := by
    unfold checkUrl at checked
    cases located : c.skipScheme url with
    | none =>
        rw [located] at checked
        cases checked
    | some path =>
        rw [located] at checked
        dsimp only at checked
        split at checked
        · cases checked
          exact ⟨path, rfl, rfl⟩
        · cases checked
  unfold skipScheme at path_eq
  unfold requestPath
  split
  · rename_i http
    rw [if_pos http] at path_eq
    rw [← str_add (k := 7) (length_le_of_strncasecmp http)]
    exact scheme _ path_eq
  · rename_i notHttp
    rw [if_neg notHttp] at path_eq
    split
    · rename_i https
      rw [if_pos https] at path_eq
      rw [← str_add (k := 8) (length_le_of_strncasecmp https)]
      exact scheme _ path_eq
    · rename_i notHttps
      rw [if_neg notHttps] at path_eq
      rcases path_eq with ⟨path, located, text_eq⟩
      cases located
      exact text_eq

theorem splitVersion_urlText {c d : HttpConn} {url : Nat}
    (split : c.splitVersion url = (.noRequest, d)) :
    d.urlText = requestPath ((c.str url).takeWhile (! isBlank ·)) := by
  unfold splitVersion at split
  cases found : strpbrk (c.str url) with
  | none =>
      rw [found] at split
      cases split
  | some blank =>
      rw [found] at split
      dsimp only at split
      split at split
      · rw [checkUrl_urlText split, store_str (strpbrk_lt found), takeWhile_of_strpbrk found]
      · cases split

/-- `m_url` is the path of the request line. -/
theorem parseRequestLine_urlText {c d : HttpConn} {text : Nat}
    (parsed : c.parseRequestLine text = (.noRequest, d)) :
    d.urlText = requestPath (requestTarget (c.str text)) := by
  unfold parseRequestLine at parsed
  cases found : strpbrk (c.str text) with
  | none =>
      rw [found] at parsed
      cases parsed
  | some blank =>
      rw [found] at parsed
      dsimp only at parsed
      unfold splitMethod at parsed
      split at parsed
      · have rest : (c.store (text + blank : Nat)).str (text + blank + 1) =
            (c.str text).drop (blank + 1) := by
          rw [store_str_of_lt (Nat.lt_add_one _), Nat.add_assoc, str_add (strpbrk_lt found)]
        have url := splitVersion_urlText parsed
        rw [url]
        change requestPath (List.takeWhile _ ((c.store (text + blank : Nat)).str (text + blank + 1 +
          strspn ((c.store (text + blank : Nat)).str (text + blank + 1))))) = _
        rw [str_add (strspn_le _), rest, ← dropWhile_of_strpbrk found]
        rfl
      · cases parsed

/-- The path that `do_request` hands to `stat` and `open`. -/
theorem doRequest_realFile (c : HttpConn) (fs : FileSystem) :
    (c.doRequest fs).2.realFile =
      docRoot ++ c.urlText.take (FILENAME_LEN - docRoot.length - 1) := by
  unfold doRequest
  dsimp only
  split
  · rfl
  · split
    · rfl
    · split
      · rfl
      · rfl

/-- The file of a request is in the document root if and only if the URL stays there. -/
theorem doRequest_inside_iff (c : HttpConn) (fs : FileSystem) :
    Inside docRoot (normalise (moves (c.doRequest fs).2.realFile)) ↔
      StaysIn docRoot (c.urlText.take (FILENAME_LEN - docRoot.length - 1)) := by
  rw [doRequest_realFile]
  exact inside_append_iff (by decide) (by decide) _

end HttpConn

end NetPractice.Http
