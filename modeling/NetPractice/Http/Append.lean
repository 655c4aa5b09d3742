import NetPractice.Http.Parsing
import Mathlib.Data.List.GetD
import Mathlib.Data.List.TakeWhile

/-!
# Parsing commutes with receiving

The parsing functions read NUL-terminated strings in front of `m_read_idx`, so
bytes that arrive behind it change neither their results nor what they write.
-/

namespace NetPractice.Http

open NetPractice.Text

namespace HttpConn

/-! ## Received bytes -/

@[simp]
theorem append_readIdx (c : HttpConn) (bytes : List Byte) :
    (c.append bytes).readIdx = c.readIdx + bytes.length :=
  rfl

theorem append_readBuf_of_lt {c : HttpConn} {k : Nat} (lt : k < c.readIdx) (bytes : List Byte) :
    (c.append bytes).readBuf k = c.readBuf k := by
  simp only [append]
  rw [if_neg (by omega)]

theorem append_readBuf_of_mem {c : HttpConn} {bytes : List Byte} {k : Nat}
    (lt : k < bytes.length) : (c.append bytes).readBuf (c.readIdx + k) = bytes[k] := by
  simp only [append]
  rw [if_pos (by omega), Nat.add_sub_cancel_left, List.getD_eq_getElem _ _ lt]

theorem append_readBuf_of_ge {c : HttpConn} {bytes : List Byte} {k : Nat}
    (ge : c.readIdx + bytes.length ≤ k) : (c.append bytes).readBuf k = c.readBuf k := by
  simp only [append]
  rw [if_neg (by omega)]

/-- The buffer decides whether two sequences of received bytes are the same. -/
theorem append_eq_of_readBuf {c d : HttpConn} {bytes : List Byte}
    (frame : d = { c with readBuf := d.readBuf, readIdx := c.readIdx + bytes.length })
    (buffer : ∀ k, d.readBuf k = (c.append bytes).readBuf k) : d = c.append bytes := by
  rw [frame, funext buffer]
  rfl

@[simp]
theorem append_nil (c : HttpConn) : c.append [] = c := by
  refine (append_eq_of_readBuf rfl fun k => ?_).symm
  by_cases before : k < c.readIdx
  · rw [append_readBuf_of_lt before]
  · rw [append_readBuf_of_ge (by simpa using before)]

/-- Bytes received one segment after the other are the bytes received at once. -/
theorem append_append (c : HttpConn) (first second : List Byte) :
    (c.append first).append second = c.append (first ++ second) := by
  refine append_eq_of_readBuf (by simp [append, Nat.add_assoc]) fun k => ?_
  by_cases before : k < c.readIdx
  · rw [append_readBuf_of_lt (by simp only [append_readIdx]; omega), append_readBuf_of_lt before,
      append_readBuf_of_lt before]
  · obtain ⟨offset, rfl⟩ := Nat.exists_eq_add_of_le (Nat.le_of_not_lt before)
    by_cases inFirst : offset < first.length
    · rw [append_readBuf_of_lt (by simp only [append_readIdx]; omega),
        append_readBuf_of_mem inFirst,
        append_readBuf_of_mem (by simp only [List.length_append]; omega),
        List.getElem_append_left inFirst]
    · obtain ⟨offset, rfl⟩ := Nat.exists_eq_add_of_le (Nat.le_of_not_lt inFirst)
      by_cases inSecond : offset < second.length
      · have index_eq : c.readIdx + (first.length + offset) =
            (c.append first).readIdx + offset := by
          simp only [append_readIdx]
          omega
        rw [append_readBuf_of_mem (by simp only [List.length_append]; omega), index_eq,
          append_readBuf_of_mem inSecond, List.getElem_append_right (by omega)]
        congr 1
        omega
      · rw [append_readBuf_of_ge (by simp only [append_readIdx]; omega),
          append_readBuf_of_ge (by omega),
          append_readBuf_of_ge (by simp only [List.length_append]; omega)]

theorem store_readBuf (c : HttpConn) (index k : Nat) :
    (c.store index).readBuf k = if k = index then 0 else c.readBuf k := by
  simp only [store, Int.natCast_nonneg, if_true, Int.toNat_natCast, Function.update_apply]

theorem store_append {c : HttpConn} {index : Nat} (lt : index < c.readIdx) (bytes : List Byte) :
    (c.append bytes).store index = (c.store index).append bytes := by
  refine append_eq_of_readBuf rfl fun k => ?_
  rw [store_readBuf]
  by_cases before : k < c.readIdx
  · rw [append_readBuf_of_lt before, append_readBuf_of_lt (by simpa using before), store_readBuf]
  · have k_ne : k ≠ index := by omega
    rw [if_neg k_ne]
    by_cases behind : c.readIdx + bytes.length ≤ k
    · rw [append_readBuf_of_ge behind, append_readBuf_of_ge (by simpa using behind),
        store_readBuf, if_neg k_ne]
    · obtain ⟨offset, rfl⟩ := Nat.exists_eq_add_of_le (Nat.le_of_not_lt before)
      have inside : offset < bytes.length := by omega
      rw [append_readBuf_of_mem inside]
      exact (append_readBuf_of_mem (c := c.store index) inside).symm

/-! ## Terminated strings -/

/-- A received NUL byte: strings that begin in front of it end there, or
before. -/
def EndsAt (c : HttpConn) (nul : Nat) : Prop :=
  nul < c.readIdx ∧ nul < READ_BUFFER_SIZE ∧ c.readBuf nul = 0

section Terminated

variable {c : HttpConn} {nul text : Nat}

theorem EndsAt.append (ends : c.EndsAt nul) (bytes : List Byte) :
    (c.append bytes).EndsAt nul :=
  ⟨Nat.lt_add_right _ ends.1, ends.2.1, (append_readBuf_of_lt ends.1 bytes).trans ends.2.2⟩

theorem EndsAt.store (ends : c.EndsAt nul) (index : Nat) : (c.store index).EndsAt nul := by
  refine ⟨ends.1, ends.2.1, ?_⟩
  rw [store_readBuf]
  split
  · rfl
  · exact ends.2.2

/-- The indices of the string and its terminator, and the rest of the buffer. -/
theorem EndsAt.range_eq (ends : c.EndsAt nul) (le : text ≤ nul) :
    List.range' text (READ_BUFFER_SIZE - text) =
      List.range' text (nul - text) ++
        nul :: List.range' (nul + 1) (READ_BUFFER_SIZE - nul - 1) := by
  obtain ⟨length, rfl⟩ := Nat.exists_eq_add_of_le le
  have inside := ends.2.1
  have split_eq : READ_BUFFER_SIZE - text =
      length + (READ_BUFFER_SIZE - (text + length) - 1 + 1) := by omega
  rw [split_eq, ← List.range'_append_1, List.range'_succ, Nat.add_sub_cancel_left]

theorem EndsAt.str_eq (ends : c.EndsAt nul) (le : text ≤ nul) :
    c.str text = cstr ((List.range' text (nul - text)).map c.readBuf) := by
  unfold str
  rw [ends.range_eq le, List.map_append, List.map_cons, ends.2.2, cstr_append_zero]

theorem EndsAt.length_str (ends : c.EndsAt nul) (le : text ≤ nul) :
    text + (c.str text).length ≤ nul := by
  have bound : (c.str text).length ≤ nul - text := by
    rw [ends.str_eq le]
    unfold cstr
    exact (List.takeWhile_sublist _).length_le.trans (by simp)
  omega

theorem EndsAt.str_append (ends : c.EndsAt nul) (le : text ≤ nul) (bytes : List Byte) :
    (c.append bytes).str text = c.str text := by
  rw [ends.str_eq le, (ends.append bytes).str_eq le]
  refine congrArg cstr (List.map_congr_left fun k mem => append_readBuf_of_lt ?_ bytes)
  have := (List.mem_range'_1.mp mem).2
  have := ends.1
  omega

theorem EndsAt.strpbrk_lt (ends : c.EndsAt nul) (le : text ≤ nul) {blank : Nat}
    (found : strpbrk (c.str text) = some blank) : text + blank < nul := by
  have lt := (List.findIdx?_eq_some_iff_getElem.mp found).1
  have := ends.length_str le
  omega

theorem EndsAt.strspn_le (ends : c.EndsAt nul) (le : text ≤ nul) :
    text + strspn (c.str text) ≤ nul := by
  have spn : strspn (c.str text) ≤ (c.str text).length :=
    (List.takeWhile_sublist _).length_le
  have := ends.length_str le
  omega

/-- Nothing is blank in front of the first blank. -/
theorem EndsAt.strspn_store (ends : c.EndsAt nul) (le : text ≤ nul) {blank : Nat}
    (found : strpbrk (c.str text) = some blank) :
    strspn ((c.store (text + blank : Nat)).str text) = 0 := by
  have lt := ends.strpbrk_lt le found
  obtain ⟨length, length_eq⟩ : ∃ length, nul - text = length + 1 :=
    Nat.exists_eq_succ_of_ne_zero (by omega)
  rw [ends.str_eq le, length_eq, List.range'_succ, List.map_cons, cstr_cons] at found
  rw [(ends.store (text + blank)).str_eq le, length_eq, List.range'_succ, List.map_cons, cstr_cons]
  by_cases first : blank = 0
  · have written : (c.store (text + blank : Nat)).readBuf text = 0 := by
      rw [store_readBuf, if_pos (by omega)]
    rw [if_pos written]
    rfl
  · have kept : (c.store (text + blank : Nat)).readBuf text = c.readBuf text := by
      rw [store_readBuf, if_neg (by omega)]
    rw [kept]
    by_cases nulByte : c.readBuf text = 0
    · rw [if_pos nulByte]
      rfl
    · rw [if_neg nulByte] at found ⊢
      have notBlank : isBlank (c.readBuf text) = false := by
        by_contra isBlankByte
        rw [strpbrk, List.findIdx?_cons, if_pos (by simpa using isBlankByte)] at found
        exact first (Option.some.inj found).symm
      simp [strspn, notBlank]

theorem EndsAt.strncasecmp_le (ends : c.EndsAt nul) (le : text ≤ nul) {other : List Byte}
    (equal : strncasecmp (c.str text) other = true) : text + other.length ≤ nul := by
  have := ends.length_str le
  have := length_le_of_strncasecmp equal
  omega

/-! ## The request line -/

theorem EndsAt.skipScheme_append (ends : c.EndsAt nul) (le : text ≤ nul) (bytes : List Byte) :
    (c.append bytes).skipScheme text = c.skipScheme text := by
  unfold skipScheme
  rw [ends.str_append le]
  by_cases http : strncasecmp (c.str text) (ascii "http://") = true
  · have behind : text + 7 ≤ nul := ends.strncasecmp_le le http
    rw [if_pos http, if_pos http, ends.str_append behind]
  · rw [if_neg http, if_neg http]
    by_cases https : strncasecmp (c.str text) (ascii "https://") = true
    · have behind : text + 8 ≤ nul := ends.strncasecmp_le le https
      rw [if_pos https, if_pos https, ends.str_append behind]
    · rw [if_neg https, if_neg https]

theorem EndsAt.strchrSlash_lt (ends : c.EndsAt nul) (le : text ≤ nul) {url : Nat}
    (found : (strchrSlash (c.str text)).map (text + ·) = some url) : url ≤ nul := by
  obtain ⟨slash, slash_eq, rfl⟩ := Option.map_eq_some_iff.mp found
  have lt := (List.findIdx?_eq_some_iff_getElem.mp slash_eq).1
  have := ends.length_str le
  omega

theorem EndsAt.skipScheme_le (ends : c.EndsAt nul) (le : text ≤ nul) {url : Nat}
    (found : c.skipScheme text = some url) : url ≤ nul := by
  unfold skipScheme at found
  split at found
  · rename_i http
    exact ends.strchrSlash_lt (ends.strncasecmp_le le http) found
  · split at found
    · rename_i https
      exact ends.strchrSlash_lt (ends.strncasecmp_le le https) found
    · exact Option.some.inj found ▸ le

theorem EndsAt.checkUrl_append (ends : c.EndsAt nul) (le : text ≤ nul) (bytes : List Byte) :
    (c.append bytes).checkUrl text =
      ((c.checkUrl text).1, (c.checkUrl text).2.append bytes) := by
  unfold checkUrl
  rw [ends.skipScheme_append le]
  cases found : c.skipScheme text with
  | none => rfl
  | some url =>
      have inside : url < c.readIdx := (ends.skipScheme_le le found).trans_lt ends.1
      have byte_eq : (c.append bytes).readBuf url = c.readBuf url :=
        append_readBuf_of_lt inside bytes
      simp only [byte_eq]
      split <;> rfl

theorem EndsAt.splitVersion_append (ends : c.EndsAt nul) (le : text ≤ nul) (bytes : List Byte) :
    (c.append bytes).splitVersion text =
      ((c.splitVersion text).1, (c.splitVersion text).2.append bytes) := by
  unfold splitVersion
  rw [ends.str_append le]
  cases found : strpbrk (c.str text) with
  | none => rfl
  | some blank =>
      have lt := ends.strpbrk_lt le found
      have stored := store_append (lt.trans ends.1) bytes
      have ends' := ends.store (text + blank)
      have version_eq := ends'.str_append (lt : text + blank + 1 ≤ _) bytes
      simp only [stored, ends'.str_append le bytes, ends.strspn_store le found, Nat.add_zero,
        version_eq, ends'.checkUrl_append le bytes]
      split <;> rfl

theorem EndsAt.splitMethod_append (ends : c.EndsAt nul) (le : text ≤ nul) {url : Nat}
    (urlLe : url ≤ nul) (bytes : List Byte) :
    (c.append bytes).splitMethod text url =
      ((c.splitMethod text url).1, (c.splitMethod text url).2.append bytes) := by
  unfold splitMethod
  rw [ends.str_append le, ends.str_append urlLe]
  have ends' : { c with url := some (url + strspn (c.str url)) }.EndsAt nul := ends
  by_cases get : strcasecmp (c.str text) (ascii "GET") = true
  · rw [if_pos get, if_pos get]
    exact ends'.splitVersion_append (ends.strspn_le urlLe) bytes
  · rw [if_neg get, if_neg get]

theorem EndsAt.parseRequestLine_append (ends : c.EndsAt nul) (le : text ≤ nul)
    (bytes : List Byte) :
    (c.append bytes).parseRequestLine text =
      ((c.parseRequestLine text).1, (c.parseRequestLine text).2.append bytes) := by
  unfold parseRequestLine
  rw [ends.str_append le]
  cases found : strpbrk (c.str text) with
  | none => rfl
  | some blank =>
      have lt := ends.strpbrk_lt le found
      have ends' : { c.store (text + blank : Nat) with
          url := some (text + blank + 1) }.EndsAt nul := ends.store (text + blank)
      simp only [store_append (lt.trans ends.1) bytes]
      exact ends'.splitMethod_append le lt bytes

/-! ## The URL -/

/-- `m_url` points to a terminated string. -/
def UrlEndsAt (c : HttpConn) (nul : Nat) : Prop :=
  c.EndsAt nul ∧ ∀ url ∈ c.url, url ≤ nul

theorem UrlEndsAt.urlText_append (ends : c.UrlEndsAt nul) (bytes : List Byte) :
    (c.append bytes).urlText = c.urlText := by
  unfold urlText
  rw [show (c.append bytes).url = c.url from rfl]
  cases found : c.url with
  | none => rfl
  | some url => exact ends.1.str_append (ends.2 url found) bytes

theorem EndsAt.checkUrl_urlEndsAt (ends : c.EndsAt nul) (le : text ≤ nul) :
    (c.checkUrl text).2.UrlEndsAt nul := by
  have urlLe : ∀ url ∈ c.skipScheme text, url ≤ nul := fun url found =>
    ends.skipScheme_le le found
  unfold checkUrl
  dsimp only
  split
  · exact ⟨ends, urlLe⟩
  · split
    · exact ⟨ends, urlLe⟩
    · exact ⟨ends, urlLe⟩

theorem UrlEndsAt.splitVersion (ends : c.UrlEndsAt nul) (le : text ≤ nul) :
    (c.splitVersion text).2.UrlEndsAt nul := by
  unfold HttpConn.splitVersion
  split
  · exact ends
  · rename_i blank found
    dsimp only
    split
    · exact (ends.1.store (text + blank)).checkUrl_urlEndsAt le
    · exact ⟨ends.1.store (text + blank), ends.2⟩

theorem UrlEndsAt.splitMethod (ends : c.UrlEndsAt nul) {url : Nat} (urlLe : url ≤ nul) :
    (c.splitMethod text url).2.UrlEndsAt nul := by
  unfold HttpConn.splitMethod
  split
  · have behind := ends.1.strspn_le urlLe
    have ends' : { c with url := some (url + strspn (c.str url)) }.UrlEndsAt nul :=
      ⟨ends.1, fun url found => Option.some.inj found ▸ behind⟩
    exact ends'.splitVersion behind
  · exact ends

theorem EndsAt.parseRequestLine_urlEndsAt (ends : c.EndsAt nul) (le : text ≤ nul) :
    (c.parseRequestLine text).2.UrlEndsAt nul := by
  unfold parseRequestLine
  split
  · exact ⟨ends, by simp⟩
  · rename_i blank found
    have lt := ends.strpbrk_lt le found
    have ends' : { c.store (text + blank : Nat) with url := some (text + blank + 1) }.UrlEndsAt
        nul := ⟨ends.store (text + blank), fun url found => Option.some.inj found ▸ lt⟩
    exact ends'.splitMethod lt

/-! ## The header lines -/

theorem EndsAt.headerValue_append (ends : c.EndsAt nul) {name : List Byte}
    (le : text + name.length ≤ nul) (bytes : List Byte) :
    (c.append bytes).headerValue text name = c.headerValue text name := by
  unfold headerValue
  rw [ends.str_append le, ends.str_append (ends.strspn_le le)]

theorem EndsAt.parseHeaders_append (ends : c.EndsAt nul) (le : text ≤ nul) (bytes : List Byte) :
    (c.append bytes).parseHeaders text =
      ((c.parseHeaders text).1, (c.parseHeaders text).2.append bytes) := by
  have byte_eq : (c.append bytes).readBuf text = c.readBuf text :=
    append_readBuf_of_lt (le.trans_lt ends.1) bytes
  have length_eq : (c.append bytes).contentLength = c.contentLength := rfl
  unfold parseHeaders
  rw [byte_eq, length_eq, ends.str_append le]
  by_cases blank : c.readBuf text = 0
  · rw [if_pos blank, if_pos blank]
    split <;> rfl
  · rw [if_neg blank, if_neg blank]
    by_cases connection : strncasecmp (c.str text) (ascii "Connection:") = true
    · rw [if_pos connection, if_pos connection,
        ends.headerValue_append (ends.strncasecmp_le le connection)]
      split <;> rfl
    · rw [if_neg connection, if_neg connection]
      by_cases length : strncasecmp (c.str text) (ascii "Content-Length:") = true
      · rw [if_pos length, if_pos length,
          ends.headerValue_append (ends.strncasecmp_le le length)]
        generalize atoi (c.headerValue text (ascii "Content-Length:")) = value
        rfl
      · rw [if_neg length, if_neg length]

/-! ## The body of the main loop -/

theorem EndsAt.onRequestLine_append (ends : c.EndsAt nul) (le : text ≤ nul) (bytes : List Byte) :
    (c.append bytes).onRequestLine text =
      ((c.onRequestLine text).1, (c.onRequestLine text).2.append bytes) := by
  unfold onRequestLine
  rw [ends.parseRequestLine_append le]
  generalize c.parseRequestLine text = parsed
  obtain ⟨code, d⟩ := parsed
  cases code <;> rfl

theorem EndsAt.onHeader_append (ends : c.EndsAt nul) (le : text ≤ nul) {fs : FileSystem}
    {status : LineStatus} {d : HttpConn} (handled : c.onHeader fs text = (.again status, d))
    (bytes : List Byte) :
    (c.append bytes).onHeader fs text = (.again status, d.append bytes) := by
  unfold onHeader at handled ⊢
  rw [ends.parseHeaders_append le]
  generalize c.parseHeaders text = parsed at handled
  obtain ⟨code, e⟩ := parsed
  cases code with
  | badRequest | getRequest => cases (Prod.mk.inj handled).1
  | noRequest | noResource | forbiddenRequest | fileRequest | internalError | closedConnection =>
      obtain ⟨turn_eq, rfl⟩ := Prod.mk.inj handled
      exact Prod.ext turn_eq rfl

/-- A line that is handled keeps its result when more bytes have arrived. -/
theorem EndsAt.handleText_append (ends : c.EndsAt nul) (le : c.startLine ≤ nul)
    (state : c.checkState ≠ .content) {fs : FileSystem} {status : LineStatus} {d : HttpConn}
    (handled : c.handleText fs = (.again status, d)) (bytes : List Byte) :
    (c.append bytes).handleText fs = (.again status, d.append bytes) := by
  have ends' : { c with startLine := c.checkedIdx }.EndsAt nul := ends
  cases state_eq : c.checkState with
  | requestLine =>
      rw [handleText_requestLine state_eq] at handled
      rw [handleText_requestLine (c := c.append bytes) state_eq]
      refine (ends'.onRequestLine_append le bytes).trans ?_
      rw [handled]
  | header =>
      rw [handleText_header state_eq] at handled
      rw [handleText_header (c := c.append bytes) state_eq]
      exact ends'.onHeader_append le handled bytes
  | content => exact absurd state_eq state

end Terminated

end HttpConn

end NetPractice.Http
