import NetPractice.Http.DocumentRoot
import NetPractice.RequestReader.Grammar

/-!
# One parser of request lines in two programs

`parse_request_line` of `http_conn` is `parse_requestline` of `code_8_3`: on the same buffer
they walk with the same pointers.  Both are functions of the C string that the line is, so
they agree wherever it stands, and both share the slip that allows one blank only in front of
the version.
-/

namespace NetPractice.RequestReader.Reader

open NetPractice.Text
open NetPractice.Http (requestTarget requestPath)

/-! ## The URL of the request reader -/

section Url

variable {r : Reader} {url temp : Nat}

theorem checkUrl_str (accepted : (r.checkUrl url).1 = .noRequest) :
    ∃ path ∈ r.checkedUrl url, (r.checkUrl url).2.str path = requestPath (r.str url) := by
  have behind : ∀ start, (strchrSlash (r.str start)).map (start + ·) = r.skipScheme url →
      ∃ path ∈ r.checkedUrl url,
        (r.checkUrl url).2.str path = (r.str start).dropWhile (· != 47) := by
    intro start located
    unfold checkUrl at accepted ⊢
    unfold checkedUrl
    rw [← located] at accepted ⊢
    cases found : strchrSlash (r.str start) with
    | none =>
        rw [found] at accepted
        cases accepted
    | some offset =>
        rw [found, Option.map_some] at accepted
        rw [Option.map_some]
        dsimp only at accepted ⊢
        by_cases slash : r.byte (start + offset) = 47
        · rw [if_neg (not_not.mpr slash), if_neg (not_not.mpr slash)]
          have lt := (List.findIdx?_eq_some_iff_getElem.mp found).1
          exact ⟨start + offset, rfl,
            (r.str_add (Nat.le_of_lt lt)).trans (drop_of_strchrSlash found)⟩
        · rw [if_pos slash] at accepted
          cases accepted
  unfold requestPath
  by_cases http : strncasecmp (r.str url) (ascii "http://") = true
  · rw [if_pos http, ← r.str_add (k := 7) (length_le_of_strncasecmp http)]
    apply behind
    rw [skipScheme, if_pos http]
  · rw [if_neg http]
    by_cases https : strncasecmp (r.str url) (ascii "https://") = true
    · rw [if_pos https, ← r.str_add (k := 8) (length_le_of_strncasecmp https)]
      apply behind
      rw [skipScheme, if_neg http, if_pos https]
    · rw [if_neg https]
      have located : r.skipScheme url = some url := by
        rw [skipScheme, if_neg http, if_neg https]
      unfold checkUrl at accepted ⊢
      unfold checkedUrl
      rw [located] at accepted ⊢
      dsimp only at accepted ⊢
      by_cases slash : r.byte url = 47
      · rw [if_neg (not_not.mpr slash), if_neg (not_not.mpr slash)]
        exact ⟨url, rfl, rfl⟩
      · rw [if_pos slash] at accepted
        cases accepted

theorem checkVersion_str (accepted : (r.checkVersion url).1 = .noRequest) :
    ∃ path ∈ r.versionUrl url,
      (r.checkVersion url).2.str path = requestPath ((r.str url).takeWhile (! isBlank ·)) := by
  unfold checkVersion at accepted ⊢
  unfold versionUrl
  cases found : strpbrk (r.str url) with
  | none =>
      rw [found] at accepted
      cases accepted
  | some blank =>
      rw [found] at accepted
      dsimp only at accepted ⊢
      split at accepted
      next isVersion =>
        rw [if_pos isVersion, if_pos isVersion, takeWhile_of_strpbrk found,
          ← r.store_str (strpbrk_lt found)]
        exact checkUrl_str accepted
      next => cases accepted

/-- The request URL is the path of the line's second word. -/
theorem parseRequestline_str (accepted : (r.parseRequestline temp).1 = .noRequest) :
    ∃ path ∈ r.requestlineUrl temp,
      (r.parseRequestline temp).2.str path = requestPath (requestTarget (r.str temp)) := by
  unfold parseRequestline at accepted ⊢
  unfold requestlineUrl
  cases found : strpbrk (r.str temp) with
  | none =>
      rw [found] at accepted
      cases accepted
  | some blank =>
      rw [found] at accepted
      dsimp only at accepted ⊢
      split at accepted
      next isGet =>
        have rest : (r.store (temp + blank)).str (temp + blank + 1) =
            (r.str temp).drop (blank + 1) := by
          rw [store_str_of_lt r (Nat.lt_add_one _), Nat.add_assoc, str_add r (strpbrk_lt found)]
        have text := (r.store (temp + blank)).str_add
          (strspn_le ((r.store (temp + blank)).str (temp + blank + 1)))
        have target : requestTarget (r.str temp) =
            ((r.store (temp + blank)).str (temp + blank + 1 +
              strspn ((r.store (temp + blank)).str (temp + blank + 1)))).takeWhile
                (! isBlank ·) := by
          rw [text, rest, requestTarget, dropWhile_of_strpbrk found]
        rw [if_pos isGet, if_pos isGet, target]
        exact checkVersion_str accepted
      next => cases accepted

end Url

end NetPractice.RequestReader.Reader

namespace NetPractice.Http

open NetPractice.Text
open NetPractice.RequestReader (Reader RequestLine OneBlank requestLineOk requestLineOk_iff
  twoBlanks_requestLine)

namespace HttpConn

/-! ## The same walk -/

/-- The connection as the request reader sees it; it has no state for the content. -/
def reader (c : HttpConn) : Reader where
  buffer := (List.range READ_BUFFER_SIZE).map c.readBuf
  readIndex := c.readIdx
  checkedIndex := c.checkedIdx
  startLine := c.startLine
  checkstate := if c.checkState = .requestLine then .requestLine else .header

/-- The results that both programs have. -/
def sameCode : RequestReader.HttpCode → HttpCode
  | .noRequest => .noRequest
  | .getRequest => .getRequest
  | .badRequest => .badRequest
  | .forbiddenRequest => .forbiddenRequest
  | .internalError => .internalError
  | .closedConnection => .closedConnection

section Walk

variable (c : HttpConn) {text url index : Nat}

@[simp]
theorem reader_str (text : Nat) : c.reader.str text = c.str text := by
  unfold Reader.str str reader
  rw [← List.map_drop, List.range_eq_range', List.drop_range', Nat.zero_add, Nat.mul_one]

@[simp]
theorem reader_store (index : Nat) : (c.store index).reader = c.reader.store index := by
  have buffer_eq : (List.range READ_BUFFER_SIZE).map (c.store index).readBuf =
      ((List.range READ_BUFFER_SIZE).map c.readBuf).set index 0 := by
    apply List.ext_getElem
    · simp
    · intro k lt₁ lt₂
      rw [List.getElem_set]
      simp only [List.getElem_map, List.getElem_range, store_readBuf, eq_comm]
  simp only [reader, Reader.store, buffer_eq]
  rfl

theorem reader_header (url : Option Nat) :
    { c with url := url, checkState := .header }.reader =
      { c.reader with checkstate := .header } := by
  simp only [reader, reduceCtorEq, if_false]

theorem reader_byte (inside : index < READ_BUFFER_SIZE) :
    c.reader.byte index = c.readBuf index := by
  unfold Reader.byte reader
  rw [List.getD_eq_getElem _ _ (by simpa using inside), List.getElem_map, List.getElem_range]

theorem reader_skipScheme (url : Nat) : c.reader.skipScheme url = c.skipScheme url := by
  unfold Reader.skipScheme skipScheme
  simp only [reader_str]

/-- Both parsers return the same result and leave the same buffer and state behind. -/
structure SameWalk (result : HttpCode × HttpConn) (result' : RequestReader.HttpCode × Reader) :
    Prop where
  code : result.1 = sameCode result'.1
  reader : result.2.reader = result'.2

/-- The URL is found in front of the end of the string. -/
theorem skipScheme_lt (inside : url + (c.str url).length < READ_BUFFER_SIZE) :
    ∀ path ∈ c.skipScheme url, path < READ_BUFFER_SIZE := by
  intro path located
  have slash : ∀ start, start ≤ url + (c.str url).length →
      (strchrSlash (c.str start)).map (start + ·) = some path → path < READ_BUFFER_SIZE := by
    intro start le found
    rcases Option.map_eq_some_iff.mp found with ⟨offset, offset_eq, rfl⟩
    have lt := (List.findIdx?_eq_some_iff_getElem.mp offset_eq).1
    have bound := c.length_str_le start
    omega
  unfold skipScheme at located
  split at located
  next http =>
    have le := length_le_of_strncasecmp http
    exact slash _ (Nat.add_le_add_left le url) located
  next =>
    split at located
    next https =>
      have le := length_le_of_strncasecmp https
      exact slash _ (Nat.add_le_add_left le url) located
    next =>
      cases located
      omega

theorem checkUrl_walk (inside : url + (c.str url).length < READ_BUFFER_SIZE) :
    SameWalk (c.checkUrl url) (c.reader.checkUrl url) := by
  have located := c.skipScheme_lt inside
  unfold checkUrl Reader.checkUrl
  rw [reader_skipScheme]
  cases found : c.skipScheme url with
  | none => exact ⟨rfl, rfl⟩
  | some path =>
      dsimp only
      rw [reader_byte c (located path found)]
      by_cases slash : c.readBuf path = 47
      · rw [if_pos slash, if_neg (not_not.mpr slash)]
        exact ⟨rfl, c.reader_header (some path)⟩
      · rw [if_neg slash, if_pos slash]
        exact ⟨rfl, rfl⟩

theorem splitVersion_walk (inside : url + (c.str url).length < READ_BUFFER_SIZE) :
    SameWalk (c.splitVersion url) (c.reader.checkVersion url) := by
  unfold splitVersion Reader.checkVersion
  rw [reader_str]
  cases found : strpbrk (c.str url) with
  | none => exact ⟨rfl, rfl⟩
  | some blank =>
      have stored : (c.store (url + blank : Nat)).str url = (c.str url).take blank := by
        rw [← reader_str, reader_store, ← reader_str]
        apply Reader.store_str
        rw [reader_str]
        exact strpbrk_lt found
      have inside' : url + ((c.store (url + blank : Nat)).str url).length < READ_BUFFER_SIZE := by
        rw [stored, List.length_take]
        omega
      dsimp only
      rw [← reader_store, reader_str, reader_str]
      split
      · exact checkUrl_walk _ inside'
      · exact ⟨rfl, rfl⟩

/-- On the same buffer, `parse_request_line` walks as `parse_requestline` does. -/
theorem parseRequestLine_walk (inside : text + (c.str text).length < READ_BUFFER_SIZE) :
    SameWalk (c.parseRequestLine text) (c.reader.parseRequestline text) := by
  unfold parseRequestLine Reader.parseRequestline
  rw [reader_str]
  cases found : strpbrk (c.str text) with
  | none => exact ⟨rfl, rfl⟩
  | some blank =>
      have lt := strpbrk_lt found
      set stored := c.store (text + blank : Nat) with stored_eq
      set start := text + blank + 1 with start_eq
      have rest : stored.str start = (c.str text).drop (blank + 1) := by
        rw [← reader_str, stored_eq, reader_store, Reader.store_str_of_lt _ (Nat.lt_add_one _),
          reader_str, Nat.add_assoc, ← reader_str, Reader.str_add, reader_str]
        rw [reader_str]
        exact lt
      have behind : stored.str (start + strspn (stored.str start)) =
          (stored.str start).drop (strspn (stored.str start)) := by
        rw [← reader_str, Reader.str_add, reader_str]
        rw [reader_str]
        exact strspn_le _
      have inside' : start + strspn (stored.str start) +
          (stored.str (start + strspn (stored.str start))).length < READ_BUFFER_SIZE := by
        have spn := strspn_le (stored.str start)
        rw [behind, List.length_drop]
        rw [rest] at spn ⊢
        rw [List.length_drop] at spn ⊢
        omega
      dsimp only
      rw [← reader_store, ← stored_eq, reader_str, reader_str]
      by_cases isGet : strcasecmp (stored.str text) (ascii "GET") = true
      · have get : { stored with url := some start }.splitMethod text start =
            { stored with url := some (start + strspn (stored.str start)) }.splitVersion
              (start + strspn (stored.str start)) := if_pos isGet
        rw [get, if_pos isGet]
        exact splitVersion_walk
          { stored with url := some (start + strspn (stored.str start)) } inside'
      · have refused : { stored with url := some start }.splitMethod text start =
            (.badRequest, { stored with url := some start }) := if_neg isGet
        rw [refused, if_neg isGet]
        exact ⟨rfl, rfl⟩

end Walk

section Line

variable {c d : HttpConn} {text : Nat}

/-- `parse_request_line` accepts what `parse_requestline` does. -/
theorem parseRequestLine_code (inside : text + (c.str text).length < READ_BUFFER_SIZE) :
    (c.parseRequestLine text).1 =
      if requestLineOk (c.str text) then .noRequest else .badRequest := by
  have done := (c.reader.parseRequestline_done (Nat.le_refl _ : text + _ ≤ _)).1
  rw [(c.parseRequestLine_walk inside).code, done, reader_str]
  cases requestLineOk (c.str text) with
  | true => rfl
  | false => rfl

end Line

end HttpConn

/-! ## Agreement -/

/-- A string in each program's buffer, and what the parsers make of them: the same result,
and where they accept, the same URL and the same next state; and any number of blanks may
stand behind the method and behind the URL. -/
structure ParsersAgree (c : HttpConn) (text : Nat) (r : Reader) (temp : Nat) : Prop where
  code : ((c.parseRequestLine text).1 = .noRequest ∧ (r.parseRequestline temp).1 = .noRequest) ∨
    ((c.parseRequestLine text).1 = .badRequest ∧ (r.parseRequestline temp).1 = .badRequest)
  url : (c.parseRequestLine text).1 = .noRequest → ∃ url ∈ r.requestlineUrl temp,
    (c.parseRequestLine text).2.urlText = (r.parseRequestline temp).2.str url
  state : (c.parseRequestLine text).1 = .noRequest →
    (c.parseRequestLine text).2.checkState = .header ∧
      (r.parseRequestline temp).2.checkstate = .header
  tolerant : RequestLine (c.str text) → (c.parseRequestLine text).1 = .noRequest

section Agreement

variable {c : HttpConn} {r : Reader} {text temp : Nat}

/-- The parsers agree on every line, up to the blanks in front of the version. -/
theorem parsersAgree_of_tolerant (same : r.str temp = c.str text)
    (inside : text + (c.str text).length < READ_BUFFER_SIZE)
    (tolerant : RequestLine (c.str text) → OneBlank (c.str text)) :
    ParsersAgree c text r temp := by
  have code := c.parseRequestLine_code inside
  have done := r.parseRequestline_done (Nat.le_refl (temp + (r.str temp).length))
  rw [same] at done
  cases ok : requestLineOk (c.str text) with
  | true =>
      rw [ok] at code done
      rw [if_pos rfl] at code
      have accepted : (r.parseRequestline temp).1 = .noRequest := done.1
      have parsed : c.parseRequestLine text = (.noRequest, (c.parseRequestLine text).2) :=
        Prod.ext code rfl
      constructor
      · exact Or.inl ⟨code, accepted⟩
      · intro _
        rcases Reader.parseRequestline_str accepted with ⟨url, url_eq, str_eq⟩
        refine ⟨url, url_eq, ?_⟩
        rw [str_eq, same, HttpConn.parseRequestLine_urlText parsed]
      · intro _
        constructor
        · apply (HttpConn.parseRequestLine_spec c text).state
          rw [code]
          decide
        · rw [done.2.frame]
          rfl
      · exact fun _ => code
  | false =>
      rw [ok] at code done
      rw [if_neg Bool.false_ne_true] at code
      constructor
      · exact Or.inr ⟨code, done.1⟩
      · rw [code]
        nofun
      · rw [code]
        nofun
      · intro line
        have accepts := (requestLineOk_iff _).mpr (tolerant line)
        rw [ok] at accepts
        cases accepts

end Agreement

/-- Wherever a NUL-terminated line stands in the two buffers, the parsers agree on it and
tolerate its blanks if and only if it has one blank in front of the version when it is a
request line. -/
theorem parsersAgree_iff {c : HttpConn} {r : Reader} {text temp : Nat}
    (same : r.str temp = c.str text)
    (inside : text + (c.str text).length < READ_BUFFER_SIZE) :
    ParsersAgree c text r temp ↔ (RequestLine (c.str text) → OneBlank (c.str text)) := by
  constructor
  · intro agree line
    have accepted := agree.tolerant line
    rw [c.parseRequestLine_code inside] at accepted
    rw [← requestLineOk_iff]
    by_contra refused
    rw [if_neg refused] at accepted
    cases accepted
  · exact parsersAgree_of_tolerant same inside

/-- A connection and a request reader that have received a line. -/
def lineConn (line : List Byte) : HttpConn := zeroConn.append line

/-- The other parser with the line in its buffer. -/
def lineReader (line : List Byte) : Reader := Reader.initial.receive line

/-- A line of the usual form. -/
theorem parsersAgree_get :
    ParsersAgree (lineConn (ascii "GET \t /a HTTP/1.1")) 0
      (lineReader (ascii "GET \t /a HTTP/1.1")) 0 := by
  apply (parsersAgree_iff (by decide +kernel) (by decide +kernel)).mpr
  intro _
  apply (requestLineOk_iff _).mp
  decide +kernel

/-- Both parsers reject a line with two blanks in front of the version. -/
theorem twoBlanks_not_parsersAgree :
    RequestLine (ascii "GET /  HTTP/1.1") ∧
      (lineConn (ascii "GET /  HTTP/1.1")).str 0 = ascii "GET /  HTTP/1.1" ∧
      (lineReader (ascii "GET /  HTTP/1.1")).str 0 = ascii "GET /  HTTP/1.1" ∧
      ((lineConn (ascii "GET /  HTTP/1.1")).parseRequestLine 0).1 = .badRequest ∧
      ((lineReader (ascii "GET /  HTTP/1.1")).parseRequestline 0).1 = .badRequest ∧
      ¬ ParsersAgree (lineConn (ascii "GET /  HTTP/1.1")) 0
        (lineReader (ascii "GET /  HTTP/1.1")) 0 := by
  have str_eq : (lineConn (ascii "GET /  HTTP/1.1")).str 0 = ascii "GET /  HTTP/1.1" := by
    decide +kernel
  have bad : ((lineConn (ascii "GET /  HTTP/1.1")).parseRequestLine 0).1 = .badRequest := by
    decide +kernel
  refine ⟨twoBlanks_requestLine, str_eq, by decide +kernel, bad, by decide +kernel,
    fun agree => ?_⟩
  have accepted := agree.tolerant (str_eq ▸ twoBlanks_requestLine)
  rw [bad] at accepted
  cases accepted

end NetPractice.Http
