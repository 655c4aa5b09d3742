import NetPractice.Http.Lines
import Mathlib.Order.Interval.Finset.Nat

/-!
# Requests

A request is fed to `process_read` in segments of any size.  Segments that leave the main
loop waiting may be received as one.  The loop passes the header lines one after the other,
and is in front of the content behind the empty line.
-/

namespace NetPractice.Http

open NetPractice.Text

/-! ## Requests -/

/-- The content length behind a header line, as the line declares it. -/
def declare (length : Int) (line : List Byte) : Int :=
  if strncasecmp (cstr line) (ascii "Content-Length:") then
    atoi (((cstr line).drop (ascii "Content-Length:").length).dropWhile isBlank)
  else length

/-- The content length that the header lines declare. -/
def declaredLength (headers : List (List Byte)) : Int :=
  headers.foldl declare 0

/-- A request of fewer than `READ_BUFFER_SIZE` bytes.  A header line begins with
a byte of its name, and the body has as many bytes as a positive content length
declares. -/
structure Request where
  requestLine : List Byte
  headers : List (List Byte)
  body : List Byte
  plain : ∀ line ∈ requestLine :: headers, Plain line
  named : ∀ line ∈ headers, ∃ first ∈ line.head?, first ≠ 0
  length_body : body.length = (declaredLength headers).toNat
  fits : (wire (requestLine :: headers ++ [[]]) ++ body).length < READ_BUFFER_SIZE

namespace Request

/-- The request line, the header lines, and the empty line. -/
def head (r : Request) : List Byte :=
  wire (r.requestLine :: r.headers ++ [[]])

/-- The bytes of the request. -/
def bytes (r : Request) : List Byte :=
  r.head ++ r.body

theorem length_head (r : Request) :
    r.head.length = r.requestLine.length + 2 + (wire r.headers).length + 2 := by
  simp only [head, wire_append, wire_cons, wire_nil, List.length_append, List.length_cons,
    List.length_nil, List.cons_append]
  omega

theorem length_bytes (r : Request) : r.bytes.length = r.head.length + r.body.length :=
  List.length_append

theorem length_lt (r : Request) : r.bytes.length < READ_BUFFER_SIZE :=
  r.fits

end Request

namespace HttpConn

/-! ## The main loop over whole segments -/

/-- `process_read` behind each received segment, up to the first result. -/
def feed (fs : FileSystem) : HttpConn → List (List Byte) → HttpCode × HttpConn
  | c, [] => (.noRequest, c)
  | c, segment :: segments =>
      match (c.append segment).processRead fs with
      | (.noRequest, d) => feed fs d segments
      | (code, d) => (code, d)

theorem Loops.ordered {fs : FileSystem} {status : LineStatus} {c d : HttpConn} {code : HttpCode}
    (loops : Loops fs status c code d) (ordered : c.Ordered) :
    d.Ordered ∧ d.readIdx = c.readIdx := by
  induction loops with
  | stop text _ =>
      have scanned := (nextText_spec ordered.checked ordered.read text).1
      exact ⟨scanned.ordered ordered, by rw [scanned.frame]⟩
  | result text handled =>
      have scanned := (nextText_spec ordered.checked ordered.read text).1
      have body := handleText_spec handled
      exact ⟨body.ordered (scanned.ordered ordered), by rw [body.readIdx_eq, scanned.frame]⟩
  | again text handled _ ih =>
      have scanned := (nextText_spec ordered.checked ordered.read text).1
      have body := handleText_spec handled
      obtain ⟨ordered', readIdx_eq⟩ := ih (body.ordered (scanned.ordered ordered))
      exact ⟨ordered', by rw [readIdx_eq, body.readIdx_eq, scanned.frame]⟩

theorem Ordered.append {c : HttpConn} (ordered : c.Ordered) {b : List Byte}
    (room : c.readIdx + b.length ≤ READ_BUFFER_SIZE) : (c.append b).Ordered :=
  ⟨ordered.start, Nat.le_add_right_of_le ordered.checked, room⟩

/-- Segments of which the first one leaves the loop waiting are received as
one. -/
theorem feed_merge {fs : FileSystem} {c : HttpConn} {first second : List Byte}
    (ordered : c.Ordered) (quiet : Quiet fs c first)
    (room : c.readIdx + (first ++ second).length ≤ READ_BUFFER_SIZE)
    (segments : List (List Byte)) :
    feed fs c (first :: second :: segments) = feed fs c ((first ++ second) :: segments) := by
  obtain ⟨d, waits, resume⟩ := quiet
  rw [List.length_append] at room
  have orderedFirst := ordered.append (b := first) (by omega)
  have orderedBoth := ordered.append (b := first ++ second) (by simpa using room)
  obtain ⟨orderedWait, readIdx_eq⟩ := waits.ordered orderedFirst
  have orderedSecond := orderedWait.append (b := second) (by
    rw [readIdx_eq, append_readIdx]
    omega)
  have same : (d.append second).processRead fs = (c.append (first ++ second)).processRead fs :=
    (processRead_eq_of_loops orderedBoth
      (resume second _ _ (processRead_loops fs orderedSecond))).symm
  have waiting : (c.append first).processRead fs = (.noRequest, d) :=
    processRead_eq_of_loops orderedFirst waits
  calc
    feed fs c (first :: second :: segments) = feed fs d (second :: segments) := by
      simp only [feed, waiting]
    _ = feed fs c ((first ++ second) :: segments) := by
      simp only [feed, same]

theorem flatten_take_isPrefix (segments : List (List Byte)) (k : Nat) :
    (segments.take k).flatten <+: segments.flatten := by
  have initial := List.take_prefix k segments
  exact initial.flatten

/-- The segments up to the first one that does not leave the loop waiting. -/
theorem feed_take {fs : FileSystem} {c : HttpConn} {segments : List (List Byte)} {k : Nat}
    (ordered : c.Ordered) (room : c.readIdx + segments.flatten.length ≤ READ_BUFFER_SIZE)
    (positive : 0 < k) (le : k ≤ segments.length)
    (quiet : ∀ j, 0 < j → j < k → Quiet fs c (segments.take j).flatten) :
    feed fs c segments = feed fs c ((segments.take k).flatten :: segments.drop k) := by
  induction k with
  | zero => exact absurd positive (Nat.lt_irrefl 0)
  | succ k ih =>
      have next : segments.drop k = segments[k] :: segments.drop (k + 1) :=
        List.drop_eq_getElem_cons (by omega)
      have taken : (segments.take (k + 1)).flatten = (segments.take k).flatten ++ segments[k] := by
        rw [← List.take_concat_get' segments k (by omega), List.flatten_append]
        simp only [List.flatten_cons, List.flatten_nil, List.append_nil]
      by_cases first : k = 0
      · subst first
        rw [taken]
        simpa using congrArg (feed fs c) next
      · have before := ih (by omega) (by omega) fun j pos lt => quiet j pos (by omega)
        rw [before, next, taken]
        refine feed_merge ordered (quiet k (by omega) (by omega)) ?_ _
        rw [← taken]
        have initial := (flatten_take_isPrefix segments (k + 1)).length_le
        omega

/-! ## The head of a request -/

theorem doRequest_code (c : HttpConn) (fs : FileSystem) : (c.doRequest fs).1 ≠ .noRequest := by
  unfold doRequest
  dsimp only
  split
  · simp
  · split
    · simp
    · split <;> simp

theorem str_add {c : HttpConn} {text k : Nat} (le : k ≤ (c.str text).length) :
    c.str (text + k) = (c.str text).drop k := by
  have bound := c.length_str_le text
  unfold str at le ⊢
  rw [← cstr_drop le, ← List.map_drop, List.drop_range', Nat.mul_one, Nat.sub_sub]

theorem headerValue_eq {c : HttpConn} {text : Nat} {name : List Byte}
    (le : name.length ≤ (c.str text).length) :
    c.headerValue text name = ((c.str text).drop name.length).dropWhile isBlank := by
  unfold headerValue
  rw [str_add (strspn_le _), str_add le, drop_strspn]

theorem not_length_of_connection {text : List Byte}
    (connection : strncasecmp text (ascii "Connection:") = true) :
    strncasecmp text (ascii "Content-Length:") = false := by
  by_contra length
  rw [Bool.not_eq_false] at length
  have first := getElem?_of_strncasecmp connection (by decide : 3 < (ascii "Connection:").length)
  have second := getElem?_of_strncasecmp length (by decide : 3 < (ascii "Content-Length:").length)
  exact absurd (first.symm.trans second) (by decide)

/-- A header line that begins with a byte of its name is not the empty line. -/
theorem parseHeaders_named {c : HttpConn} {text : Nat} {line : List Byte}
    (named : c.readBuf text ≠ 0) (str_eq : c.str text = cstr line) :
    (c.parseHeaders text).1 = .noRequest ∧
      (c.parseHeaders text).2.checkState = c.checkState ∧
      (c.parseHeaders text).2.contentLength = declare c.contentLength line := by
  unfold parseHeaders declare
  rw [if_neg named, ← str_eq]
  by_cases connection : strncasecmp (c.str text) (ascii "Connection:") = true
  · rw [if_pos connection, not_length_of_connection connection]
    split <;> exact ⟨rfl, rfl, rfl⟩
  · rw [if_neg connection]
    by_cases length : strncasecmp (c.str text) (ascii "Content-Length:") = true
    · rw [if_pos length, if_pos length, headerValue_eq (length_le_of_strncasecmp length)]
      generalize atoi _ = value
      exact ⟨rfl, rfl, rfl⟩
    · rw [if_neg length, if_neg length]
      exact ⟨rfl, rfl, rfl⟩

section Head

variable {fs : FileSystem} {c : HttpConn}

/-- The first byte of a received line that has a name. -/
theorem lineTaken_named {line : List Byte} (named : ∃ first ∈ line.head?, first ≠ 0) :
    (c.lineTaken line).readBuf c.readIdx ≠ 0 := by
  rcases named with ⟨first, first_eq, nonzero⟩
  cases line with
  | nil => cases first_eq
  | cons byte rest =>
      cases first_eq
      simp only [lineTaken, store_readBuf]
      rw [if_neg (by omega), if_neg (by simp)]
      have byte_eq : (c.append (first :: rest ++ [CR, LF])).readBuf c.readIdx = first :=
        append_readBuf_of_mem (k := 0) (by simp)
      exact fun zero => nonzero (byte_eq.symm.trans zero)

variable (fs) in
/-- A received line with the line behind it as the next one. -/
theorem onHeader_named {line : List Byte} (atLine : c.AtLine) (state : c.checkState = .header)
    (named : ∃ first ∈ line.head?, first ≠ 0)
    (room : c.readIdx + line.length < READ_BUFFER_SIZE) :
    ∃ d, (c.lineTaken line).handleText fs = (.again .ok, d) ∧ d.checkState = .header ∧
      d.contentLength = declare c.contentLength line := by
  let t : HttpConn := { c.lineTaken line with startLine := (c.lineTaken line).checkedIdx }
  obtain ⟨code_eq, state_eq, length_eq⟩ := parseHeaders_named (c := t)
    (lineTaken_named named) (lineTaken_str room)
  refine ⟨(t.parseHeaders c.readIdx).2, ?_, state_eq.trans state, length_eq⟩
  rw [handleText_header (c := c.lineTaken line) state]
  change t.onHeader fs c.startLine = _
  rw [atLine.start]
  unfold onHeader
  rw [show t.parseHeaders c.readIdx = (.noRequest, (t.parseHeaders c.readIdx).2) from
    Prod.ext code_eq rfl]

variable (fs) in
/-- The header lines are handled one after the other. -/
theorem passes_headers {headers : List (List Byte)} (atLine : c.AtLine)
    (state : c.checkState = .header) (plain : ∀ line ∈ headers, Plain line)
    (named : ∀ line ∈ headers, ∃ first ∈ line.head?, first ≠ 0)
    (room : c.readIdx + (wire headers).length ≤ READ_BUFFER_SIZE) :
    ∃ d, Passes fs c headers d ∧ d.checkState = .header ∧
      d.contentLength = headers.foldl declare c.contentLength := by
  induction headers generalizing c with
  | nil => exact ⟨c, .nil c, state, rfl⟩
  | cons line headers ih =>
      simp only [wire_cons, List.length_append, List.length_cons] at room
      obtain ⟨d, handled, state', length_eq⟩ := onHeader_named fs atLine state
        (named line List.mem_cons_self) (by omega)
      obtain ⟨atLine', readIdx_eq⟩ := atLine_of_handled handled
      obtain ⟨e, passes, state'', length_eq'⟩ := ih atLine' state'
        (fun line mem => plain line (List.mem_cons_of_mem _ mem))
        (fun line mem => named line (List.mem_cons_of_mem _ mem)) (by omega)
      refine ⟨e, .cons (by simp [state]) (plain line List.mem_cons_self) handled passes,
        state'', ?_⟩
      rw [length_eq', length_eq, List.foldl_cons]

theorem lineTaken_nil_readBuf (c : HttpConn) : (c.lineTaken []).readBuf c.readIdx = 0 := by
  simp only [lineTaken, store_readBuf, List.length_nil]
  exact (if_neg (by omega)).trans (if_pos rfl)

variable (fs) in
/-- The empty line ends a request without a content length. -/
theorem onHeader_empty (atLine : c.AtLine) (state : c.checkState = .header)
    (noContent : c.contentLength = 0) :
    ∃ code d, (c.lineTaken []).handleText fs = (.result code, d) ∧ code ≠ .noRequest := by
  let t : HttpConn := { c.lineTaken [] with startLine := (c.lineTaken []).checkedIdx }
  have empty : t.readBuf c.readIdx = 0 := c.lineTaken_nil_readBuf
  have length_eq : t.contentLength = 0 := noContent
  have parsed : t.parseHeaders c.readIdx = (.getRequest, t) := by
    unfold parseHeaders
    rw [if_pos empty, if_neg (not_not.mpr length_eq)]
  refine ⟨(t.doRequest fs).1, (t.doRequest fs).2, ?_, t.doRequest_code fs⟩
  rw [handleText_header (c := c.lineTaken []) state]
  change t.onHeader fs c.startLine = _
  rw [atLine.start]
  unfold onHeader
  rw [parsed]

variable (fs) in
/-- With a content length, the empty line is followed by the content. -/
theorem onHeader_content (atLine : c.AtLine) (state : c.checkState = .header)
    (content : c.contentLength ≠ 0) :
    ∃ d, (c.lineTaken []).handleText fs = (.again .ok, d) ∧ d.checkState = .content ∧
      d.contentLength = c.contentLength ∧ d.readBuf (d.readIdx - 1) = 0 := by
  let t : HttpConn := { c.lineTaken [] with startLine := (c.lineTaken []).checkedIdx }
  have empty : t.readBuf c.readIdx = 0 := c.lineTaken_nil_readBuf
  have length_ne : t.contentLength ≠ 0 := content
  have parsed : t.parseHeaders c.readIdx = (.noRequest, { t with checkState := .content }) := by
    unfold parseHeaders
    rw [if_pos empty, if_pos length_ne]
  refine ⟨{ t with checkState := .content }, ?_, rfl, rfl, ?_⟩
  · rw [handleText_header (c := c.lineTaken []) state]
    change t.onHeader fs c.startLine = _
    rw [atLine.start]
    unfold onHeader
    rw [parsed]
  · change (c.lineTaken []).readBuf (c.readIdx + 2 - 1) = 0
    simp only [lineTaken, store_readBuf, List.length_nil]
    rw [if_pos (by omega)]

end Head

end HttpConn

end NetPractice.Http
