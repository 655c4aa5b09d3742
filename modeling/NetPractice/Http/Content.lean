import NetPractice.Http.Requests

/-!
# The content of a request

While the body is incomplete, the main loop calls `parse_line` on its bytes.  A scan that
moves `m_checked_idx` makes `parse_content` wait for more bytes than the body has.
-/

namespace NetPractice.Http

open NetPractice.Text

namespace HttpConn

/-- `parse_line` moves over the beginning of a body. -/
def Moves : List Byte → Prop
  | [] => False
  | first :: rest => if first = CR then rest.head? = some LF else first ≠ LF

instance : DecidablePred Moves
  | [] => isFalse id
  | first :: rest =>
      inferInstanceAs (Decidable (if first = CR then rest.head? = some LF else first ≠ LF))

/-! ## The main loop in front of the content -/

section Content

variable {fs : FileSystem} {c d : HttpConn}

theorem nextText_content (state : c.checkState = .content) : c.nextText .ok = (.ok, c) := by
  unfold nextText
  rw [if_pos ⟨state, rfl⟩]

theorem nextText_open (c : HttpConn) : c.nextText .open = c.parseLine := by
  unfold nextText
  rw [if_neg (by simp)]

variable (fs) in
/-- The content is taken for incomplete. -/
theorem handleText_waits (state : c.checkState = .content)
    (incomplete : (c.readIdx : Int) < toInt (c.contentLength + c.checkedIdx)) :
    c.handleText fs = (.again .open, { c with startLine := c.checkedIdx }) := by
  rw [handleText_content state]
  simp only [onContent, parseContent]
  rw [if_neg (by omega)]

variable (fs) in
/-- The content is taken for complete. -/
theorem handleText_complete (state : c.checkState = .content)
    (complete : toInt (c.contentLength + c.checkedIdx) ≤ c.readIdx) :
    ∃ code d, c.handleText fs = (.result code, d) ∧ code ≠ .noRequest := by
  rw [handleText_content state]
  simp only [onContent, parseContent]
  rw [if_pos complete]
  exact ⟨_, _, rfl, doRequest_code _ fs⟩

/-- A connection in front of a content of the given length. -/
structure AtContent (c : HttpConn) (length : Int) : Prop extends c.AtLine where
  state : c.checkState = .content
  length_eq : c.contentLength = length
  positive : 0 < c.readIdx
  before : c.readBuf (c.readIdx - 1) = 0

variable (fs) in
/-- The whole content has a result. -/
theorem AtContent.loops_whole {length : Int} (atContent : c.AtContent length) {body : List Byte}
    (lower : -2 ^ 31 ≤ length) (whole : length ≤ body.length)
    (room : c.readIdx + body.length ≤ READ_BUFFER_SIZE) :
    ∃ code d, Loops fs .ok (c.append body) code d ∧ code ≠ .noRequest := by
  have size : (READ_BUFFER_SIZE : Int) = 2048 := rfl
  have checked := atContent.checked
  have complete : toInt (c.contentLength + c.checkedIdx) ≤ (c.append body).readIdx := by
    rw [atContent.length_eq, toInt_of_range (by omega) (by omega), append_readIdx]
    omega
  obtain ⟨code, d, handled, noWait⟩ :=
    handleText_complete (c := c.append body) fs atContent.state complete
  exact ⟨code, d, .result (nextText_content (c := c.append body) atContent.state) handled, noWait⟩

/-- An incomplete content is scanned for a line. -/
theorem AtContent.loops_part {length : Nat} (atContent : c.AtContent length) {part : List Byte}
    (short : part.length < length) (room : c.readIdx + length ≤ READ_BUFFER_SIZE)
    {code : HttpCode} (loops : Loops fs .open (c.append part) code d) :
    Loops fs .ok (c.append part) code d := by
  have size : (READ_BUFFER_SIZE : Int) = 2048 := rfl
  have checked := atContent.checked
  have incomplete : ((c.append part).readIdx : Int) < toInt (c.contentLength + c.checkedIdx) := by
    rw [atContent.length_eq, toInt_of_range (by omega) (by omega), append_readIdx]
    omega
  have same : { c.append part with startLine := (c.append part).checkedIdx } = c.append part := by
    rw [show (c.append part).checkedIdx = (c.append part).startLine from
      checked.trans atContent.start.symm]
  have handled := handleText_waits (c := c.append part) fs atContent.state incomplete
  rw [same] at handled
  exact .again (nextText_content (c := c.append part) atContent.state) handled loops

/-- A scan that does not move leaves the content as it is. -/
theorem AtContent.loops_unmoved {length : Nat} (atContent : c.AtContent length) {part : List Byte}
    (short : part.length < length) (room : c.readIdx + length ≤ READ_BUFFER_SIZE)
    (unmoved : ¬ Moves part) : Loops fs .ok (c.append part) .noRequest (c.append part) := by
  have checked : (c.append part).checkedIdx = c.readIdx := atContent.checked
  obtain ⟨next, incomplete, text⟩ :
      ∃ next, next ≠ .ok ∧ (c.append part).parseLine = (next, c.append part) := by
    cases part with
    | nil =>
        refine ⟨.open, by simp, parseLine_end ?_⟩
        rw [checked]
        exact le_refl _
    | cons first rest =>
        have lt : (c.append (first :: rest)).checkedIdx < (c.append (first :: rest)).readIdx := by
          rw [checked]
          simp
        have byte_eq : (c.append (first :: rest)).readBuf (c.append (first :: rest)).checkedIdx =
            first := by
          rw [checked]
          exact append_readBuf_of_mem (k := 0) (by simp)
        by_cases isCr : first = CR
        · have text := parseLine_cr lt (byte_eq.trans isCr)
          cases rest with
          | nil =>
              refine ⟨.open, by simp, text.trans (if_pos ?_)⟩
              rw [checked]
              simp
          | cons second rest =>
              have second_eq : (c.append (first :: second :: rest)).readBuf
                  ((c.append (first :: second :: rest)).checkedIdx + 1) = second := by
                rw [checked]
                exact append_readBuf_of_mem (k := 1) (by simp)
              have notLf : second ≠ LF := by simpa [Moves, isCr] using unmoved
              refine ⟨.bad, by simp, text.trans ((if_neg ?_).trans (if_neg ?_))⟩
              · rw [checked]
                simp
              · rwa [second_eq]
        · have isLf : first = LF := by simpa [Moves, isCr] using unmoved
          refine ⟨.bad, by simp, parseLine_lf lt (byte_eq.trans isLf) ?_⟩
          have positive := atContent.positive
          rw [checked, append_readBuf_of_lt (by omega), atContent.before]
          decide
  exact atContent.loops_part short room (.stop ((nextText_open _).trans text) incomplete)

/-- A scan that moves, moves `m_checked_idx` forward. -/
theorem AtContent.parseLine_moved {length : Int} (atContent : c.AtContent length)
    {part : List Byte} (room : c.readIdx + part.length ≤ READ_BUFFER_SIZE) (moved : Moves part) :
    c.readIdx < (c.append part).parseLine.2.checkedIdx := by
  have checked : (c.append part).checkedIdx = c.readIdx := atContent.checked
  cases part with
  | nil => exact absurd moved id
  | cons first rest =>
      have lt : (c.append (first :: rest)).checkedIdx < (c.append (first :: rest)).readIdx := by
        rw [checked]
        simp
      have byte_eq : (c.append (first :: rest)).readBuf (c.append (first :: rest)).checkedIdx =
          first := by
        rw [checked]
        exact append_readBuf_of_mem (k := 0) (by simp)
      by_cases isCr : first = CR
      · obtain ⟨rest, rfl⟩ : ∃ tail, rest = LF :: tail := by
          have head_eq : rest.head? = some LF := by simpa [Moves, isCr] using moved
          exact ⟨rest.tail, List.eq_cons_of_mem_head? head_eq⟩
        have second_eq : (c.append (first :: LF :: rest)).readBuf
            ((c.append (first :: LF :: rest)).checkedIdx + 1) = LF := by
          rw [checked]
          exact append_readBuf_of_mem (k := 1) (by simp)
        have notLast : (c.append (first :: LF :: rest)).checkedIdx + 1 ≠
            (c.append (first :: LF :: rest)).readIdx := by
          rw [checked]
          simp
        rw [parseLine_cr lt (byte_eq.trans isCr), if_neg notLast, if_pos second_eq]
        simp only
        omega
      · have notLf : first ≠ LF := by simpa [Moves, isCr] using moved
        have skipped := parseLine_skip (c := c.append (first :: rest)) (k := 1) lt (by
          intro i lt_one
          obtain rfl : i = 0 := by omega
          rw [Nat.add_zero, byte_eq]
          exact ⟨isCr, notLf⟩)
        have forward := (parseLine_spec
          (c := { c.append (first :: rest) with checkedIdx := c.readIdx + 1 })
          (by simp) room).1.forward
        rw [skipped, checked]
        exact forward

/-- The content can no longer be taken for complete: it would end behind the
bytes that the request has. -/
structure Stuck (limit : Nat) (c : HttpConn) : Prop extends c.Ordered where
  state : c.checkState = .content
  lower : 0 ≤ c.contentLength
  upper : c.contentLength ≤ READ_BUFFER_SIZE
  beyond : (limit : Int) < c.contentLength + c.checkedIdx

variable (fs) in
theorem Stuck.handleText {limit : Nat} (stuck : Stuck limit c) (within : c.readIdx ≤ limit) :
    c.handleText fs = (.again .open, { c with startLine := c.checkedIdx }) ∧
      Stuck limit { c with startLine := c.checkedIdx } := by
  have size : (READ_BUFFER_SIZE : Int) = 2048 := rfl
  have lower := stuck.lower
  have upper := stuck.upper
  have beyond := stuck.beyond
  have checked := stuck.checked
  have read := stuck.read
  refine ⟨handleText_waits fs stuck.state ?_,
    ⟨⟨le_refl _, checked, read⟩, stuck.state, lower, upper, beyond⟩⟩
  rw [toInt_of_range (by omega) (by omega)]
  omega

theorem Stuck.nextText {limit : Nat} (stuck : Stuck limit c) {status next : LineStatus}
    (text : c.nextText status = (next, d)) : Stuck limit d ∧ d.readIdx = c.readIdx := by
  have scanned := (nextText_spec stuck.checked stuck.read text).1
  have beyond := stuck.beyond
  have forward := scanned.forward
  have ordered := scanned.ordered stuck.toOrdered
  rw [scanned.frame] at ordered ⊢
  exact ⟨⟨ordered, stuck.state, stuck.lower, stuck.upper, by simp only; omega⟩, rfl⟩

/-- A stuck main loop waits for more bytes. -/
theorem Stuck.loops {limit : Nat} {status : LineStatus} {code : HttpCode}
    (loops : Loops fs status c code d) (stuck : Stuck limit c) (within : c.readIdx ≤ limit) :
    code = .noRequest ∧ Stuck limit d ∧ d.readIdx = c.readIdx := by
  induction loops with
  | stop text _ => exact ⟨rfl, stuck.nextText text⟩
  | result text handled =>
      obtain ⟨stuck', readIdx_eq⟩ := stuck.nextText text
      obtain ⟨waits, -⟩ := stuck'.handleText fs (readIdx_eq ▸ within)
      rw [waits] at handled
      cases (Prod.mk.inj handled).1
  | again text handled _ ih =>
      obtain ⟨stuck', readIdx_eq⟩ := stuck.nextText text
      obtain ⟨waits, stuck''⟩ := stuck'.handleText fs (readIdx_eq ▸ within)
      rw [waits] at handled
      obtain ⟨-, rfl⟩ := Prod.mk.inj handled
      obtain ⟨code_eq, stuckLast, readIdx_eq'⟩ := ih stuck'' (readIdx_eq ▸ within)
      exact ⟨code_eq, stuckLast, readIdx_eq'.trans readIdx_eq⟩

theorem AtContent.stuck {length : Nat} (atContent : c.AtContent length) {part : List Byte}
    (room : c.readIdx + length ≤ READ_BUFFER_SIZE) (scanned : Scanned (c.append part) d)
    (ordered : (c.append part).Ordered) (forward : c.readIdx < d.checkedIdx) :
    Stuck (c.readIdx + length) d ∧ d.readIdx = c.readIdx + part.length := by
  have length_eq : d.contentLength = length := by
    rw [scanned.frame]
    exact atContent.length_eq
  have state : d.checkState = .content := by
    rw [scanned.frame]
    exact atContent.state
  have readIdx_eq : d.readIdx = (c.append part).readIdx := by rw [scanned.frame]
  exact ⟨⟨scanned.ordered ordered, state, by omega, by omega, by omega⟩, readIdx_eq⟩

variable (fs) in
/-- A scan that moves leaves the main loop stuck. -/
theorem AtContent.loops_moved {length : Nat} (atContent : c.AtContent length) {part : List Byte}
    (short : part.length < length) (room : c.readIdx + length ≤ READ_BUFFER_SIZE)
    (moved : Moves part) :
    ∃ d, Loops fs .ok (c.append part) .noRequest d ∧ Stuck (c.readIdx + length) d ∧
      d.readIdx = c.readIdx + part.length := by
  have ordered : (c.append part).Ordered := Ordered.append
    ⟨atContent.start.trans_le atContent.checked.ge, atContent.checked.le, by omega⟩ (by omega)
  have forward := atContent.parseLine_moved (by omega) moved
  have scanned := (parseLine_spec ordered.checked ordered.read).1
  have first := nextText_open (c.append part)
  obtain ⟨stuck, readIdx_eq⟩ := atContent.stuck room scanned ordered forward
  generalize (c.append part).parseLine = result at first stuck readIdx_eq
  obtain ⟨next, d⟩ := result
  -- The scan ends the loop, or leads back to the content, which waits.
  by_cases ok : next = .ok
  · subst next
    have within : d.readIdx ≤ c.readIdx + length := by
      simp only at readIdx_eq
      omega
    obtain ⟨waits, stuck'⟩ := stuck.handleText fs within
    have rest := loops_processLoop fs stuck'.toOrdered (Nat.lt_succ_self (turnsLeft .open _))
    obtain ⟨code_eq, stuckLast, same⟩ := Stuck.loops rest stuck' within
    rw [code_eq] at rest
    exact ⟨_, atContent.loops_part short room (.again first waits rest), stuckLast,
      same.trans readIdx_eq⟩
  · exact ⟨d, atContent.loops_part short room (.stop first ok), stuck, readIdx_eq⟩

/-- Further segments do not free a stuck connection. -/
theorem Stuck.feed {limit : Nat} {segments : List (List Byte)} (stuck : Stuck limit c)
    (fits : limit ≤ READ_BUFFER_SIZE)
    (within : c.readIdx + segments.flatten.length ≤ limit) :
    (HttpConn.feed fs c segments).1 = .noRequest := by
  induction segments generalizing c with
  | nil => rfl
  | cons segment segments ih =>
      rw [List.flatten_cons, List.length_append] at within
      have stuck' : Stuck limit (c.append segment) :=
        ⟨stuck.append (by omega), stuck.state, stuck.lower, stuck.upper, stuck.beyond⟩
      obtain ⟨code_eq, stuck'', readIdx_eq⟩ := Stuck.loops (processRead_loops fs stuck'.toOrdered)
        stuck' (by simp only [append_readIdx]; omega)
      have result : (c.append segment).processRead fs =
          (.noRequest, ((c.append segment).processRead fs).2) := Prod.ext code_eq rfl
      rw [HttpConn.feed, result]
      exact ih stuck'' (by rw [readIdx_eq, append_readIdx]; omega)

end Content

end HttpConn

end NetPractice.Http
