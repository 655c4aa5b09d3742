import NetPractice.Http.Content

/-!
# Cutting a request into segments

The outcome of a request does not depend on how it is cut exactly when no segment ends
inside a body whose beginning `parse_line` moves over.
-/

namespace NetPractice.Http

open NetPractice.Text

namespace HttpConn

/-! ## Outcomes -/

/-- What a request leaves behind. -/
structure Outcome where
  code : HttpCode
  url : Option Nat
  urlText : List Byte
  linger : Bool
  contentLength : Int
  deriving DecidableEq, Repr

/-- The outcome of a request that arrives behind `init`. -/
def outcome (fs : FileSystem) (c : HttpConn) (segments : List (List Byte)) : Outcome :=
  let (code, d) := feed fs c.init segments
  ⟨code, d.url, d.urlText, d.linger, d.contentLength⟩

/-- Segments that make no difference: the outcome is that of the whole request
received at once, and there is a result. -/
def Independent (fs : FileSystem) (c : HttpConn) (r : Request) (segments : List (List Byte)) :
    Prop :=
  outcome fs c segments = outcome fs c [r.bytes] ∧ (outcome fs c segments).code ≠ .noRequest

/-- A connection whose first line has arrived, in front of
`parse_request_line`. -/
def requestTaken (c : HttpConn) (r : Request) : HttpConn :=
  let taken := c.init.lineTaken r.requestLine
  { taken with startLine := taken.checkedIdx }

/-- `parse_request_line` rejects the request line. -/
def Rejects (c : HttpConn) (r : Request) : Prop :=
  ((requestTaken c r).parseRequestLine 0).1 = .badRequest

/-- A segment that ends inside the body ends in front of the first byte that
`parse_line` moves over. -/
def Undisturbed (c : HttpConn) (r : Request) (segments : List (List Byte)) : Prop :=
  Rejects c r ∨
    ∀ k < segments.length, ¬ Moves ((segments.take k).flatten.drop r.head.length)

instance (c : HttpConn) (r : Request) : Decidable (Rejects c r) :=
  inferInstanceAs (Decidable (_ = _))

instance (c : HttpConn) (r : Request) (segments : List (List Byte)) :
    Decidable (Undisturbed c r segments) :=
  inferInstanceAs (Decidable (_ ∨ _))

/-! ## Requests -/

section Requests

variable {fs : FileSystem} {r : Request}

theorem init_atLine (c : HttpConn) : c.init.AtLine :=
  ⟨rfl, rfl⟩

theorem init_ordered (c : HttpConn) : c.init.Ordered :=
  ⟨le_refl _, le_refl _, Nat.zero_le _⟩

/-- The first line is rejected. -/
def LineRejected (c : HttpConn) (line : List Byte) : Prop :=
  ({ c.init.lineTaken line with
    startLine := (c.init.lineTaken line).checkedIdx }.parseRequestLine 0).1 = .badRequest

section FirstLine

variable {c : HttpConn} {line : List Byte}

theorem firstLine_endsAt (c : HttpConn) (room : line.length < READ_BUFFER_SIZE) :
    { c.init.lineTaken line with
      startLine := (c.init.lineTaken line).checkedIdx }.EndsAt line.length := by
  have ends := lineTaken_endsAt (c := c.init)
    (by change 0 + line.length < _; omega)
  rwa [show c.init.readIdx = 0 from rfl, Nat.zero_add] at ends

variable (fs) in
/-- A rejected line is rejected whatever follows it. -/
theorem LineRejected.handleText (rejected : LineRejected c line)
    (room : line.length < READ_BUFFER_SIZE) :
    ∃ d : HttpConn, d.UrlEndsAt line.length ∧
      ∀ rest, ((c.init.lineTaken line).append rest).handleText fs =
        (.result .badRequest, d.append rest) := by
  have ends := firstLine_endsAt c room
  refine ⟨_, ends.parseRequestLine_urlEndsAt (Nat.zero_le _), fun rest => ?_⟩
  rw [handleText_requestLine (c := (c.init.lineTaken line).append rest) rfl]
  refine (ends.onRequestLine_append (Nat.zero_le _) rest).trans ?_
  unfold onRequestLine
  unfold LineRejected at rejected
  generalize HttpConn.parseRequestLine _ 0 = parsed at rejected ⊢
  obtain ⟨code, d⟩ := parsed
  cases rejected
  rfl

variable (fs) in
theorem handleText_of_accepted (accepted : ¬ LineRejected c line) :
    ∃ d, (c.init.lineTaken line).handleText fs = (.again .ok, d) ∧
      d.checkState = .header ∧ d.contentLength = 0 := by
  unfold LineRejected at accepted
  rw [handleText_requestLine (c := c.init.lineTaken line) rfl]
  change ∃ d, HttpConn.onRequestLine _ 0 = _ ∧ _
  have parsed := parseRequestLine_spec
    { c.init.lineTaken line with startLine := (c.init.lineTaken line).checkedIdx } 0
  refine ⟨_, ?_, parsed.state accepted, ?_⟩
  · unfold onRequestLine
    generalize HttpConn.parseRequestLine _ 0 = result at accepted ⊢
    obtain ⟨code, d⟩ := result
    cases code with
    | badRequest => exact absurd rfl accepted
    | noRequest | getRequest | noResource | forbiddenRequest | fileRequest | internalError
    | closedConnection => rfl
  · rw [parsed.frame]
    rfl

variable (fs) in
/-- Behind an accepted line, header lines are handled one after the other. -/
theorem passes_of_accepted {headers : List (List Byte)} (accepted : ¬ LineRejected c line)
    (plain : ∀ other ∈ line :: headers, Plain other)
    (named : ∀ header ∈ headers, ∃ first ∈ header.head?, first ≠ 0)
    (room : (wire (line :: headers)).length ≤ READ_BUFFER_SIZE) :
    ∃ d, Passes fs c.init (line :: headers) d ∧ d.checkState = .header ∧
      d.contentLength = declaredLength headers := by
  rw [wire_cons, List.length_append, List.length_cons, List.length_cons] at room
  obtain ⟨d, handled, state, length_eq⟩ := handleText_of_accepted fs accepted
  obtain ⟨atLine, readIdx_eq⟩ := atLine_of_handled handled
  have start : c.init.readIdx = 0 := rfl
  obtain ⟨e, passes, state', length_eq'⟩ := passes_headers fs atLine state
    (fun header mem => plain header (List.mem_cons_of_mem _ mem)) named (by omega)
  refine ⟨e, .cons (by simp [init]) (plain _ List.mem_cons_self) handled passes, state', ?_⟩
  rw [length_eq', length_eq]
  rfl

end FirstLine

variable (fs) in
/-- The lines of an accepted request are handled one after the other. -/
theorem passes_of_not_rejects {c : HttpConn} (accepts : ¬ Rejects c r) :
    ∃ d, Passes fs c.init (r.requestLine :: r.headers) d ∧ d.checkState = .header ∧
      d.contentLength = declaredLength r.headers := by
  have size := r.length_lt
  rw [r.length_bytes, r.length_head] at size
  have accepted : ¬ LineRejected c r.requestLine := accepts
  apply passes_of_accepted fs accepted r.plain r.named
  rw [wire_cons, List.length_append, List.length_cons, List.length_cons]
  omega

theorem declaredLength_range (headers : List (List Byte)) :
    -2 ^ 31 ≤ declaredLength headers ∧ declaredLength headers < 2 ^ 31 := by
  have fold : ∀ length : Int, -2 ^ 31 ≤ length ∧ length < 2 ^ 31 →
      -2 ^ 31 ≤ headers.foldl declare length ∧ headers.foldl declare length < 2 ^ 31 := by
    induction headers with
    | nil => exact fun _ range => range
    | cons line headers ih =>
        intro length range
        refine ih (declare length line) ?_
        unfold declare
        split
        · exact atoi_range _
        · exact range
  exact fold 0 (by decide)

theorem wire_header_lines (r : Request) :
    (wire (r.requestLine :: r.headers)).length + 2 = r.head.length := by
  rw [r.length_head, wire_cons, List.length_append, List.length_cons, List.length_cons]
  omega

variable (fs) in
/-- The empty line of an accepted request is followed by a result or by the
content. -/
theorem accepted_cases {c : HttpConn} (accepts : ¬ Rejects c r) :
    (declaredLength r.headers = 0 ∧
      ∃ code d, Loops fs .ok (c.init.append r.head) code d ∧ code ≠ .noRequest) ∨
    ∃ d, Passes fs c.init (r.requestLine :: r.headers ++ [[]]) d ∧
      d.AtContent (declaredLength r.headers) := by
  have size := r.length_lt
  have lines := wire_header_lines r
  rw [r.length_bytes] at size
  obtain ⟨d, passes, state, length_eq⟩ := passes_of_not_rejects fs accepts
  obtain ⟨atLine, readIdx_eq⟩ := passes.atLine c.init_atLine
  have start : c.init.readIdx = 0 := rfl
  by_cases noContent : declaredLength r.headers = 0
  · left
    obtain ⟨code, e, handled, hasResult⟩ :=
      onHeader_empty fs atLine state (length_eq.trans noContent)
    have text : (d.append [CR, LF]).nextText .ok = (.ok, d.lineTaken []) := by
      rw [nextText_of_state (c := d.append [CR, LF]) (by simp [append, state])]
      exact (atLine.parseLine_line (by simp [Plain] : Plain []) []).trans (by rw [append_nil])
    have loops := passes.loops c.init_atLine (by omega) (.result text handled)
    refine ⟨noContent, code, e, ?_, hasResult⟩
    rwa [Request.head, wire_append]
  · right
    obtain ⟨e, handled, state', length_eq', before⟩ :=
      onHeader_content fs atLine state (length_eq.trans_ne noContent)
    obtain ⟨atLine', readIdx_eq'⟩ := atLine_of_handled handled
    refine ⟨e, passes.append (.cons (by simp [state]) (by simp [Plain]) handled (.nil e)),
      ⟨atLine', state', length_eq'.trans length_eq, by omega, before⟩⟩

variable (fs) in
/-- A whole accepted request has a result. -/
theorem accepted_result {c : HttpConn} (accepts : ¬ Rejects c r) :
    ∃ code d, Loops fs .ok (c.init.append r.bytes) code d ∧ code ≠ .noRequest := by
  have size := r.length_lt
  rw [r.length_bytes] at size
  have length_body := r.length_body
  rcases accepted_cases fs accepts with ⟨noContent, result⟩ | ⟨d, passes, atContent⟩
  · have noBody : r.body = [] := List.eq_nil_of_length_eq_zero (by rw [length_body, noContent]; rfl)
    rwa [Request.bytes, noBody, List.append_nil]
  · obtain ⟨-, readIdx_eq⟩ := passes.atLine c.init_atLine
    rw [show c.init.readIdx = 0 from rfl, Nat.zero_add] at readIdx_eq
    change d.readIdx = r.head.length at readIdx_eq
    obtain ⟨code, e, loops, hasResult⟩ := atContent.loops_whole fs
      (declaredLength_range r.headers).1
      (by rw [length_body]; exact Int.self_le_toNat _ : _ ≤ (r.body.length : Int)) (by omega)
    exact ⟨code, e, passes.loops c.init_atLine (by change 0 + r.head.length ≤ _; omega) loops,
      hasResult⟩

variable (fs) in
theorem accepted_content {c : HttpConn} (accepts : ¬ Rejects c r) (nonempty : 0 < r.body.length) :
    ∃ d, Passes fs c.init (r.requestLine :: r.headers ++ [[]]) d ∧
      d.AtContent (r.body.length : Int) ∧ d.readIdx = r.head.length := by
  have length_body := r.length_body
  rcases accepted_cases fs accepts with ⟨noContent, -⟩ | ⟨d, passes, atContent⟩
  · rw [noContent] at length_body
    exact absurd length_body nonempty.ne'
  · have length_eq : declaredLength r.headers = r.body.length := by omega
    obtain ⟨-, readIdx_eq⟩ := passes.atLine c.init_atLine
    rw [show c.init.readIdx = 0 from rfl, Nat.zero_add] at readIdx_eq
    exact ⟨d, passes, length_eq ▸ atContent, readIdx_eq⟩

/-- A part of a request that reaches behind its head. -/
theorem part_of_body {r : Request} {part : List Byte} (initial : part <+: r.bytes)
    (behind : r.head.length ≤ part.length) :
    ∃ received, part = r.head ++ received ∧ part.drop r.head.length = received := by
  have head_prefix : r.head <+: r.bytes := List.prefix_append _ _
  obtain ⟨received, rfl⟩ := List.prefix_of_prefix_length_le head_prefix initial behind
  exact ⟨received, rfl, List.drop_left⟩

/-- A part of an accepted request leaves the main loop waiting, unless it ends
inside the body and the scan moves over the body's beginning. -/
theorem accepted_quiet {c : HttpConn} (accepts : ¬ Rejects c r) {part : List Byte}
    (initial : part <+: r.bytes) (proper : part.length < r.bytes.length)
    (unmoved : ¬ Moves (part.drop r.head.length)) : Quiet fs c.init part := by
  have size := r.length_lt
  have lines := wire_header_lines r
  by_cases short : part.length < r.head.length
  · obtain ⟨d, passes, state, -⟩ := passes_of_not_rejects fs accepts
    have head_prefix : r.head <+: r.bytes := List.prefix_append _ _
    have inHead := List.prefix_of_prefix_length_le initial head_prefix short.le
    rw [Request.head, wire_append] at inHead
    refine passes.quiet c.init_atLine (by simp [state]) (by simp [Plain] : Plain []) ?_ inHead ?_
    · change 0 + part.length ≤ READ_BUFFER_SIZE
      omega
    · rw [List.length_nil]
      omega
  · obtain ⟨received, rfl, received_eq⟩ := part_of_body initial (Nat.le_of_not_lt short)
    rw [received_eq] at unmoved
    rw [r.length_bytes] at proper size
    rw [List.length_append] at proper
    obtain ⟨d, passes, atContent, readIdx_eq⟩ := accepted_content fs (c := c) accepts
      (by omega)
    have room : c.init.readIdx + r.head.length ≤ READ_BUFFER_SIZE := by
      change 0 + r.head.length ≤ _
      omega
    refine ⟨d.append received, passes.loops c.init_atLine room
      (atContent.loops_unmoved (by omega) (by omega) unmoved), ?_⟩
    intro rest code e loops
    rw [append_append] at loops
    rw [List.append_assoc]
    exact passes.loops c.init_atLine room loops

variable (fs) in
/-- At a cut behind which the scan moves, the connection gets stuck. -/
theorem accepted_stuck {c : HttpConn} (accepts : ¬ Rejects c r) {part : List Byte}
    (initial : part <+: r.bytes) (proper : part.length < r.bytes.length)
    (moved : Moves (part.drop r.head.length)) :
    ∃ d, Loops fs .ok (c.init.append part) .noRequest d ∧ Stuck r.bytes.length d ∧
      d.readIdx = part.length := by
  have size := r.length_lt
  have behind : r.head.length ≤ part.length := by
    by_contra short
    rw [List.drop_eq_nil_of_le (by omega)] at moved
    exact moved
  obtain ⟨received, rfl, received_eq⟩ := part_of_body initial behind
  rw [received_eq] at moved
  rw [r.length_bytes] at proper size ⊢
  rw [List.length_append] at proper ⊢
  obtain ⟨d, passes, atContent, readIdx_eq⟩ := accepted_content fs (c := c) accepts
    (by omega)
  obtain ⟨e, loops, stuck, readIdx_eq'⟩ :=
    atContent.loops_moved fs (by omega) (by omega) moved
  rw [readIdx_eq] at stuck readIdx_eq'
  refine ⟨e, passes.loops c.init_atLine ?_ loops, stuck, readIdx_eq'⟩
  change 0 + r.head.length ≤ _
  omega

end Requests

/-! ## Segments -/

section Segments

variable {fs : FileSystem} {c : HttpConn} {r : Request} {segments : List (List Byte)}

theorem outcome_of_feed {code : HttpCode} {d : HttpConn}
    (result : feed fs c.init segments = (code, d)) :
    outcome fs c segments = ⟨code, d.url, d.urlText, d.linger, d.contentLength⟩ := by
  unfold outcome
  rw [result]

theorem feed_cons_of_loops {segment : List Byte} {code : HttpCode} {d : HttpConn}
    (ordered : (c.append segment).Ordered) (loops : Loops fs .ok (c.append segment) code d)
    (hasResult : code ≠ .noRequest) (rest : List (List Byte)) :
    feed fs c (segment :: rest) = (code, d) := by
  rw [feed, processRead_eq_of_loops ordered loops]
  cases code with
  | noRequest => exact absurd rfl hasResult
  | getRequest | badRequest | noResource | forbiddenRequest | fileRequest | internalError
  | closedConnection => rfl

/-- The bytes of nonempty segments grow with each of them. -/
theorem length_take_lt (nonempty : ∀ segment ∈ segments, segment ≠ []) {k : Nat}
    (lt : k < segments.length) :
    (segments.take k).flatten.length < segments.flatten.length := by
  have split_eq : segments.flatten = (segments.take k).flatten ++ (segments.drop k).flatten := by
    rw [← List.flatten_append, List.take_append_drop]
  have first := nonempty _ (List.getElem_mem lt)
  have positive := List.length_pos_of_ne_nil first
  rw [split_eq, List.length_append, List.drop_eq_getElem_cons lt, List.flatten_cons,
    List.length_append]
  omega

theorem take_initial (cut : segments.flatten = r.bytes) (k : Nat) :
    (segments.take k).flatten <+: r.bytes :=
  cut ▸ flatten_take_isPrefix segments k

variable (fs) in
/-- A rejected first line has the same result however the bytes are cut. -/
theorem LineRejected.feed {line bytes : List Byte} (rejected : LineRejected c line)
    (plain : Plain line) (initial : line ++ [CR, LF] <+: bytes)
    (fits : bytes.length ≤ READ_BUFFER_SIZE) :
    ∃ d : HttpConn, d.UrlEndsAt line.length ∧
      ∀ segments : List (List Byte), segments.flatten = bytes →
        ∃ rest, HttpConn.feed fs c.init segments = (.badRequest, d.append rest) := by
  have bound := initial.length_le
  simp only [List.length_append, List.length_cons, List.length_nil] at bound
  obtain ⟨d, ends, handled⟩ := rejected.handleText fs (by omega)
  refine ⟨d, ends, fun segments cut => ?_⟩
  have parts : ∀ k, (segments.take k).flatten <+: bytes := fun k =>
    cut ▸ flatten_take_isPrefix segments k
  -- The first segment that ends behind the line gives the result.
  have found : ∃ k, line.length + 2 ≤ (segments.take k).flatten.length :=
    ⟨segments.length, by rw [List.take_length, cut]; omega⟩
  obtain ⟨k, complete, first⟩ : ∃ k, line.length + 2 ≤ (segments.take k).flatten.length ∧
      ∀ j < k, (segments.take j).flatten.length < line.length + 2 :=
    ⟨Nat.find found, Nat.find_spec found, fun j lt => Nat.lt_of_not_le (Nat.find_min found lt)⟩
  have positive : 0 < k := by
    by_contra zero
    rw [Nat.eq_zero_of_not_pos zero] at complete
    simp at complete
  have le : k ≤ segments.length := by
    by_contra beyond
    have short := first segments.length (by omega)
    rw [List.take_length, cut] at short
    omega
  have quiet : ∀ j, 0 < j → j < k → Quiet fs c.init (segments.take j).flatten := by
    intro j _ lt
    have short := first j lt
    refine c.init_atLine.quiet_line (by simp [init]) plain ?_ short
    refine List.prefix_of_prefix_length_le (parts j) initial ?_
    rw [List.length_append]
    exact short.le
  have room : c.init.readIdx + segments.flatten.length ≤ READ_BUFFER_SIZE := by
    rw [cut]
    change 0 + _ ≤ _
    omega
  obtain ⟨rest, taken⟩ := List.prefix_of_prefix_length_le initial (parts k)
    (by rw [List.length_append]; exact complete)
  rw [List.append_assoc, List.cons_append, List.cons_append, List.nil_append] at taken
  have text : (c.init.append (line ++ CR :: LF :: rest)).nextText .ok =
      (.ok, (c.init.lineTaken line).append rest) := by
    rw [nextText_of_state (c := c.init.append _) (by simp [append, init])]
    exact c.init_atLine.parseLine_line plain rest
  have ordered : (c.init.append (line ++ CR :: LF :: rest)).Ordered := by
    refine c.init_ordered.append ?_
    have within := (parts k).length_le
    rw [taken]
    change 0 + _ ≤ _
    omega
  refine ⟨rest, ?_⟩
  rw [feed_take c.init_ordered room positive le quiet, ← taken]
  exact feed_cons_of_loops ordered (.result text (handled rest)) (by simp) _

/-- A rejected request line has the same outcome however it is cut. -/
theorem outcome_of_rejects (fs : FileSystem) (rejects : Rejects c r) :
    ∃ result, result.code = .badRequest ∧
      ∀ segments : List (List Byte), segments.flatten = r.bytes →
        outcome fs c segments = result := by
  have line_prefix : r.requestLine ++ [CR, LF] <+: r.bytes :=
    ⟨wire (r.headers ++ [[]]) ++ r.body, by simp [Request.bytes, Request.head]⟩
  have rejected : LineRejected c r.requestLine := rejects
  obtain ⟨d, ends, fed⟩ := rejected.feed fs (r.plain _ List.mem_cons_self) line_prefix
    r.length_lt.le
  refine ⟨⟨.badRequest, d.url, d.urlText, d.linger, d.contentLength⟩, rfl, fun segments cut => ?_⟩
  obtain ⟨rest, result⟩ := fed segments cut
  rw [outcome_of_feed result, ends.urlText_append]
  rfl

/-- Segments up to a cut at which no scan has moved are received as one. -/
theorem feed_unmoved (accepts : ¬ Rejects c r) (cut : segments.flatten = r.bytes)
    (nonempty : ∀ segment ∈ segments, segment ≠ []) {k : Nat} (positive : 0 < k)
    (le : k ≤ segments.length)
    (unmoved : ∀ j < k, ¬ Moves ((segments.take j).flatten.drop r.head.length)) :
    feed fs c.init segments = feed fs c.init ((segments.take k).flatten :: segments.drop k) := by
  have room : c.init.readIdx + segments.flatten.length ≤ READ_BUFFER_SIZE := by
    have size := r.length_lt
    rw [cut]
    change 0 + _ ≤ _
    omega
  refine feed_take c.init_ordered room positive le fun j _ lt => ?_
  have proper := length_take_lt nonempty (lt.trans_le le)
  rw [cut] at proper
  exact accepted_quiet accepts (take_initial cut j) proper (unmoved j lt)

theorem bytes_ordered (c : HttpConn) {part : List Byte} (initial : part <+: r.bytes) :
    (c.init.append part).Ordered := by
  have size := r.length_lt
  have bound := initial.length_le
  refine c.init_ordered.append ?_
  change 0 + part.length ≤ READ_BUFFER_SIZE
  omega

/-- Nothing is lost while no scan moves over the beginning of the body. -/
theorem independent_of_unmoved (accepts : ¬ Rejects c r) (cut : segments.flatten = r.bytes)
    (nonempty : ∀ segment ∈ segments, segment ≠ [])
    (unmoved : ∀ k < segments.length, ¬ Moves ((segments.take k).flatten.drop r.head.length)) :
    Independent fs c r segments := by
  have positive : 0 < segments.length := by
    by_contra zero
    rw [List.eq_nil_of_length_eq_zero (Nat.eq_zero_of_not_pos zero)] at cut
    have head_length := r.length_head
    have bytes_length := r.length_bytes
    rw [← cut, List.flatten_nil, List.length_nil] at bytes_length
    omega
  have same : outcome fs c segments = outcome fs c [r.bytes] := by
    unfold outcome
    rw [feed_unmoved accepts cut nonempty positive (le_refl _) unmoved, List.take_length,
      List.drop_length, cut]
  obtain ⟨code, d, loops, hasResult⟩ := accepted_result fs accepts
  refine ⟨same, ?_⟩
  rw [same,
    outcome_of_feed (feed_cons_of_loops (bytes_ordered c List.prefix_rfl) loops hasResult [])]
  exact hasResult

/-- A scan over the beginning of the body loses the request. -/
theorem lost_of_moved (accepts : ¬ Rejects c r) (cut : segments.flatten = r.bytes)
    (nonempty : ∀ segment ∈ segments, segment ≠ []) {k : Nat} (lt : k < segments.length)
    (moved : Moves ((segments.take k).flatten.drop r.head.length)) :
    (outcome fs c segments).code = .noRequest := by
  obtain ⟨k, ⟨lt, moved⟩, first⟩ : ∃ k, (k < segments.length ∧
      Moves ((segments.take k).flatten.drop r.head.length)) ∧
      ∀ j < k, ¬ (j < segments.length ∧ Moves ((segments.take j).flatten.drop r.head.length)) :=
    have found : ∃ k, k < segments.length ∧
      Moves ((segments.take k).flatten.drop r.head.length) := ⟨k, lt, moved⟩
    ⟨Nat.find found, Nat.find_spec found, fun j => Nat.find_min found⟩
  have positive : 0 < k := by
    by_contra zero
    rw [Nat.eq_zero_of_not_pos zero] at moved
    simp [Moves] at moved
  have proper := length_take_lt nonempty lt
  have total : (segments.take k).flatten.length + (segments.drop k).flatten.length =
      r.bytes.length := by
    rw [← List.length_append, ← List.flatten_append, List.take_append_drop, cut]
  rw [cut] at proper
  obtain ⟨d, loops, stuck, readIdx_eq⟩ :=
    accepted_stuck fs accepts (take_initial cut k) proper moved
  have waits := processRead_eq_of_loops (bytes_ordered c (take_initial cut k)) loops
  have result : (feed fs c.init segments).1 = .noRequest := by
    rw [feed_unmoved accepts cut nonempty positive lt.le fun j before disturbed =>
      first j before ⟨by omega, disturbed⟩, HttpConn.feed, waits]
    exact stuck.feed r.length_lt.le (by omega)
  exact result

end Segments

/-- A request has the same outcome in segments as in one piece exactly when its
request line is rejected, or no segment ends behind bytes of the body that
`parse_line` moves over. -/
theorem independent_iff_undisturbed (fs : FileSystem) (c : HttpConn) (r : Request)
    (segments : List (List Byte)) (cut : segments.flatten = r.bytes)
    (nonempty : ∀ segment ∈ segments, segment ≠ []) :
    Independent fs c r segments ↔ Undisturbed c r segments := by
  by_cases rejects : Rejects c r
  · obtain ⟨result, code_eq, same⟩ := outcome_of_rejects fs rejects
    refine ⟨fun _ => Or.inl rejects, fun _ => ⟨?_, ?_⟩⟩
    · rw [same segments cut, same [r.bytes] (by simp)]
    · rw [same segments cut, code_eq]
      simp
  · constructor
    · intro independent
      refine Or.inr fun k lt moved => ?_
      exact independent.2 (lost_of_moved rejects cut nonempty lt moved)
    · rintro (rejected | unmoved)
      · exact absurd rejected rejects
      · exact independent_of_unmoved rejects cut nonempty unmoved

/-! ## A request with a body -/

/-- A request with a body of three bytes. -/
def bodyRequest : Request where
  requestLine := ascii "GET / HTTP/1.1"
  headers := [ascii "Content-Length: 3"]
  body := ascii "abc"
  plain := by decide +kernel
  named := by decide
  length_body := by decide
  fits := by decide

/-- Segments that end inside the lines. -/
theorem independent_bodyRequest_lines :
    Independent noFiles zeroConn bodyRequest
      [ascii "GET / HTTP/1.1\r", ascii "\nContent-Le", ascii "ngth: 3\r\n\r\n", ascii "abc"] :=
  (independent_iff_undisturbed noFiles zeroConn bodyRequest _ (by decide) (by decide)).mpr
    (by decide)

/-- The same request, with a segment that ends inside the body. -/
def cutBody : List (List Byte) :=
  [ascii "GET / HTTP/1.1\r\nContent-Length: 3\r\n\r\na", ascii "bc"]

/-- The request is received completely and has no result. -/
theorem cutBody_dependent :
    cutBody.flatten = bodyRequest.bytes ∧ (∀ segment ∈ cutBody, segment ≠ []) ∧
      (outcome noFiles zeroConn cutBody).code = .noRequest ∧
      ¬ Independent noFiles zeroConn bodyRequest cutBody := by
  have code_eq : (outcome noFiles zeroConn cutBody).code = .noRequest := by decide
  exact ⟨by decide, by decide, code_eq, fun independent => independent.2 code_eq⟩

end HttpConn

end NetPractice.Http
