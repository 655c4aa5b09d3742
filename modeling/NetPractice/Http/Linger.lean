import NetPractice.Http.Isolation

/-!
# Keep-alive requests

A header line `Connection: keep-alive` sets `m_linger`, and no later line of the
request takes it back.  While the parser waits, it has not looked at a file.
-/

namespace NetPractice.Http

open NetPractice.Text
open NetPractice.Socket

/-- A header line that asks to keep the connection. -/
def keepsAlive (line : List Byte) : Bool :=
  strncasecmp (cstr line) (ascii "Connection:") &&
    strcasecmp (((cstr line).drop (ascii "Connection:").length).dropWhile isBlank)
      (ascii "keep-alive")

namespace HttpConn

section Lines

variable {fs : FileSystem} {c d : HttpConn} {line : List Byte}

/-! ## A header line -/

theorem parseHeaders_linger {text : Nat} (named : c.readBuf text ≠ 0)
    (str_eq : c.str text = cstr line) :
    (c.parseHeaders text).2.linger = (c.linger || keepsAlive line) := by
  unfold parseHeaders keepsAlive
  rw [if_neg named, ← str_eq]
  by_cases connection : strncasecmp (c.str text) (ascii "Connection:") = true
  · rw [if_pos connection, connection, headerValue_eq (length_le_of_strncasecmp connection),
      Bool.true_and]
    by_cases keeps : strcasecmp (((c.str text).drop (ascii "Connection:").length).dropWhile isBlank)
        (ascii "keep-alive") = true
    · rw [if_pos keeps, keeps, Bool.or_true]
    · rw [if_neg keeps, Bool.eq_false_of_not_eq_true keeps, Bool.or_false]
  · rw [if_neg connection, Bool.eq_false_of_not_eq_true connection, Bool.false_and,
      Bool.or_false]
    split
    · rfl
    · rfl

theorem onHeader_linger {turn : Turn} (atLine : c.AtLine) (state : c.checkState = .header)
    (named : ∃ first ∈ line.head?, first ≠ 0)
    (room : c.readIdx + line.length < READ_BUFFER_SIZE)
    (handled : (c.lineTaken line).handleText fs = (turn, d)) :
    d.linger = (c.linger || keepsAlive line) := by
  let t : HttpConn := { c.lineTaken line with startLine := (c.lineTaken line).checkedIdx }
  have nonzero : t.readBuf c.readIdx ≠ 0 := lineTaken_named named
  have code_eq := (parseHeaders_named nonzero (lineTaken_str room)).1
  have linger_eq := parseHeaders_linger nonzero (lineTaken_str room)
  rw [handleText_header (c := c.lineTaken line) state] at handled
  change t.onHeader fs c.startLine = _ at handled
  rw [atLine.start] at handled
  unfold onHeader at handled
  generalize t.parseHeaders c.readIdx = parsed at code_eq linger_eq handled
  rcases parsed with ⟨code, e⟩
  cases code_eq
  cases handled
  exact linger_eq

/-- A header line is handled, whatever the files are. -/
theorem onHeader_next (atLine : c.AtLine) (state : c.checkState = .header)
    (named : ∃ first ∈ line.head?, first ≠ 0)
    (room : c.readIdx + line.length < READ_BUFFER_SIZE)
    (handled : (c.lineTaken line).handleText fs = (.again .ok, d)) : d.checkState = .header := by
  rcases onHeader_named fs atLine state named room with ⟨e, handled', state', -⟩
  rw [handled, Prod.mk.injEq] at handled'
  exact handled'.2 ▸ state'

theorem Passes.linger {headers : List (List Byte)} (passes : Passes fs c headers d)
    (atLine : c.AtLine) (state : c.checkState = .header)
    (named : ∀ line ∈ headers, ∃ first ∈ line.head?, first ≠ 0)
    (room : c.readIdx + (wire headers).length ≤ READ_BUFFER_SIZE) :
    d.linger = (c.linger || headers.any keepsAlive) := by
  induction passes with
  | nil c => simp
  | @cons c d e line headers _ _ handled _ ih =>
      simp only [wire_cons, List.length_append, List.length_cons] at room
      have first := named line List.mem_cons_self
      have state' := onHeader_next atLine state first (by omega) handled
      rcases atLine_of_handled handled with ⟨atLine', readIdx_eq⟩
      have rest := ih atLine' state' (fun line mem => named line (List.mem_cons_of_mem _ mem))
        (by omega)
      rw [rest, onHeader_linger atLine state first (by omega) handled, List.any_cons, Bool.or_assoc]

/-! ## The rest of the request -/

theorem nextText_linger (c : HttpConn) (status : LineStatus) :
    (c.nextText status).2.linger = c.linger := by
  unfold nextText
  split
  · rfl
  · have frame := scanLine_frame (c.readIdx - c.checkedIdx) c
    change c.parseLine.2 = _ at frame
    rw [frame]

theorem doRequest_linger (c : HttpConn) (fs : FileSystem) :
    (c.doRequest fs).2.linger = c.linger := by
  rw [doRequest_frame]

theorem parseHeaders_keeps (text : Nat) (lingers : c.linger = true) :
    (c.parseHeaders text).2.linger = true := by
  unfold parseHeaders
  split
  · split
    · exact lingers
    · exact lingers
  · split
    · split
      · rfl
      · exact lingers
    · split
      · exact lingers
      · exact lingers

theorem handleText_linger (fs : FileSystem) (lingers : c.linger = true) :
    (c.handleText fs).2.linger = true := by
  cases state : c.checkState with
  | requestLine =>
      rw [handleText_requestLine state]
      have frame := (parseRequestLine_spec { c with startLine := c.checkedIdx } c.startLine).frame
      unfold onRequestLine
      generalize parseRequestLine _ _ = parsed at frame ⊢
      rcases parsed with ⟨code, d⟩
      have lingers' : d.linger = true := by
        rw [show d = _ from frame]
        exact lingers
      cases code <;> exact lingers'
  | header =>
      rw [handleText_header state]
      have lingers' : { c with startLine := c.checkedIdx }.linger = true := lingers
      have kept := parseHeaders_keeps c.startLine lingers'
      unfold onHeader
      generalize parseHeaders _ _ = parsed at kept ⊢
      rcases parsed with ⟨code, d⟩
      cases code with
      | getRequest => exact (doRequest_linger d fs).trans kept
      | badRequest | noRequest | noResource | forbiddenRequest | fileRequest | internalError
      | closedConnection => exact kept
  | content =>
      rw [handleText_content state]
      unfold onContent parseContent
      by_cases complete : toInt (c.contentLength + c.checkedIdx) ≤ c.readIdx
      · rw [if_pos complete]
        exact (doRequest_linger _ fs).trans lingers
      · rw [if_neg complete]
        exact lingers

/-- A connection that is to be kept stays so in the main loop. -/
theorem Loops.linger {status : LineStatus} {code : HttpCode} (loops : Loops fs status c code d)
    (lingers : c.linger = true) : d.linger = true := by
  induction loops with
  | @stop status next c d text _ =>
      have kept := nextText_linger c status
      rw [text] at kept
      exact kept.trans lingers
  | @result status c d e code text handled =>
      have kept := nextText_linger c status
      rw [text] at kept
      have kept' := handleText_linger fs (kept.trans lingers)
      rwa [handled] at kept'
  | @again status next c d e f code text handled _ ih =>
      have kept := nextText_linger c status
      rw [text] at kept
      have kept' := handleText_linger fs (kept.trans lingers)
      rw [handled] at kept'
      exact ih kept'

/-! ## Waiting -/

/-- An iteration that does not give a result does not look at the files. -/
theorem handleText_again (other : FileSystem) {next : LineStatus}
    (handled : c.handleText fs = (.again next, d)) : c.handleText other = (.again next, d) := by
  cases state : c.checkState with
  | requestLine =>
      rw [handleText_requestLine state] at handled ⊢
      exact handled
  | header =>
      rw [handleText_header state] at handled ⊢
      unfold onHeader at handled ⊢
      generalize parseHeaders _ _ = parsed at handled ⊢
      rcases parsed with ⟨code, e⟩
      cases code with
      | badRequest | getRequest => cases handled
      | noRequest | noResource | forbiddenRequest | fileRequest | internalError
      | closedConnection => exact handled
  | content =>
      rw [handleText_content state] at handled ⊢
      unfold onContent at handled ⊢
      generalize parseContent _ _ = parsed at handled ⊢
      rcases parsed with ⟨code, e⟩
      cases code with
      | getRequest => cases handled
      | badRequest | noRequest | noResource | forbiddenRequest | fileRequest | internalError
      | closedConnection => exact handled

theorem handleText_result {code : HttpCode} (handled : c.handleText fs = (.result code, d)) :
    code ≠ .noRequest := by
  cases state : c.checkState with
  | requestLine =>
      rw [handleText_requestLine state] at handled
      unfold onRequestLine at handled
      generalize parseRequestLine _ _ = parsed at handled
      rcases parsed with ⟨code', e⟩
      cases code' <;> cases handled
      simp
  | header =>
      rw [handleText_header state] at handled
      unfold onHeader at handled
      generalize parseHeaders _ _ = parsed at handled
      rcases parsed with ⟨code', e⟩
      cases code' <;> cases handled
      · exact doRequest_code e fs
      · simp
  | content =>
      rw [handleText_content state] at handled
      unfold onContent at handled
      generalize parseContent _ _ = parsed at handled
      rcases parsed with ⟨code', e⟩
      cases code' <;> cases handled
      exact doRequest_code e fs

/-- The main loop waits for the same bytes, whatever the files are. -/
theorem Loops.waits (other : FileSystem) {status : LineStatus} {code : HttpCode}
    (loops : Loops fs status c code d) (waits : code = .noRequest) :
    Loops other status c code d := by
  induction loops with
  | stop text incomplete => exact .stop text incomplete
  | result _ handled => exact absurd waits (handleText_result handled)
  | again text handled _ ih => exact .again text (handleText_again other handled) (ih waits)

end Lines

/-! ## Requests -/

section Requests

variable {fs : FileSystem} {r : Request}

theorem lineTaken_view {c : HttpConn} {line : List Byte}
    (room : c.readIdx + (line ++ [CR, LF]).length ≤ READ_BUFFER_SIZE) :
    (c.lineTaken line).view = c.view.lineTaken line := by
  have stored : (((c.append (line ++ [CR, LF])).store (c.readIdx + line.length : Nat)).store
      (c.readIdx + line.length + 1 : Nat)).view =
      ((c.view.append (line ++ [CR, LF])).store (c.readIdx + line.length : Nat)).store
        (c.readIdx + line.length + 1 : Nat) := by
    rw [view_store, view_store, view_append c _ room]
  exact congrArg (fun e : HttpConn => { e with checkedIdx := c.readIdx + line.length + 2 }) stored

theorem requestTaken_view (c d : HttpConn) (r : Request) :
    (requestTaken c r).view = (requestTaken d r).view := by
  have size := r.length_lt
  rw [r.length_bytes, r.length_head] at size
  have length : (r.requestLine ++ [CR, LF]).length = r.requestLine.length + 2 :=
    List.length_append
  have room : ∀ e : HttpConn, e.init.readIdx + (r.requestLine ++ [CR, LF]).length ≤
      READ_BUFFER_SIZE := by
    intro e
    change 0 + _ ≤ _
    omega
  have taken : (c.init.lineTaken r.requestLine).view = (d.init.lineTaken r.requestLine).view := by
    rw [lineTaken_view (room c), lineTaken_view (room d), view_init c d]
  exact congrArg (fun e : HttpConn => { e with startLine := e.checkedIdx }) taken

/-- Whether a request line is rejected does not depend on the object. -/
theorem rejects_iff (c d : HttpConn) (r : Request) : Rejects c r ↔ Rejects d r := by
  have first := congrArg Prod.fst (parseRequestLine_view (requestTaken c r) 0)
  have second := congrArg Prod.fst (parseRequestLine_view (requestTaken d r) 0)
  rw [requestTaken_view c d r] at first
  unfold Rejects
  rw [← first.symm.trans second]

/-- A request that is accepted and asks to keep the connection. -/
def KeepAlive (r : Request) : Prop :=
  ¬ Rejects zeroConn r ∧ r.headers.any keepsAlive = true

instance (r : Request) : Decidable (KeepAlive r) :=
  inferInstanceAs (Decidable (_ ∧ _))

theorem KeepAlive.accepts (keepAlive : KeepAlive r) (c : HttpConn) : ¬ Rejects c r :=
  fun rejects => keepAlive.1 ((rejects_iff c zeroConn r).mp rejects)

/-- Behind its header lines, a keep-alive request has set `m_linger`. -/
theorem KeepAlive.passes (keepAlive : KeepAlive r) (fs : FileSystem) (c : HttpConn) :
    ∃ d, Passes fs c.init (r.requestLine :: r.headers) d ∧ d.linger = true := by
  have size := r.length_lt
  rw [r.length_bytes, r.length_head] at size
  have start : c.init.readIdx = 0 := rfl
  rcases passes_of_not_rejects fs (keepAlive.accepts c) with ⟨d, passes, -⟩
  have accepted : ¬ LineRejected c r.requestLine := keepAlive.accepts c
  rcases handleText_of_accepted fs accepted with ⟨e, handled, state, -⟩
  rcases atLine_of_handled handled with ⟨atLine, readIdx_eq⟩
  have whole := passes
  cases passes with
  | cons _ _ handled' rest =>
      rw [handled, Prod.mk.injEq] at handled'
      cases handled'.2
      have linger_eq := rest.linger atLine state r.named (by omega)
      rw [keepAlive.2, Bool.or_true] at linger_eq
      exact ⟨d, whole, linger_eq⟩

/-- A whole keep-alive request has a result, and the connection is to be kept. -/
theorem KeepAlive.result (keepAlive : KeepAlive r) (fs : FileSystem) (c : HttpConn) :
    ∃ code d, Loops fs .ok (c.init.append r.bytes) code d ∧ code ≠ .noRequest ∧
      d.linger = true := by
  have size := r.length_lt
  have lines := wire_header_lines r
  rw [r.length_bytes] at size
  rcases accepted_result fs (keepAlive.accepts c) with ⟨code, d, loops, hasResult⟩
  rcases keepAlive.passes fs c with ⟨e, passes, lingers⟩
  rcases passes.atLine c.init_atLine with ⟨atLine, readIdx_eq⟩
  rw [show c.init.readIdx = 0 from rfl, Nat.zero_add] at readIdx_eq
  have split_eq : r.bytes = wire (r.requestLine :: r.headers) ++ ([CR, LF] ++ r.body) := by
    simp [Request.bytes, Request.head, wire_append]
  -- The loop over the rest of the request is the end of the loop over the request.
  have ordered : (e.append ([CR, LF] ++ r.body)).Ordered := by
    refine Ordered.append ⟨?_, ?_, ?_⟩ ?_
    · rw [atLine.start, atLine.checked]
    · rw [atLine.checked]
    · omega
    · simp only [List.length_append, List.length_cons, List.length_nil]
      omega
  have rest := processRead_loops fs ordered
  have again := passes.loops c.init_atLine (by change 0 + _ ≤ _; omega) rest
  rw [← split_eq] at again
  rcases loops.unique again with ⟨-, rfl⟩
  exact ⟨code, _, loops, hasResult, rest.linger lingers⟩

variable (fs) in
/-- Without further bytes, the parser waits for a line. -/
theorem quiet_nil (c : HttpConn) : Quiet fs c.init [] :=
  c.init_atLine.quiet_line (by simp [init]) (by simp [Plain] : Plain []) List.nil_prefix (by simp)

end Requests

end HttpConn

end NetPractice.Http
