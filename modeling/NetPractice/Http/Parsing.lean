import NetPractice.Http.Conn

/-!
# What the parsing functions touch

One lemma for each function: which fields it changes, where it stores, and how
far it moves `m_checked_idx`.  The last section shows that the main loop never
runs out of fuel.
-/

namespace NetPractice.Http

open NetPractice.Text
open NetPractice.Socket

namespace HttpConn

/-! ## Stores -/

@[simp]
theorem store_stores (c : HttpConn) (index : Int) : (c.store index).stores = c.stores ++ [index] :=
  rfl

@[simp]
theorem store_readIdx (c : HttpConn) (index : Int) : (c.store index).readIdx = c.readIdx :=
  rfl

@[simp]
theorem store_checkedIdx (c : HttpConn) (index : Int) :
    (c.store index).checkedIdx = c.checkedIdx :=
  rfl

/-- All further stores lie inside the buffer. -/
def StoresInside (c d : HttpConn) : Prop :=
  ∃ fresh, d.stores = c.stores ++ fresh ∧ ∀ index ∈ fresh, 0 ≤ index ∧ index < READ_BUFFER_SIZE

theorem StoresInside.refl (c : HttpConn) : StoresInside c c :=
  ⟨[], by simp, by simp⟩

theorem StoresInside.trans {c d e : HttpConn} (first : StoresInside c d)
    (second : StoresInside d e) : StoresInside c e := by
  obtain ⟨before, d_eq, beforeInside⟩ := first
  obtain ⟨after, e_eq, afterInside⟩ := second
  refine ⟨before ++ after, by rw [e_eq, d_eq, List.append_assoc], fun index mem => ?_⟩
  exact (List.mem_append.mp mem).elim (beforeInside index) (afterInside index)

theorem StoresInside.store (c : HttpConn) {index : Nat} (inside : index < READ_BUFFER_SIZE) :
    StoresInside c (c.store index) :=
  ⟨[(index : Int)], rfl, by simpa using inside⟩

theorem length_str_le (c : HttpConn) (text : Nat) :
    (c.str text).length ≤ READ_BUFFER_SIZE - text := by
  unfold str cstr
  refine (List.takeWhile_sublist _).length_le.trans ?_
  simp

/-- A blank of a string in the buffer lies in the buffer. -/
theorem strpbrk_inside {c : HttpConn} {text blank : Nat}
    (found : strpbrk (c.str text) = some blank) : text + blank < READ_BUFFER_SIZE := by
  have lt := (List.findIdx?_eq_some_iff_getElem.mp found).1
  have := c.length_str_le text
  omega

/-! ## Reading -/

theorem readLoop_frame {answers : List Recv} {c d : HttpConn} {more : Bool}
    (result : c.readLoop answers = some (more, d)) :
    d = { c with readBuf := d.readBuf, readIdx := d.readIdx } := by
  induction answers generalizing c with
  | nil => contradiction
  | cons answer answers ih =>
      simp only [readLoop, Option.ite_none_right_eq_some] at result
      obtain ⟨-, result⟩ := result
      cases answer with
      | data bytes =>
          rw [ih result]
          rfl
      | again | eof | fail =>
          simp only [Option.ite_none_right_eq_some, Option.some.injEq, Prod.mk.injEq] at result
          obtain ⟨-, -, rfl⟩ := result
          rfl

theorem read_frame {answers : List Recv} {c d : HttpConn} {more : Bool}
    (result : c.read answers = some (more, d)) :
    d = { c with readBuf := d.readBuf, readIdx := d.readIdx } := by
  unfold read at result
  split at result
  · simp only [Option.ite_none_right_eq_some, Option.some.injEq, Prod.mk.injEq] at result
    obtain ⟨-, -, rfl⟩ := result
    rfl
  · exact readLoop_frame result

/-! ## The line scanner -/

/-- The line scanner changes the buffer and `m_checked_idx` only. -/
structure Scanned (c d : HttpConn) : Prop where
  frame : d = { c with readBuf := d.readBuf, checkedIdx := d.checkedIdx, stores := d.stores }
  forward : c.checkedIdx ≤ d.checkedIdx
  within : d.checkedIdx ≤ c.readIdx
  inside : StoresInside c d

theorem scanLine_frame (left : Nat) (c : HttpConn) :
    (scanLine left c).2 = { c with
      readBuf := (scanLine left c).2.readBuf
      checkedIdx := (scanLine left c).2.checkedIdx
      stores := (scanLine left c).2.stores } := by
  induction left generalizing c with
  | zero => rfl
  | succ left ih =>
      simp only [scanLine]
      split
      · split
        · rfl
        · split <;> rfl
      · split
        · split <;> rfl
        · exact ih { c with checkedIdx := c.checkedIdx + 1 }

theorem scanLine_spec {left : Nat} {c : HttpConn} (length : c.checkedIdx + left = c.readIdx)
    (room : c.readIdx ≤ READ_BUFFER_SIZE) :
    Scanned c (scanLine left c).2 ∧
      ((scanLine left c).1 = .ok → c.checkedIdx < (scanLine left c).2.checkedIdx) := by
  induction left generalizing c with
  | zero => exact ⟨⟨rfl, le_refl _, by simp only [scanLine]; omega, .refl c⟩, by simp [scanLine]⟩
  | succ left ih =>
      simp only [scanLine]
      split
      · split
        · exact ⟨⟨rfl, le_refl _, by simp only; omega, .refl c⟩, by simp⟩
        · split
          · refine ⟨⟨rfl, by simp only; omega, by simp only; omega, ?_⟩, by simp⟩
            exact (StoresInside.store c (by omega : c.checkedIdx < _)).trans
              (StoresInside.store (c.store c.checkedIdx) (by omega : c.checkedIdx + 1 < _))
          · exact ⟨⟨rfl, le_refl _, by simp only; omega, .refl c⟩, by simp⟩
      · split
        · split
          · rename_i behind
            obtain ⟨before, before_eq⟩ : ∃ before : Nat, c.checkedIdx = before + 1 :=
              ⟨c.checkedIdx - 1, by omega⟩
            refine ⟨⟨rfl, by simp only; omega, by simp only; omega, ?_⟩, by simp⟩
            have index_eq : (c.checkedIdx : Int) - 1 = (before : Nat) := by omega
            rw [index_eq]
            exact (StoresInside.store c (by omega : before < _)).trans
              (StoresInside.store (c.store before) (by omega : c.checkedIdx < _))
          · exact ⟨⟨rfl, le_refl _, by simp only; omega, .refl c⟩, by simp⟩
        · obtain ⟨scanned, ok⟩ := ih (c := { c with checkedIdx := c.checkedIdx + 1 })
            (by simp only; omega) room
          refine ⟨⟨scanned.frame, Nat.le_of_succ_le scanned.forward, scanned.within,
            scanned.inside⟩, fun isOk => Nat.lt_of_succ_lt (ok isOk)⟩

theorem parseLine_spec {c : HttpConn} (le : c.checkedIdx ≤ c.readIdx)
    (room : c.readIdx ≤ READ_BUFFER_SIZE) :
    Scanned c c.parseLine.2 ∧ (c.parseLine.1 = .ok → c.checkedIdx < c.parseLine.2.checkedIdx) :=
  scanLine_spec (by omega) room

theorem Scanned.refl {c : HttpConn} (le : c.checkedIdx ≤ c.readIdx) : Scanned c c :=
  ⟨rfl, le_refl _, le, .refl c⟩

theorem nextText_spec {c d : HttpConn} {status next : LineStatus} (le : c.checkedIdx ≤ c.readIdx)
    (room : c.readIdx ≤ READ_BUFFER_SIZE) (text : c.nextText status = (next, d)) :
    Scanned c d ∧ (next = .ok →
      (c.checkState = .content ∧ status = .ok ∧ d = c) ∨ c.checkedIdx < d.checkedIdx) := by
  unfold nextText at text
  split at text
  · rename_i atContent
    obtain ⟨-, rfl⟩ := Prod.mk.inj text
    exact ⟨.refl le, fun _ => Or.inl ⟨atContent.1, atContent.2, rfl⟩⟩
  · obtain ⟨scanned, ok⟩ := parseLine_spec le room
    rw [text] at scanned ok
    exact ⟨scanned, fun isOk => Or.inr (ok isOk)⟩

/-! ## The functions behind the `switch` -/

/-- The request line changes the buffer, the URL and the state only, and stores
inside the buffer; unless it is rejected, header lines are next. -/
structure LineParsed (c d : HttpConn) (code : HttpCode) : Prop where
  frame : d = { c with
    readBuf := d.readBuf, stores := d.stores, url := d.url, checkState := d.checkState }
  inside : StoresInside c d
  state : code ≠ .badRequest → d.checkState = .header

theorem checkUrl_spec (c : HttpConn) (url : Nat) :
    LineParsed c (c.checkUrl url).2 (c.checkUrl url).1 := by
  unfold checkUrl
  dsimp only
  split
  · exact ⟨rfl, .refl c, by simp⟩
  · split
    · exact ⟨rfl, .refl c, by simp⟩
    · exact ⟨rfl, .refl c, by simp⟩

theorem LineParsed.of_store {c d : HttpConn} {code : HttpCode} {index : Nat} (url : Option Nat)
    (parsed : LineParsed { c.store index with url := url } d code)
    (inside : index < READ_BUFFER_SIZE) : LineParsed c d code := by
  refine ⟨?_, (StoresInside.store c inside).trans parsed.inside, parsed.state⟩
  rw [parsed.frame]
  rfl

theorem splitVersion_spec (c : HttpConn) (url : Nat) :
    LineParsed c (c.splitVersion url).2 (c.splitVersion url).1 := by
  unfold splitVersion
  split
  · exact ⟨rfl, .refl c, by simp⟩
  · rename_i blank found
    have inside := strpbrk_inside found
    dsimp only
    split
    · exact (checkUrl_spec (c.store (url + blank : Nat)) url).of_store c.url inside
    · exact .of_store (c := c) c.url
        ⟨rfl, .refl _, by simp⟩ inside

theorem splitMethod_spec (c : HttpConn) (text url : Nat) :
    LineParsed c (c.splitMethod text url).2 (c.splitMethod text url).1 := by
  unfold splitMethod
  split
  · have parsed := splitVersion_spec { c with url := some (url + strspn (c.str url)) }
      (url + strspn (c.str url))
    refine ⟨?_, parsed.inside, parsed.state⟩
    rw [parsed.frame]
  · exact ⟨rfl, .refl c, by simp⟩

theorem parseRequestLine_spec (c : HttpConn) (text : Nat) :
    LineParsed c (c.parseRequestLine text).2 (c.parseRequestLine text).1 := by
  unfold parseRequestLine
  split
  · exact ⟨rfl, .refl c, by simp⟩
  · rename_i blank found
    exact (splitMethod_spec _ _ _).of_store _ (strpbrk_inside found)

theorem atoi_range (text : List Byte) : -2 ^ 31 ≤ atoi text ∧ atoi text < 2 ^ 31 := by
  unfold atoi toInt
  rw [Int.bmod_def]
  omega

/-- `m_content_length` is an `int`. -/
def LengthInRange (c : HttpConn) : Prop :=
  -2 ^ 31 ≤ c.contentLength ∧ c.contentLength < 2 ^ 31

/-- A header line changes the state, `m_linger` and `m_content_length` only. -/
structure HeaderParsed (c d : HttpConn) : Prop where
  frame : d = { c with
    checkState := d.checkState, linger := d.linger, contentLength := d.contentLength }
  range : c.LengthInRange → d.LengthInRange

theorem parseHeaders_spec (c : HttpConn) (text : Nat) :
    HeaderParsed c (c.parseHeaders text).2 := by
  unfold parseHeaders
  split
  · split
    · exact ⟨rfl, id⟩
    · exact ⟨rfl, id⟩
  · split
    · split
      · exact ⟨rfl, id⟩
      · exact ⟨rfl, id⟩
    · split
      · have range := atoi_range (c.headerValue text (ascii "Content-Length:"))
        generalize atoi (c.headerValue text (ascii "Content-Length:")) = length at range
        exact ⟨rfl, fun _ => range⟩
      · exact ⟨rfl, id⟩

/-- The request changes the file's fields only. -/
theorem doRequest_frame (c : HttpConn) (fs : FileSystem) :
    (c.doRequest fs).2 = { c with
      realFile := (c.doRequest fs).2.realFile
      fileStat := (c.doRequest fs).2.fileStat
      fileAddress := (c.doRequest fs).2.fileAddress } := by
  unfold doRequest
  dsimp only
  split
  · rfl
  · split
    · rfl
    · split <;> rfl

/-! ## The main loop ends -/

/-- The indices into `m_read_buf` are in order. -/
structure Ordered (c : HttpConn) : Prop where
  start : c.startLine ≤ c.checkedIdx
  checked : c.checkedIdx ≤ c.readIdx
  read : c.readIdx ≤ READ_BUFFER_SIZE

theorem Scanned.ordered {c d : HttpConn} (scanned : Scanned c d) (ordered : c.Ordered) :
    d.Ordered := by
  have startLine_eq : d.startLine = c.startLine := by rw [scanned.frame]
  have readIdx_eq : d.readIdx = c.readIdx := by rw [scanned.frame]
  exact ⟨startLine_eq ▸ ordered.start.trans scanned.forward, readIdx_eq ▸ scanned.within,
    readIdx_eq ▸ ordered.read⟩

theorem handleText_requestLine {c : HttpConn} (state : c.checkState = .requestLine)
    (fs : FileSystem) :
    c.handleText fs = { c with startLine := c.checkedIdx }.onRequestLine c.startLine := by
  cases c
  cases state
  rfl

theorem handleText_header {c : HttpConn} (state : c.checkState = .header) (fs : FileSystem) :
    c.handleText fs = { c with startLine := c.checkedIdx }.onHeader fs c.startLine := by
  cases c
  cases state
  rfl

theorem handleText_content {c : HttpConn} (state : c.checkState = .content) (fs : FileSystem) :
    c.handleText fs = { c with startLine := c.checkedIdx }.onContent fs c.startLine := by
  cases c
  cases state
  rfl

/-- The body of the loop takes the line, and moves no other index. -/
structure Handled (c d : HttpConn) (turn : Turn) : Prop where
  startLine_eq : d.startLine = c.checkedIdx
  checkedIdx_eq : d.checkedIdx = c.checkedIdx
  readIdx_eq : d.readIdx = c.readIdx
  range : c.LengthInRange → d.LengthInRange
  content : c.checkState = .content → turn ≠ .again .ok

theorem Handled.doRequest {c d : HttpConn} (fs : FileSystem)
    (handled : ∀ code, Handled c d (.result code)) :
    Handled c (d.doRequest fs).2 (.result (d.doRequest fs).1) := by
  obtain ⟨startLine_eq, checkedIdx_eq, readIdx_eq, range, content⟩ := handled (d.doRequest fs).1
  rw [d.doRequest_frame fs]
  exact ⟨startLine_eq, checkedIdx_eq, readIdx_eq, range, content⟩

theorem onRequestLine_handled {c : HttpConn} (state : c.checkState = .requestLine) (text : Nat) :
    Handled c (({ c with startLine := c.checkedIdx }).onRequestLine text).2
      (({ c with startLine := c.checkedIdx }).onRequestLine text).1 := by
  have parsed := parseRequestLine_spec { c with startLine := c.checkedIdx } text
  have notContent : c.checkState ≠ .content := by simp [state]
  unfold onRequestLine
  split <;>
  · rename_i d result
    rw [result] at parsed
    rw [parsed.frame]
    exact ⟨rfl, rfl, rfl, id, fun atContent => absurd atContent notContent⟩

theorem onHeader_handled {c : HttpConn} (state : c.checkState = .header) (fs : FileSystem)
    (text : Nat) :
    Handled c (({ c with startLine := c.checkedIdx }).onHeader fs text).2
      (({ c with startLine := c.checkedIdx }).onHeader fs text).1 := by
  have parsed := parseHeaders_spec { c with startLine := c.checkedIdx } text
  have notContent : c.checkState ≠ .content := by simp [state]
  have taken : ∀ turn, Handled c
      (parseHeaders { c with startLine := c.checkedIdx } text).2 turn := fun turn => by
    have range := parsed.range
    rw [parsed.frame] at range ⊢
    exact ⟨rfl, rfl, rfl, range, fun atContent => absurd atContent notContent⟩
  unfold onHeader
  split <;> rename_i result <;> rw [result] at taken
  · exact taken _
  · exact .doRequest fs fun code => taken _
  · exact taken _

theorem onContent_handled (c : HttpConn) (fs : FileSystem) (text : Nat) :
    Handled c (({ c with startLine := c.checkedIdx }).onContent fs text).2
      (({ c with startLine := c.checkedIdx }).onContent fs text).1 := by
  unfold onContent parseContent
  split <;> rename_i result
  · split at result
    · obtain ⟨-, rfl⟩ := Prod.mk.inj result
      exact .doRequest fs fun code => ⟨rfl, rfl, rfl, id, by simp⟩
    · cases (Prod.mk.inj result).1
  · split at result
    · rename_i other _
      exact absurd (Prod.mk.inj result).1.symm other
    · obtain ⟨-, rfl⟩ := Prod.mk.inj result
      exact ⟨rfl, rfl, rfl, id, by simp⟩

theorem handleText_spec {c d : HttpConn} {fs : FileSystem} {turn : Turn}
    (handled : c.handleText fs = (turn, d)) : Handled c d turn := by
  cases state : c.checkState with
  | requestLine =>
      rw [handleText_requestLine state] at handled
      have spec := onRequestLine_handled state c.startLine
      rwa [handled] at spec
  | header =>
      rw [handleText_header state] at handled
      have spec := onHeader_handled state fs c.startLine
      rwa [handled] at spec
  | content =>
      rw [handleText_content state] at handled
      have spec := onContent_handled c fs c.startLine
      rwa [handled] at spec

theorem Handled.ordered {c d : HttpConn} {turn : Turn} (handled : Handled c d turn)
    (ordered : c.Ordered) : d.Ordered where
  start := by rw [handled.startLine_eq, handled.checkedIdx_eq]
  checked := by rw [handled.checkedIdx_eq, handled.readIdx_eq]; exact ordered.checked
  read := handled.readIdx_eq ▸ ordered.read

/-- The main loop, without fuel. -/
inductive Loops (fs : FileSystem) : LineStatus → HttpConn → HttpCode → HttpConn → Prop where
  | stop {status next : LineStatus} {c d : HttpConn} (text : c.nextText status = (next, d))
      (incomplete : next ≠ .ok) : Loops fs status c .noRequest d
  | result {status : LineStatus} {c d e : HttpConn} {code : HttpCode}
      (text : c.nextText status = (.ok, d)) (handled : d.handleText fs = (.result code, e)) :
      Loops fs status c code e
  | again {status next : LineStatus} {c d e f : HttpConn} {code : HttpCode}
      (text : c.nextText status = (.ok, d)) (handled : d.handleText fs = (.again next, e))
      (rest : Loops fs next e code f) : Loops fs status c code f

/-- The number of iterations that the loop has left, at most. -/
def turnsLeft (status : LineStatus) (c : HttpConn) : Nat :=
  2 * (c.readIdx - c.checkedIdx) + if status = .ok then 1 else 0

/-- An iteration that is not the last one leaves fewer of them. -/
theorem turnsLeft_lt {c d e : HttpConn} {status next : LineStatus} {fs : FileSystem}
    (ordered : c.Ordered) (text : c.nextText status = (.ok, d))
    (handled : d.handleText fs = (.again next, e)) :
    e.turnsLeft next < c.turnsLeft status := by
  obtain ⟨scanned, progress⟩ := nextText_spec ordered.checked ordered.read text
  have body := handleText_spec handled
  have within := scanned.within
  have readIdx_eq : d.readIdx = c.readIdx := by rw [scanned.frame]
  unfold turnsLeft
  rw [body.checkedIdx_eq, body.readIdx_eq, readIdx_eq]
  rcases progress rfl with ⟨atContent, isOk, same⟩ | further
  · have notOk : next ≠ .ok := fun equal => body.content (same ▸ atContent) (equal ▸ rfl)
    rw [if_neg notOk, if_pos isOk, same]
    omega
  · have bit : (if next = .ok then 1 else 0) ≤ 1 := by split <;> omega
    omega

theorem loops_processLoop (fs : FileSystem) {fuel : Nat} {status : LineStatus} {c : HttpConn}
    (ordered : c.Ordered) (enough : c.turnsLeft status < fuel) :
    Loops fs status c (processLoop fs fuel status c).1 (processLoop fs fuel status c).2 := by
  induction fuel generalizing status c with
  | zero => exact absurd enough (Nat.not_lt_zero _)
  | succ fuel ih =>
      rw [processLoop]
      split
      · rename_i d text
        have scanned := (nextText_spec ordered.checked ordered.read text).1
        split
        · rename_i code e handled
          exact .result text handled
        · rename_i next e handled
          have body := handleText_spec handled
          have fewer := turnsLeft_lt ordered text handled
          exact .again text handled (ih (body.ordered (scanned.ordered ordered)) (by omega))
      · rename_i next d incomplete text
        exact .stop text fun equal => incomplete (equal ▸ rfl)

theorem Loops.unique {fs : FileSystem} {status : LineStatus} {c d d' : HttpConn}
    {code code' : HttpCode} (first : Loops fs status c code d)
    (second : Loops fs status c code' d') : code = code' ∧ d = d' := by
  induction first with
  | stop text incomplete =>
      cases second with
      | stop text' _ =>
          rw [text, Prod.mk.injEq] at text'
          exact ⟨rfl, text'.2⟩
      | result text' _ | again text' _ _ =>
          rw [text, Prod.mk.injEq] at text'
          exact absurd text'.1 incomplete
  | result text handled =>
      cases second with
      | stop text' incomplete =>
          rw [text, Prod.mk.injEq] at text'
          exact absurd text'.1.symm incomplete
      | result text' handled' =>
          rw [text, Prod.mk.injEq] at text'
          obtain ⟨-, rfl⟩ := text'
          rw [handled, Prod.mk.injEq, Turn.result.injEq] at handled'
          exact handled'
      | again text' handled' _ =>
          rw [text, Prod.mk.injEq] at text'
          obtain ⟨-, rfl⟩ := text'
          rw [handled, Prod.mk.injEq] at handled'
          cases handled'.1
  | again text handled rest ih =>
      cases second with
      | stop text' incomplete =>
          rw [text, Prod.mk.injEq] at text'
          exact absurd text'.1.symm incomplete
      | result text' handled' =>
          rw [text, Prod.mk.injEq] at text'
          obtain ⟨-, rfl⟩ := text'
          rw [handled, Prod.mk.injEq] at handled'
          cases handled'.1
      | again text' handled' rest' =>
          rw [text, Prod.mk.injEq] at text'
          obtain ⟨-, rfl⟩ := text'
          rw [handled, Prod.mk.injEq, Turn.again.injEq] at handled'
          obtain ⟨rfl, rfl⟩ := handled'
          exact ih rest'

/-- `process_read` runs its main loop to the end. -/
theorem processRead_loops (fs : FileSystem) {c : HttpConn} (ordered : c.Ordered) :
    Loops fs .ok c (c.processRead fs).1 (c.processRead fs).2 :=
  loops_processLoop fs ordered (by simp [turnsLeft, loopFuel])

theorem processRead_eq_of_loops {fs : FileSystem} {c d : HttpConn} {code : HttpCode}
    (ordered : c.Ordered) (loops : Loops fs .ok c code d) : c.processRead fs = (code, d) := by
  obtain ⟨code_eq, conn_eq⟩ := (processRead_loops fs ordered).unique loops
  exact Prod.ext code_eq conn_eq

end HttpConn

end NetPractice.Http
