import NetPractice.RequestReader.RequestLine

/-!
# The request reader and the bytes it has received

The result of `parse_content` is a function of the received bytes alone: it is the
judgment on them, and where the reader waits, it goes on as if all bytes had
arrived together.
-/

namespace NetPractice.RequestReader

open NetPractice.Text
open NetPractice.Http (Plain)

namespace Reader

/-! ## The line scanner -/

/-- The reader has received these bytes behind the last handled line, and scanned
`seen` of them. -/
structure Holds (r : Reader) (bytes : List Byte) (seen : Nat) : Prop where
  bytes_eq : ∃ spare, r.buffer.drop r.startLine = bytes ++ spare
  checked : r.checkedIndex = r.startLine + seen
  read : r.readIndex = r.startLine + bytes.length
  room : r.readIndex ≤ r.buffer.length
  plain : Plain (bytes.take seen)
  scanned : seen ≤ bytes.length
  before : 1 ≤ r.startLine → r.byte (r.startLine - 1) ≠ CR

theorem initial_holds : initial.Holds [] 0 where
  bytes_eq := ⟨initial.buffer, rfl⟩
  checked := rfl
  read := rfl
  room := Nat.zero_le _
  plain := by simp [Plain]
  scanned := Nat.le_refl _
  before := fun positive => absurd positive (by decide)

section Scanning

variable {r : Reader} {bytes line rest first tail : List Byte} {seen : Nat}

theorem Holds.byte_eq (holds : r.Holds bytes seen) {k : Nat} (lt : k < bytes.length) :
    r.byte (r.startLine + k) = bytes[k] := by
  rcases holds.bytes_eq with ⟨spare, drop_eq⟩
  rw [Reader.byte, List.getD_eq_getElem?_getD, ← List.getElem?_drop, drop_eq,
    List.getElem?_append_left lt, List.getElem?_eq_getElem lt, Option.getD_some]

/-- Received bytes are put behind the ones that the reader holds. -/
theorem Holds.receive (holds : r.Holds bytes seen) {more : List Byte}
    (room : r.readIndex + more.length ≤ BUFFER_SIZE) :
    (r.receive more).Holds (bytes ++ more) seen := by
  have length_eq : (r.buffer.take r.readIndex).length = r.readIndex := by
    rw [List.length_take, Nat.min_eq_left holds.room]
  have start_le : r.startLine ≤ r.readIndex := holds.read ▸ Nat.le_add_right _ _
  have all : more.take (BUFFER_SIZE - r.readIndex) = more := List.take_of_length_le (by omega)
  unfold Reader.receive
  rw [all]
  constructor
  · rcases holds.bytes_eq with ⟨spare, drop_eq⟩
    refine ⟨r.buffer.drop (r.readIndex + more.length), ?_⟩
    have held : (r.buffer.take r.readIndex).drop r.startLine = bytes := by
      rw [List.drop_take, drop_eq, holds.read, Nat.add_sub_cancel_left, List.take_left]
    dsimp only
    rw [List.append_assoc, List.drop_append_of_le_length (by rw [length_eq]; exact start_le), held,
      List.append_assoc]
  · exact holds.checked
  · simp only [holds.read, List.length_append, Nat.add_assoc]
  · simp only [List.length_append, length_eq, List.length_drop]
    omega
  · rw [List.take_append_of_le_length holds.scanned]
    exact holds.plain
  · rw [List.length_append]
    exact Nat.le_add_right_of_le holds.scanned
  · intro (positive : 1 ≤ r.startLine)
    have lt : r.startLine - 1 < (r.buffer.take r.readIndex).length := by omega
    have same : ((r.buffer.take r.readIndex ++ more ++
        r.buffer.drop (r.readIndex + more.length)).getD (r.startLine - 1) 0) =
          r.byte (r.startLine - 1) := by
      rw [Reader.byte, List.getD_eq_getElem?_getD, List.getD_eq_getElem?_getD, List.append_assoc,
        List.getElem?_append_left lt, List.getElem?_take_of_lt (by omega)]
    dsimp only
    rw [Reader.byte, same]
    exact holds.before positive

theorem scanLine_skip {k left : Nat} (r : Reader)
    (plain : ∀ i < k, r.byte (r.checkedIndex + i) ≠ CR ∧ r.byte (r.checkedIndex + i) ≠ LF) :
    scanLine (left + k) r = scanLine left { r with checkedIndex := r.checkedIndex + k } := by
  induction k generalizing r with
  | zero => rfl
  | succ k ih =>
      rcases plain 0 (Nat.succ_pos k) with ⟨notCr, notLf⟩
      rw [Nat.add_zero] at notCr notLf
      rw [← Nat.add_assoc, scanLine, if_neg notCr, if_neg notLf, ih]
      · simp only [Nat.add_assoc, Nat.add_comm 1 k]
      · intro i lt
        have here := plain (i + 1) (Nat.succ_lt_succ lt)
        rwa [← Nat.add_assoc, Nat.add_right_comm] at here

/-- The scanner passes over the bytes of a line. -/
theorem Holds.parseLine_skip (holds : r.Holds (first ++ tail) seen) (plain : Plain first)
    (le : seen ≤ first.length) :
    r.parseLine = scanLine tail.length { r with checkedIndex := r.startLine + first.length } := by
  have left : r.readIndex - r.checkedIndex = tail.length + (first.length - seen) := by
    rw [holds.read, holds.checked, List.length_append]
    omega
  have skipped : ∀ i < first.length - seen,
      r.byte (r.checkedIndex + i) ≠ CR ∧ r.byte (r.checkedIndex + i) ≠ LF := by
    intro i lt
    have inside : seen + i < first.length := by omega
    rw [holds.checked, Nat.add_assoc, holds.byte_eq (by rw [List.length_append]; omega),
      List.getElem_append_left inside]
    exact plain _ (List.getElem_mem inside)
  have index_eq : r.checkedIndex + (first.length - seen) = r.startLine + first.length := by
    rw [holds.checked]
    omega
  rw [parseLine, left, scanLine_skip r skipped, index_eq]

/-- No byte of a line end has been passed. -/
theorem Holds.seen_le (holds : r.Holds (first ++ tail) seen)
    (ends : Ends tail) : seen ≤ first.length := by
  by_contra further
  have lt : first.length < seen := Nat.lt_of_not_le further
  cases tail with
  | nil =>
      have scanned := holds.scanned
      rw [List.append_nil] at scanned
      omega
  | cons byte tail =>
      have mem : byte ∈ (first ++ byte :: tail).take seen := by
        refine List.mem_of_getElem? (i := first.length) ?_
        rw [List.getElem?_take_of_lt lt, List.getElem?_append_right (Nat.le_refl _),
          Nat.sub_self]
        rfl
      rcases holds.plain byte mem with ⟨notCr, notLf⟩
      rcases ends byte rfl with rfl | rfl
      · exact notCr rfl
      · exact notLf rfl

theorem Holds.byte_tail (holds : r.Holds (first ++ tail) seen) {k : Nat} (lt : k < tail.length) :
    r.byte (r.startLine + first.length + k) = tail[k] := by
  rw [Nat.add_assoc, holds.byte_eq (by rw [List.length_append]; omega),
    List.getElem_append_right (Nat.le_add_right _ _)]
  congr 1
  omega

/-- While a part of a line is missing, the scanner waits. -/
theorem Holds.parseLine_short (holds : r.Holds (first ++ tail) seen) (plain : Plain first)
    (short : Short tail) :
    r.parseLine = (.open, { r with checkedIndex := r.startLine + first.length }) := by
  rw [holds.parseLine_skip plain (holds.seen_le short.ends)]
  rcases short with rfl | rfl
  · rfl
  · have cr : r.byte (r.startLine + first.length) = CR := holds.byte_tail (k := 0) (by simp)
    have last : r.startLine + first.length + 1 = r.readIndex := by
      rw [holds.read, List.length_append]
      rfl
    exact (if_pos cr).trans (if_pos last)

theorem Holds.parseLine_bareEnd (holds : r.Holds (first ++ tail) seen) (plain : Plain first)
    (bare : BareEnd tail) : r.parseLine.1 = .bad := by
  rw [holds.parseLine_skip plain (holds.seen_le bare.ends)]
  cases bare with
  | lf rest =>
      have lf : r.byte (r.startLine + first.length) = LF := holds.byte_tail (k := 0) (by simp)
      have notCr : r.byte (r.startLine + first.length) ≠ CR := by
        rw [lf]
        decide
      have notBehind : ¬ (1 ≤ r.startLine + first.length ∧
          r.byte (r.startLine + first.length - 1) = CR) := by
        rintro ⟨positive, cr⟩
        cases empty : first.length with
        | zero =>
            rw [empty, Nat.add_zero] at positive cr
            exact holds.before positive cr
        | succ length =>
            have inside : length < first.length := empty ▸ Nat.lt_succ_self length
            rw [empty, Nat.add_succ_sub_one, holds.byte_eq (by rw [List.length_append]; omega),
              List.getElem_append_left inside] at cr
            exact (plain _ (List.getElem_mem inside)).1 cr
      exact congrArg Prod.fst ((if_neg notCr).trans ((if_pos lf).trans (if_neg notBehind)))
  | @cr byte other rest =>
      have cr : r.byte (r.startLine + first.length) = CR := holds.byte_tail (k := 0) (by simp)
      have next : r.byte (r.startLine + first.length + 1) = byte :=
        holds.byte_tail (k := 1) (by simp)
      have notLast : r.startLine + first.length + 1 ≠ r.readIndex := by
        rw [holds.read, List.length_append, List.length_cons, List.length_cons]
        omega
      have notLf : r.byte (r.startLine + first.length + 1) ≠ LF := next ▸ other
      exact congrArg Prod.fst ((if_pos cr).trans ((if_neg notLast).trans (if_neg notLf)))

/-- The reader behind a complete line. -/
def lineTaken (r : Reader) (length : Nat) : Reader :=
  { (r.store (r.startLine + length)).store (r.startLine + length + 1) with
    checkedIndex := r.startLine + length + 2 }

theorem Holds.parseLine_line (holds : r.Holds (line ++ CR :: LF :: rest) seen)
    (plain : Plain line) : r.parseLine = (.ok, r.lineTaken line.length) := by
  rw [holds.parseLine_skip plain (holds.seen_le (crlf_ends rest))]
  have cr : r.byte (r.startLine + line.length) = CR := holds.byte_tail (k := 0) (by simp)
  have next : r.byte (r.startLine + line.length + 1) = LF := holds.byte_tail (k := 1) (by simp)
  have notLast : r.startLine + line.length + 1 ≠ r.readIndex := by
    rw [holds.read, List.length_append, List.length_cons, List.length_cons]
    omega
  exact (if_pos cr).trans ((if_neg notLast).trans (if_pos next))

theorem Holds.lineTaken_str (holds : r.Holds (line ++ CR :: LF :: rest) seen) :
    (r.lineTaken line.length).str r.startLine = cstr line := by
  rcases holds.bytes_eq with ⟨spare, drop_eq⟩
  have buffer_eq : (r.lineTaken line.length).buffer.drop r.startLine =
      line ++ 0 :: 0 :: (rest ++ spare) := by
    simp only [lineTaken, store]
    rw [List.drop_set, if_neg (by omega), List.drop_set, if_neg (by omega), drop_eq]
    simp only [Nat.add_sub_cancel_left, Nat.add_assoc, List.append_assoc, List.cons_append]
    rw [List.set_append_right _ _ (Nat.le_refl _), Nat.sub_self,
      List.set_append_right _ _ (Nat.le_add_right _ _), Nat.add_sub_cancel_left]
    rfl
  rw [str, buffer_eq, cstr_append_zero]

/-- The reader behind a handled line holds the bytes behind it. -/
theorem Holds.next (holds : r.Holds (line ++ CR :: LF :: rest) seen) {state : CheckState}
    {r' : Reader}
    (done : LineDone { r.lineTaken line.length with startLine := r.startLine + line.length + 2 }
      state (r.startLine + line.length) r') :
    r'.Holds rest 0 ∧ r'.checkstate = state ∧ r'.buffer.length = r.buffer.length := by
  have length_eq : r'.buffer.length = r.buffer.length := by
    rw [done.length_eq]
    simp [lineTaken, store]
  have start_eq : r'.startLine = r.startLine + line.length + 2 := by rw [done.frame]
  have checked_eq : r'.checkedIndex = r.startLine + line.length + 2 := by rw [done.frame]; rfl
  have read_eq : r'.readIndex = r.readIndex := by rw [done.frame]; rfl
  rcases holds.bytes_eq with ⟨spare, drop_eq⟩
  have behind : r'.buffer.drop (r.startLine + line.length) = 0 :: 0 :: (rest ++ spare) := by
    rw [done.behind]
    simp only [lineTaken, store]
    rw [List.drop_set, if_neg (by omega), List.drop_set, if_neg (by omega), ← List.drop_drop,
      drop_eq]
    simp
  refine ⟨?_, by rw [done.frame], length_eq⟩
  constructor
  · refine ⟨spare, ?_⟩
    rw [start_eq, ← List.drop_drop, behind]
    rfl
  · rw [checked_eq, start_eq]
  · rw [read_eq, start_eq, holds.read, List.length_append, List.length_cons, List.length_cons]
    omega
  · rw [read_eq, length_eq]
    exact holds.room
  · simp [Plain]
  · exact Nat.zero_le _
  · intro _
    have zero : r'.byte (r'.startLine - 1) = 0 := by
      rw [start_eq, Reader.byte, List.getD_eq_getElem?_getD, Nat.add_succ_sub_one,
        ← List.getElem?_drop, behind]
      rfl
    rw [zero]
    decide

/-! ## The main loop -/

/-- The reader waits for bytes behind the ones that it holds. -/
def Waits (r : Reader) (bytes : List Byte) : Prop :=
  (∃ seen, r.Holds bytes seen) ∧ Judged r.checkstate bytes .noRequest

/-- What `parse_content` gives on these bytes: the judgment on them, and a reader that
goes on with further bytes as if all had arrived together. -/
def Outcome (r : Reader) (bytes : List Byte) (result : HttpCode × Reader) : Prop :=
  Judged r.checkstate bytes result.1 ∧ (result.1 = .noRequest →
    result.2.readIndex = r.readIndex ∧ ∃ held, result.2.Waits held ∧
      ∀ more code, Judged result.2.checkstate (held ++ more) code →
        Judged r.checkstate (bytes ++ more) code)

theorem Holds.outcome_short (holds : r.Holds (first ++ tail) seen) (plain : Plain first)
    (short : Short tail) (fuel : Nat) :
    Outcome r (first ++ tail) (contentLoop (fuel + 1) r) := by
  rw [contentLoop, holds.parseLine_short plain short]
  refine ⟨.waits plain short, fun _ => ⟨rfl, first ++ tail,
    ⟨⟨first.length, ?_⟩, .waits plain short⟩, fun _ _ judged => judged⟩⟩
  constructor
  · exact holds.bytes_eq
  · rfl
  · exact holds.read
  · exact holds.room
  · rw [List.take_left]
    exact plain
  · rw [List.length_append]
    exact Nat.le_add_right _ _
  · exact holds.before

theorem Holds.outcome_bareEnd (holds : r.Holds (first ++ tail) seen) (plain : Plain first)
    (bare : BareEnd tail) (fuel : Nat) :
    Outcome r (first ++ tail) (contentLoop (fuel + 1) r) := by
  have bad := holds.parseLine_bareEnd plain bare
  rw [contentLoop]
  generalize r.parseLine = scanned at bad
  rcases scanned with ⟨status, r'⟩
  cases bad
  exact ⟨.broken plain bare, fun waits => by cases waits⟩

/-- The outcome on the bytes behind a handled line is the one on all bytes. -/
theorem Outcome.behind {r' : Reader} {result : HttpCode × Reader}
    (outcome : Outcome r' rest result) (read : r'.readIndex = r.readIndex)
    (judged : ∀ rest code, Judged r'.checkstate rest code →
      Judged r.checkstate (line ++ CR :: LF :: rest) code) :
    Outcome r (line ++ CR :: LF :: rest) result := by
  refine ⟨judged rest _ outcome.1, fun waits => ?_⟩
  rcases outcome.2 waits with ⟨read', held, waiting, resume⟩
  refine ⟨read'.trans read, held, waiting, fun more code further => ?_⟩
  rw [List.append_assoc]
  exact judged (rest ++ more) code (resume more code further)

theorem handleLine_requestLine (state : r.checkstate = .requestLine) :
    r.handleLine = match { r with startLine := r.checkedIndex }.parseRequestline r.startLine with
      | (.badRequest, r) => (some .badRequest, r)
      | (_, r) => (none, r) := by
  cases r
  cases state
  rfl

theorem handleLine_header (state : r.checkstate = .header) :
    r.handleLine = (if r.byte r.startLine = 0 then some .getRequest else none,
      { r with startLine := r.checkedIndex }) := by
  have parsed : { r with startLine := r.checkedIndex }.parseHeaders r.startLine =
      if r.byte r.startLine = 0 then HttpCode.getRequest else .noRequest :=
    rfl
  unfold handleLine
  dsimp only
  split
  next state' => cases state.symm.trans state'
  next =>
    rw [parsed]
    split_ifs
    · rfl
    · rfl

theorem Holds.outcome_requestLine (holds : r.Holds (line ++ CR :: LF :: rest) seen)
    (plain : Plain line) (state : r.checkstate = .requestLine) {fuel : Nat}
    (loop : ∀ r' : Reader, r'.Holds rest 0 → Outcome r' rest (contentLoop fuel r')) :
    Outcome r (line ++ CR :: LF :: rest) (contentLoop (fuel + 1) r) := by
  have text := holds.lineTaken_str
  have inside : r.startLine + (cstr line).length ≤ r.startLine + line.length :=
    Nat.add_le_add_left (List.takeWhile_prefix _).length_le _
  rw [← text] at inside
  have parsed := parseRequestline_done
    { r.lineTaken line.length with startLine := r.startLine + line.length + 2 } inside
  change _ = codeAfter (requestLineOk ((r.lineTaken line.length).str r.startLine)) ∧
    LineDone _ (stateAfter (requestLineOk ((r.lineTaken line.length).str r.startLine))
      r.checkstate) _ _ at parsed
  rw [text] at parsed
  rw [contentLoop, holds.parseLine_line plain]
  dsimp only
  rw [handleLine_requestLine (r := r.lineTaken line.length) state]
  change Outcome _ _ (match (match parseRequestline
    { r.lineTaken line.length with startLine := r.startLine + line.length + 2 } r.startLine with
      | (.badRequest, r) => (some .badRequest, r)
      | (_, r) => (none, r)) with
    | (some code, r) => (code, r)
    | (none, r) => contentLoop fuel r)
  generalize parseRequestline
    { r.lineTaken line.length with startLine := r.startLine + line.length + 2 } r.startLine =
      result at parsed
  rcases result with ⟨code, r'⟩
  rcases parsed with ⟨code_eq, done⟩
  dsimp only at code_eq done
  rcases holds.next done with ⟨holds', state', -⟩
  have read : r'.readIndex = r.readIndex := by rw [done.frame]; rfl
  cases accepts : requestLineOk (cstr line) with
  | false =>
      rw [accepts] at code_eq
      cases code_eq
      refine ⟨?_, fun waits => by cases waits⟩
      rw [state]
      exact .refused plain accepts
  | true =>
      rw [accepts] at code_eq state'
      cases code_eq
      refine (loop r' holds').behind read fun rest code judged => ?_
      rw [state]
      rw [state'] at judged
      exact .accepted plain accepts judged

theorem Holds.outcome_header (holds : r.Holds (line ++ CR :: LF :: rest) seen)
    (plain : Plain line) (state : r.checkstate = .header) {fuel : Nat}
    (loop : ∀ r' : Reader, r'.Holds rest 0 → Outcome r' rest (contentLoop fuel r')) :
    Outcome r (line ++ CR :: LF :: rest) (contentLoop (fuel + 1) r) := by
  have empty : (r.lineTaken line.length).byte (r.lineTaken line.length).startLine = 0 ↔
      cstr line = [] := by
    rw [byte_eq_zero_iff]
    change (r.lineTaken line.length).str r.startLine = [] ↔ _
    rw [holds.lineTaken_str]
  rw [contentLoop, holds.parseLine_line plain]
  dsimp only
  rw [handleLine_header (r := r.lineTaken line.length) state]
  by_cases named : cstr line = []
  · rw [if_pos (empty.mpr named)]
    refine ⟨?_, fun waits => by cases waits⟩
    rw [state]
    exact .done plain named
  · rw [if_neg fun zero => named (empty.mp zero)]
    have done : LineDone
        { r.lineTaken line.length with startLine := r.startLine + line.length + 2 } .header
        (r.startLine + line.length)
        { r.lineTaken line.length with startLine := r.startLine + line.length + 2 } := by
      refine ⟨?_, rfl, rfl⟩
      rw [← state]
      rfl
    rcases holds.next done with ⟨holds', state', -⟩
    refine (loop _ holds').behind rfl fun rest code judged => ?_
    rw [state]
    rw [state'] at judged
    exact .header plain named judged

/-- The loop ends with the judgment on the received bytes. -/
theorem contentLoop_outcome (fuel : Nat) (holds : r.Holds bytes seen)
    (enough : bytes.length - seen < fuel) : Outcome r bytes (contentLoop fuel r) := by
  induction fuel generalizing r bytes seen with
  | zero => exact absurd enough (Nat.not_lt_zero _)
  | succ fuel ih =>
      rcases line_cases bytes with ⟨line, rest, plain, rfl⟩ | ⟨first, tail, plain, short, rfl⟩ |
        ⟨first, tail, plain, bare, rfl⟩
      · have loop : ∀ r' : Reader, r'.Holds rest 0 → Outcome r' rest (contentLoop fuel r') := by
          intro r' holds'
          apply ih holds'
          have seen_le := holds.seen_le (crlf_ends rest)
          rw [List.length_append, List.length_cons, List.length_cons] at enough
          omega
        cases state : r.checkstate with
        | requestLine => exact holds.outcome_requestLine plain state loop
        | header => exact holds.outcome_header plain state loop
      · exact holds.outcome_short plain short fuel
      · exact holds.outcome_bareEnd plain bare fuel

theorem Holds.parseContent (holds : r.Holds bytes seen) : Outcome r bytes r.parseContent := by
  apply contentLoop_outcome _ holds
  rw [holds.read, holds.checked]
  omega

/-- `parse_content` behind each segment judges all bytes together. -/
theorem Waits.receiveLoop {segments : List (List Byte)} (waits : r.Waits bytes)
    (room : r.readIndex + segments.flatten.length ≤ BUFFER_SIZE) :
    Judged r.checkstate (bytes ++ segments.flatten) (receiveLoop r segments) := by
  induction segments generalizing r bytes with
  | nil =>
      rw [List.flatten_nil, List.append_nil]
      exact waits.2
  | cons segment segments ih =>
      rcases waits.1 with ⟨seen, holds⟩
      rw [List.flatten_cons, List.length_append] at room
      have segment_fits : r.readIndex + segment.length ≤ BUFFER_SIZE := by omega
      have read : (r.receive segment).readIndex = r.readIndex + segment.length := by
        simp only [Reader.receive]
        rw [List.take_of_length_le (by omega)]
      have outcome := (holds.receive segment_fits).parseContent
      rw [Reader.receiveLoop]
      generalize (r.receive segment).parseContent = result at outcome
      rcases result with ⟨code, r'⟩
      rcases outcome with ⟨judged, resume⟩
      rw [List.flatten_cons, ← List.append_assoc]
      by_cases waiting : code = .noRequest
      · subst waiting
        rcases resume rfl with ⟨read', held, waits', further⟩
        exact further _ _ (ih waits' (by rw [read', read]; omega))
      · have ended := judged.append waiting segments.flatten
        cases code with
        | noRequest => exact absurd rfl waiting
        | getRequest | badRequest | forbiddenRequest | internalError | closedConnection =>
            exact ended

end Scanning

theorem initial_waits : initial.Waits [] :=
  ⟨⟨0, initial_holds⟩, @Judged.waits _ [] [] (by simp [Plain]) (.inl rfl)⟩

/-- One call on all received bytes. -/
theorem receive_judged {bytes : List Byte} (room : bytes.length ≤ BUFFER_SIZE) :
    Judged .requestLine bytes (initial.receive bytes).parseContent.1 := by
  have free : initial.readIndex + bytes.length ≤ BUFFER_SIZE := by
    change 0 + bytes.length ≤ BUFFER_SIZE
    omega
  exact (initial_holds.receive free).parseContent.1

/-- The result does not depend on how the bytes are cut into segments. -/
theorem receiveLoop_eq_parseContent {segments : List (List Byte)}
    (room : segments.flatten.length ≤ BUFFER_SIZE) :
    receiveLoop initial segments = (initial.receive segments.flatten).parseContent.1 := by
  have free : initial.readIndex + segments.flatten.length ≤ BUFFER_SIZE := by
    change 0 + segments.flatten.length ≤ BUFFER_SIZE
    omega
  exact (initial_waits.receiveLoop free).unique (receive_judged room)

/-- A request with a NUL byte, which is cut inside a line end. -/
def cutLineEnd : List (List Byte) :=
  [ascii "GET / HTT", ascii "P/1.1\r", ascii "\na" ++ [0, 13], ascii "\n\r\n"]

theorem receiveLoop_eq_cutLineEnd : receiveLoop initial cutLineEnd =
    (initial.receive cutLineEnd.flatten).parseContent.1 :=
  receiveLoop_eq_parseContent (by decide)

end Reader

end NetPractice.RequestReader
