import NetPractice.Http.Append

/-!
# Lines on the wire

A line that arrives behind a handled line is handled in the same way whatever
arrives behind it, and while a part of it is missing the parser waits.
-/

namespace NetPractice.Http

open NetPractice.Text

/-- A line: no byte of it ends a line. -/
def Plain (line : List Byte) : Prop :=
  ∀ byte ∈ line, byte ≠ CR ∧ byte ≠ LF

instance (line : List Byte) : Decidable (Plain line) :=
  inferInstanceAs (Decidable (∀ byte ∈ line, _))

/-- The bytes of a list of lines. -/
def wire (lines : List (List Byte)) : List Byte :=
  lines.flatMap (· ++ [CR, LF])

@[simp]
theorem wire_nil : wire [] = [] :=
  rfl

@[simp]
theorem wire_cons (line : List Byte) (lines : List (List Byte)) :
    wire (line :: lines) = line ++ CR :: LF :: wire lines := by
  simp [wire]

theorem wire_append (first second : List (List Byte)) :
    wire (first ++ second) = wire first ++ wire second := by
  simp [wire]

namespace HttpConn

/-! ## Scanning a line -/

theorem scanLine_skip {k left : Nat} {c : HttpConn}
    (plain : ∀ i < k, c.readBuf (c.checkedIdx + i) ≠ CR ∧ c.readBuf (c.checkedIdx + i) ≠ LF) :
    scanLine (left + k) c = scanLine left { c with checkedIdx := c.checkedIdx + k } := by
  induction k generalizing c with
  | zero => rfl
  | succ k ih =>
      obtain ⟨notCr, notLf⟩ := plain 0 (Nat.succ_pos k)
      rw [← Nat.add_assoc, scanLine]
      simp only [Nat.add_zero] at notCr notLf
      rw [if_neg notCr, if_neg notLf, ih]
      · simp only [Nat.add_assoc, Nat.add_comm 1 k]
      · intro i lt
        have here := plain (i + 1) (by omega)
        rwa [← Nat.add_assoc, Nat.add_right_comm] at here

/-- The scanner passes over bytes that do not end a line. -/
theorem parseLine_skip {k : Nat} {c : HttpConn} (le : c.checkedIdx + k ≤ c.readIdx)
    (plain : ∀ i < k, c.readBuf (c.checkedIdx + i) ≠ CR ∧ c.readBuf (c.checkedIdx + i) ≠ LF) :
    c.parseLine = { c with checkedIdx := c.checkedIdx + k }.parseLine := by
  unfold parseLine
  rw [show c.readIdx - c.checkedIdx = c.readIdx - (c.checkedIdx + k) + k by omega,
    scanLine_skip plain]

/-- Nothing is left to scan. -/
theorem parseLine_end {c : HttpConn} (le : c.readIdx ≤ c.checkedIdx) :
    c.parseLine = (.open, c) := by
  unfold parseLine
  rw [Nat.sub_eq_zero_of_le le]
  rfl

theorem parseLine_cr {c : HttpConn} (lt : c.checkedIdx < c.readIdx)
    (first : c.readBuf c.checkedIdx = CR) :
    c.parseLine =
      if c.checkedIdx + 1 = c.readIdx then (.open, c)
      else if c.readBuf (c.checkedIdx + 1) = LF then
        (.ok, { (c.store c.checkedIdx).store (c.checkedIdx + 1 : Nat) with
          checkedIdx := c.checkedIdx + 2 })
      else (.bad, c) := by
  obtain ⟨left, left_eq⟩ : ∃ left, c.readIdx - c.checkedIdx = left + 1 :=
    ⟨c.readIdx - c.checkedIdx - 1, by omega⟩
  unfold parseLine
  rw [left_eq, scanLine]
  simp only [if_pos first]
  rfl

theorem parseLine_lf {c : HttpConn} (lt : c.checkedIdx < c.readIdx)
    (first : c.readBuf c.checkedIdx = LF) (before : c.readBuf (c.checkedIdx - 1) ≠ CR) :
    c.parseLine = (.bad, c) := by
  obtain ⟨left, left_eq⟩ : ∃ left, c.readIdx - c.checkedIdx = left + 1 :=
    ⟨c.readIdx - c.checkedIdx - 1, by omega⟩
  have notCr : c.readBuf c.checkedIdx ≠ CR := by
    rw [first]
    decide
  unfold parseLine
  rw [left_eq, scanLine]
  simp only [if_neg notCr, if_pos first]
  rw [if_neg fun behind => before behind.2]

/-! ## A whole line -/

/-- All received bytes are handled. -/
structure AtLine (c : HttpConn) : Prop where
  start : c.startLine = c.readIdx
  checked : c.checkedIdx = c.readIdx

/-- A received line, as the scanner leaves it. -/
def lineTaken (c : HttpConn) (line : List Byte) : HttpConn :=
  { ((c.append (line ++ [CR, LF])).store (c.readIdx + line.length : Nat)).store
      (c.readIdx + line.length + 1 : Nat) with
    checkedIdx := c.readIdx + line.length + 2 }

section Scanning

variable {c : HttpConn} {line : List Byte}

/-- The scanner passes over the received beginning of a line. -/
theorem AtLine.parseLine_append (atLine : c.AtLine) (plain : Plain line) (tail : List Byte) :
    (c.append (line ++ tail)).parseLine =
      { c.append (line ++ tail) with checkedIdx := c.readIdx + line.length }.parseLine := by
  have checked : (c.append (line ++ tail)).checkedIdx = c.readIdx := atLine.checked
  rw [parseLine_skip (c := c.append (line ++ tail)) (k := line.length)]
  · rw [checked]
  · rw [checked]
    simp
  · intro i lt
    rw [checked, append_readBuf_of_mem (by simp; omega), List.getElem_append_left lt]
    exact plain _ (List.getElem_mem lt)

/-- A byte behind the received beginning of a line. -/
theorem append_readBuf_tail (c : HttpConn) (line tail : List Byte) {k : Nat}
    (lt : k < tail.length) :
    (c.append (line ++ tail)).readBuf (c.readIdx + line.length + k) = tail[k] := by
  rw [Nat.add_assoc, append_readBuf_of_mem (by simp; omega),
    List.getElem_append_right (Nat.le_add_right _ _)]
  congr 1
  omega

theorem lineTaken_append (c : HttpConn) (line rest : List Byte) :
    (c.lineTaken line).append rest =
      { ((c.append (line ++ CR :: LF :: rest)).store (c.readIdx + line.length : Nat)).store
          (c.readIdx + line.length + 1 : Nat) with
        checkedIdx := c.readIdx + line.length + 2 } := by
  have bytes_eq : c.append (line ++ CR :: LF :: rest) =
      (c.append (line ++ [CR, LF])).append rest := by
    rw [append_append]
    simp
  rw [bytes_eq, store_append (by simp), store_append (by simp; omega)]
  rfl

theorem AtLine.parseLine_line (atLine : c.AtLine) (plain : Plain line) (rest : List Byte) :
    (c.append (line ++ CR :: LF :: rest)).parseLine = (.ok, (c.lineTaken line).append rest) := by
  have first := c.append_readBuf_tail line (CR :: LF :: rest) (k := 0) (by simp)
  have second := c.append_readBuf_tail line (CR :: LF :: rest) (k := 1) (by simp)
  rw [atLine.parseLine_append plain, lineTaken_append]
  refine (parseLine_cr ?_ first).trans ((if_neg ?_).trans ((if_pos second).trans rfl))
  · simp
  · simp
    omega

/-- While a part of a line is missing, the scanner waits behind its received
bytes, or in front of a carriage return at their end. -/
theorem AtLine.parseLine_open (atLine : c.AtLine) (plain : Plain line) {tail : List Byte}
    (short : tail = [] ∨ tail = [CR]) :
    (c.append (line ++ tail)).parseLine =
      (.open, { c.append (line ++ tail) with checkedIdx := c.readIdx + line.length }) := by
  rw [atLine.parseLine_append plain]
  rcases short with rfl | rfl
  · exact parseLine_end (by simp)
  · have first := c.append_readBuf_tail line [CR] (k := 0) (by simp)
    rw [parseLine_cr (by simp) first, if_pos (by simp; omega)]

/-- The scanner goes on where it has stopped. -/
theorem AtLine.parseLine_resume (atLine : c.AtLine) (plain : Plain line) (tail rest : List Byte) :
    ({ c.append (line ++ tail) with checkedIdx := c.readIdx + line.length }.append rest).parseLine =
      (c.append (line ++ tail ++ rest)).parseLine := by
  have joined := append_append c (line ++ tail) rest
  rw [List.append_assoc, atLine.parseLine_append plain, ← List.append_assoc, ← joined]
  rfl

/-! ## The text of a line -/

theorem lineTaken_endsAt (room : c.readIdx + line.length < READ_BUFFER_SIZE) :
    (c.lineTaken line).EndsAt (c.readIdx + line.length) := by
  refine ⟨?_, room, ?_⟩
  · simp [lineTaken]
  · simp only [lineTaken, store_readBuf]
    simp

theorem lineTaken_str (room : c.readIdx + line.length < READ_BUFFER_SIZE) :
    (c.lineTaken line).str c.readIdx = cstr line := by
  rw [(lineTaken_endsAt room).str_eq (Nat.le_add_right _ _), Nat.add_sub_cancel_left]
  congr 1
  refine List.ext_getElem (by simp) fun k lt _ => ?_
  have inside : k < line.length := by simpa using lt
  simp only [List.getElem_map, List.getElem_range', Nat.one_mul, lineTaken, store_readBuf]
  rw [if_neg (by omega), if_neg (by omega), append_readBuf_of_mem (by simp; omega),
    List.getElem_append_left inside]

end Scanning

/-! ## Handling lines -/

/-- The lines that are handled one after the other, each in front of the
content. -/
inductive Passes (fs : FileSystem) : HttpConn → List (List Byte) → HttpConn → Prop where
  | nil (c : HttpConn) : Passes fs c [] c
  | cons {c d e : HttpConn} {line : List Byte} {lines : List (List Byte)}
      (state : c.checkState ≠ .content) (plain : Plain line)
      (handled : (c.lineTaken line).handleText fs = (.again .ok, d))
      (rest : Passes fs d lines e) : Passes fs c (line :: lines) e

section Handling

variable {fs : FileSystem} {c d : HttpConn} {line : List Byte}

theorem atLine_of_handled {turn : Turn}
    (handled : (c.lineTaken line).handleText fs = (turn, d)) :
    d.AtLine ∧ d.readIdx = c.readIdx + line.length + 2 := by
  have body := handleText_spec handled
  have readIdx_eq : d.readIdx = c.readIdx + line.length + 2 := by
    rw [body.readIdx_eq]
    simp [lineTaken]
    omega
  refine ⟨⟨?_, ?_⟩, readIdx_eq⟩
  · rw [body.startLine_eq, readIdx_eq]
    rfl
  · rw [body.checkedIdx_eq, readIdx_eq]
    rfl

theorem nextText_of_state (state : c.checkState ≠ .content) (status : LineStatus) :
    c.nextText status = c.parseLine := by
  unfold nextText
  rw [if_neg fun content => state content.1]

theorem Loops.congr {c' : HttpConn} {status : LineStatus} {code : HttpCode}
    (text : c.nextText status = c'.nextText status) (loops : Loops fs status c code d) :
    Loops fs status c' code d := by
  cases loops with
  | stop next incomplete => exact .stop (text ▸ next) incomplete
  | result next handled => exact .result (text ▸ next) handled
  | again next handled rest => exact .again (text ▸ next) handled rest

/-- A line that is handled in front of further bytes. -/
theorem AtLine.loops_line (atLine : c.AtLine) (state : c.checkState ≠ .content)
    (plain : Plain line) (room : c.readIdx + line.length < READ_BUFFER_SIZE)
    (handled : (c.lineTaken line).handleText fs = (.again .ok, d)) {rest : List Byte}
    {code : HttpCode} {e : HttpConn} (loops : Loops fs .ok (d.append rest) code e) :
    Loops fs .ok (c.append (line ++ CR :: LF :: rest)) code e := by
  have ends := lineTaken_endsAt room
  have start : (c.lineTaken line).startLine ≤ c.readIdx + line.length := by
    rw [show (c.lineTaken line).startLine = c.startLine from rfl, atLine.start]
    exact Nat.le_add_right _ _
  refine .again ?_ (ends.handleText_append start state handled rest) loops
  rw [nextText_of_state (c := c.append (line ++ CR :: LF :: rest)) state]
  exact atLine.parseLine_line plain rest

theorem Passes.loops {lines : List (List Byte)} (passes : Passes fs c lines d)
    (atLine : c.AtLine) (room : c.readIdx + (wire lines).length ≤ READ_BUFFER_SIZE)
    {rest : List Byte} {code : HttpCode} {e : HttpConn}
    (loops : Loops fs .ok (d.append rest) code e) :
    Loops fs .ok (c.append (wire lines ++ rest)) code e := by
  induction passes with
  | nil c => exact loops
  | cons state plain handled _ ih =>
      simp only [wire_cons, List.length_append, List.length_cons] at room
      obtain ⟨atLine', readIdx_eq⟩ := atLine_of_handled handled
      have inner := ih atLine' (by omega) loops
      rw [wire_cons, List.append_assoc]
      exact atLine.loops_line state plain (by omega) handled inner

theorem Passes.append {e : HttpConn} {first second : List (List Byte)}
    (before : Passes fs c first d) (after : Passes fs d second e) :
    Passes fs c (first ++ second) e := by
  induction before with
  | nil c => exact after
  | cons state plain handled _ ih => exact .cons state plain handled (ih after)

theorem Passes.atLine {lines : List (List Byte)} (passes : Passes fs c lines d)
    (atLine : c.AtLine) : d.AtLine ∧ d.readIdx = c.readIdx + (wire lines).length := by
  induction passes with
  | nil c => exact ⟨atLine, rfl⟩
  | cons state plain handled _ ih =>
      obtain ⟨atLine', readIdx_eq⟩ := atLine_of_handled handled
      obtain ⟨atLine'', readIdx_eq'⟩ := ih atLine'
      refine ⟨atLine'', ?_⟩
      simp only [wire_cons, List.length_append, List.length_cons]
      omega

/-! ## Waiting for the rest of a line -/

/-- Behind these received bytes the main loop waits, and goes on with further
bytes as if they had arrived together. -/
def Quiet (fs : FileSystem) (c : HttpConn) (bytes : List Byte) : Prop :=
  ∃ d, Loops fs .ok (c.append bytes) .noRequest d ∧
    ∀ rest code e, Loops fs .ok (d.append rest) code e →
      Loops fs .ok (c.append (bytes ++ rest)) code e

/-- A part of a line that is missing a byte at least. -/
theorem proper_prefix_cases {line : List Byte} {bytes : List Byte}
    (initial : bytes <+: line ++ [CR, LF]) (proper : bytes.length < line.length + 2) :
    ∃ first tail, bytes = first ++ tail ∧ first <+: line ∧ (tail = [] ∨ tail = [CR]) := by
  by_cases inside : bytes.length ≤ line.length
  · refine ⟨bytes, [], by simp, ?_, Or.inl rfl⟩
    exact List.prefix_of_prefix_length_le initial (List.prefix_append _ _) inside
  · refine ⟨line, [CR], ?_, List.prefix_rfl, Or.inr rfl⟩
    have same : line ++ [CR] <+: line ++ [CR, LF] := ⟨[LF], by simp⟩
    exact (List.prefix_of_prefix_length_le initial same (by simp; omega)).eq_of_length
      (by simp; omega)

/-- A scan that gives no line, and goes on where it has stopped. -/
theorem AtLine.quiet_of_parseLine (atLine : c.AtLine) (state : c.checkState ≠ .content)
    (plain : Plain line) {tail : List Byte} {next : LineStatus} (incomplete : next ≠ .ok)
    (text : (c.append (line ++ tail)).parseLine =
      (next, { c.append (line ++ tail) with checkedIdx := c.readIdx + line.length })) :
    Quiet fs c (line ++ tail) := by
  refine ⟨{ c.append (line ++ tail) with checkedIdx := c.readIdx + line.length }, ?_, ?_⟩
  · refine .stop ?_ incomplete
    rw [nextText_of_state (c := c.append (line ++ tail)) state]
    exact text
  · intro rest code e loops
    refine loops.congr ?_
    rw [nextText_of_state (c := c.append (line ++ tail ++ rest)) state]
    refine (nextText_of_state ?_ _).trans (atLine.parseLine_resume plain tail rest)
    exact state

theorem AtLine.quiet_line (atLine : c.AtLine) (state : c.checkState ≠ .content)
    (plain : Plain line) {bytes : List Byte} (initial : bytes <+: line ++ [CR, LF])
    (proper : bytes.length < line.length + 2) : Quiet fs c bytes := by
  obtain ⟨first, tail, rfl, firstPrefix, short⟩ := proper_prefix_cases initial proper
  have plain' : Plain first := fun byte mem => plain byte (firstPrefix.subset mem)
  exact atLine.quiet_of_parseLine state plain' (by simp) (atLine.parseLine_open plain' short)

/-- The parser waits on every part of some bytes, if it waits on every part of what
stands behind the handled lines. -/
theorem Passes.quiet_behind {lines : List (List Byte)} (passes : Passes fs c lines d)
    (atLine : c.AtLine) {after bytes : List Byte}
    (behind : ∀ part, part <+: after → Quiet fs d part)
    (room : c.readIdx + bytes.length ≤ READ_BUFFER_SIZE)
    (initial : bytes <+: wire lines ++ after) : Quiet fs c bytes := by
  induction passes generalizing bytes with
  | nil c => exact behind bytes initial
  | @cons c d e first lines state' plain' handled _ ih =>
      have first_prefix : first ++ [CR, LF] <+: wire (first :: lines) ++ after :=
        ⟨wire lines ++ after, by simp⟩
      by_cases short : bytes.length < first.length + 2
      · have part := List.prefix_of_prefix_length_le initial first_prefix (by simp; omega)
        exact atLine.quiet_line state' plain' part short
      · obtain ⟨rest, rfl⟩ := List.prefix_of_prefix_length_le first_prefix initial (by simp; omega)
        simp only [List.length_append, List.length_cons, wire_cons, List.append_assoc,
          List.cons_append, List.nil_append] at room initial ⊢
        obtain ⟨atLine', readIdx_eq⟩ := atLine_of_handled handled
        have initial' : rest <+: wire lines ++ after := by
          have tail := (List.prefix_append_right_inj first).mp initial
          exact (List.cons_prefix_cons.mp (List.cons_prefix_cons.mp tail).2).2
        obtain ⟨f, loops, resume⟩ := ih atLine' behind (by omega) initial'
        refine ⟨f, atLine.loops_line state' plain' (by omega) handled loops, ?_⟩
        intro more code g further
        rw [List.append_assoc, List.cons_append, List.cons_append]
        exact atLine.loops_line state' plain' (by omega) handled (resume more code g further)

/-- The parser waits until the last byte of a line has arrived. -/
theorem Passes.quiet {lines : List (List Byte)} (passes : Passes fs c lines d)
    (atLine : c.AtLine) (state : d.checkState ≠ .content) (plain : Plain line)
    {bytes : List Byte} (room : c.readIdx + bytes.length ≤ READ_BUFFER_SIZE)
    (initial : bytes <+: wire lines ++ (line ++ [CR, LF]))
    (proper : bytes.length < (wire lines).length + line.length + 2) : Quiet fs c bytes := by
  have waiting : wire lines ++ (line ++ [CR]) <+: wire lines ++ (line ++ [CR, LF]) :=
    ⟨[LF], by simp⟩
  have behind : ∀ part, part <+: line ++ [CR] → Quiet fs d part := by
    intro part part_prefix
    have short := part_prefix.length_le
    simp only [List.length_append, List.length_cons, List.length_nil] at short
    obtain ⟨atLine', -⟩ := passes.atLine atLine
    have whole : part <+: line ++ [CR, LF] := part_prefix.trans ⟨[LF], by simp⟩
    exact atLine'.quiet_line state plain whole (by omega)
  apply passes.quiet_behind atLine behind room
  apply List.prefix_of_prefix_length_le initial waiting
  simp only [List.length_append, List.length_cons, List.length_nil]
  omega

end Handling

end HttpConn

end NetPractice.Http
