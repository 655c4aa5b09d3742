import NetPractice.LineReader.Reentrant
import NetPractice.Text.LastLine

/-!
# When the two line readers agree

At an end of file behind a part of a line, `readline` returns the number of the bytes that it
has stored, and `readline_r` one more.  That happens unless the bytes behind the last newline
fill the buffer so and so often.
-/

namespace NetPractice.LineReader

open NetPractice.Text

/-! ## Repeated calls -/

section Results

universe u

variable {γ : Type u}

namespace Stream

/-- What calls of `readline` show. -/
def results (view : Int → List Byte → γ) (limit : Nat) : Nat → Stream → List γ
  | 0, _ => []
  | calls + 1, s =>
      view ((s.exit limit).ret 1 (s.piece limit).length) (s.piece limit) ::
        results view limit calls (s.next limit)

/-- The counter of `readline_r` stays in its type. -/
def Counts (limit : Nat) (s : Stream) : Prop :=
  1 + textLength (s.piece limit) ≤ INT_MAX

instance (limit : Nat) (s : Stream) : Decidable (s.Counts limit) :=
  inferInstanceAs (Decidable (_ ≤ _))

/-- What calls of `readline_r` show. -/
def resultsR (view : Int → List Byte → γ) (limit : Nat) : Nat → Stream → Option (List γ)
  | 0, _ => some []
  | calls + 1, s =>
      if s.Counts limit then
        (resultsR view limit calls (s.next limit)).map
          (view ((s.exit limit).retR 1 (s.piece limit).length) (s.piece limit) :: ·)
      else none

/-- Two series of calls show the same if each pair of calls does. -/
theorem resultsR_eq_iff {view viewR : Int → List Byte → γ} {limit : Nat}
    {same : Stream → Prop}
    (one : ∀ s : Stream, same s ↔ s.Counts limit ∧
      viewR ((s.exit limit).retR 1 (s.piece limit).length) (s.piece limit) =
        view ((s.exit limit).ret 1 (s.piece limit).length) (s.piece limit))
    (calls : Nat) (s : Stream) :
    s.resultsR viewR limit calls = some (s.results view limit calls) ↔
      ∀ k < calls, same ((next limit)^[k] s) := by
  induction calls generalizing s with
  | zero => simp [results, resultsR]
  | succ calls ih =>
      have split : (∀ k < calls + 1, same ((next limit)^[k] s)) ↔
          same s ∧ ∀ k < calls, same ((next limit)^[k] (s.next limit)) := by
        constructor
        · intro all
          refine ⟨all 0 (Nat.succ_pos _), fun k below => ?_⟩
          exact all (k + 1) (Nat.succ_lt_succ below)
        · rintro ⟨first, rest⟩ (_ | k) below
          · exact first
          · exact rest k (Nat.lt_of_succ_lt_succ below)
      rw [split, one s, ← ih, results, resultsR]
      by_cases counts : s.Counts limit
      · rw [if_pos counts, Option.map_eq_some_iff]
        constructor
        · rintro ⟨rest, eq, cons⟩
          rcases List.cons.inj cons with ⟨head, tail⟩
          exact ⟨⟨counts, head⟩, tail ▸ eq⟩
        · rintro ⟨⟨-, head⟩, eq⟩
          exact ⟨_, eq, by rw [head]⟩
      · rw [if_neg counts]
        constructor
        · intro none
          cases none
        · rintro ⟨⟨holds, -⟩, -⟩
          exact absurd holds counts

theorem resultsR_all_iff {view viewR : Int → List Byte → γ} {limit : Nat}
    {same : Stream → Prop}
    (one : ∀ s : Stream, same s ↔ s.Counts limit ∧
      viewR ((s.exit limit).retR 1 (s.piece limit).length) (s.piece limit) =
        view ((s.exit limit).ret 1 (s.piece limit).length) (s.piece limit))
    (s : Stream) :
    (∀ calls, s.resultsR viewR limit calls = some (s.results view limit calls)) ↔
      ∀ k, same ((next limit)^[k] s) := by
  constructor
  · intro all k
    exact (resultsR_eq_iff one (k + 1) s).mp (all (k + 1)) k (Nat.lt_succ_self k)
  · intro all calls
    exact (resultsR_eq_iff one calls s).mpr fun k _ => all k

end Stream

theorem Lib.results_eq (view : Int → List Byte → γ) (maxlen calls : Nat) (r : Rline)
    (answers : List Answer) :
    Lib.results view maxlen calls r answers =
      (Stream.ofReader r answers).results view (maxlen - 1) calls := by
  induction calls generalizing r answers with
  | zero => rfl
  | succ calls ih =>
      rcases scan_spec (maxlen - 1) r answers with ⟨piece, exit, next⟩
      rw [Lib.results, Lib.readline, readLoop_eq_scan]
      dsimp only
      rw [ih, next, piece, exit]
      rfl

theorem Reentrant.results_eq (view : Int → List Byte → γ) (calls : Nat) (rptr : RlineR)
    (answers : List Answer) :
    Reentrant.results view calls rptr answers =
      (Stream.ofReader rptr.rl answers).resultsR view (rptr.maxlen - 1) calls := by
  induction calls generalizing rptr answers with
  | zero => rfl
  | succ calls ih =>
      rcases scan_spec (rptr.maxlen - 1) rptr.rl answers with ⟨piece, exit, next⟩
      rw [Reentrant.results, readlineR, readLoopR_eq_scan _ _ _ _ _ (by decide)]
      rw [piece, exit, Stream.resultsR]
      by_cases counts : (Stream.ofReader rptr.rl answers).Counts (rptr.maxlen - 1)
      · have defined : 1 + textLength
            ((Stream.ofReader rptr.rl answers).piece (rptr.maxlen - 1)) ≤ INT_MAX := counts
        rw [if_pos counts, if_pos defined, Option.map_some, Option.bind_some, ih, next]
        rfl
      · have overflow : ¬ 1 + textLength
            ((Stream.ofReader rptr.rl answers).piece (rptr.maxlen - 1)) ≤ INT_MAX := counts
        rw [if_neg counts, if_neg overflow]
        rfl

end Results

namespace Stream

/-! ## The calls that agree -/

/-- The parts of the stream between its errors. -/
def segments (s : Stream) : List (List Byte) :=
  s.current :: s.later

/-- The bytes behind the last error, in front of the end of file. -/
def last (s : Stream) : List Byte :=
  s.segments.getLast (List.cons_ne_nil _ _)

/-- The end of the stream is the end of a line, or of a full buffer. -/
def Completed (limit : Nat) (s : Stream) : Prop :=
  limit = 0 ∨ limit ∣ (behindLast newline s.last).length

/-- All lines can be counted by an `int`. -/
def ShortLines (segment : List Byte) : Prop :=
  ∀ line ∈ segment.splitOn newline, line.length < INT_MAX

/-- A call cannot take more bytes than an `int` counts, or does not find them. -/
def Counted (limit : Nat) (s : Stream) : Prop :=
  limit < INT_MAX ∨ ∀ segment ∈ s.segments, ShortLines segment

/-- Both readers return the same. -/
def Agrees (limit : Nat) (s : Stream) : Prop :=
  s.Counts limit ∧ (s.exit limit = .eof → s.piece limit = [])

theorem shortLines_of_notMem {segment : List Byte} (none : newline ∉ segment) :
    ShortLines segment ↔ segment.length < INT_MAX := by
  rw [ShortLines, List.splitOn_eq_singleton none, List.forall_mem_singleton]

theorem shortLines_newline {text : List Byte} (none : newline ∉ text) (rest : List Byte) :
    ShortLines (text ++ newline :: rest) ↔ text.length < INT_MAX ∧ ShortLines rest := by
  rw [ShortLines, List.splitOn_append_cons_self_of_not_mem none, List.forall_mem_cons, ShortLines]

theorem ShortLines.length_lt {text rest : List Byte} (short : ShortLines (text ++ rest))
    (none : newline ∉ text) : text.length < INT_MAX := by
  by_cases mem : newline ∈ rest
  · rcases List.eq_append_cons_of_mem mem with ⟨front, back, rfl, noneFront⟩
    have noneBoth : newline ∉ text ++ front := fun both =>
      (List.mem_append.mp both).elim none noneFront
    rw [← List.append_assoc, shortLines_newline noneBoth, List.length_append] at short
    omega
  · have noneBoth : newline ∉ text ++ rest := fun both => (List.mem_append.mp both).elim none mem
    rw [shortLines_of_notMem noneBoth, List.length_append] at short
    omega

@[simp]
theorem textLength_of_notMem {text : List Byte} (none : newline ∉ text) :
    textLength text = text.length := by
  rw [textLength, List.filter_eq_self.mpr]
  intro c mem
  apply decide_eq_true
  rintro rfl
  exact none mem

theorem textLength_newline {text : List Byte} (none : newline ∉ text) :
    textLength (text ++ [newline]) = text.length := by
  rw [← textLength_of_notMem none, textLength, List.filter_append, List.length_append]
  rfl

theorem completed_newline {limit : Nat} (text rest : List Byte) (later : List (List Byte)) :
    Completed limit ⟨text ++ newline :: rest, later⟩ ↔ Completed limit ⟨rest, later⟩ := by
  cases later with
  | nil =>
      change _ ∨ limit ∣ (behindLast newline (text ++ newline :: rest)).length ↔
        _ ∨ limit ∣ (behindLast newline rest).length
      rw [behindLast_append_cons]
  | cons current later => exact Iff.rfl

theorem completed_full {limit : Nat} {text : List Byte} (none : newline ∉ text)
    (length_eq : text.length = limit) (rest : List Byte) (later : List (List Byte)) :
    Completed limit ⟨text ++ rest, later⟩ ↔ Completed limit ⟨rest, later⟩ := by
  cases later with
  | nil => exact or_congr_right (dvd_behindLast_append (Or.inr ⟨none, length_eq⟩) rest)
  | cons current later => exact Iff.rfl

theorem completed_eof {limit : Nat} {text : List Byte} (none : newline ∉ text)
    (short : text.length < limit) : Completed limit ⟨text, []⟩ ↔ text = [] := by
  change limit = 0 ∨ limit ∣ (behindLast newline text).length ↔ text = []
  rw [behindLast_of_notMem none]
  constructor
  · rintro (zero | divides)
    · omega
    · exact List.eq_nil_of_length_eq_zero (Nat.eq_zero_of_dvd_of_lt divides short)
  · rintro rfl
    exact Or.inr (Nat.dvd_zero _)

theorem counted_cons {limit : Nat} {first : List Byte} {current : List Byte}
    {later : List (List Byte)} :
    Counted limit ⟨first, current :: later⟩ ↔
      (limit < INT_MAX ∨ ShortLines first) ∧ Counted limit ⟨current, later⟩ := by
  simp only [Counted, segments, List.forall_mem_cons]
  tauto

/-- The condition on the stream is one on the next call and on the stream behind it. -/
theorem completed_counted_iff {limit : Nat} (s : Stream) :
    Completed limit s ∧ Counted limit s ↔
      Agrees limit s ∧ Completed limit (s.next limit) ∧ Counted limit (s.next limit) := by
  have call := call_spec limit s
  unfold Agrees Counts
  generalize s.exit limit = exit at call ⊢
  generalize s.piece limit = piece at call ⊢
  generalize s.next limit = after at call ⊢
  cases call with
  | newline text rest later noNewline short =>
      rw [completed_newline, textLength_newline noNewline]
      simp only [Counted, segments, List.forall_mem_cons, shortLines_newline noNewline]
      by_cases bounded : limit < INT_MAX
      · have counts : 1 + text.length ≤ INT_MAX := by omega
        simp [bounded, counts]
      · have counts_iff : 1 + text.length ≤ INT_MAX ↔ text.length < INT_MAX := by omega
        simp only [bounded, false_or, counts_iff, reduceCtorEq, false_implies, and_true]
        tauto
  | full _ rest later noNewline length_eq =>
      rw [completed_full noNewline length_eq, textLength_of_notMem noNewline, length_eq]
      by_cases bounded : limit < INT_MAX
      · have counts : 1 + limit ≤ INT_MAX := by omega
        simp [Counted, bounded, counts]
      · -- neither can a full buffer be counted, nor is its line short
        have overflow : ¬ 1 + limit ≤ INT_MAX := by omega
        have long : ¬ Counted limit ⟨piece ++ rest, later⟩ := by
          rintro (below | allShort)
          · exact bounded below
          · have below := (allShort _ List.mem_cons_self).length_lt noNewline
            omega
        simp [overflow, long]
  | eof text noNewline short =>
      rw [completed_eof noNewline short, textLength_of_notMem noNewline]
      have counted : Counted limit ⟨[], []⟩ := by
        right
        intro segment mem
        rw [List.mem_singleton.mp mem]
        exact (shortLines_of_notMem List.not_mem_nil).mpr (by decide)
      have completed : Completed limit ⟨[], []⟩ := Or.inr (Nat.dvd_zero _)
      constructor
      · rintro ⟨rfl, -⟩
        exact ⟨⟨by decide, fun _ => rfl⟩, completed, counted⟩
      · rintro ⟨⟨-, empty⟩, -, -⟩
        obtain rfl := empty rfl
        exact ⟨rfl, counted⟩
  | error _ current later noNewline short =>
      rw [counted_cons, shortLines_of_notMem noNewline, textLength_of_notMem noNewline]
      have counts_iff : 1 + piece.length ≤ INT_MAX ↔
          limit < INT_MAX ∨ piece.length < INT_MAX := by omega
      have completed_iff : Completed limit ⟨piece, current :: later⟩ ↔
          Completed limit ⟨current, later⟩ := Iff.rfl
      simp only [completed_iff, counts_iff, reduceCtorEq, false_implies, and_true]
      tauto

/-- A call that takes bytes comes nearer to the end of the stream. -/
theorem calls_induction {limit : Nat} (positive : 0 < limit) {motive : Stream → Prop}
    (ended : ∀ s, s.exit limit = .eof → motive s)
    (call : ∀ s, motive (s.next limit) → motive s) (s : Stream) : motive s := by
  induction known : s.current.length + (s.later.map fun segment => segment.length + 1).sum
    using Nat.strong_induction_on generalizing s with
  | _ size ih =>
      subst known
      have taken := call_spec limit s
      by_cases eof : s.exit limit = .eof
      · exact ended s eof
      · apply call
        apply ih _ _ _ rfl
        generalize s.exit limit = exit at taken eof
        generalize s.piece limit = piece at taken
        generalize s.next limit = after at taken ⊢
        cases taken with
        | newline text rest later noNewline short =>
            simp only [List.length_append, List.length_cons]
            omega
        | full text rest later noNewline length_eq =>
            simp only [List.length_append]
            omega
        | eof => exact absurd rfl eof
        | error text current later noNewline short =>
            simp only [List.map_cons, List.sum_cons]
            omega

theorem agrees_all_iff (limit : Nat) (s : Stream) :
    (∀ k, Agrees limit ((next limit)^[k] s)) ↔ Completed limit s ∧ Counted limit s := by
  constructor
  · intro all
    rcases Nat.eq_zero_or_pos limit with zero | positive
    · exact ⟨Or.inl zero, Or.inl (zero ▸ by decide)⟩
    · induction s using calls_induction positive with
      | ended s eof =>
          have here : Agrees limit s := all 0
          have call := call_spec limit s
          rw [eof, here.2 eof] at call
          generalize s.next limit = after at call
          cases call with
          | eof _ none short =>
              refine ⟨Or.inr (Nat.dvd_zero _), Or.inr fun segment mem => ?_⟩
              rw [List.mem_singleton.mp mem]
              exact (shortLines_of_notMem List.not_mem_nil).mpr (by decide)
      | call s ih => exact (completed_counted_iff s).mpr ⟨all 0, ih fun k => all (k + 1)⟩
  · intro closed k
    induction k generalizing s with
    | zero => exact ((completed_counted_iff s).mp closed).1
    | succ k ih => exact ih _ ((completed_counted_iff s).mp closed).2

/-- The two return values differ at an end of file behind a part of a line. -/
theorem agrees_iff (limit : Nat) (s : Stream) :
    Agrees limit s ↔ s.Counts limit ∧
      ((s.exit limit).retR 1 (s.piece limit).length, s.piece limit) =
        ((s.exit limit).ret 1 (s.piece limit).length, s.piece limit) := by
  apply and_congr_right
  intro _
  rw [Prod.mk.injEq, and_iff_left rfl, ← List.length_eq_zero_iff]
  cases s.exit limit with
  | newline | full | error => simp [Exit.ret, Exit.retR]
  | eof =>
      simp only [Exit.ret, Exit.retR, true_implies]
      split <;> omega

/-- A line that is returned is terminated by both. -/
theorem written_of_pos {ret : Int} (positive : 0 < ret) (stored : List Byte) :
    Reentrant.written ret stored = Lib.written ret stored := by
  rw [Reentrant.written, Lib.written, if_neg (Int.not_le.mpr positive),
    if_neg (Int.not_lt.mpr (Int.le_of_lt positive))]

/-- With the terminating NUL, the calls differ at every end of file. -/
theorem written_iff (limit : Nat) (s : Stream) :
    s.Counts limit ∧ s.exit limit ≠ .eof ↔ s.Counts limit ∧
      Reentrant.written ((s.exit limit).retR 1 (s.piece limit).length) (s.piece limit) =
        Lib.written ((s.exit limit).ret 1 (s.piece limit).length) (s.piece limit) := by
  apply and_congr_right
  intro _
  have call := call_spec limit s
  generalize s.exit limit = exit at call ⊢
  generalize s.piece limit = piece at call ⊢
  generalize s.next limit = after at call
  cases call with
  | newline text rest later noNewline short =>
      apply iff_of_true Exit.noConfusion
      apply written_of_pos
      change (0 : Int) < (1 : Nat) + (text ++ [LineReader.newline]).length - 1
      rw [List.length_append, List.length_singleton]
      omega
  | full _ rest later noNewline length_eq =>
      apply iff_of_true Exit.noConfusion
      apply written_of_pos
      change (0 : Int) < (1 : Nat) + piece.length
      omega
  | eof _ noNewline short =>
      apply iff_of_false fun other => other rfl
      intro equal
      cases piece with
      | nil => exact absurd equal (by decide)
      | cons c rest =>
          have ret_eq := congrArg Prod.fst equal
          simp only [Reentrant.written, Lib.written, Exit.ret, Exit.retR,
            List.length_cons] at ret_eq
          rw [if_neg (by omega)] at ret_eq
          omega
  | error _ current later noNewline short => exact iff_of_true Exit.noConfusion rfl

theorem written_all_iff (limit : Nat) (s : Stream) :
    (∀ k, Counts limit ((next limit)^[k] s) ∧ exit limit ((next limit)^[k] s) ≠ .eof) ↔
      limit = 0 := by
  constructor
  · intro all
    by_contra positive
    induction s using calls_induction (Nat.pos_of_ne_zero positive) with
    | ended s eof => exact (all 0).2 eof
    | call s ih => exact ih fun k => all (k + 1)
  · rintro rfl k
    generalize (next 0)^[k] s = t
    have counts : 1 + textLength [] ≤ INT_MAX := by decide
    exact ⟨counts, Exit.noConfusion⟩

end Stream

/-! ## The two readers -/

/-- The stream behind these answers. -/
def segments (answers : List Answer) : List (List Byte) :=
  (Stream.ofAnswers answers).segments

/-- For every stream, however it is cut into answers, and every `maxlen`: all calls of
`readline_r` behind `readline_rinit` return and store the same as those of `readline`, exactly
if the bytes behind the last newline, in front of the end of file, fill the buffer so and so
often, and no line is too long for an `int`.  If the terminating NUL counts, too, that is only
so when nothing is read. -/
theorem readlineR_agrees_iff (buffer : Rline) (answers : List Answer) (maxlen : Nat) :
    ((∀ calls, Reentrant.results Prod.mk calls (readlineRinit buffer maxlen) answers =
        some (Lib.results Prod.mk maxlen calls .zero answers)) ↔
      (maxlen ≤ 1 ∨
        maxlen - 1 ∣ (behindLast newline (Stream.ofAnswers answers).last).length) ∧
      (maxlen ≤ INT_MAX ∨
        ∀ segment ∈ segments answers, ∀ line ∈ segment.splitOn newline, line.length < INT_MAX)) ∧
    ((∀ calls, Reentrant.results Reentrant.written calls (readlineRinit buffer maxlen) answers =
        some (Lib.results Lib.written maxlen calls .zero answers)) ↔
      maxlen ≤ 1) := by
  have fresh : Stream.ofReader .zero answers = Stream.ofAnswers answers :=
    Stream.ofReader_of_pending rfl answers
  have initialised : Stream.ofReader (readlineRinit buffer maxlen).rl answers =
      Stream.ofAnswers answers := by
    apply Stream.ofReader_of_pending
    exact pending_of_nonpos (r := (readlineRinit buffer maxlen).rl) (Int.lt_irrefl 0)
  have size : (readlineRinit buffer maxlen).maxlen = maxlen := rfl
  simp only [Lib.results_eq, Reentrant.results_eq, fresh, initialised, size]
  have one : maxlen - 1 = 0 ↔ maxlen ≤ 1 := by omega
  have most : maxlen - 1 < INT_MAX ↔ maxlen ≤ INT_MAX := by
    unfold INT_MAX
    omega
  constructor
  · rw [Stream.resultsR_all_iff (Stream.agrees_iff (maxlen - 1)), Stream.agrees_all_iff,
      Stream.Completed, Stream.Counted, one, most]
    rfl
  · exact (Stream.resultsR_all_iff (Stream.written_iff (maxlen - 1)) _).trans
      ((Stream.written_all_iff _ _).trans one)

/-- `ab`, a newline and `x`: the last line is not terminated. -/
def unterminated : List Answer :=
  [.data ⟨[97, 98, 10, 120], by decide, by decide⟩]

/-- `readline` returns 1 for the last line, and `readline_r` returns 2. -/
theorem unterminated_disagrees :
    Lib.results Prod.mk 10 3 .zero unterminated = [(3, [97, 98, 10]), (1, [120]), (0, [])] ∧
    Reentrant.results Prod.mk 3 (readlineRinit .zero 10) unterminated =
      some [(3, [97, 98, 10]), (2, [120]), (0, [])] ∧
    ¬ ∀ calls, Reentrant.results Prod.mk calls (readlineRinit .zero 10) unterminated =
      some (Lib.results Prod.mk 10 calls .zero unterminated) := by
  have lib : Lib.results Prod.mk 10 3 .zero unterminated =
      [(3, [97, 98, 10]), (1, [120]), (0, [])] := by
    decide +kernel
  have reentrant : Reentrant.results Prod.mk 3 (readlineRinit .zero 10) unterminated =
      some [(3, [97, 98, 10]), (2, [120]), (0, [])] := by
    decide +kernel
  refine ⟨lib, reentrant, fun all => ?_⟩
  have same := all 3
  rw [lib, reentrant] at same
  exact absurd same (by decide)

end NetPractice.LineReader
