import NetPractice.LineReader.Core
import Mathlib.Data.List.Infix

/-!
# The stream behind a line reader

What a call takes depends on the stream alone: the bytes in front of the next error or the end
of file, and what comes behind each error.  `readline` is a counter around a loop that is left
in four ways; another reader with this loop differs in what it makes of its counter only.
-/

namespace NetPractice.LineReader

open NetPractice.Text

/-! ## Lines of a stream -/

/-- The bytes of a stream up to and including the first newline, but at most `limit`. -/
def takeLine : Nat → List Byte → List Byte
  | 0, _ | _, [] => []
  | limit + 1, c :: rest => if c = newline then [c] else c :: takeLine limit rest

@[simp]
theorem takeLine_zero (stream : List Byte) : takeLine 0 stream = [] :=
  rfl

@[simp]
theorem takeLine_nil (limit : Nat) : takeLine limit [] = [] := by
  cases limit <;> rfl

theorem takeLine_cons_newline (limit : Nat) (rest : List Byte) :
    takeLine (limit + 1) (newline :: rest) = [newline] :=
  if_pos rfl

theorem takeLine_cons_of_ne {c : Byte} (ne : c ≠ newline) (limit : Nat) (rest : List Byte) :
    takeLine (limit + 1) (c :: rest) = c :: takeLine limit rest :=
  if_neg ne

/-- A line is a part of the first `limit` bytes. -/
theorem takeLine_isPrefix (limit : Nat) (stream : List Byte) :
    takeLine limit stream <+: stream.take limit := by
  induction limit generalizing stream with
  | zero => exact List.nil_prefix
  | succ limit ih =>
      cases stream with
      | nil => exact List.nil_prefix
      | cons c rest =>
          rw [List.take_succ_cons]
          by_cases ends : c = newline
          · rw [ends, takeLine_cons_newline]
            exact List.cons_prefix_cons.mpr ⟨rfl, List.nil_prefix⟩
          · rw [takeLine_cons_of_ne ends]
            exact List.cons_prefix_cons.mpr ⟨rfl, ih rest⟩

/-- A line begins its stream. -/
theorem takeLine_isPrefix_stream (limit : Nat) (stream : List Byte) :
    takeLine limit stream <+: stream := by
  have begins := List.take_prefix limit stream
  exact (takeLine_isPrefix limit stream).trans begins

theorem newline_mem_takeLine (limit : Nat) (stream : List Byte) :
    newline ∈ takeLine limit stream ↔ newline ∈ stream.take limit := by
  induction limit generalizing stream with
  | zero => simp
  | succ limit ih =>
      cases stream with
      | nil => simp
      | cons c rest =>
          by_cases ends : c = newline
          · rw [ends, takeLine_cons_newline, List.take_succ_cons]
            simp
          · rw [takeLine_cons_of_ne ends, List.take_succ_cons, List.mem_cons, List.mem_cons, ih]

/-- Without a newline, the line has all the bytes that there are, up to the limit. -/
theorem takeLine_eq_take {limit : Nat} {stream : List Byte}
    (open' : newline ∉ takeLine limit stream) : takeLine limit stream = stream.take limit := by
  induction limit generalizing stream with
  | zero => rfl
  | succ limit ih =>
      cases stream with
      | nil => rfl
      | cons c rest =>
          by_cases ends : c = newline
          · rw [ends, takeLine_cons_newline] at open'
            exact absurd (List.mem_singleton.mpr rfl) open'
          · rw [takeLine_cons_of_ne ends] at open' ⊢
            rw [List.take_succ_cons, ih fun mem => open' (List.mem_cons_of_mem c mem)]

/-- What follows does not change a line that is complete or as long as it may be. -/
theorem takeLine_append {limit : Nat} {stream : List Byte}
    (ends : newline ∈ takeLine limit stream ∨ (takeLine limit stream).length = limit)
    (more : List Byte) : takeLine limit (stream ++ more) = takeLine limit stream := by
  induction limit generalizing stream with
  | zero => rfl
  | succ limit ih =>
      cases stream with
      | nil =>
          rcases ends with mem | full
          · cases mem
          · cases full
      | cons c rest =>
          rw [List.cons_append]
          by_cases isNewline : c = newline
          · rw [isNewline, takeLine_cons_newline, takeLine_cons_newline]
          · rw [takeLine_cons_of_ne isNewline] at ends
            rw [takeLine_cons_of_ne isNewline, takeLine_cons_of_ne isNewline, ih]
            rcases ends with mem | full
            · exact Or.inl (List.mem_of_ne_of_mem (Ne.symm isNewline) mem)
            · exact Or.inr (Nat.succ.inj full)

/-- A line with its newline begins the stream. -/
theorem takeLine_of_mem {limit : Nat} {stream : List Byte}
    (mem : newline ∈ takeLine limit stream) :
    ∃ text rest, newline ∉ text ∧ stream = text ++ newline :: rest ∧
      takeLine limit stream = text ++ [newline] := by
  induction limit generalizing stream with
  | zero => cases mem
  | succ limit ih =>
      cases stream with
      | nil => cases mem
      | cons c stream =>
          by_cases ends : c = newline
          · subst ends
            exact ⟨[], stream, List.not_mem_nil, rfl, takeLine_cons_newline limit stream⟩
          · rw [takeLine_cons_of_ne ends] at mem ⊢
            rcases ih (List.mem_of_ne_of_mem (Ne.symm ends) mem) with
              ⟨text, rest, noNewline, stream_eq, line_eq⟩
            refine ⟨c :: text, rest, ?_, congrArg (c :: ·) stream_eq, congrArg (c :: ·) line_eq⟩
            rw [List.mem_cons, not_or]
            exact ⟨Ne.symm ends, noNewline⟩

/-! ## The stream -/

/-- The bytes that are left in the buffer. -/
def Rline.pending (r : Rline) : List Byte :=
  (r.buf.drop r.bufptr).take r.cnt.toNat

@[simp]
theorem pending_failed (r : Rline) (cnt : Int) (none : cnt ≤ 0) :
    (r.failed cnt none).pending = [] := by
  change (r.buf.drop r.bufptr).take cnt.toNat = []
  rw [Int.toNat_of_nonpos none, List.take_zero]

theorem pending_of_nonpos {r : Rline} (none : ¬ 0 < r.cnt) : r.pending = [] := by
  unfold Rline.pending
  rw [Int.toNat_of_nonpos (by omega), List.take_zero]

theorem pending_filled (r : Rline) (chunk : Chunk) : (r.filled chunk).pending = chunk.bytes := by
  change (List.drop 0 (chunk.bytes ++ _)).take (chunk.bytes.length : Int).toNat = _
  rw [List.drop_zero, Int.toNat_natCast, List.take_left]

/-- A byte is taken from the front of the buffer. -/
theorem pending_pop (r : Rline) (some : 0 < r.cnt) :
    r.pending = (r.pop some).1 :: (r.pop some).2.pending := by
  have inside := r.inside
  have count : r.cnt.toNat = (r.cnt - 1).toNat + 1 := by omega
  have below : r.bufptr < r.buf.length := by omega
  change (r.buf.drop r.bufptr).take r.cnt.toNat =
    r.buf[r.bufptr] :: (r.buf.drop (r.bufptr + 1)).take (r.cnt - 1).toNat
  rw [count, List.drop_eq_getElem_cons below, List.take_succ_cons]

/-- The bytes in front of the next error, or of the end of file, and the bytes behind each
error. -/
structure Stream where
  current : List Byte
  later : List (List Byte)
  deriving DecidableEq, Repr

namespace Stream

/-- All bytes of a stream. -/
def all (s : Stream) : List Byte :=
  s.current ++ s.later.flatten

/-- What some answers of `read` hold. -/
def ofAnswers : List Answer → Stream
  | [] => ⟨[], []⟩
  | .interrupted :: answers => ofAnswers answers
  | .fail :: answers => ⟨[], (ofAnswers answers).current :: (ofAnswers answers).later⟩
  | .data chunk :: answers =>
      ⟨chunk.bytes ++ (ofAnswers answers).current, (ofAnswers answers).later⟩

/-- What is in the buffer comes first. -/
def ofReader (r : Rline) (answers : List Answer) : Stream :=
  ⟨r.pending ++ (ofAnswers answers).current, (ofAnswers answers).later⟩

theorem ofReader_of_pending {r : Rline} (none : r.pending = []) (answers : List Answer) :
    ofReader r answers = ofAnswers answers := by
  unfold ofReader
  rw [none, List.nil_append]

end Stream

/-- What `my_read` does to the stream. -/
inductive Takes (s : Stream) : MyRead × Rline × List Answer → Prop where
  | byte {c : Byte} {r : Rline} {answers : List Answer}
      (stream : s = ⟨c :: (Stream.ofReader r answers).current, (Stream.ofReader r answers).later⟩) :
      Takes s (.byte c, r, answers)
  | eof {r : Rline} {answers : List Answer} (stream : s = ⟨[], []⟩)
      (after : Stream.ofReader r answers = ⟨[], []⟩) : Takes s (.eof, r, answers)
  | error {r : Rline} {answers : List Answer}
      (stream : s = ⟨[], (Stream.ofReader r answers).current ::
        (Stream.ofReader r answers).later⟩) : Takes s (.error, r, answers)

theorem readAgain_takes (r : Rline) (answers : List Answer) :
    Takes (Stream.ofAnswers answers) (readAgain r answers) := by
  induction answers with
  | nil =>
      apply Takes.eof
      · rfl
      · exact Stream.ofReader_of_pending (pending_failed r 0 _) []
  | cons answer answers ih =>
      cases answer with
      | interrupted => exact ih
      | fail =>
          apply Takes.error
          rw [Stream.ofReader_of_pending (pending_failed r (-1) _)]
          rfl
      | data chunk =>
          have first := pending_pop (r.filled chunk) (r.filled_pos chunk)
          rw [pending_filled] at first
          apply Takes.byte
          rw [Stream.ofAnswers, first]
          rfl

theorem myRead_takes (r : Rline) (answers : List Answer) :
    Takes (Stream.ofReader r answers) (myRead r answers) := by
  unfold myRead
  by_cases some : 0 < r.cnt
  · rw [dif_pos some]
    apply Takes.byte
    unfold Stream.ofReader
    rw [pending_pop r some]
    rfl
  · rw [dif_neg some, Stream.ofReader_of_pending (pending_of_nonpos some)]
    exact readAgain_takes r answers

/-! ## One loop for both readers -/

/-- How the loop of a call is left. -/
inductive Exit where
  | newline | full | eof | error
  deriving DecidableEq, Repr

/-- What the loop of a call has taken. -/
structure Scan where
  exit : Exit
  piece : List Byte
  reader : Rline
  answers : List Answer

/-- The loop of both readers, without the counter. -/
def scan : Nat → Rline → List Answer → Scan
  | 0, r, answers => ⟨.full, [], r, answers⟩
  | left + 1, r, answers =>
      match myRead r answers with
      | (.byte c, r, answers) =>
          if c = newline then ⟨.newline, [c], r, answers⟩
          else { scan left r answers with piece := c :: (scan left r answers).piece }
      | (.eof, r, answers) => ⟨.eof, [], r, answers⟩
      | (.error, r, answers) => ⟨.error, [], r, answers⟩

section Scan

variable {left : Nat} {r r' : Rline} {answers answers' : List Answer}
  {c : Byte}

theorem scan_newline (read : myRead r answers = (.byte newline, r', answers')) :
    scan (left + 1) r answers = ⟨.newline, [newline], r', answers'⟩ := by
  rw [scan, read]
  rfl

theorem scan_of_ne (read : myRead r answers = (.byte c, r', answers')) (ne : c ≠ newline) :
    scan (left + 1) r answers =
      { scan left r' answers' with piece := c :: (scan left r' answers').piece } := by
  rw [scan, read]
  exact if_neg ne

theorem scan_eof (read : myRead r answers = (.eof, r', answers')) :
    scan (left + 1) r answers = ⟨.eof, [], r', answers'⟩ := by
  rw [scan, read]

theorem scan_error (read : myRead r answers = (.error, r', answers')) :
    scan (left + 1) r answers = ⟨.error, [], r', answers'⟩ := by
  rw [scan, read]

/-- What `readline` returns for the counter `n` in front of the loop. -/
def Exit.ret (exit : Exit) (n taken : Nat) : Int :=
  match exit with
  | .newline | .eof => n + taken - 1
  | .full => n + taken
  | .error => -1

theorem Exit.ret_succ (exit : Exit) (n taken : Nat) :
    exit.ret (n + 1) taken = exit.ret n (taken + 1) := by
  cases exit with
  | newline | full | eof =>
      simp only [Exit.ret]
      omega
  | error => rfl

theorem readLoop_eq_scan (left n : Nat) (stored : List Byte) (r : Rline)
    (answers : List Answer) :
    readLoop left n stored r answers =
      ⟨(scan left r answers).exit.ret n (scan left r answers).piece.length,
        stored ++ (scan left r answers).piece, (scan left r answers).reader,
        (scan left r answers).answers⟩ := by
  induction left generalizing n stored r answers with
  | zero => simp [readLoop, scan, Exit.ret]
  | succ left ih =>
      rcases read : myRead r answers with ⟨c | _ | _, r', answers'⟩
      · rw [readLoop, read]
        dsimp only
        by_cases ends : c = newline
        · subst ends
          rw [if_pos rfl, scan_newline read]
          simp [Exit.ret]
        · rw [if_neg ends, scan_of_ne read ends, ih, Exit.ret_succ, List.append_assoc]
          rfl
      · rw [readLoop, read, scan_eof read]
        simp [Exit.ret]
      · rw [readLoop, read, scan_error read]
        simp [Exit.ret]

end Scan

/-! ## One call -/

namespace Stream

variable (limit : Nat) (s : Stream)

/-- The part of the stream that a call stores. -/
def piece : List Byte :=
  takeLine limit s.current

/-- How a call leaves its loop. -/
def exit : Exit :=
  if newline ∈ s.piece limit then .newline
  else if (s.piece limit).length = limit then .full
  else if s.later = [] then .eof
  else .error

/-- The stream behind a call. -/
def next : Stream :=
  match s.exit limit, s.later with
  | .error, current :: later => ⟨current, later⟩
  | _, _ => { s with current := s.current.drop (s.piece limit).length }

variable {limit} {c : Byte} {current : List Byte} {later : List (List Byte)}

theorem piece_cons (ne : c ≠ newline) :
    piece (limit + 1) ⟨c :: current, later⟩ = c :: piece limit ⟨current, later⟩ :=
  takeLine_cons_of_ne ne limit current

theorem exit_cons (ne : c ≠ newline) :
    exit (limit + 1) ⟨c :: current, later⟩ = exit limit ⟨current, later⟩ := by
  have mem_iff : newline ∈ c :: piece limit ⟨current, later⟩ ↔
      newline ∈ piece limit ⟨current, later⟩ := by
    rw [List.mem_cons]
    exact or_iff_right (Ne.symm ne)
  simp only [exit, piece_cons ne, mem_iff, List.length_cons, Nat.succ_inj]

theorem next_cons (ne : c ≠ newline) :
    next (limit + 1) ⟨c :: current, later⟩ = next limit ⟨current, later⟩ := by
  simp only [next, exit_cons ne, piece_cons ne, List.length_cons, List.drop_succ_cons]

end Stream

/-- A call sees the stream only. -/
theorem scan_spec (left : Nat) (r : Rline) (answers : List Answer) :
    (scan left r answers).piece = (Stream.ofReader r answers).piece left ∧
      (scan left r answers).exit = (Stream.ofReader r answers).exit left ∧
      Stream.ofReader (scan left r answers).reader (scan left r answers).answers =
        (Stream.ofReader r answers).next left := by
  induction left generalizing r answers with
  | zero => exact ⟨rfl, rfl, rfl⟩
  | succ left ih =>
      have takes := myRead_takes r answers
      generalize Stream.ofReader r answers = s at takes ⊢
      rcases read : myRead r answers with ⟨c | _ | _, r', answers'⟩
      · rw [read] at takes
        rcases takes with ⟨stream⟩
        by_cases ends : c = newline
        · subst ends
          rw [scan_newline read, stream]
          simp [Stream.piece, Stream.exit, Stream.next, takeLine_cons_newline]
        · rw [scan_of_ne read ends, stream, Stream.piece_cons ends, Stream.exit_cons ends,
            Stream.next_cons ends]
          rcases ih r' answers' with ⟨piece, exit, next⟩
          exact ⟨congrArg (c :: ·) piece, exit, next⟩
      · rw [read] at takes
        rcases takes with _ | ⟨rfl, after⟩
        rw [scan_eof read]
        exact ⟨rfl, rfl, after⟩
      · rw [read] at takes
        rcases takes with _ | _ | ⟨stream⟩
        rw [scan_error read, stream]
        exact ⟨rfl, rfl, rfl⟩

namespace Stream

/-- The four ways that a call is left, with what it takes and what is behind it. -/
inductive Call (limit : Nat) : Stream → Exit → List Byte → Stream → Prop where
  | newline (text rest : List Byte) (later : List (List Byte)) (noNewline : newline ∉ text)
      (short : text.length < limit) :
      Call limit ⟨text ++ newline :: rest, later⟩ .newline (text ++ [LineReader.newline])
        ⟨rest, later⟩
  | full (text rest : List Byte) (later : List (List Byte)) (noNewline : newline ∉ text)
      (length_eq : text.length = limit) : Call limit ⟨text ++ rest, later⟩ .full text ⟨rest, later⟩
  | eof (text : List Byte) (noNewline : newline ∉ text) (short : text.length < limit) :
      Call limit ⟨text, []⟩ .eof text ⟨[], []⟩
  | error (text current : List Byte) (later : List (List Byte)) (noNewline : newline ∉ text)
      (short : text.length < limit) :
      Call limit ⟨text, current :: later⟩ .error text ⟨current, later⟩

theorem call_spec (limit : Nat) (s : Stream) :
    Call limit s (s.exit limit) (s.piece limit) (s.next limit) := by
  rcases s with ⟨current, later⟩
  by_cases mem : newline ∈ takeLine limit current
  · have exit_eq : exit limit ⟨current, later⟩ = .newline := if_pos mem
    rcases takeLine_of_mem mem with ⟨text, rest, noNewline, rfl, line_eq⟩
    have piece_eq : piece limit ⟨text ++ newline :: rest, later⟩ = text ++ [newline] := line_eq
    have next_eq : next limit ⟨text ++ newline :: rest, later⟩ = ⟨rest, later⟩ := by
      simp [next, exit_eq, piece_eq]
    have short : (text ++ [newline]).length ≤ limit := by
      rw [← line_eq]
      exact (takeLine_isPrefix limit _).length_le.trans (List.length_take_le _ _)
    rw [List.length_append, List.length_singleton] at short
    rw [exit_eq, piece_eq, next_eq]
    exact .newline text rest later noNewline short
  · have piece_eq : piece limit ⟨current, later⟩ = current.take limit := takeLine_eq_take mem
    have noNewline : newline ∉ current.take limit := piece_eq ▸ mem
    by_cases long : limit ≤ current.length
    · have length_eq : (current.take limit).length = limit := List.length_take_of_le long
      have exit_eq : exit limit ⟨current, later⟩ = .full := by
        rw [exit, piece_eq, if_neg noNewline, if_pos length_eq]
      have next_eq : next limit ⟨current, later⟩ = ⟨current.drop limit, later⟩ := by
        simp [next, exit_eq, piece_eq, long]
      have call := Call.full (current.take limit) (current.drop limit) later noNewline length_eq
      rw [List.take_append_drop] at call
      rw [exit_eq, piece_eq, next_eq]
      exact call
    · have whole : current.take limit = current := List.take_of_length_le (by omega)
      rw [whole] at piece_eq noNewline
      have notFull : ¬ current.length = limit := by omega
      cases later with
      | nil =>
          have exit_eq : exit limit ⟨current, []⟩ = .eof := by
            rw [exit, piece_eq, if_neg noNewline, if_neg notFull, if_pos rfl]
          have next_eq : next limit ⟨current, []⟩ = ⟨[], []⟩ := by
            simp [next, exit_eq, piece_eq]
          rw [exit_eq, piece_eq, next_eq]
          exact .eof current noNewline (by omega)
      | cons first later =>
          have exit_eq : exit limit ⟨current, first :: later⟩ = .error := by
            rw [exit, piece_eq, if_neg noNewline, if_neg notFull, if_neg (List.cons_ne_nil _ _)]
          have next_eq : next limit ⟨current, first :: later⟩ = ⟨first, later⟩ := by
            simp [next, exit_eq]
          rw [exit_eq, piece_eq, next_eq]
          exact .error current first later noNewline (by omega)

/-- What a call stores begins the stream. -/
theorem piece_isPrefix_all (limit : Nat) (s : Stream) : s.piece limit <+: s.all :=
  (takeLine_isPrefix_stream limit s.current).trans (List.prefix_append _ _)

/-- A call takes from the stream what it stores. -/
theorem all_next (limit : Nat) (s : Stream) :
    (s.next limit).all = s.all.drop (s.piece limit).length := by
  have call := call_spec limit s
  generalize s.exit limit = exit at call
  generalize s.piece limit = piece at call ⊢
  generalize s.next limit = after at call ⊢
  cases call with
  | newline text rest later noNewline short => simp [all]
  | full _ rest later noNewline length_eq => simp [all]
  | eof _ noNewline short => simp [all]
  | error _ current later noNewline short => simp [all]

variable {limit : Nat} {s : Stream}

/-- A buffer is filled if it ends in front of the next newline, and of the end. -/
theorem exit_eq_full_iff :
    s.exit limit = .full ↔ newline ∉ s.current.take limit ∧ limit ≤ s.current.length := by
  rw [← newline_mem_takeLine]
  unfold exit piece
  by_cases mem : newline ∈ takeLine limit s.current
  · simp [mem]
  · have length_eq : (takeLine limit s.current).length = limit ↔ limit ≤ s.current.length := by
      rw [takeLine_eq_take mem, List.length_take]
      omega
    rw [if_neg mem, and_iff_right mem, ← length_eq]
    by_cases full : (takeLine limit s.current).length = limit
    · simp [full]
    · rw [if_neg full]
      split <;> simp [full]

/-- A call fails if the next `read` that fails is in reach. -/
theorem exit_eq_error_iff :
    s.exit limit = .error ↔ newline ∉ s.current ∧ s.current.length < limit ∧ s.later ≠ [] := by
  have call := call_spec limit s
  generalize s.exit limit = exit at call ⊢
  generalize s.piece limit = piece at call
  generalize s.next limit = after at call
  cases call with
  | newline text rest later noNewline short => simp
  | full _ rest later noNewline length_eq =>
      have long : ¬ (piece ++ rest).length < limit := by
        rw [List.length_append]
        omega
      simp only [long, false_and, and_false, reduceCtorEq]
  | eof _ noNewline short => simp
  | error _ current later noNewline short => simp [noNewline, short]

/-- A call that fails has stored all bytes in front of the error. -/
theorem piece_of_error (failed : s.exit limit = .error) : s.piece limit = s.current := by
  rcases exit_eq_error_iff.mp failed with ⟨noNewline, short, -⟩
  have none : newline ∉ takeLine limit s.current := fun mem =>
    noNewline ((takeLine_isPrefix_stream limit s.current).mem mem)
  rw [piece, takeLine_eq_take none, List.take_of_length_le short.le]

/-- Any other call stores the next line of the whole stream. -/
theorem piece_of_ne_error (returns : s.exit limit ≠ .error) :
    s.piece limit = takeLine limit s.all := by
  unfold exit at returns
  by_cases mem : newline ∈ s.piece limit
  · exact (takeLine_append (Or.inl mem) _).symm
  by_cases full : (s.piece limit).length = limit
  · exact (takeLine_append (Or.inr full) _).symm
  by_cases last : s.later = []
  · rw [piece, all, last, List.flatten_nil, List.append_nil]
  · simp [mem, full, last] at returns

end Stream

/-- The counter is right unless the call fails or fills its buffer. -/
theorem Exit.ret_one {exit : Exit} {taken : Nat} (notFull : exit ≠ .full)
    (noError : exit ≠ .error) :
    exit.ret 1 taken = taken := by
  cases exit with
  | newline | eof =>
      simp only [Exit.ret]
      omega
  | full => exact absurd rfl notFull
  | error => exact absurd rfl noError

/-- A call returns a negative number if it fails. -/
theorem Exit.ret_neg_iff {exit : Exit} {taken : Nat} : exit.ret 1 taken < 0 ↔ exit = .error := by
  cases exit with
  | newline | full | eof =>
      simp only [Exit.ret, reduceCtorEq, iff_false]
      omega
  | error => simp [Exit.ret]

end NetPractice.LineReader
