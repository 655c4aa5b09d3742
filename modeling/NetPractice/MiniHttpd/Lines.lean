import NetPractice.MiniHttpd.Core

/-!
# The lines of the mini server

The loop of `get_line` ends with an LF, with a full buffer, or with the end of the stream.
It ends a line that is as long as the buffer in front of the line's rest, which the next
call takes for a line of its own, and only an LF makes it write the terminating NUL.
-/

namespace NetPractice.MiniHttpd

open NetPractice.Text

/-- The stream is at an end: `read` gives no byte. -/
def Read.Ends : Read → Prop
  | .byte _ => False
  | .closed | .failed => True

/-- What `read` gives in front of the end of the stream. -/
theorem received_append (bytes : List Byte) {ending : Read} (ends : ending.Ends)
    (more : List Read) : received (bytes.map .byte ++ ending :: more) = (bytes, true) := by
  induction bytes with
  | nil =>
      cases ending with
      | byte byte => exact absurd ends id
      | closed | failed => rfl
  | cons byte bytes ih => rw [List.map_cons, List.cons_append, received, ih]

/-- Both ends of a stream end the loop in the same way. -/
theorem getLineLoop_eq (size : Nat) (bytes : List Byte) {ending : Read} (ends : ending.Ends)
    (more : List Read) (count : Nat) (buf : List Byte) :
    getLineLoop size (bytes.map .byte ++ ending :: more) count buf =
      some ((getLineFrom size bytes count buf).count, (getLineFrom size bytes count buf).buf) := by
  rw [getLineLoop, received_append bytes ends more]
  exact if_neg fun waits => Bool.noConfusion waits.2

/-! ## Lines of a stream -/

/-- A line without its CR bytes. -/
def text (line : List Byte) : List Byte :=
  line.filter (· ≠ CR)

/-- The next line of a stream, without its LF. -/
def line (bytes : List Byte) : List Byte :=
  bytes.takeWhile (· ≠ LF)

/-- What is behind the next line of a stream and its LF. -/
def behind (bytes : List Byte) : List Byte :=
  (bytes.dropWhile (· ≠ LF)).tail

theorem text_cr (bytes : List Byte) : text (CR :: bytes) = text bytes :=
  List.filter_cons_of_neg (by simp)

theorem text_cons {byte : Byte} (other : byte ≠ CR) (bytes : List Byte) :
    text (byte :: bytes) = byte :: text bytes :=
  List.filter_cons_of_pos (by simpa using other)

theorem text_append (first second : List Byte) :
    text (first ++ second) = text first ++ text second :=
  List.filter_append _ _

theorem lf_notMem_line (bytes : List Byte) : LF ∉ line bytes := by
  intro mem
  simpa using List.mem_takeWhile_imp mem

/-- A stream that holds an LF. -/
theorem line_append_behind {bytes : List Byte} (lf : LF ∈ bytes) :
    line bytes ++ LF :: behind bytes = bytes := by
  induction bytes with
  | nil => cases lf
  | cons byte bytes ih =>
      by_cases is_lf : byte = LF
      · subst is_lf
        simp [line, behind]
      · have further : LF ∈ bytes := (List.mem_cons.mp lf).resolve_left (Ne.symm is_lf)
        have rest := ih further
        simp only [line, behind, List.takeWhile_cons, List.dropWhile_cons] at rest ⊢
        simpa [is_lf] using rest

/-- A stream that holds none. -/
theorem line_of_notMem {bytes : List Byte} (noLf : LF ∉ bytes) :
    line bytes = bytes ∧ behind bytes = [] := by
  have others : ∀ byte ∈ bytes, decide (byte ≠ LF) = true := by
    intro byte mem
    apply decide_eq_true
    rintro rfl
    exact noLf mem
  constructor
  · exact List.takeWhile_eq_self_iff.mpr others
  · rw [behind, List.dropWhile_eq_nil_iff.mpr others, List.tail_nil]

/-! ## What the loop stores -/

/-- The buffer behind some bytes that are stored from `count` on. -/
def store (buf : List Byte) (count : Nat) : List Byte → List Byte
  | [] => buf
  | byte :: bytes => store (buf.set count byte) (count + 1) bytes

theorem length_store (buf : List Byte) (count : Nat) (bytes : List Byte) :
    (store buf count bytes).length = buf.length := by
  induction bytes generalizing buf count with
  | nil => rfl
  | cons byte bytes ih => rw [store, ih, List.length_set]

/-- What is behind the stored bytes is as before. -/
theorem getElem?_store {buf : List Byte} {count i : Nat} {bytes : List Byte}
    (le : count + bytes.length ≤ i) : (store buf count bytes)[i]? = buf[i]? := by
  induction bytes generalizing buf count with
  | nil => rfl
  | cons byte bytes ih =>
      rw [List.length_cons] at le
      rw [store, ih (by omega), List.getElem?_set_ne (by omega)]

theorem take_store {buf : List Byte} {count : Nat} {bytes : List Byte}
    (fits : count + bytes.length ≤ buf.length) :
    (store buf count bytes).take (count + bytes.length) = buf.take count ++ bytes := by
  induction bytes generalizing buf count with
  | nil => rw [store, List.length_nil, Nat.add_zero, List.append_nil]
  | cons byte bytes ih =>
      rw [List.length_cons] at fits ⊢
      have stored : (store (buf.set count byte) (count + 1) bytes).take
          (count + 1 + bytes.length) = _ := ih (by rw [List.length_set]; omega)
      rw [store, show count + (bytes.length + 1) = count + 1 + bytes.length by omega, stored,
        List.take_add_one, List.getElem?_set_self (by omega), List.take_set_of_le (Nat.le_refl _),
        List.append_assoc]
      rfl

/-! ## The three ends of the loop -/

section Loop

variable {size count : Nat} {buf : List Byte}

/-- Bytes that end with the one that fills the buffer. -/
def Tight (piece : List Byte) : Prop :=
  piece.getLast? ≠ some CR

theorem Tight.tail {byte : Byte} {piece : List Byte} (tight : Tight (byte :: piece)) :
    Tight piece := by
  intro last
  apply tight
  rw [List.getLast?_cons, last]
  rfl

theorem Tight.text_pos {byte : Byte} {piece : List Byte} (tight : Tight (byte :: piece)) :
    0 < (text (byte :: piece)).length := by
  induction piece generalizing byte with
  | nil =>
      have other : byte ≠ CR := fun cr => tight (congrArg some cr)
      rw [text_cons other]
      exact Nat.zero_lt_succ _
  | cons next piece ih =>
      have pos := ih tight.tail
      by_cases cr : byte = CR
      · rw [cr, text_cr]
        exact pos
      · rw [text_cons cr]
        exact Nat.zero_lt_succ _

/-- The loop takes bytes without an LF for as long as there is room: CR bytes are dropped,
and the others are stored. -/
theorem getLineFrom_append {piece : List Byte} (noLf : LF ∉ piece)
    (fits : count + (text piece).length ≤ size - 1)
    (room : count + (text piece).length < size - 1 ∨ Tight piece) (rest : List Byte) :
    getLineFrom size (piece ++ rest) count buf =
      getLineFrom size rest (count + (text piece).length) (store buf count (text piece)) := by
  induction piece generalizing count buf with
  | nil => rfl
  | cons byte piece ih =>
      have below : count < size - 1 := by
        rcases room with room | tight
        · omega
        · have pos := tight.text_pos
          omega
      have noLf' : LF ∉ piece := fun mem => noLf (List.mem_cons_of_mem _ mem)
      rw [List.cons_append, getLineFrom, if_pos below]
      by_cases cr : byte = CR
      · rw [cr, text_cr] at fits room ⊢
        rw [if_pos rfl]
        exact ih noLf' fits (room.imp_right Tight.tail)
      · have other : byte ≠ LF := fun lf => noLf (lf ▸ List.mem_cons_self)
        rw [text_cons cr, List.length_cons, ← Nat.add_assoc, Nat.add_right_comm] at fits room ⊢
        rw [if_neg cr, if_neg other, store]
        exact ih noLf' fits (room.imp_right Tight.tail)

/-- A line that is shorter than the room in the buffer. -/
theorem getLineFrom_newline {line : List Byte} (noLf : LF ∉ line)
    (short : count + (text line).length < size - 1) (rest : List Byte) :
    getLineFrom size (line ++ LF :: rest) count buf =
      ⟨count + (text line).length,
        (store buf count (text line)).set (count + (text line).length) 0, .newline, rest⟩ := by
  rw [getLineFrom_append noLf (Nat.le_of_lt short) (Or.inl short), getLineFrom, if_pos short,
    if_neg (by decide), if_pos rfl]

/-- The end of the stream in front of an LF and of the end of the buffer. -/
theorem getLineFrom_ended {tail : List Byte} (noLf : LF ∉ tail)
    (short : count + (text tail).length < size - 1) :
    getLineFrom size tail count buf =
      ⟨count + (text tail).length, store buf count (text tail), .ended, []⟩ := by
  have taken : getLineFrom size (tail ++ []) count buf = _ :=
    getLineFrom_append noLf (Nat.le_of_lt short) (Or.inl short) []
  rw [List.append_nil, getLineFrom, if_pos short] at taken
  exact taken

/-- The buffer is full. -/
theorem getLineFrom_full {piece : List Byte} (noLf : LF ∉ piece) (tight : Tight piece)
    (full : count + (text piece).length = size - 1) (rest : List Byte) :
    getLineFrom size (piece ++ rest) count buf =
      ⟨size - 1, store buf count (text piece), .full, rest⟩ := by
  rw [getLineFrom_append noLf full.le (Or.inr tight), full]
  have noRoom := Nat.lt_irrefl (size - 1)
  cases rest with
  | nil => rw [getLineFrom, if_neg noRoom]
  | cons byte rest => rw [getLineFrom, if_neg noRoom]

/-- The bytes of a line up to the one that fills a buffer. -/
theorem exists_piece {line : List Byte} {room : Nat} (le : room ≤ (text line).length) :
    ∃ piece more, line = piece ++ more ∧ (text piece).length = room ∧ Tight piece := by
  induction line generalizing room with
  | nil =>
      have zero : room = 0 := Nat.le_zero.mp le
      exact ⟨[], [], rfl, zero.symm, nofun⟩
  | cons byte line ih =>
      cases room with
      | zero => exact ⟨[], byte :: line, rfl, rfl, nofun⟩
      | succ room =>
          by_cases cr : byte = CR
          · rw [cr, text_cr] at le
            rcases ih le with ⟨piece, more, rfl, length_eq, tight⟩
            refine ⟨byte :: piece, more, rfl, ?_, ?_⟩
            · rw [cr, text_cr, length_eq]
            · cases piece with
              | nil => exact absurd length_eq (Nat.succ_ne_zero room).symm
              | cons next piece =>
                  rw [Tight, List.getLast?_cons_cons]
                  exact tight
          · rw [text_cons cr, List.length_cons] at le
            rcases ih (Nat.le_of_succ_le_succ le) with ⟨piece, more, rfl, length_eq, tight⟩
            refine ⟨byte :: piece, more, rfl, ?_, ?_⟩
            · rw [text_cons cr, List.length_cons, length_eq]
            · cases piece with
              | nil => exact fun last => cr (Option.some.inj last)
              | cons next piece =>
                  rw [Tight, List.getLast?_cons_cons]
                  exact tight

end Loop

/-! ## What a call takes from the stream -/

/-- A call on a line that is shorter than the buffer, and on a longer one. -/
theorem getLineFrom_cases (size : Nat) (bytes memory : List Byte) :
    ((text (line bytes)).length < size - 1 ∧ LF ∈ bytes ∧
      getLineFrom size bytes 0 memory = ⟨(text (line bytes)).length,
        (store memory 0 (text (line bytes))).set (text (line bytes)).length 0, .newline,
        behind bytes⟩) ∨
    ((text (line bytes)).length < size - 1 ∧ LF ∉ bytes ∧
      getLineFrom size bytes 0 memory =
        ⟨(text (line bytes)).length, store memory 0 (text (line bytes)), .ended, behind bytes⟩) ∨
    ∃ piece more rest, line bytes = piece ++ more ∧ bytes = piece ++ rest ∧
      (text piece).length = size - 1 ∧ Tight piece ∧
      (LF ∈ bytes → rest = more ++ LF :: behind bytes) ∧ (LF ∉ bytes → rest = more) ∧
      getLineFrom size bytes 0 memory = ⟨size - 1, store memory 0 (text piece), .full, rest⟩ := by
  have noLf := lf_notMem_line bytes
  by_cases short : (text (line bytes)).length < size - 1
  · by_cases lf : LF ∈ bytes
    · left
      have taken : getLineFrom size (line bytes ++ LF :: behind bytes) 0 memory = _ :=
        getLineFrom_newline noLf (by omega) (behind bytes)
      rw [line_append_behind lf, Nat.zero_add] at taken
      exact ⟨short, lf, taken⟩
    · right
      left
      rcases line_of_notMem lf with ⟨line_eq, behind_eq⟩
      have taken : getLineFrom size (line bytes) 0 memory = _ :=
        getLineFrom_ended noLf (by omega)
      rw [Nat.zero_add, ← behind_eq] at taken
      rw [line_eq] at short taken ⊢
      exact ⟨short, lf, taken⟩
  · right
    right
    rcases exists_piece (Nat.le_of_not_lt short) with ⟨piece, more, split_eq, length_eq, tight⟩
    have pieceNoLf : LF ∉ piece := by
      intro mem
      apply noLf
      rw [split_eq]
      exact List.mem_append_left _ mem
    have taken : ∀ rest, getLineFrom size (piece ++ rest) 0 memory =
        ⟨size - 1, store memory 0 (text piece), .full, rest⟩ :=
      fun rest => getLineFrom_full pieceNoLf tight (by omega) rest
    by_cases lf : LF ∈ bytes
    · have whole : bytes = piece ++ (more ++ LF :: behind bytes) := by
        rw [← List.append_assoc, ← split_eq, line_append_behind lf]
      refine ⟨piece, more, more ++ LF :: behind bytes, split_eq, whole, length_eq, tight,
        fun _ => rfl, fun noLf => absurd lf noLf, ?_⟩
      exact (congrArg (getLineFrom size · 0 memory) whole).trans (taken _)
    · have whole : bytes = piece ++ more := (line_of_notMem lf).1.symm.trans split_eq
      refine ⟨piece, more, more, split_eq, whole, length_eq, tight,
        fun mem => absurd mem lf, fun _ => rfl, ?_⟩
      exact (congrArg (getLineFrom size · 0 memory) whole).trans (taken more)

theorem take_store_zero {memory bytes : List Byte} (fits : bytes.length ≤ memory.length) :
    (store memory 0 bytes).take bytes.length = bytes := by
  have stored : (store memory 0 bytes).take (0 + bytes.length) = _ := take_store (by omega)
  rwa [Nat.zero_add, List.take_zero, List.nil_append] at stored

/-- A call takes the next line of the stream, or as much of it as the buffer holds, and
leaves the rest to the next call.  A line that is ended by its LF is terminated. -/
theorem getLine_takes {size : Nat} {memory : List Byte} (positive : 1 ≤ size)
    (fits : size ≤ memory.length) (bytes : List Byte) {ending : Read} (ends : ending.Ends)
    (more : List Read) :
    ∃ n buf exit rest,
      getLineLoop size (bytes.map .byte ++ ending :: more) 0 memory = some (n, buf) ∧
      getLineFrom size bytes 0 memory = ⟨n, buf, exit, rest⟩ ∧
      n ≤ size - 1 ∧ buf.take n = (text (line bytes)).take (size - 1) ∧
      ((text (line bytes)).length < size - 1 → LF ∈ bytes → buf[n]? = some 0) ∧
      ((text (line bytes)).length < size - 1 → rest = behind bytes) ∧
      (size - 1 ≤ (text (line bytes)).length →
        ∃ piece, bytes = piece ++ rest ∧ Tight piece ∧
          text piece = (text (line bytes)).take (size - 1)) := by
  rw [getLineLoop_eq size bytes ends more]
  rcases getLineFrom_cases size bytes memory with ⟨short, lf, taken⟩ | ⟨short, noLf, taken⟩ |
    ⟨piece, more, rest, split_eq, whole, length_eq, tight, -, -, taken⟩
  · rw [taken]
    refine ⟨_, _, _, _, rfl, rfl, Nat.le_of_lt short, ?_, ?_, fun _ => rfl, ?_⟩
    · rw [List.take_set_of_le (Nat.le_refl _), take_store_zero (by omega),
        List.take_of_length_le (Nat.le_of_lt short)]
    · intro _ _
      exact List.getElem?_set_self (by rw [length_store]; omega)
    · intro long
      exact absurd short (Nat.not_lt.mpr long)
  · rw [taken]
    refine ⟨_, _, _, _, rfl, rfl, Nat.le_of_lt short, ?_, ?_, fun _ => rfl, ?_⟩
    · rw [take_store_zero (by omega), List.take_of_length_le (Nat.le_of_lt short)]
    · intro _ lf
      exact absurd lf noLf
    · intro long
      exact absurd short (Nat.not_lt.mpr long)
  · have text_eq : text piece = (text (line bytes)).take (size - 1) := by
      rw [split_eq, text_append, ← length_eq, List.take_left]
    have long : ¬ (text (line bytes)).length < size - 1 := by
      rw [split_eq, text_append, List.length_append]
      omega
    rw [taken]
    refine ⟨_, _, _, _, rfl, rfl, Nat.le_refl _, ?_, fun short => absurd short long,
      fun short => absurd short long, fun _ => ⟨piece, whole, tight, text_eq⟩⟩
    rw [← text_eq, ← length_eq, take_store_zero (by omega)]

/-- A header line of three bytes for a buffer of three: the call takes two. -/
theorem getLine_takes_cut : ∃ n buf exit rest,
    getLineLoop 3 ((ascii "abc\n").map .byte ++ [.closed]) 0 [0, 0, 0] = some (n, buf) ∧
      getLineFrom 3 (ascii "abc\n") 0 [0, 0, 0] = ⟨n, buf, exit, rest⟩ ∧
      n ≤ 2 ∧ buf.take n = (text (line (ascii "abc\n"))).take 2 ∧
      ((text (line (ascii "abc\n"))).length < 2 → LF ∈ ascii "abc\n" → buf[n]? = some 0) ∧
      ((text (line (ascii "abc\n"))).length < 2 → rest = behind (ascii "abc\n")) ∧
      (2 ≤ (text (line (ascii "abc\n"))).length →
        ∃ piece, ascii "abc\n" = piece ++ rest ∧ Tight piece ∧
          text piece = (text (line (ascii "abc\n"))).take 2) :=
  getLine_takes (by decide) (by decide) (ascii "abc\n") (show Read.closed.Ends from trivial) []

/-- A call returned the whole next line, terminated, and took it and its LF from the
stream. -/
def Taken.Delivers (taken : Taken) (size : Nat) (bytes : List Byte) : Prop :=
  taken.count ≤ size - 1 ∧ taken.buf[taken.count]? = some 0 ∧
    taken.buf.take taken.count = text (line bytes) ∧ taken.rest = behind bytes

instance (taken : Taken) (size : Nat) (bytes : List Byte) :
    Decidable (taken.Delivers size bytes) :=
  inferInstanceAs (Decidable (_ ∧ _ ∧ _ ∧ _))

/-- Nothing but the byte that fills the buffer is at the end of a stream that holds as
many. -/
theorem eq_nil_of_tight {piece more : List Byte} (tight : Tight (piece ++ more))
    (same : (text (piece ++ more)).length = (text piece).length) : more = [] := by
  cases more with
  | nil => rfl
  | cons byte more =>
      have tightMore : Tight (byte :: more) := by
        intro last
        apply tight
        rw [List.getLast?_append_of_ne_nil _ (List.cons_ne_nil byte more)]
        exact last
      have pos := tightMore.text_pos
      rw [text_append, List.length_append] at same
      omega

/-- The call leaves the LF of a line that fills the buffer in the stream. -/
theorem full_not_delivers {size : Nat} {bytes buf more rest : List Byte}
    (rest_eq : rest = more ++ LF :: behind bytes) :
    ¬ Taken.Delivers ⟨size - 1, buf, .full, rest⟩ size bytes := by
  rintro ⟨-, -, -, delivered⟩
  have lengths := congrArg List.length (rest_eq.symm.trans delivered)
  rw [List.length_append, List.length_cons] at lengths
  omega

/-- In front of the end of the stream, a full buffer is the whole line when nothing but a
zero byte of before is behind it. -/
theorem full_delivers_iff {size : Nat} {memory bytes piece more : List Byte}
    (positive : 1 ≤ size) (fits : size ≤ memory.length) (noLf : LF ∉ bytes)
    (split_eq : bytes = piece ++ more) (length_eq : (text piece).length = size - 1)
    (tight : Tight piece) :
    Taken.Delivers ⟨size - 1, store memory 0 (text piece), .full, more⟩ size bytes ↔
      memory[(text bytes).length]? = some 0 ∧
        ((text bytes).length < size - 1 ∨
          (text bytes).length = size - 1 ∧ Tight bytes) := by
  rcases line_of_notMem noLf with ⟨line_eq, behind_eq⟩
  have stored : (store memory 0 (text piece))[size - 1]? = memory[size - 1]? :=
    getElem?_store (by omega)
  have length_text : (text bytes).length = size - 1 + (text more).length := by
    rw [split_eq, text_append, List.length_append, length_eq]
  constructor
  · rintro ⟨-, zero, -, rest_eq⟩
    have none_left : more = [] := rest_eq.trans behind_eq
    rw [none_left] at split_eq length_text
    rw [List.append_nil] at split_eq
    refine ⟨?_, Or.inr ⟨length_text, split_eq ▸ tight⟩⟩
    rw [length_text]
    exact stored.symm.trans zero
  · rintro ⟨zero, sizes⟩
    have exact_eq : (text bytes).length = size - 1 := by omega
    have none_left : more = [] := by
      rcases sizes with short | ⟨-, tightAll⟩
      · omega
      · rw [split_eq] at tightAll exact_eq
        exact eq_nil_of_tight tightAll (exact_eq.trans length_eq.symm)
    rw [exact_eq] at zero
    refine ⟨Nat.le_refl _, stored.trans zero, ?_, none_left.trans behind_eq.symm⟩
    rw [line_eq, split_eq, none_left, List.append_nil]
    change (store memory 0 (text piece)).take (size - 1) = text piece
    rw [← length_eq]
    exact take_store_zero (by omega)

/-- That is so for a shorter line with its LF.  In front of the end of the stream, it takes
a zero byte that was in the buffer before. -/
theorem delivers_iff {size : Nat} {memory : List Byte} (positive : 1 ≤ size)
    (fits : size ≤ memory.length) (bytes : List Byte) :
    (getLineFrom size bytes 0 memory).Delivers size bytes ↔
      LF ∈ bytes ∧ (text (line bytes)).length < size - 1 ∨
      LF ∉ bytes ∧ memory[(text bytes).length]? = some 0 ∧
        ((text bytes).length < size - 1 ∨ (text bytes).length = size - 1 ∧ Tight bytes) := by
  rcases getLineFrom_cases size bytes memory with ⟨short, lf, taken⟩ | ⟨short, noLf, taken⟩ |
    ⟨piece, more, rest, split_eq, whole, length_eq, tight, withLf, withoutLf, taken⟩
  · apply iff_of_true _ (Or.inl ⟨lf, short⟩)
    rw [taken]
    refine ⟨Nat.le_of_lt short, ?_, ?_, rfl⟩
    · exact List.getElem?_set_self (by rw [length_store]; omega)
    · exact (List.take_set_of_le (Nat.le_refl _)).trans (take_store_zero (by omega))
  · have line_eq := (line_of_notMem noLf).1
    have stored : (store memory 0 (text bytes))[(text bytes).length]? =
        memory[(text bytes).length]? := getElem?_store (Nat.le_of_eq (Nat.zero_add _))
    rw [line_eq] at short taken
    rw [taken]
    constructor
    · rintro ⟨-, zero, -⟩
      exact Or.inr ⟨noLf, stored.symm.trans zero, Or.inl short⟩
    · rintro (⟨lf, -⟩ | ⟨-, zero, -⟩)
      · exact absurd lf noLf
      · refine ⟨Nat.le_of_lt short, stored.trans zero, ?_, rfl⟩
        rw [line_eq]
        exact take_store_zero (by omega)
  · rw [taken]
    by_cases lf : LF ∈ bytes
    · apply iff_of_false (full_not_delivers (withLf lf))
      rintro (⟨-, short⟩ | ⟨noLf, -⟩)
      · rw [split_eq, text_append, List.length_append] at short
        omega
      · exact noLf lf
    · rw [withoutLf lf] at whole ⊢
      rw [full_delivers_iff positive fits lf whole length_eq tight]
      constructor
      · exact fun whole => Or.inr ⟨lf, whole⟩
      · rintro (⟨mem, -⟩ | ⟨-, whole⟩)
        · exact absurd mem lf
        · exact whole

/-- A line that fills the buffer is left in the stream with its LF, and the end of the
stream leaves what was in the buffer behind the bytes of the line. -/
theorem cut_not_delivered :
    getLineFrom 3 (ascii "abc\n") 0 [0, 0, 0] = ⟨2, ascii "ab" ++ [0], .full, ascii "c\n"⟩ ∧
      ¬ (getLineFrom 3 (ascii "abc\n") 0 [0, 0, 0]).Delivers 3 (ascii "abc\n") ∧
      getLineFrom 4 (ascii "ab") 0 [7, 7, 7, 7] = ⟨2, ascii "ab" ++ [7, 7], .ended, []⟩ ∧
      ¬ (getLineFrom 4 (ascii "ab") 0 [7, 7, 7, 7]).Delivers 4 (ascii "ab") := by
  decide

end NetPractice.MiniHttpd
