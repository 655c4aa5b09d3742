import NetPractice.MiniHttpd.Lines

/-!
# Scanning the first line in the mini server

The loops of `do_http_request` that look for the method and the URL stop at a space, or
when their array is full, and do not look for the end of the line.  Here they run on the
bytes of the line alone, with the terminating NUL if `get_line` has written one, and have
no result when they read on behind these.
-/

namespace NetPractice.MiniHttpd

open NetPractice.Text

/-- The bytes in front of the first space. -/
def word (line : List Byte) : List Byte :=
  line.takeWhile (! isSpace ·)

/-- The first space, and what is behind it. -/
def behindWord (line : List Byte) : List Byte :=
  line.dropWhile (! isSpace ·)

/-- The first token of a line, which is empty if there is none. -/
def token (line : List Byte) : List Byte :=
  word (line.dropWhile isSpace)

/-- What is behind the first token. -/
def behindToken (line : List Byte) : List Byte :=
  behindWord (line.dropWhile isSpace)

/-- The loops for the URL. -/
def scanUrl (memory : List Byte) : Option (List Byte) :=
  (skipSpaces memory).bind fun rest => (copyWord (URL_SIZE - 1) rest).map (·.1)

/-- The loops of `do_http_request`: the method, and the URL if the method is `GET`. -/
def scan (memory : List Byte) : Option (List Byte × Option (List Byte)) :=
  (copyWord (METHOD_SIZE - 1) memory).bind fun (method, rest) =>
    if strcasecmp (cstr method) (ascii "GET") then (scanUrl rest).map fun url => (method, some url)
    else some (method, none)

/-- `do_http_request` answers what its loops have found. -/
theorem doHttpRequest_eq (stat : List Byte → Option Bool) (before : Byte) (answers : List Read)
    (memory : List Byte) :
    doHttpRequest stat before answers memory =
      (getLine answers memory).bind fun (len, memory) =>
        if len > 0 then
          (scan memory).map fun (_, url) =>
            url.elim .unimplemented fun url => .accepted (doHttpResponse stat before (cstr url))
        else some .badRequest := by
  rw [doHttpRequest]
  congr 1
  funext ⟨len, memory⟩
  dsimp only
  split
  · rw [scan]
    cases copyWord (METHOD_SIZE - 1) memory with
    | none => rfl
    | some found =>
        rcases found with ⟨method, rest⟩
        rw [Option.bind_some, Option.bind_some]
        dsimp only
        split
        · rw [scanUrl]
          cases skipSpaces rest with
          | none => rfl
          | some rest =>
              rw [Option.bind_some, Option.bind_some, Option.map_map, Option.map_map]
              rfl
        · rfl
  · rfl

/-! ## Words -/

section Words

variable {room : Nat} {memory line rest found : List Byte}

@[simp]
theorem word_append_behindWord (line : List Byte) : word line ++ behindWord line = line :=
  List.takeWhile_append_dropWhile

theorem length_word_le (line : List Byte) : (word line).length ≤ line.length :=
  (List.takeWhile_prefix _).length_le

theorem length_word_lt_iff : (word line).length < line.length ↔ behindWord line ≠ [] := by
  have lengths := congrArg List.length (word_append_behindWord line)
  rw [List.length_append] at lengths
  rw [← List.length_pos_iff]
  constructor <;> intro _ <;> omega

theorem word_cons_space {byte : Byte} (space : isSpace byte = true) (line : List Byte) :
    word (byte :: line) = [] :=
  List.takeWhile_cons_of_neg (by simpa using space)

theorem word_cons {byte : Byte} (other : ¬ isSpace byte = true) (line : List Byte) :
    word (byte :: line) = byte :: word line :=
  List.takeWhile_cons_of_pos (by simpa using other)

/-- What the copying loops find.  They have read the byte behind it. -/
theorem copyWord_eq_some_iff :
    copyWord room memory = some (found, rest) ↔
      found = (word memory).take room ∧ rest = memory.drop found.length ∧
        found.length < memory.length := by
  induction memory generalizing room found rest with
  | nil =>
      rw [copyWord.eq_def]
      apply iff_of_false (Option.some_ne_none _).symm
      rintro ⟨-, -, less⟩
      exact Nat.not_lt_zero _ less
  | cons byte memory ih =>
      have stops : some ([], byte :: memory) = some (found, rest) ↔
          found = [] ∧ rest = (byte :: memory).drop found.length ∧
            found.length < (byte :: memory).length := by
        constructor
        · intro equal
          cases equal
          exact ⟨rfl, rfl, Nat.zero_lt_succ _⟩
        · rintro ⟨rfl, rfl, -⟩
          rfl
      cases room with
      | zero =>
          rw [copyWord, List.take_zero]
          exact stops
      | succ room =>
          rw [copyWord]
          by_cases space : isSpace byte
          · rw [if_pos space, word_cons_space space, List.take_nil]
            exact stops
          · rw [if_neg space, word_cons space, List.take_succ_cons, Option.map_eq_some_iff]
            constructor
            · rintro ⟨⟨inner, rest⟩, copied, equal⟩
              cases equal
              rcases ih.mp copied with ⟨inner_eq, rest_eq, less⟩
              exact ⟨congrArg (byte :: ·) inner_eq, rest_eq, Nat.succ_lt_succ less⟩
            · rintro ⟨rfl, rfl, less⟩
              exact ⟨_, ih.mpr ⟨rfl, rfl, Nat.lt_of_succ_lt_succ less⟩, rfl⟩

/-- What is behind the bytes that are skipped has been read. -/
theorem skipSpaces_eq_some_iff :
    skipSpaces memory = some rest ↔ rest = memory.tail.dropWhile isSpace ∧ rest ≠ [] := by
  cases memory with
  | nil =>
      apply iff_of_false (Option.some_ne_none _).symm
      rintro ⟨empty, some⟩
      exact some empty
  | cons byte memory =>
      rw [skipSpaces, Option.ite_none_left_eq_some, List.isEmpty_iff, Option.some.injEq,
        List.tail_cons]
      constructor
      · rintro ⟨some, rfl⟩
        exact ⟨rfl, some⟩
      · rintro ⟨rfl, some⟩
        exact ⟨some, rfl⟩

theorem copyWord_append (copied : copyWord room memory = some (found, rest)) (more : List Byte) :
    copyWord room (memory ++ more) = some (found, rest ++ more) := by
  induction memory generalizing room found rest with
  | nil =>
      rw [copyWord.eq_def] at copied
      cases copied
  | cons byte memory ih =>
      cases room with
      | zero =>
          cases copied
          rfl
      | succ room =>
          rw [List.cons_append, copyWord] at *
          by_cases space : isSpace byte
          · rw [if_pos space] at copied ⊢
            cases copied
            rfl
          · rw [if_neg space] at copied ⊢
            rcases Option.map_eq_some_iff.mp copied with ⟨⟨inner, rest⟩, copies, equal⟩
            cases equal
            rw [ih copies]
            rfl

theorem skipSpaces_append (skipped : skipSpaces memory = some rest) (more : List Byte) :
    skipSpaces (memory ++ more) = some (rest ++ more) := by
  rcases skipSpaces_eq_some_iff.mp skipped with ⟨rfl, stops⟩
  have nonempty : memory ≠ [] := by
    rintro rfl
    exact stops rfl
  apply skipSpaces_eq_some_iff.mpr
  rw [List.tail_append_of_ne_nil nonempty, List.dropWhile_append, if_neg (by simpa using stops)]
  exact ⟨rfl, List.append_ne_nil_of_left_ne_nil stops more⟩

/-- The loops look at nothing behind what they need. -/
theorem scan_append {result : List Byte × Option (List Byte)} (scanned : scan memory = some result)
    (more : List Byte) : scan (memory ++ more) = some result := by
  rcases Option.bind_eq_some_iff.mp scanned with ⟨⟨method, rest⟩, copied, later⟩
  rw [scan, copyWord_append copied, Option.bind_some]
  dsimp only at later ⊢
  split at later
  · rename_i get
    rcases Option.map_eq_some_iff.mp later with ⟨url, urlScanned, rfl⟩
    rcases Option.bind_eq_some_iff.mp urlScanned with ⟨text, skipped, copied⟩
    rcases Option.map_eq_some_iff.mp copied with ⟨⟨url, behind⟩, copies, rfl⟩
    rw [if_pos get, scanUrl, skipSpaces_append skipped, Option.bind_some, copyWord_append copies]
    rfl
  · rename_i other
    rw [if_neg other]
    exact later

/-- The URL is found when there is a space behind it, or when it fills the array. -/
theorem scanUrl_eq_some_iff (short : memory.length ≤ URL_SIZE) :
    scanUrl memory = some found ↔
      found = word (memory.tail.dropWhile isSpace) ∧
        behindWord (memory.tail.dropWhile isSpace) ≠ [] := by
  have fits : (memory.tail.dropWhile isSpace).length ≤ URL_SIZE - 1 := by
    have shorter := (List.dropWhile_suffix isSpace (l := memory.tail)).length_le
    rw [List.length_tail] at shorter
    exact Nat.le_trans shorter (Nat.sub_le_sub_right short 1)
  generalize target_eq : memory.tail.dropWhile isSpace = target at fits
  have whole : (word target).take (URL_SIZE - 1) = word target :=
    List.take_of_length_le (Nat.le_trans (length_word_le target) fits)
  rw [scanUrl, Option.bind_eq_some_iff, ← length_word_lt_iff]
  constructor
  · rintro ⟨rest, skipped, copied⟩
    rcases skipSpaces_eq_some_iff.mp skipped with ⟨rfl, -⟩
    rcases Option.map_eq_some_iff.mp copied with ⟨⟨url, after⟩, copies, rfl⟩
    rcases copyWord_eq_some_iff.mp copies with ⟨url_eq, -, less⟩
    rw [target_eq, whole] at url_eq
    rw [target_eq, url_eq] at less
    exact ⟨url_eq, less⟩
  · rintro ⟨rfl, less⟩
    have some : target ≠ [] := by
      rintro rfl
      exact Nat.not_lt_zero _ less
    refine ⟨target, skipSpaces_eq_some_iff.mpr ⟨target_eq.symm, some⟩, ?_⟩
    exact Option.map_eq_some_iff.mpr
      ⟨(word target, _), copyWord_eq_some_iff.mpr ⟨whole.symm, rfl, less⟩, rfl⟩

/-! ## A line with its terminator -/

/-- What `get_line` writes behind a line that an LF ends. -/
def terminator (terminated : Bool) : List Byte :=
  if terminated then [0] else []

/-- The URL of a line, and what is behind it. -/
def target (line : List Byte) : List Byte :=
  (behindWord line).dropWhile isSpace

variable {terminated : Bool}

theorem length_terminator_le (terminated : Bool) : (terminator terminated).length ≤ 1 := by
  cases terminated <;> decide

theorem behindWord_terminator (terminated : Bool) : behindWord (terminator terminated) = [] := by
  cases terminated <;> rfl

/-- The terminator belongs to the last word of a line. -/
theorem behindWord_append_terminator (line : List Byte) (terminated : Bool) :
    behindWord (line ++ terminator terminated) =
      if behindWord line = [] then [] else behindWord line ++ terminator terminated := by
  have split_eq : behindWord (line ++ terminator terminated) =
      if (behindWord line).isEmpty then behindWord (terminator terminated)
        else behindWord line ++ terminator terminated := List.dropWhile_append
  rw [behindWord_terminator] at split_eq
  rw [split_eq]
  simp only [List.isEmpty_iff]

theorem word_append_terminator (line : List Byte) (terminated : Bool) :
    word (line ++ terminator terminated) =
      if behindWord line = [] then line ++ terminator terminated else word line := by
  have whole := word_append_behindWord (line ++ terminator terminated)
  rw [behindWord_append_terminator] at whole
  by_cases last : behindWord line = []
  · rw [if_pos last, List.append_nil] at whole
    rw [if_pos last]
    exact whole
  · rw [if_neg last, ← List.append_assoc] at whole
    rw [if_neg last]
    have parts := (List.append_cancel_right whole).trans (word_append_behindWord line).symm
    exact List.append_cancel_right parts

theorem dropWhile_append_terminator (line : List Byte) (terminated : Bool) :
    (line ++ terminator terminated).dropWhile isSpace =
      line.dropWhile isSpace ++ terminator terminated := by
  rw [List.dropWhile_append]
  split
  · rename_i blank
    rw [List.isEmpty_iff.mp blank]
    cases terminated <;> rfl
  · rfl

theorem isSpace_of_behindWord {byte : Byte} {more : List Byte}
    (behind : behindWord line = byte :: more) : isSpace byte = true := by
  have stops := List.head?_dropWhile_not (! isSpace ·) line
  rw [← behindWord, behind] at stops
  simpa using stops

/-- The loops for the URL, behind the method of a line. -/
theorem scanUrl_line_iff (short : line.length < URL_SIZE) :
    scanUrl (behindWord line ++ terminator terminated) = some found ↔
      found = word (target line) ∧ behindWord (target line) ≠ [] := by
  have fits : (behindWord line ++ terminator terminated).length ≤ URL_SIZE := by
    have suffix := (List.dropWhile_suffix (! isSpace ·) (l := line)).length_le
    have one := length_terminator_le terminated
    rw [List.length_append]
    exact Nat.le_trans (Nat.add_le_add suffix one) short
  rw [scanUrl_eq_some_iff fits]
  cases behind : behindWord line with
  | nil =>
      rw [target, behind]
      cases terminated <;> rfl
  | cons byte more =>
      have skipped : target line = more.dropWhile isSpace := by
        rw [target, behind, List.dropWhile_cons_of_pos (isSpace_of_behindWord behind)]
      rw [List.cons_append, List.tail_cons, dropWhile_append_terminator, ← skipped,
        word_append_terminator, behindWord_append_terminator]
      by_cases last : behindWord (target line) = []
      · rw [if_pos last, if_pos last]
        exact iff_of_false (fun both => both.2 rfl) fun both => both.2 last
      · rw [if_neg last, if_neg last]
        exact and_congr_right fun _ =>
          iff_of_true (List.append_ne_nil_of_left_ne_nil last _) last

/-! ## The tokens of a line -/

/-- The line begins with its method, which the array holds; behind a `GET` there are a URL
and a space, and behind another method there is a space, or the end of the line where the
array is full. -/
def WellSpaced (line : List Byte) (terminated : Bool) : Prop :=
  word line = token line ∧ (word line).length < METHOD_SIZE ∧
    if strcasecmp (cstr (word line)) (ascii "GET") then behindWord (target line) ≠ []
    else behindWord line ≠ [] ∨ (word line).length = METHOD_SIZE - 1 ∧ terminated = true

instance (line : List Byte) (terminated : Bool) : Decidable (WellSpaced line terminated) :=
  inferInstanceAs (Decidable (_ ∧ _ ∧ _))

/-- The loops stay in a line, and their arrays, and find its first two tokens. -/
def ScansProperly (line : List Byte) (terminated : Bool) : Prop :=
  ∃ method url, scan (line ++ terminator terminated) = some (method, url) ∧
    method.length < METHOD_SIZE ∧ method = token line ∧
    ∀ found, url = some found →
      found.length < URL_SIZE ∧ found = token (behindToken line)

theorem token_eq_or_nil (line : List Byte) : word line = token line ∨ word line = [] := by
  cases line with
  | nil => exact .inl rfl
  | cons byte line =>
      by_cases space : isSpace byte
      · exact .inr (word_cons_space space line)
      · left
        rw [token, List.dropWhile_cons_of_neg space]

/-- The line begins with its method. -/
theorem take_word_iff :
    token line = (word line).take (METHOD_SIZE - 1) ↔
      word line = token line ∧ (word line).length < METHOD_SIZE := by
  constructor
  · intro found
    have same : word line = token line := by
      rcases token_eq_or_nil line with same | empty
      · exact same
      · rw [found, empty, List.take_nil]
    rw [← same] at found
    have short := List.length_take_le (METHOD_SIZE - 1) (word line)
    rw [← found] at short
    exact ⟨same, Nat.lt_succ_of_le short⟩
  · rintro ⟨same, short⟩
    rw [← same]
    exact (List.take_of_length_le (Nat.le_of_lt_succ short)).symm

theorem drop_word (line : List Byte) (terminated : Bool) :
    (line ++ terminator terminated).drop (word line).length =
      behindWord line ++ terminator terminated := by
  calc (line ++ terminator terminated).drop (word line).length
      = (word line ++ (behindWord line ++ terminator terminated)).drop (word line).length := by
        rw [← List.append_assoc, word_append_behindWord]
    _ = behindWord line ++ terminator terminated := List.drop_left

/-- A line that is one word is found when the array is full with it. -/
theorem take_terminator_iff :
    line = (line ++ terminator terminated).take (METHOD_SIZE - 1) ∧
        line.length < (line ++ terminator terminated).length ↔
      line.length = METHOD_SIZE - 1 ∧ terminated = true := by
  cases terminated with
  | false =>
      rw [terminator, if_neg Bool.false_ne_true, List.append_nil]
      exact iff_of_false (fun both => Nat.lt_irrefl _ both.2) fun both => Bool.false_ne_true both.2
  | true =>
      rw [terminator, if_pos rfl]
      constructor
      · rintro ⟨found, -⟩
        have lengths := congrArg List.length found
        rw [List.length_take, List.length_append, List.length_singleton] at lengths
        exact ⟨by omega, rfl⟩
      · rintro ⟨full, -⟩
        rw [← full, List.take_left, List.length_append]
        exact ⟨rfl, Nat.lt_succ_self _⟩

/-- The method is found when there is a space behind it, or the terminator behind the full
array. -/
theorem copyMethod_iff :
    copyWord (METHOD_SIZE - 1) (line ++ terminator terminated) = some (token line, rest) ↔
      (word line = token line ∧ (word line).length < METHOD_SIZE) ∧
      (behindWord line ≠ [] ∨ (word line).length = METHOD_SIZE - 1 ∧ terminated = true) ∧
      rest = behindWord line ++ terminator terminated := by
  rw [copyWord_eq_some_iff, word_append_terminator]
  by_cases last : behindWord line = []
  · have whole : word line = line := by
      have parts := word_append_behindWord line
      rwa [last, List.append_nil] at parts
    have same : token line = line := by
      rcases token_eq_or_nil line with same | empty
      · rw [← same, whole]
      · rw [whole] at empty
        rw [empty]
        rfl
    have dropped := drop_word line terminated
    rw [whole] at dropped ⊢
    rw [if_pos last, same, dropped]
    constructor
    · rintro ⟨found, rest_eq, less⟩
      rcases take_terminator_iff.mp ⟨found, less⟩ with ⟨full, nul⟩
      exact ⟨⟨rfl, full ▸ Nat.lt_succ_self _⟩, .inr ⟨full, nul⟩, rest_eq⟩
    · rintro ⟨-, space | full, rest_eq⟩
      · exact absurd last space
      · rcases take_terminator_iff.mpr full with ⟨found, less⟩
        exact ⟨found, rest_eq, less⟩
  · rw [if_neg last, take_word_iff]
    apply and_congr_right
    rintro ⟨same, -⟩
    have inside : (word line).length < (line ++ terminator terminated).length := by
      rw [List.length_append]
      exact Nat.lt_add_right _ (length_word_lt_iff.mpr last)
    rw [← same, drop_word, and_iff_left inside, iff_true_intro (Or.inl last), true_and]

theorem dropWhile_of_word (nonempty : word line ≠ []) : line.dropWhile isSpace = line := by
  cases line with
  | nil => rfl
  | cons byte line =>
      apply List.dropWhile_cons_of_neg
      intro space
      exact nonempty (word_cons_space space line)

theorem length_word_target_le (line : List Byte) : (word (target line)).length ≤ line.length :=
  calc (word (target line)).length
      ≤ (target line).length := length_word_le _
    _ ≤ (behindWord line).length := (List.dropWhile_suffix _).length_le
    _ ≤ line.length := (List.dropWhile_suffix _).length_le

theorem scansProperly_line_iff (short : line.length < BUF_SIZE) :
    ScansProperly line terminated ↔ WellSpaced line terminated := by
  constructor
  · rintro ⟨method, url, scanned, -, rfl, -⟩
    rcases Option.bind_eq_some_iff.mp scanned with ⟨⟨method, rest⟩, copied, later⟩
    dsimp only at later
    by_cases get : strcasecmp (cstr method) (ascii "GET") = true
    · rw [if_pos get] at later
      rcases Option.map_eq_some_iff.mp later with ⟨found, urlScanned, equal⟩
      cases equal
      rcases copyMethod_iff.mp copied with ⟨⟨same, fits⟩, -, rfl⟩
      refine ⟨same, fits, ?_⟩
      rw [same, if_pos get]
      exact ((scanUrl_line_iff short).mp urlScanned).2
    · rw [if_neg get] at later
      cases later
      rcases copyMethod_iff.mp copied with ⟨⟨same, fits⟩, ends, -⟩
      have other : ¬ strcasecmp (cstr (word line)) (ascii "GET") = true := by rwa [same]
      refine ⟨same, fits, ?_⟩
      rw [if_neg other]
      exact ends
  · rintro ⟨same, fits, ends⟩
    have methodFits : (token line).length < METHOD_SIZE := same ▸ fits
    by_cases get : strcasecmp (cstr (word line)) (ascii "GET") = true
    · rw [if_pos get] at ends
      have space : behindWord line ≠ [] := by
        intro last
        apply ends
        rw [target, last]
        rfl
      have nonempty : word line ≠ [] := by
        intro empty
        rw [empty] at get
        revert get
        decide
      have copied : copyWord (METHOD_SIZE - 1) (line ++ terminator terminated) = _ :=
        copyMethod_iff.mpr ⟨⟨same, fits⟩, .inl space, rfl⟩
      have urlScanned : scanUrl (behindWord line ++ terminator terminated) = _ :=
        (scanUrl_line_iff short).mpr ⟨rfl, ends⟩
      refine ⟨token line, some (word (target line)), ?_, methodFits, rfl, ?_⟩
      · apply Option.bind_eq_some_iff.mpr
        refine ⟨_, copied, ?_⟩
        dsimp only
        rw [← same, if_pos get, urlScanned]
        rfl
      · rintro found equal
        cases equal
        constructor
        · exact Nat.lt_of_le_of_lt (length_word_target_le line) short
        · rw [behindToken, dropWhile_of_word nonempty]
          rfl
    · rw [if_neg get] at ends
      have copied := copyMethod_iff.mpr ⟨⟨same, fits⟩, ends, rfl⟩
      refine ⟨token line, none, ?_, methodFits, rfl, nofun⟩
      apply Option.bind_eq_some_iff.mpr
      refine ⟨_, copied, ?_⟩
      dsimp only
      rw [← same, if_neg get]

end Words

/-! ## The lines of `get_line` -/

/-- The line that a call has delivered. -/
def Taken.line (taken : Taken) : List Byte :=
  taken.buf.take taken.count

/-- Whether `get_line` has written the terminating NUL. -/
def Taken.terminated (taken : Taken) : Bool :=
  decide (taken.exit = .newline)

/-- The loops run when the line is not empty. -/
def Taken.ScansProperly (taken : Taken) : Prop :=
  0 < taken.count → MiniHttpd.ScansProperly taken.line taken.terminated

/-- The line is empty, or its method and its URL have spaces behind them. -/
def Taken.WellSpaced (taken : Taken) : Prop :=
  0 < taken.count → MiniHttpd.WellSpaced taken.line taken.terminated

instance (taken : Taken) : Decidable taken.WellSpaced :=
  inferInstanceAs (Decidable (_ → _))

theorem Taken.buf_eq {taken : Taken}
    (nul : taken.exit = .newline → taken.buf[taken.count]? = some 0) :
    ∃ behind, taken.buf = taken.line ++ terminator taken.terminated ++ behind := by
  by_cases newline : taken.exit = .newline
  · rcases List.getElem?_eq_some_iff.mp (nul newline) with ⟨less, zero⟩
    refine ⟨taken.buf.drop (taken.count + 1), ?_⟩
    rw [Taken.terminated, decide_eq_true newline, terminator, if_pos rfl, List.append_assoc,
      List.singleton_append, ← zero, ← List.drop_eq_getElem_cons less, Taken.line,
      List.take_append_drop]
  · refine ⟨taken.buf.drop taken.count, ?_⟩
    rw [Taken.terminated, decide_eq_false newline, terminator, if_neg Bool.false_ne_true,
      List.append_nil, Taken.line, List.take_append_drop]

/-- The line is shorter than the array. -/
theorem getLineFrom_count_lt (bytes memory : List Byte) :
    (getLineFrom BUF_SIZE bytes 0 memory).count < BUF_SIZE := by
  have below : BUF_SIZE - 1 < BUF_SIZE := by decide
  rcases getLineFrom_cases BUF_SIZE bytes memory with ⟨short, -, taken⟩ | ⟨short, -, taken⟩ |
    ⟨piece, more, rest, -, -, -, -, -, -, taken⟩
  · rw [taken]
    exact Nat.lt_trans short below
  · rw [taken]
    exact Nat.lt_trans short below
  · rw [taken]
    exact below

/-- An LF has the terminator written. -/
theorem getLineFrom_nul {bytes memory : List Byte} (fits : BUF_SIZE ≤ memory.length)
    (newline : (getLineFrom BUF_SIZE bytes 0 memory).exit = .newline) :
    (getLineFrom BUF_SIZE bytes 0 memory).buf[(getLineFrom BUF_SIZE bytes 0 memory).count]? =
      some 0 := by
  have less := Nat.lt_of_lt_of_le (getLineFrom_count_lt bytes memory) fits
  rcases getLineFrom_cases BUF_SIZE bytes memory with ⟨-, -, taken⟩ | ⟨-, -, taken⟩ |
    ⟨piece, more, rest, -, -, -, -, -, -, taken⟩
  · rw [taken] at less ⊢
    apply List.getElem?_set_self
    rw [length_store]
    exact less
  · rw [taken] at newline
    cases newline
  · rw [taken] at newline
    cases newline

/-- A request whose first line is scanned properly is answered, if it is accepted, with the
file of its second token. -/
theorem doHttpRequest_scanned {memory bytes : List Byte} (fits : BUF_SIZE ≤ memory.length)
    {ending : Read} (ends : ending.Ends)
    (proper : (getLineFrom BUF_SIZE bytes 0 memory).ScansProperly)
    (stat : List Byte → Option Bool) (before : Byte) (more : List Read) :
    ∃ outcome, doHttpRequest stat before (bytes.map .byte ++ ending :: more) memory = some outcome ∧
      ∀ calls, outcome = .accepted calls →
        calls = doHttpResponse stat before
          (cstr (token (behindToken (getLineFrom BUF_SIZE bytes 0 memory).line))) := by
  rw [doHttpRequest_eq, getLine, getLineLoop_eq _ _ ends, Option.bind_some]
  rcases Taken.buf_eq (@getLineFrom_nul bytes memory fits) with ⟨behind, buf_eq⟩
  dsimp only
  split
  · rename_i some
    rcases proper some with ⟨method, url, scanned, -, -, tokens⟩
    rw [buf_eq, scan_append scanned]
    refine ⟨_, rfl, ?_⟩
    intro calls accepted
    cases url with
    | none => cases accepted
    | some url =>
        cases accepted
        rw [(tokens url rfl).2]
  · exact ⟨.badRequest, rfl, nofun⟩

/-- The loops of `do_http_request` stay in the line that `get_line` has delivered, and find
its first two tokens, if and only if these have spaces behind them. -/
theorem getLineFrom_scansProperly_iff (bytes memory : List Byte) :
    (getLineFrom BUF_SIZE bytes 0 memory).ScansProperly ↔
      (getLineFrom BUF_SIZE bytes 0 memory).WellSpaced := by
  have short := getLineFrom_count_lt bytes memory
  generalize getLineFrom BUF_SIZE bytes 0 memory = taken at short
  have less : taken.line.length < BUF_SIZE :=
    Nat.lt_of_le_of_lt (List.length_take_le _ _) short
  exact imp_congr_right fun _ => scansProperly_line_iff less

/-- A request line without a version. -/
def versionless : List Byte :=
  ascii "GET /index.html\r\n"

/-- The URL loop reads on behind the line, and behind the array. -/
theorem versionless_not_scanned :
    (getLineFrom BUF_SIZE versionless 0 (List.replicate BUF_SIZE 0)).line =
        ascii "GET /index.html" ∧
      (getLineFrom BUF_SIZE versionless 0 (List.replicate BUF_SIZE 0)).exit = .newline ∧
      ¬ (getLineFrom BUF_SIZE versionless 0 (List.replicate BUF_SIZE 0)).ScansProperly ∧
      doHttpRequest (fun _ => none) 0 (versionless.map .byte) (List.replicate BUF_SIZE 0) =
        none := by
  refine ⟨by decide +kernel, by decide +kernel, ?_, by decide +kernel⟩
  intro proper
  rcases proper (by decide +kernel) with ⟨method, url, scanned, -⟩
  have runsOut : scan (ascii "GET /index.html" ++ [0]) = none := by decide +kernel
  exact Option.some_ne_none _ (scanned.symm.trans runsOut)

end NetPractice.MiniHttpd
