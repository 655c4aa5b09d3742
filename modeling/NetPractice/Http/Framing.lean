import NetPractice.Http.BadLines
import NetPractice.Http.Capacity

/-!
# Framing of the header section

The line scanner finds the end of a line by its position, and the parsers read the line up
to its first NUL byte.  A session is extended by the bytes that it has received and by the
lines at which the parsers have gone on, so that both views can be compared.
-/

namespace NetPractice.Http

open NetPractice.Text
open NetPractice.Socket
open NetPractice.Transition
open NetPractice.RequestReader (BareEnd OneBlank requestLineOk requestLineOk_iff cstr_of_noNul)

/-! ## The form of a request line -/

/-- A line of the form `GET WS+ url WS* HTTP/1.1`, with its parts. -/
structure GetParts (line method blanks url blanks' version : List Byte) : Prop where
  line_eq : line = method ++ (blanks ++ (url ++ (blanks' ++ version)))
  isGet : strcasecmp method (ascii "GET")
  inFront : blanks ≠ [] ∧ ∀ byte ∈ blanks, isBlank byte
  isUrl : url ≠ [] ∧ ∀ byte ∈ url, ¬ isBlank byte
  behind : ∀ byte ∈ blanks', isBlank byte
  isVersion : strcasecmp version (ascii "HTTP/1.1")

/-- A line of this form. -/
def GetLine (line : List Byte) : Prop :=
  ∃ method blanks url blanks' version, GetParts line method blanks url blanks' version

/-- What stands behind the first word and the blanks behind it. -/
def behindWord (text : List Byte) : List Byte :=
  (text.dropWhile (! isBlank ·)).dropWhile isBlank

section Words

variable {word blanks text : List Byte}

theorem dropWhile_word (noBlank : ∀ byte ∈ word, ¬ isBlank byte) :
    (word ++ text).dropWhile (! isBlank ·) = text.dropWhile (! isBlank ·) := by
  apply List.dropWhile_append_of_pos
  intro byte mem
  simpa using noBlank byte mem

theorem behindWord_append (noBlank : ∀ byte ∈ word, ¬ isBlank byte) (nonempty : blanks ≠ [])
    (isBlanks : ∀ byte ∈ blanks, isBlank byte) (stops : ∀ byte ∈ text.head?, ¬ isBlank byte) :
    behindWord (word ++ (blanks ++ text)) = text := by
  have atBlank : (blanks ++ text).dropWhile (! isBlank ·) = blanks ++ text := by
    cases blanks with
    | nil => exact absurd rfl nonempty
    | cons byte blanks => simp [isBlanks byte List.mem_cons_self]
  have atText : text.dropWhile isBlank = text := by
    cases text with
    | nil => rfl
    | cons byte text =>
        rw [List.dropWhile_cons_of_neg]
        exact stops byte rfl
  rw [behindWord, dropWhile_word noBlank, atBlank, List.dropWhile_append_of_pos isBlanks, atText]

theorem behindWord_word (noBlank : ∀ byte ∈ word, ¬ isBlank byte) : behindWord word = [] := by
  have dropped := @dropWhile_word word [] noBlank
  rw [List.append_nil] at dropped
  rw [behindWord, dropped]
  rfl

end Words

theorem head_noBlank {word rest : List Byte} (nonempty : word ≠ [])
    (noBlank : ∀ byte ∈ word, ¬ isBlank byte) : ∀ byte ∈ (word ++ rest).head?, ¬ isBlank byte := by
  cases word with
  | nil => exact absurd rfl nonempty
  | cons first word =>
      intro byte mem
      cases mem
      exact noBlank first List.mem_cons_self

theorem version_word {version : List Byte} (isVersion : strcasecmp version (ascii "HTTP/1.1")) :
    version ≠ [] ∧ ∀ byte ∈ version, ¬ isBlank byte := by
  constructor
  · rintro rfl
    exact absurd isVersion (by decide +kernel)
  · exact noBlank_of_strcasecmp isVersion (by decide +kernel)

/-- The version of a line of this form is all that stands behind its second word. -/
theorem GetLine.version {line : List Byte} (getLine : GetLine line) :
    behindWord (behindWord line) = [] ∨
      strcasecmp (behindWord (behindWord line)) (ascii "HTTP/1.1") := by
  rcases getLine with ⟨method, blanks, url, blanks', version, parts⟩
  have method_word := noBlank_of_strcasecmp parts.isGet (by decide +kernel)
  obtain ⟨nonempty, version_noBlank⟩ := version_word parts.isVersion
  have first : behindWord line = url ++ (blanks' ++ version) := by
    rw [parts.line_eq]
    apply behindWord_append method_word parts.inFront.1 parts.inFront.2
    exact head_noBlank parts.isUrl.1 parts.isUrl.2
  rw [first]
  by_cases noBlanks : blanks' = []
  · left
    rw [noBlanks, List.nil_append]
    apply behindWord_word
    intro byte mem
    rcases List.mem_append.mp mem with inUrl | inVersion
    · exact parts.isUrl.2 byte inUrl
    · exact version_noBlank byte inVersion
  · right
    have stops := @head_noBlank version [] nonempty version_noBlank
    rw [List.append_nil] at stops
    rw [behindWord_append parts.isUrl.2 noBlanks parts.behind stops]
    exact parts.isVersion

theorem OneBlank.getLine {line : List Byte} (oneBlank : OneBlank line) : GetLine line := by
  rcases oneBlank with ⟨method, blanks, target, blank, version, spells⟩
  refine ⟨method, blanks, target, [blank], version, ?_⟩
  constructor
  · exact spells.line_eq
  · exact spells.isGet
  · exact spells.inFront
  · exact ⟨spells.isTarget.nonempty, spells.noBlank⟩
  · exact spells.behind.2
  · exact spells.isVersion

/-- What is accepted in front of a NUL byte is not the whole line. -/
theorem not_getLine_of_nul {line : List Byte} (accepted : requestLineOk (cstr line))
    (nul : 0 ∈ line) : ¬ GetLine line := by
  obtain ⟨rest, line_eq⟩ := exists_cstr_append nul
  rcases (requestLineOk_iff _).mp accepted with ⟨method, blanks, target, blank, version, spells⟩
  have method_word := noBlank_of_strcasecmp spells.isGet (by decide +kernel)
  obtain ⟨nonempty, version_noBlank⟩ := version_word spells.isVersion
  have whole : line = method ++ (blanks ++ (target ++ ([blank] ++ (version ++ 0 :: rest)))) := by
    rw [line_eq, spells.line_eq]
    simp only [List.append_assoc]
  have behind : behindWord (behindWord line) = version ++ 0 :: rest := by
    rw [whole, behindWord_append method_word spells.inFront.1 spells.inFront.2
        (head_noBlank spells.isTarget.nonempty spells.noBlank),
      behindWord_append spells.noBlank spells.behind.1 spells.behind.2
        (head_noBlank nonempty version_noBlank)]
  intro getLine
  rcases getLine.version with empty | same
  · rw [behind] at empty
    exact nonempty (List.append_eq_nil_iff.mp empty).1
  · rw [behind] at same
    have length := strcasecmp_length same
    have length' := strcasecmp_length spells.isVersion
    rw [List.length_append, List.length_cons] at length
    omega

/-! ## Sessions with their lines -/

/-- A session with the bytes that `recv` has returned, the lines that were accepted as
request lines, and the lines at which the header section was left. -/
structure Framed where
  session : Session
  received : List Byte
  accepted : List (List Byte)
  ended : List (List Byte)

namespace Framed

/-- In front of the first `read`. -/
def start (c : HttpConn) : Framed :=
  ⟨Session.start c, [], [], []⟩

/-- The received bytes of the line that is handled, without the CRLF in front of
`m_checked_idx`. -/
def line (s : Framed) : List Byte :=
  (s.received.drop s.session.conn.startLine).take
    (s.session.conn.checkedIdx - 2 - s.session.conn.startLine)

/-- The request line is accepted: the main loop goes on behind it. -/
def Accepts (s : Framed) (t : Session) : Prop :=
  s.session.conn.checkState = .requestLine ∧ t.phase = .scanning .ok

/-- The header section is left: `process_read` has called `do_request`, or goes on with the
content. -/
def Leaves (s : Framed) (t : Session) : Prop :=
  s.session.conn.checkState = .header ∧
    (t.phase ≠ .scanning .ok ∨ t.conn.checkState = .content)

instance (s : Framed) (t : Session) : Decidable (s.Accepts t) :=
  inferInstanceAs (Decidable (_ ∧ _))

instance (s : Framed) (t : Session) : Decidable (s.Leaves t) :=
  inferInstanceAs (Decidable (_ ∧ (_ ∨ _)))

/-- The line has been handled. -/
def handled (s : Framed) (t : Session) : Framed where
  session := t
  received := s.received
  accepted := if s.Accepts t then s.accepted ++ [s.line] else s.accepted
  ended := if s.Leaves t then s.ended ++ [s.line] else s.ended

/-- The session goes on, with its history. -/
def next (s : Framed) (event : SessionEvent) : Option Framed :=
  (s.session.next event).map fun t =>
    match event with
    | .read answers => { s with session := t, received := s.received ++ Http.received answers }
    | .scan => { s with session := t }
    | .handle _ => s.handled t

end Framed

/-- Every accepted line has the form of a request line, and the header section was left at
empty lines only. -/
structure WellFramed (s : Framed) : Prop where
  accepted : ∀ line ∈ s.accepted, GetLine line
  ended : ∀ line ∈ s.ended, line.length = 0

/-- What the parser reads of the line is not cut off by a NUL byte: a request line that it
accepts holds none, and a header line does not begin with one. -/
def ReadWhole (s : Framed) : SessionEvent → Prop
  | .handle _ =>
      s.session.phase = .handling →
        match s.session.conn.checkState with
        | .requestLine => requestLineOk (cstr s.line) → 0 ∉ s.line
        | .header => s.line.head? ≠ some 0
        | .content => True
  | .read _ | .scan => True

instance (s : Framed) : ∀ event, Decidable (ReadWhole s event)
  | .handle _ =>
      match state : s.session.conn.checkState with
      | .requestLine =>
          decidable_of_iff
            (s.session.phase = .handling → requestLineOk (cstr s.line) → 0 ∉ s.line)
            (by simp only [ReadWhole, state])
      | .header =>
          decidable_of_iff (s.session.phase = .handling → s.line.head? ≠ some 0)
            (by simp only [ReadWhole, state])
      | .content => isTrue (by simp [ReadWhole, state])
  | .read _ | .scan => isTrue trivial

/-! ## Where a session stands in the received bytes -/

/-- A connection in front of a line, behind the handled lines. -/
structure InFront (lines : List (List Byte)) (d : HttpConn) : Prop extends d.AtLine where
  read : d.readIdx = (wire lines).length
  state : d.checkState ≠ .content
  plain : ∀ line ∈ lines, Plain line
  before : 0 < d.readIdx → d.readBuf (d.readIdx - 1) ≠ CR

/-- The received bytes are whole lines that were handled, and the line that is scanned, or
is in front of the loop's body; or the header section has been left. -/
inductive Stands (received : List Byte) : Session → Prop where
  | scans {lines : List (List Byte)} {d : HttpConn} {first tail : List Byte} {phase : Phase}
      (front : InFront lines d) (received_eq : received = wire lines ++ (first ++ tail))
      (plain : Plain first) (phase_ne : phase ≠ .handling) :
      Stands received
        ⟨{ d.append (first ++ tail) with checkedIdx := d.readIdx + first.length }, phase⟩
  | takes {lines : List (List Byte)} {d : HttpConn} {line rest : List Byte}
      (front : InFront lines d)
      (received_eq : received = wire lines ++ (line ++ CR :: LF :: rest))
      (plain : Plain line) : Stands received ⟨(d.lineTaken line).append rest, .handling⟩
  | content {c : HttpConn} {phase : Phase} (state : c.checkState = .content) :
      Stands received ⟨c, phase⟩
  | finished {c : HttpConn} {code : HttpCode} : Stands received ⟨c, .finished code⟩

/-- The invariant: the buffer holds the received bytes behind the handled lines. -/
structure Stood (s : Framed) : Prop extends WellFramed s where
  stands : Stands s.received s.session
  length : s.session.conn.readIdx = s.received.length
  room : s.session.conn.readIdx ≤ READ_BUFFER_SIZE

/-! ## Reading and scanning -/

namespace HttpConn

theorem read_append {c d : HttpConn} {answers : List Recv} {more : Bool}
    (room : c.readIdx ≤ READ_BUFFER_SIZE) (result : c.read answers = some (more, d)) :
    d = c.append (received answers) ∧ d.readIdx ≤ READ_BUFFER_SIZE := by
  unfold read at result
  split at result
  · rcases Option.ite_none_right_eq_some.mp result with ⟨rfl, equal⟩
    cases equal
    exact ⟨(append_nil c).symm, room⟩
  · have loop := readLoop_read room result
    refine ⟨loop.appended, ?_⟩
    rw [loop.appended, append_readIdx]
    exact loop.inside

theorem nextText_frame {c d : HttpConn} {status next : LineStatus}
    (text : c.nextText status = (next, d)) :
    d = { c with readBuf := d.readBuf, checkedIdx := d.checkedIdx, stores := d.stores } := by
  unfold nextText at text
  split at text
  · cases text
    rfl
  · have frame := scanLine_frame (c.readIdx - c.checkedIdx) c
    unfold parseLine at text
    rw [text] at frame
    exact frame

end HttpConn

open HttpConn

theorem Stands.onRead {bytes more : List Byte} {c : HttpConn} {phase : Phase}
    (stands : Stands bytes ⟨c, .waiting⟩) (phase_ne : phase ≠ .handling) :
    Stands (bytes ++ more) ⟨c.append more, phase⟩ := by
  cases stands with
  | @scans lines d first tail _ front received_eq plain _ =>
      have joined : { d.append (first ++ tail) with
          checkedIdx := d.readIdx + first.length }.append more =
          { d.append (first ++ (tail ++ more)) with checkedIdx := d.readIdx + first.length } := by
        have same := append_append d (first ++ tail) more
        rw [List.append_assoc] at same
        rw [← same]
        rfl
      rw [joined]
      apply Stands.scans front _ plain phase_ne
      rw [received_eq]
      simp only [List.append_assoc]
  | content state => exact .content state

/-- The scanner stops behind a line, or in front of the end of the received bytes. -/
theorem Stands.onScan {bytes : List Byte} {c d : HttpConn} {status next : LineStatus}
    (stands : Stands bytes ⟨c, .scanning status⟩) (text : c.nextText status = (next, d)) :
    Stands bytes ⟨d, if next = .ok then .handling else .waiting⟩ := by
  cases stands with
  | @scans lines e first tail _ front received_eq plain _ =>
      have state : { e.append (first ++ tail) with
          checkedIdx := e.readIdx + first.length }.checkState ≠ .content := front.state
      rw [nextText_of_state state, ← front.parseLine_append plain] at text
      generalize first ++ tail = pending at text received_eq
      rcases RequestReader.line_cases pending with ⟨line, rest, plain', rfl⟩ |
        ⟨start, short, plain', isShort, rfl⟩ | ⟨start, broken, plain', bare, rfl⟩
      · rw [front.parseLine_line plain'] at text
        cases text
        rw [if_pos rfl]
        exact .takes front received_eq plain'
      · rw [front.parseLine_open plain' isShort] at text
        cases text
        exact .scans front received_eq plain' (by simp)
      · rw [front.parseLine_broken plain' bare front.before] at text
        cases text
        exact .scans front received_eq plain' (by simp)
  | content state =>
      apply Stands.content
      rw [nextText_frame text]
      exact state

/-! ## Handling a line -/

namespace HttpConn

section Handling

variable {fs : FileSystem} {c : HttpConn} {line : List Byte}

variable (fs) in
/-- The request line is judged as the C string that it begins with. -/
theorem handleText_taken (atLine : c.AtLine) (state : c.checkState = .requestLine)
    (room : c.readIdx + line.length < READ_BUFFER_SIZE) (rest : List Byte) :
    ∃ d, ((c.lineTaken line).append rest).handleText fs =
        (if requestLineOk (cstr line) then .again .ok else .result .badRequest, d.append rest) ∧
      (requestLineOk (cstr line) → (c.lineTaken line).handleText fs = (.again .ok, d) ∧
        d.checkState = .header) := by
  let t : HttpConn := { c.lineTaken line with startLine := (c.lineTaken line).checkedIdx }
  have ends : t.EndsAt (c.readIdx + line.length) := lineTaken_endsAt room
  have str_eq : t.str c.readIdx = cstr line := lineTaken_str room
  have inside := t.length_str_le c.readIdx
  have short : (cstr line).length ≤ line.length := (List.takeWhile_sublist _).length_le
  have code := parseRequestLine_code (c := t) (by rw [str_eq]; omega)
  rw [str_eq] at code
  have parsed := parseRequestLine_spec t c.readIdx
  have split_eq : ∀ turn, (if requestLineOk (cstr line) then Turn.again .ok
      else .result .badRequest) = turn → t.onRequestLine c.readIdx =
        (turn, (t.parseRequestLine c.readIdx).2) := by
    rintro turn rfl
    unfold onRequestLine
    generalize t.parseRequestLine c.readIdx = result at code ⊢
    obtain ⟨found, d⟩ := result
    cases found_eq : requestLineOk (cstr line) with
    | true =>
        rw [found_eq] at code
        cases code
        rfl
    | false =>
        rw [found_eq] at code
        cases code
        rfl
  refine ⟨(t.parseRequestLine c.readIdx).2, ?_, ?_⟩
  · rw [handleText_requestLine (c := (c.lineTaken line).append rest) state]
    change (t.append rest).onRequestLine c.startLine = _
    rw [atLine.start, ends.onRequestLine_append (Nat.le_add_right _ _), split_eq _ rfl]
  · intro ok
    rw [if_pos ok] at code split_eq
    refine ⟨?_, parsed.state (by rw [code]; decide)⟩
    rw [handleText_requestLine (c := c.lineTaken line) state]
    change t.onRequestLine c.startLine = _
    rw [atLine.start, split_eq _ rfl]

variable (fs) in
/-- A header line that begins with a NUL byte ends the header section. -/
theorem handleText_blank (state : c.checkState = .header) (zero : c.readBuf c.startLine = 0) :
    (∃ code d, c.handleText fs = (.result code, d)) ∨
      ∃ d, c.handleText fs = (.again .ok, d) ∧ d.checkState = .content := by
  rw [handleText_header state]
  have zero' : { c with startLine := c.checkedIdx }.readBuf c.startLine = 0 := zero
  unfold onHeader parseHeaders
  rw [if_pos zero']
  by_cases noContent : { c with startLine := c.checkedIdx }.contentLength ≠ 0
  · rw [if_pos noContent]
    exact .inr ⟨_, rfl, rfl⟩
  · rw [if_neg noContent]
    exact .inl ⟨_, _, rfl⟩

/-- A line that begins with a NUL byte, or is empty. -/
theorem lineTaken_blank (blank : cstr line = []) : (c.lineTaken line).readBuf c.readIdx = 0 := by
  cases line with
  | nil => exact c.lineTaken_nil_readBuf
  | cons byte line =>
      rw [cstr_cons] at blank
      by_cases nul : byte = 0
      · simp only [lineTaken, store_readBuf]
        rw [if_neg (by omega), if_neg (by simp)]
        exact (append_readBuf_of_mem (k := 0) (by simp)).trans nul
      · rw [if_neg nul] at blank
        cases blank

end Handling

end HttpConn

section Steps

variable {fs : FileSystem} {lines : List (List Byte)} {d e : HttpConn} {line rest : List Byte}

theorem InFront.onHandle (front : InFront lines d) (plain : Plain line)
    (room : d.readIdx + line.length + 2 ≤ READ_BUFFER_SIZE) {status : LineStatus}
    (handled : (d.lineTaken line).handleText fs = (.again status, e))
    (state : e.checkState ≠ .content) : InFront (lines ++ [line]) e := by
  obtain ⟨atLine, readIdx_eq⟩ := atLine_of_handled handled
  refine ⟨atLine, ?_, state, ?_, fun _ => front.handled_before front.state room handled⟩
  · rw [readIdx_eq, front.read, wire_append, List.length_append, wire_cons, List.length_append]
    rfl
  · intro other mem
    rcases List.mem_append.mp mem with before | last
    · exact front.plain other before
    · rw [List.mem_singleton.mp last]
      exact plain

/-- The next line is scanned from its first byte on. -/
theorem InFront.stands (front : InFront (lines ++ [line]) e) {phase : Phase}
    (phase_ne : phase ≠ .handling) :
    Stands (wire lines ++ (line ++ CR :: LF :: rest)) ⟨e.append rest, phase⟩ := by
  have checked : e.readIdx + ([] : List Byte).length = (e.append rest).checkedIdx :=
    front.checked.symm
  have bytes_eq : wire (lines ++ [line]) ++ ([] ++ rest) =
      wire lines ++ (line ++ CR :: LF :: rest) := by
    simp [wire_append]
  have stands : Stands (wire (lines ++ [line]) ++ ([] ++ rest))
      ⟨{ e.append ([] ++ rest) with checkedIdx := e.readIdx + ([] : List Byte).length }, phase⟩ :=
    .scans front rfl (by simp [Plain]) phase_ne
  rw [bytes_eq, checked] at stands
  exact stands

/-- The bytes between the delimiters are those of the line. -/
theorem line_taken {s : Framed} (front : InFront lines d)
    (conn_eq : s.session.conn = (d.lineTaken line).append rest)
    (received_eq : s.received = wire lines ++ (line ++ CR :: LF :: rest)) : s.line = line := by
  have start : s.session.conn.startLine = (wire lines).length := by
    rw [conn_eq, ← front.read]
    exact front.start
  have checked : s.session.conn.checkedIdx = (wire lines).length + line.length + 2 := by
    rw [conn_eq, ← front.read]
    rfl
  rw [Framed.line, start, checked, received_eq, List.drop_left]
  have length_eq : (wire lines).length + line.length + 2 - 2 - (wire lines).length =
      line.length := by
    omega
  rw [length_eq, List.take_left]

theorem Framed.next_handle {s t : Framed} (step : s.next (.handle fs) = some t) :
    s.session.phase = .handling ∧
      ((∃ code d, s.session.conn.handleText fs = (.result code, d) ∧
          t = s.handled ⟨d, .finished code⟩) ∨
        ∃ status d, s.session.conn.handleText fs = (.again status, d) ∧
          t = s.handled ⟨d, .scanning status⟩) := by
  rcases Option.map_eq_some_iff.mp step with ⟨session, stepped, rfl⟩
  simp only [Session.next] at stepped
  split at stepped
  · rename_i phase
    refine ⟨phase, ?_⟩
    split at stepped
    · rename_i code c handled
      cases stepped
      exact .inl ⟨code, c, handled, rfl⟩
    · rename_i status c handled
      cases stepped
      exact .inr ⟨status, c, handled, rfl⟩
  · cases stepped

/-- What is recorded of a line, by the C string that it begins with. -/
def Recorded (s t : Framed) : CheckState → Prop
  | .requestLine =>
      t.ended = s.ended ∧
        t.accepted = if requestLineOk (cstr s.line) then s.accepted ++ [s.line] else s.accepted
  | .header =>
      t.accepted = s.accepted ∧
        t.ended = if cstr s.line = [] then s.ended ++ [s.line] else s.ended
  | .content => t.accepted = s.accepted ∧ t.ended = s.ended

theorem Framed.not_accepts {s : Framed} (state : s.session.conn.checkState ≠ .requestLine)
    (session : Session) : ¬ s.Accepts session :=
  fun accepts => state accepts.1

theorem Framed.not_leaves {s : Framed} (state : s.session.conn.checkState ≠ .header)
    (session : Session) : ¬ s.Leaves session :=
  fun leaves => state leaves.1

/-- A request line is recorded when it is accepted. -/
theorem recorded_requestLine {s t : Framed} (front : InFront lines d)
    (state : d.checkState = .requestLine) (plain : Plain line)
    (room : d.readIdx + line.length + 2 ≤ READ_BUFFER_SIZE)
    (session_eq : s.session = ⟨(d.lineTaken line).append rest, .handling⟩)
    (received_eq : s.received = wire lines ++ (line ++ CR :: LF :: rest))
    (step : s.next (.handle fs) = some t) :
    Stands t.received t.session ∧ Recorded s t .requestLine := by
  have conn_eq : s.session.conn = (d.lineTaken line).append rest := by rw [session_eq]
  have state_eq : s.session.conn.checkState = .requestLine := by
    rw [conn_eq]
    exact state
  have line_eq := line_taken front conn_eq received_eq
  have inside : d.readIdx + line.length < READ_BUFFER_SIZE := by omega
  obtain ⟨e, handled, accepted⟩ := handleText_taken fs front.toAtLine state inside rest
  rw [← conn_eq] at handled
  have stays := s.not_leaves (by simp [state_eq])
  obtain ⟨-, outcome⟩ := Framed.next_handle step
  cases ok : requestLineOk (cstr line) with
  | true =>
      obtain ⟨handledLine, header⟩ := accepted ok
      rw [ok] at handled
      rcases outcome with ⟨code, c, result, -⟩ | ⟨status, c, result, rfl⟩
      · rw [handled] at result
        cases result
      · rw [handled] at result
        cases result
        have front' := front.onHandle plain room handledLine (by simp [header])
        refine ⟨?_, if_neg (stays _), ?_⟩
        · change Stands s.received _
          rw [received_eq]
          exact front'.stands (by simp)
        · rw [line_eq, ok, ← line_eq]
          exact if_pos ⟨state_eq, rfl⟩
  | false =>
      rw [ok] at handled
      rcases outcome with ⟨code, c, result, rfl⟩ | ⟨status, c, result, -⟩
      · refine ⟨.finished, if_neg (stays _), ?_⟩
        rw [line_eq, ok]
        exact if_neg fun accepts => by cases accepts.2
      · rw [handled] at result
        cases result

/-- At a line that begins with a NUL byte, or is empty, the header section is left. -/
theorem recorded_blank {s t : Framed} (state : s.session.conn.checkState = .header)
    (zero : s.session.conn.readBuf s.session.conn.startLine = 0) (blank : cstr s.line = [])
    (step : s.next (.handle fs) = some t) :
    Stands t.received t.session ∧ Recorded s t .header := by
  have refuses := s.not_accepts (by simp [state])
  obtain ⟨-, outcome⟩ := Framed.next_handle step
  rw [Recorded, if_pos blank]
  rcases outcome with ⟨code, c, result, rfl⟩ | ⟨status, c, result, rfl⟩
  · exact ⟨.finished, if_neg (refuses _), if_pos ⟨state, .inl (by simp)⟩⟩
  · rcases handleText_blank fs state zero with ⟨code, e, left⟩ | ⟨e, left, content⟩
    · rw [left] at result
      cases result
    · rw [left] at result
      cases result
      exact ⟨.content content, if_neg (refuses _), if_pos ⟨state, .inr content⟩⟩

/-- Behind any other line the header section goes on. -/
theorem recorded_named {s t : Framed} (front : InFront lines d) (state : d.checkState = .header)
    (plain : Plain line) (room : d.readIdx + line.length + 2 ≤ READ_BUFFER_SIZE)
    (session_eq : s.session = ⟨(d.lineTaken line).append rest, .handling⟩)
    (received_eq : s.received = wire lines ++ (line ++ CR :: LF :: rest))
    (named : cstr line ≠ []) (step : s.next (.handle fs) = some t) :
    Stands t.received t.session ∧ Recorded s t .header := by
  have conn_eq : s.session.conn = (d.lineTaken line).append rest := by rw [session_eq]
  have state_eq : s.session.conn.checkState = .header := by
    rw [conn_eq]
    exact state
  have refuses := s.not_accepts (by simp [state_eq])
  have line_eq := line_taken front conn_eq received_eq
  have first : ∃ first ∈ line.head?, first ≠ 0 := by
    cases line with
    | nil => exact absurd rfl named
    | cons byte line =>
        refine ⟨byte, rfl, fun nul => named ?_⟩
        rw [cstr_cons, if_pos nul]
  obtain ⟨e, handledLine, header, -⟩ := onHeader_named fs front.toAtLine state first (by omega)
  have start : (d.lineTaken line).startLine ≤ d.readIdx + line.length := by
    rw [show (d.lineTaken line).startLine = d.startLine from rfl, front.start]
    omega
  have handled := (lineTaken_endsAt (by omega)).handleText_append start front.state handledLine
    rest
  rw [← conn_eq] at handled
  obtain ⟨-, ⟨code, c, result, -⟩ | ⟨status, c, result, rfl⟩⟩ := Framed.next_handle step
  · rw [handled] at result
    cases result
  · rw [handled] at result
    cases result
    have front' := front.onHandle plain room handledLine (by simp [header])
    refine ⟨?_, if_neg (refuses _), ?_⟩
    · change Stands s.received _
      rw [received_eq]
      exact front'.stands (by simp)
    · rw [line_eq, if_neg named]
      refine if_neg fun leaves => ?_
      rcases leaves.2 with phase | content
      · exact phase rfl
      · change e.checkState = .content at content
        rw [header] at content
        cases content

/-- The header section is left at a line that begins with a NUL byte, or is empty. -/
theorem recorded_header {s t : Framed} (front : InFront lines d)
    (state : d.checkState = .header) (plain : Plain line)
    (room : d.readIdx + line.length + 2 ≤ READ_BUFFER_SIZE)
    (session_eq : s.session = ⟨(d.lineTaken line).append rest, .handling⟩)
    (received_eq : s.received = wire lines ++ (line ++ CR :: LF :: rest))
    (step : s.next (.handle fs) = some t) :
    Stands t.received t.session ∧ Recorded s t .header := by
  by_cases blank : cstr line = []
  · have conn_eq : s.session.conn = (d.lineTaken line).append rest := by rw [session_eq]
    have line_eq := line_taken front conn_eq received_eq
    have start_eq : s.session.conn.startLine = d.readIdx := by
      rw [conn_eq]
      exact front.start
    have zero : s.session.conn.readBuf s.session.conn.startLine = 0 := by
      rw [start_eq, conn_eq, append_readBuf_of_lt]
      · exact lineTaken_blank blank
      · simp only [lineTaken, store_readIdx, append_readIdx, List.length_append, List.length_cons]
        omega
    refine recorded_blank ?_ zero (line_eq.symm ▸ blank) step
    rw [conn_eq]
    exact state
  · exact recorded_named front state plain room session_eq received_eq blank step

/-- The content is not left for another line. -/
theorem recorded_content {s t : Framed} (state : s.session.conn.checkState = .content)
    (step : s.next (.handle fs) = some t) :
    Stands t.received t.session ∧ Recorded s t .content := by
  have refuses := s.not_accepts (by simp [state])
  have stays := s.not_leaves (by simp [state])
  obtain ⟨-, ⟨code, c, -, rfl⟩ | ⟨status, c, handled, rfl⟩⟩ := Framed.next_handle step
  · exact ⟨.finished, if_neg (refuses _), if_neg (stays _)⟩
  · refine ⟨.content ?_, if_neg (refuses _), if_neg (stays _)⟩
    by_cases complete : toInt (s.session.conn.contentLength + s.session.conn.checkedIdx) ≤
        s.session.conn.readIdx
    · obtain ⟨code, e, result, -⟩ := handleText_complete fs state complete
      rw [result] at handled
      cases handled
    · rw [handleText_waits fs state (by omega)] at handled
      cases handled
      exact state

/-- In front of the loop's body stands a line, unless the header section has been left. -/
theorem Stands.handling {bytes : List Byte} {session : Session} (stands : Stands bytes session)
    (phase_eq : session.phase = .handling) :
    session.conn.checkState = .content ∨
      ∃ lines d line rest, InFront lines d ∧ Plain line ∧
        session = ⟨(d.lineTaken line).append rest, .handling⟩ ∧
        bytes = wire lines ++ (line ++ CR :: LF :: rest) := by
  cases stands with
  | scans front received_eq plain phase_ne => exact absurd phase_eq phase_ne
  | takes front received_eq plain => exact .inr ⟨_, _, _, _, front, plain, rfl, received_eq⟩
  | content state => exact .inl state
  | finished => cases phase_eq

theorem Stood.recorded {s t : Framed} (stood : Stood s) (step : s.next (.handle fs) = some t) :
    Stands t.received t.session ∧ Recorded s t s.session.conn.checkState := by
  obtain ⟨phase, -⟩ := Framed.next_handle step
  have room := stood.room
  rcases stood.stands.handling phase with
    content | ⟨lines, d, line, rest, front, plain, session_eq, received_eq⟩
  · rw [content]
    exact recorded_content content step
  · have conn_eq : s.session.conn = (d.lineTaken line).append rest := by rw [session_eq]
    have state_eq : s.session.conn.checkState = d.checkState := by
      rw [conn_eq]
      rfl
    have room' : d.readIdx + line.length + 2 ≤ READ_BUFFER_SIZE := by
      rw [conn_eq] at room
      simp only [lineTaken, append_readIdx, store_readIdx, List.length_append, List.length_cons,
        List.length_nil] at room
      omega
    rw [state_eq]
    cases state : d.checkState with
    | requestLine => exact recorded_requestLine front state plain room' session_eq received_eq step
    | header => exact recorded_header front state plain room' session_eq received_eq step
    | content => exact absurd state front.state

/-- A line that is read as a whole has the form that its record promises. -/
theorem Stood.onHandle {s t : Framed} (stood : Stood s) (readWhole : ReadWhole s (.handle fs))
    (step : s.next (.handle fs) = some t) : WellFramed t := by
  obtain ⟨phase, -⟩ := Framed.next_handle step
  obtain ⟨-, recorded⟩ := stood.recorded step
  have whole := readWhole phase
  cases state : s.session.conn.checkState with
  | requestLine =>
      rw [state] at recorded whole
      obtain ⟨ended_eq, accepted_eq⟩ := recorded
      refine ⟨?_, ended_eq ▸ stood.ended⟩
      rw [accepted_eq]
      split
      · rename_i ok
        intro line mem
        rcases List.mem_append.mp mem with before | last
        · exact stood.accepted line before
        · rw [List.mem_singleton.mp last]
          have same := cstr_of_noNul (whole ok)
          rw [same, requestLineOk_iff] at ok
          exact OneBlank.getLine ok
      · exact stood.accepted
  | header =>
      rw [state] at recorded whole
      obtain ⟨accepted_eq, ended_eq⟩ := recorded
      refine ⟨accepted_eq ▸ stood.accepted, ?_⟩
      rw [ended_eq]
      split
      · rename_i blank
        intro line mem
        rcases List.mem_append.mp mem with before | last
        · exact stood.ended line before
        · rw [List.mem_singleton.mp last]
          cases line_eq : s.line with
          | nil => rfl
          | cons byte rest =>
              rw [line_eq] at whole blank
              rw [cstr_cons] at blank
              by_cases nul : byte = 0
              · exact absurd (congrArg some nul) whole
              · rw [if_neg nul] at blank
                cases blank
      · exact stood.ended
  | content =>
      rw [state] at recorded
      exact ⟨recorded.1 ▸ stood.accepted, recorded.2 ▸ stood.ended⟩

/-- A line that a NUL byte cuts off is recorded although it has not the form. -/
theorem Stood.cut_off {s t : Framed} (stood : Stood s) (cut : ¬ ReadWhole s (.handle fs))
    (step : s.next (.handle fs) = some t) : ¬ WellFramed t := by
  obtain ⟨-, recorded⟩ := stood.recorded step
  intro wellFramed
  apply cut
  intro _
  cases state : s.session.conn.checkState with
  | requestLine =>
      rw [state] at recorded
      intro ok nul
      have accepted_eq := recorded.2
      rw [if_pos ok] at accepted_eq
      have getLine := wellFramed.accepted s.line (by simp [accepted_eq])
      exact not_getLine_of_nul ok nul getLine
  | header =>
      rw [state] at recorded
      intro nul
      cases line_eq : s.line with
      | nil =>
          rw [line_eq] at nul
          cases nul
      | cons byte rest =>
          have ended_eq := recorded.2
          rw [line_eq] at nul
          cases nul
          rw [line_eq, cstr_cons, if_pos rfl, if_pos rfl] at ended_eq
          have empty := wellFramed.ended (0 :: rest) (by simp [ended_eq])
          cases empty
  | content => trivial

end Steps

theorem Stood.onStart (c : HttpConn) : Stood (Framed.start c) := by
  have front : InFront [] c.init :=
    ⟨c.init_atLine, rfl, by simp [init], by simp, fun positive => absurd positive (Nat.lt_irrefl 0)⟩
  have stands : Stands [] ⟨{ c.init.append ([] ++ []) with
      checkedIdx := c.init.readIdx + ([] : List Byte).length }, .waiting⟩ :=
    .scans front rfl (by simp [Plain]) (by simp)
  rw [List.append_nil, append_nil] at stands
  constructor
  · exact ⟨fun _ mem => absurd mem List.not_mem_nil, fun _ mem => absurd mem List.not_mem_nil⟩
  · exact stands
  · rfl
  · exact Nat.zero_le _

theorem stood_preserved : Preserves Framed.next ReadWhole Stood := by
  intro s event t stood readWhole step
  rcases Option.map_eq_some_iff.mp step with ⟨session, stepped, t_eq⟩
  cases event with
  | read answers =>
      simp only [Session.next] at stepped
      split at stepped
      · rename_i phase
        rcases Option.map_eq_some_iff.mp stepped with ⟨⟨more, c⟩, result, rfl⟩
        obtain ⟨rfl, room⟩ := read_append stood.room result
        cases t_eq
        have stands : Stands s.received ⟨s.session.conn, .waiting⟩ := by
          rw [← phase]
          exact stood.stands
        constructor
        · exact ⟨stood.accepted, stood.ended⟩
        · exact stands.onRead (by cases more <;> simp)
        · rw [List.length_append, ← stood.length]
          rfl
        · exact room
      · cases stepped
  | scan =>
      simp only [Session.next] at stepped
      split at stepped
      · rename_i status phase
        have stands : Stands s.received ⟨s.session.conn, .scanning status⟩ := by
          rw [← phase]
          exact stood.stands
        cases text : s.session.conn.nextText status with
        | mk result c =>
            have frame := nextText_frame text
            have readIdx_eq : c.readIdx = s.session.conn.readIdx := by rw [frame]
            have stands' := stands.onScan text
            have session_eq : session = ⟨c, if result = .ok then .handling else .waiting⟩ := by
              rw [text] at stepped
              cases result <;> exact (Option.some.inj stepped).symm
            cases t_eq
            rw [session_eq]
            constructor
            · exact ⟨stood.accepted, stood.ended⟩
            · exact stands'
            · exact readIdx_eq.trans stood.length
            · exact readIdx_eq.trans_le stood.room
      · cases stepped
  | handle fs =>
      obtain ⟨stands, -⟩ := stood.recorded step
      have wellFramed := stood.onHandle readWhole step
      obtain ⟨phase, ⟨code, c, handled, rfl⟩ | ⟨status, c, handled, rfl⟩⟩ :=
        Framed.next_handle step
      all_goals
        have readIdx_eq := (handleText_spec handled).readIdx_eq
        exact ⟨wellFramed, stands, readIdx_eq.trans stood.length, readIdx_eq.trans_le stood.room⟩

/-- In every session, accepted lines have the form of a request line and the header section
is left at empty lines only, exactly as long as no NUL byte cuts off what is read of a
line. -/
theorem wellFramed_along_iff_readWhole (c : HttpConn) (events : List SessionEvent)
    (possible : (run Framed.next (Framed.start c) events).isSome) :
    Along Framed.next WellFramed (Framed.start c) events ↔
      Meets Framed.next ReadWhole (Framed.start c) events := by
  apply along_iff_meets_of_isSome stood_preserved (fun _ stood => stood.toWellFramed) _
    (Stood.onStart c) possible
  intro s event t stood cut step
  cases event with
  | read answers => exact absurd trivial cut
  | scan => exact absurd trivial cut
  | handle fs => exact stood.cut_off cut step

/-! ## NUL bytes in lines -/

/-- A session that receives some bytes and handles two lines. -/
def twoLines (bytes : List Byte) : List SessionEvent :=
  [.read [.data bytes, .again], .scan, .handle noFiles, .scan, .handle noFiles]

theorem wellFramed_along_get :
    Along Framed.next WellFramed (Framed.start zeroConn)
      (twoLines (ascii "GET / HTTP/1.1\r\n\r\n")) :=
  (wellFramed_along_iff_readWhole zeroConn _ (by decide +kernel)).mpr (by decide +kernel)

/-- A request line with a NUL byte behind its version, and a header line with a NUL byte in
front of its name. -/
def nulBytes : List Byte :=
  ascii "GET / HTTP/1.1" ++ 0 :: ascii "junk\r\n" ++ 0 :: ascii "Host: a\r\n"

/-- Both lines are cut off: the first is accepted, and `do_request` is called at the
second. -/
theorem nulBytes_not_wellFramed :
    (run Framed.next (Framed.start zeroConn) (twoLines nulBytes)).map (fun s =>
        (s.session.phase, s.accepted, s.ended)) =
      some (.finished .noResource, [ascii "GET / HTTP/1.1" ++ 0 :: ascii "junk"],
        [0 :: ascii "Host: a"]) ∧
    ¬ Along Framed.next WellFramed (Framed.start zeroConn) (twoLines nulBytes) := by
  have outcome : (run Framed.next (Framed.start zeroConn) (twoLines nulBytes)).map (fun s =>
      (s.session.phase, s.accepted, s.ended)) =
      some (.finished .noResource, [ascii "GET / HTTP/1.1" ++ 0 :: ascii "junk"],
        [0 :: ascii "Host: a"]) := by
    decide +kernel
  refine ⟨outcome, fun along => ?_⟩
  rcases Option.map_eq_some_iff.mp outcome with ⟨s, finished, values⟩
  have ended_eq : s.ended = [0 :: ascii "Host: a"] := by
    rw [Prod.mk.injEq, Prod.mk.injEq] at values
    exact values.2.2
  have empty := (along.last finished).ended (0 :: ascii "Host: a") (by rw [ended_eq]; simp)
  cases empty

end NetPractice.Http
