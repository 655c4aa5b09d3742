import NetPractice.Http.RequestLine

/-!
# Malformed lines

`process_read` ends its main loop in the same way for a line that is malformed as for one
that is incomplete, so it waits for more bytes behind both.
-/

namespace NetPractice.Http

open NetPractice.Text
open NetPractice.RequestReader (BareEnd requestLineOk)

namespace HttpConn

/-! ## A malformed line -/

section Scanning

variable {fs : FileSystem} {c : HttpConn} {first tail part : List Byte}

/-- The line feed of a malformed line does not stand behind a carriage return. -/
theorem append_before_tail (plain : Plain first)
    (before : 0 < c.readIdx → c.readBuf (c.readIdx - 1) ≠ CR) (rest : List Byte) :
    (c.append (first ++ LF :: rest)).readBuf (c.readIdx + first.length - 1) ≠ CR := by
  rcases List.eq_nil_or_concat' first with rfl | ⟨initial, last, rfl⟩
  · rw [List.length_nil, Nat.add_zero, List.nil_append]
    by_cases start : c.readIdx = 0
    · have byte_eq : (c.append (LF :: rest)).readBuf (c.readIdx + 0) = LF :=
        append_readBuf_of_mem (k := 0) (by simp)
      rw [start] at byte_eq ⊢
      rw [byte_eq]
      decide
    · have positive := Nat.pos_of_ne_zero start
      rw [append_readBuf_of_lt (by omega)]
      exact before positive
  · have index_eq : c.readIdx + (initial ++ [last]).length - 1 =
        c.readIdx + initial.length + 0 := by
      simp only [List.length_append, List.length_cons, List.length_nil]
      omega
    have byte_eq := c.append_readBuf_tail initial (last :: LF :: rest) (k := 0) (by simp)
    rw [index_eq, List.append_assoc, List.singleton_append, byte_eq]
    exact (plain last (by simp)).1

/-- The scanner stops in front of the bytes that break the line. -/
theorem AtLine.parseLine_broken (atLine : c.AtLine) (plain : Plain first) (bare : BareEnd tail)
    (before : 0 < c.readIdx → c.readBuf (c.readIdx - 1) ≠ CR) :
    (c.append (first ++ tail)).parseLine =
      (.bad, { c.append (first ++ tail) with checkedIdx := c.readIdx + first.length }) := by
  rw [atLine.parseLine_append plain]
  cases bare with
  | lf rest =>
      have byte_eq := c.append_readBuf_tail first (LF :: rest) (k := 0) (by simp)
      apply parseLine_lf
      · simp
      · exact byte_eq
      · exact append_before_tail plain before rest
  | @cr byte other rest =>
      have byte_eq := c.append_readBuf_tail first (CR :: byte :: rest) (k := 0) (by simp)
      have next_eq := c.append_readBuf_tail first (CR :: byte :: rest) (k := 1) (by simp)
      refine (parseLine_cr ?_ byte_eq).trans ((if_neg ?_).trans (if_neg ?_))
      · simp
      · simp
        omega
      · intro isLf
        exact other (next_eq.symm.trans isLf)

/-- A part of the bytes that break a line. -/
theorem bareEnd_of_prefix (bare : BareEnd tail) (initial : part <+: tail) :
    part = [] ∨ part = [CR] ∨ BareEnd part := by
  cases bare with
  | lf rest =>
      cases part with
      | nil => exact .inl rfl
      | cons byte part =>
          rcases List.cons_prefix_cons.mp initial with ⟨rfl, -⟩
          exact .inr (.inr (.lf part))
  | @cr byte other rest =>
      cases part with
      | nil => exact .inl rfl
      | cons head part =>
          rcases List.cons_prefix_cons.mp initial with ⟨rfl, inRest⟩
          cases part with
          | nil => exact .inr (.inl rfl)
          | cons next part =>
              rcases List.cons_prefix_cons.mp inRest with ⟨rfl, -⟩
              exact .inr (.inr (.cr other part))

/-- The main loop waits behind every part of a malformed line. -/
theorem AtLine.quiet_broken (atLine : c.AtLine) (state : c.checkState ≠ .content)
    (plain : Plain first) (bare : BareEnd tail)
    (before : 0 < c.readIdx → c.readBuf (c.readIdx - 1) ≠ CR)
    (initial : part <+: first ++ tail) : Quiet fs c part := by
  by_cases inside : part.length ≤ first.length
  · have inFirst := List.prefix_of_prefix_length_le initial (List.prefix_append _ _) inside
    exact atLine.quiet_line state plain (inFirst.trans (List.prefix_append _ _)) (by omega)
  · obtain ⟨rest, rfl⟩ := List.prefix_of_prefix_length_le (List.prefix_append _ _) initial
      (Nat.le_of_not_le inside)
    have inTail := (List.prefix_append_right_inj first).mp initial
    rcases bareEnd_of_prefix bare inTail with rfl | rfl | bare'
    · exact atLine.quiet_of_parseLine state plain (by simp)
        (atLine.parseLine_open plain (.inl rfl))
    · exact atLine.quiet_of_parseLine state plain (by simp)
        (atLine.parseLine_open plain (.inr rfl))
    · exact atLine.quiet_of_parseLine state plain (by simp)
        (atLine.parseLine_broken plain bare' before)

end Scanning

/-! ## The byte in front of a line -/

section Lines

variable {fs : FileSystem} {c d : HttpConn} {lines : List (List Byte)}

/-- A terminator of the handled line stays where it is. -/
theorem EndsAt.handleText {nul : Nat} (ends : c.EndsAt nul) (le : c.startLine ≤ nul)
    (state : c.checkState ≠ .content) {status : LineStatus}
    (handled : c.handleText fs = (.again status, d)) : d.EndsAt nul := by
  have ends' : { c with startLine := c.checkedIdx }.EndsAt nul := ends
  cases state_eq : c.checkState with
  | requestLine =>
      have parsed := (ends'.parseRequestLine_urlEndsAt le).1
      rw [handleText_requestLine state_eq] at handled
      unfold onRequestLine at handled
      split at handled
      · cases (Prod.mk.inj handled).1
      · rename_i code e _ result
        rw [result] at parsed
        exact (Prod.mk.inj handled).2 ▸ parsed
  | header =>
      have frame := (parseHeaders_spec { c with startLine := c.checkedIdx } c.startLine).frame
      rw [handleText_header state_eq] at handled
      unfold onHeader at handled
      split at handled
      · cases (Prod.mk.inj handled).1
      · cases (Prod.mk.inj handled).1
      · rename_i code e _ _ result
        rw [result] at frame
        rw [← (Prod.mk.inj handled).2, show e = _ from frame]
        exact ends
  | content => exact absurd state_eq state

/-- The last byte of a handled line is no carriage return. -/
theorem AtLine.handled_before {line : List Byte} (atLine : c.AtLine)
    (state : c.checkState ≠ .content) (room : c.readIdx + line.length + 2 ≤ READ_BUFFER_SIZE)
    {status : LineStatus} (handled : (c.lineTaken line).handleText fs = (.again status, d)) :
    d.readBuf (d.readIdx - 1) ≠ CR := by
  obtain ⟨-, readIdx_eq⟩ := atLine_of_handled handled
  have ends : (c.lineTaken line).EndsAt (c.readIdx + line.length + 1) := by
    refine ⟨?_, by omega, ?_⟩
    · simp only [lineTaken, store_readIdx, append_readIdx, List.length_append, List.length_cons,
        List.length_nil]
      omega
    · simp only [lineTaken, store_readBuf]
      simp
  have start : (c.lineTaken line).startLine ≤ c.readIdx + line.length + 1 := by
    rw [show (c.lineTaken line).startLine = c.startLine from rfl, atLine.start]
    omega
  have zero := (ends.handleText start state handled).2.2
  rw [readIdx_eq, show c.readIdx + line.length + 2 - 1 = c.readIdx + line.length + 1 from rfl,
    zero]
  decide

/-- The last byte of the handled lines is no carriage return. -/
theorem Passes.before (passes : Passes fs c lines d) (atLine : c.AtLine)
    (room : c.readIdx + (wire lines).length ≤ READ_BUFFER_SIZE)
    (before : 0 < c.readIdx → c.readBuf (c.readIdx - 1) ≠ CR) :
    0 < d.readIdx → d.readBuf (d.readIdx - 1) ≠ CR := by
  induction passes with
  | nil c => exact before
  | @cons c d e line lines state plain handled _ ih =>
      rw [wire_cons, List.length_append, List.length_cons, List.length_cons] at room
      obtain ⟨atLine', readIdx_eq⟩ := atLine_of_handled handled
      apply ih atLine' (by omega)
      intro _
      exact atLine.handled_before state (by omega) handled

/-- Segments of which no part has a result. -/
theorem feed_of_quiet {segments : List (List Byte)} (ordered : c.Ordered)
    (room : c.readIdx + segments.flatten.length ≤ READ_BUFFER_SIZE)
    (quiet : ∀ part, part <+: segments.flatten → Quiet fs c part) :
    (feed fs c segments).1 = .noRequest := by
  by_cases none : segments = []
  · rw [none]
    rfl
  · have positive := List.length_pos_of_ne_nil none
    have whole := feed_take ordered room positive (le_refl _) fun j _ _ =>
      quiet _ (flatten_take_isPrefix segments j)
    obtain ⟨d, waits, -⟩ := quiet _ List.prefix_rfl
    rw [whole, List.take_length, List.drop_length, feed,
      processRead_eq_of_loops (ordered.append room) waits]
    rfl

end Lines

end HttpConn

/-! ## Malformed requests -/

/-- Received bytes with a malformed line in front of the end of their header section:
behind whole lines a line is broken, and the byte behind the offending one has arrived.
No header line is empty, as `parse_headers` reads it. -/
structure BrokenHead where
  lines : List (List Byte)
  first : List Byte
  tail : List Byte
  plain : ∀ line ∈ first :: lines, Plain line
  named : ∀ header ∈ lines.tail, ∃ byte ∈ header.head?, byte ≠ 0
  bare : BareEnd tail
  behind : 2 ≤ tail.length
  fits : (wire lines ++ (first ++ tail)).length ≤ READ_BUFFER_SIZE

namespace BrokenHead

variable (b : BrokenHead)

/-- The bytes up to the end of the malformed line. -/
def bytes : List Byte :=
  wire b.lines ++ (b.first ++ b.tail)

/-- The request line stands in front of the malformed line, and is itself rejected. -/
def FirstRejected : Prop :=
  ∃ line ∈ b.lines.head?, requestLineOk (cstr line) = false

end BrokenHead

namespace HttpConn

theorem lineRejected_iff (c : HttpConn) {line : List Byte} (room : line.length < READ_BUFFER_SIZE) :
    LineRejected c line ↔ requestLineOk (cstr line) = false := by
  have str_eq : { c.init.lineTaken line with
      startLine := (c.init.lineTaken line).checkedIdx }.str 0 = cstr line :=
    lineTaken_str (c := c.init) (by change 0 + line.length < _; omega)
  have inside : (cstr line).length ≤ line.length := (List.takeWhile_sublist _).length_le
  unfold LineRejected
  rw [parseRequestLine_code (by rw [str_eq]; omega), str_eq]
  cases requestLineOk (cstr line) with
  | false => simp
  | true => simp

/-- Behind an accepted request line, or none, the main loop waits for more bytes. -/
theorem quiet_of_brokenHead (fs : FileSystem) (c : HttpConn) {b : BrokenHead}
    (accepted : ¬ b.FirstRejected) {part : List Byte} (initial : part <+: b.bytes) :
    Quiet fs c.init part := by
  have fits := b.fits
  have plain := b.plain
  have named := b.named
  unfold BrokenHead.FirstRejected at accepted
  unfold BrokenHead.bytes at initial
  have bound := initial.length_le
  have within : c.init.readIdx + part.length ≤ READ_BUFFER_SIZE := by
    change 0 + part.length ≤ _
    omega
  have plainFirst := plain b.first List.mem_cons_self
  have atStart : 0 < c.init.readIdx → c.init.readBuf (c.init.readIdx - 1) ≠ CR :=
    fun positive => absurd positive (Nat.lt_irrefl 0)
  cases lines_eq : b.lines with
  | nil =>
      rw [lines_eq] at initial
      exact c.init_atLine.quiet_broken (by simp [init]) plainFirst b.bare atStart initial
  | cons line headers =>
      rw [lines_eq] at initial fits plain named accepted
      rw [List.length_append] at fits
      have room : (wire (line :: headers)).length ≤ READ_BUFFER_SIZE := by omega
      have short : line.length < READ_BUFFER_SIZE := by
        rw [wire_cons, List.length_append, List.length_cons] at room
        omega
      have notRejected : ¬ LineRejected c line := by
        rw [lineRejected_iff c short]
        intro rejected
        exact accepted ⟨line, rfl, rejected⟩
      obtain ⟨d, passes, state, -⟩ := passes_of_accepted fs notRejected
        (fun other mem => plain other (List.mem_cons_of_mem _ mem)) named room
      have room' : c.init.readIdx + (wire (line :: headers)).length ≤ READ_BUFFER_SIZE := by
        change 0 + _ ≤ _
        omega
      obtain ⟨atLine, -⟩ := passes.atLine c.init_atLine
      have before := passes.before c.init_atLine room' atStart
      exact passes.quiet_behind c.init_atLine
        (fun rest inRest => atLine.quiet_broken (by simp [state]) plainFirst b.bare before inRest)
        within initial

/-- A malformed line in the header section is answered with `BAD_REQUEST` if and only if
the request line is rejected in front of it. -/
theorem feed_badRequest_iff (fs : FileSystem) (c : HttpConn) (b : BrokenHead)
    (segments : List (List Byte)) (cut : segments.flatten = b.bytes) :
    (feed fs c.init segments).1 = .badRequest ↔ b.FirstRejected := by
  have fits : b.bytes.length ≤ READ_BUFFER_SIZE := b.fits
  constructor
  · intro bad
    by_contra accepted
    have waits : (feed fs c.init segments).1 = .noRequest := by
      apply feed_of_quiet c.init_ordered
      · rw [cut]
        change 0 + b.bytes.length ≤ _
        omega
      · intro part initial
        exact quiet_of_brokenHead fs c accepted (cut ▸ initial)
    rw [waits] at bad
    cases bad
  · rintro ⟨line, first_eq, rejected⟩
    obtain ⟨headers, lines_eq⟩ : ∃ headers, b.lines = line :: headers :=
      ⟨b.lines.tail, List.eq_cons_of_mem_head? first_eq⟩
    have initial : line ++ [CR, LF] <+: b.bytes := by
      refine ⟨wire headers ++ (b.first ++ b.tail), ?_⟩
      rw [BrokenHead.bytes, lines_eq, wire_cons]
      simp
    have bound := initial.length_le
    rw [List.length_append, List.length_cons] at bound
    have plain : Plain line := b.plain line (by simp [lines_eq])
    have rejected' := (lineRejected_iff c (by omega)).mpr rejected
    obtain ⟨d, -, fed⟩ := rejected'.feed fs plain initial fits
    obtain ⟨rest, result⟩ := fed segments cut
    rw [result]

/-! ## Lines that end with a line feed alone -/

/-- A request of which only the first line is complete. -/
def bareFeed : BrokenHead where
  lines := [ascii "GET / HTTP/1.1"]
  first := ascii "Host: a"
  tail := LF :: ascii "\n"
  plain := by decide +kernel
  named := by simp
  bare := .lf _
  behind := by decide +kernel
  fits := by decide +kernel

/-- A request whose first line is rejected in front of the malformed one. -/
def postFeed : BrokenHead where
  lines := [ascii "POST / HTTP/1.1"]
  first := ascii "Host: a"
  tail := LF :: ascii "\n"
  plain := by decide +kernel
  named := by simp
  bare := .lf _
  behind := by decide +kernel
  fits := by decide +kernel

theorem feed_badRequest_postFeed :
    (feed noFiles zeroConn.init [postFeed.bytes]).1 = .badRequest :=
  (feed_badRequest_iff noFiles zeroConn postFeed [postFeed.bytes] (by simp)).mpr
    ⟨ascii "POST / HTTP/1.1", rfl, by decide +kernel⟩

/-- The server waits behind the malformed line, which `parse_content` of the request
reader rejects. -/
theorem bareFeed_waits :
    (feed noFiles zeroConn.init [bareFeed.bytes]).1 = .noRequest ∧
      (feed noFiles zeroConn.init [bareFeed.bytes]).1 ≠ .badRequest ∧
      RequestReader.result bareFeed.bytes = .badRequest := by
  have waits : (feed noFiles zeroConn.init [bareFeed.bytes]).1 = .noRequest := by decide +kernel
  refine ⟨waits, ?_, by decide +kernel⟩
  rw [waits]
  decide

end HttpConn

end NetPractice.Http
