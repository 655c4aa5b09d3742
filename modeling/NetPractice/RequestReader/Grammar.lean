import NetPractice.RequestReader.Segmentation

/-!
# The grammar of the request reader

The request line is a method, a target and a version with blanks between them.  The
reader takes one blank only in front of the version: behind the target it passes the
blanks at the beginning of the target instead of those behind it.
-/

namespace NetPractice.RequestReader

open NetPractice.Text
open NetPractice.Http (Plain wire wire_cons wire_nil)

/-! ## Request lines -/

/-- A target: a path, or a URL with a slash behind its scheme. -/
inductive Target : List Byte → Prop where
  | path (rest : List Byte) : Target (47 :: rest)
  | url {scheme text : List Byte}
      (known : strcasecmp scheme (ascii "http://") ∨ strcasecmp scheme (ascii "https://"))
      (slash : 47 ∈ text) : Target (scheme ++ text)

/-- A line that is a request line, with its parts. -/
structure Spells (line method blanks target blanks' version : List Byte) : Prop where
  line_eq : line = method ++ (blanks ++ (target ++ (blanks' ++ version)))
  isGet : strcasecmp method (ascii "GET")
  inFront : blanks ≠ [] ∧ ∀ byte ∈ blanks, isBlank byte
  isTarget : Target target
  noBlank : ∀ byte ∈ target, ¬ isBlank byte
  behind : blanks' ≠ [] ∧ ∀ byte ∈ blanks', isBlank byte
  isVersion : strcasecmp version (ascii "HTTP/1.1")

/-- A line that is a request line. -/
def RequestLine (line : List Byte) : Prop :=
  ∃ method blanks target blanks' version, Spells line method blanks target blanks' version

/-- A request line with one blank in front of the version. -/
def OneBlank (line : List Byte) : Prop :=
  ∃ method blanks target blank version, Spells line method blanks target [blank] version

theorem OneBlank.requestLine {line : List Byte} (oneBlank : OneBlank line) : RequestLine line := by
  rcases oneBlank with ⟨method, blanks, target, blank, version, spells⟩
  exact ⟨method, blanks, target, [blank], version, spells⟩

theorem Target.nonempty {url : List Byte} (target : Target url) : url ≠ [] := by
  cases target with
  | path rest => simp
  | url known slash =>
      intro empty
      rw [(List.append_eq_nil_iff.mp empty).2] at slash
      cases slash

/-- A URL begins with one scheme at most. -/
theorem not_http_of_https {url : List Byte}
    (https : strncasecmp url (ascii "https://") = true) :
    ¬ strncasecmp url (ascii "http://") = true := by
  intro http
  have first := getElem?_of_strncasecmp https (by decide : 4 < (ascii "https://").length)
  have second := getElem?_of_strncasecmp http (by decide : 4 < (ascii "http://").length)
  exact absurd (first.symm.trans second) (by decide)

theorem not_scheme_of_path {rest other : List Byte} (first : (other.map toLower).head? ≠ some 47)
    (nonempty : other ≠ []) : ¬ strncasecmp (47 :: rest) other = true := by
  intro same
  cases other with
  | nil => exact nonempty rfl
  | cons byte other =>
      rw [strncasecmp, List.length_cons, List.take_succ_cons, List.map_cons, List.map_cons,
        beq_iff_eq, List.cons.injEq] at same
      apply first
      rw [List.map_cons, List.head?_cons, ← same.1]
      rfl

theorem urlOk_iff (url : List Byte) : urlOk url = true ↔ Target url := by
  constructor
  · intro ok
    unfold urlOk at ok
    split at ok
    · rename_i http
      rw [← List.take_append_drop 7 url]
      exact .url (.inl http) (List.contains_iff_mem.mp ok)
    · split at ok
      · rename_i https
        rw [← List.take_append_drop 8 url]
        exact .url (.inr https) (List.contains_iff_mem.mp ok)
      · cases url with
        | nil => cases ok
        | cons byte rest =>
            cases Option.some.inj (beq_iff_eq.mp ok)
            exact .path rest
  · intro target
    unfold urlOk
    cases target with
    | path rest =>
        rw [if_neg (not_scheme_of_path (by decide) (by decide)),
          if_neg (not_scheme_of_path (by decide) (by decide))]
        rfl
    | @url scheme text known slash =>
        rcases known with http | https
        · have length : scheme.length = 7 := strcasecmp_length http
          rw [if_pos (strncasecmp_iff.mpr ⟨scheme, text, rfl, http⟩), ← length, List.drop_left]
          exact List.contains_iff_mem.mpr slash
        · have same := strncasecmp_iff.mpr ⟨scheme, text, rfl, https⟩
          have length : scheme.length = 8 := strcasecmp_length https
          rw [if_neg (not_http_of_https same), if_pos same, ← length, List.drop_left]
          exact List.contains_iff_mem.mpr slash

theorem drop_behind (first rest : List Byte) (byte : Byte) :
    (first ++ byte :: rest).drop (first.length + 1) = rest := by
  simp

theorem versionOk_append {target version : List Byte} {blank : Byte}
    (noBlank : ∀ byte ∈ target, ¬ isBlank byte) (blank' : isBlank blank) :
    versionOk (target ++ blank :: version) =
      (strcasecmp version (ascii "HTTP/1.1") && urlOk target) := by
  unfold versionOk
  rw [strpbrk_append noBlank blank']
  dsimp only
  rw [drop_behind, List.take_left]

theorem requestLineOk_append {method rest : List Byte} {blank : Byte}
    (noBlank : ∀ byte ∈ method, ¬ isBlank byte) (blank' : isBlank blank) :
    requestLineOk (method ++ blank :: rest) =
      (strcasecmp method (ascii "GET") && versionOk (rest.drop (strspn rest))) := by
  unfold requestLineOk
  rw [strpbrk_append noBlank blank']
  dsimp only
  rw [drop_behind, List.take_left]

/-- `parse_requestline` accepts the request lines with one blank in front of the
version. -/
theorem requestLineOk_iff (line : List Byte) : requestLineOk line = true ↔ OneBlank line := by
  constructor
  · intro ok
    cases found : strpbrk line with
    | none =>
        rw [requestLineOk, found] at ok
        cases ok
    | some k =>
        rcases strpbrk_eq_some found with ⟨method, first, rest, rfl, -, noBlank, isFirst⟩
        rw [requestLineOk_append noBlank isFirst, Bool.and_eq_true] at ok
        rcases ok with ⟨isGet, ok⟩
        rcases strspn_split rest with ⟨more, rest_eq, blanks⟩
        generalize rest.drop (strspn rest) = text at ok rest_eq
        cases found' : strpbrk text with
        | none =>
            rw [versionOk, found'] at ok
            cases ok
        | some k' =>
            rcases strpbrk_eq_some found' with
              ⟨target, blank, version, rfl, -, noBlank', isBlank'⟩
            rw [versionOk_append noBlank' isBlank', Bool.and_eq_true] at ok
            refine ⟨method, first :: more, target, blank, version, ?_⟩
            constructor
            · rw [rest_eq]
              rfl
            · exact isGet
            · exact ⟨List.cons_ne_nil _ _, List.forall_mem_cons.mpr ⟨isFirst, blanks⟩⟩
            · exact (urlOk_iff target).mp ok.2
            · exact noBlank'
            · exact ⟨List.cons_ne_nil _ _, by simpa using isBlank'⟩
            · exact ok.1
  · rintro ⟨method, blanks, target, blank, version, spells⟩
    rcases spells.inFront with ⟨nonempty, isBlanks⟩
    cases blanks with
    | nil => exact absurd rfl nonempty
    | cons first more =>
        rcases List.forall_mem_cons.mp isBlanks with ⟨isFirst, isMore⟩
        have noBlank := noBlank_of_strcasecmp spells.isGet (by decide +kernel)
        have isBlank' : isBlank blank := spells.behind.2 blank (List.mem_singleton_self _)
        have stops : ∀ byte ∈ (target ++ blank :: version).head?, ¬ isBlank byte := by
          cases target with
          | nil => exact absurd rfl spells.isTarget.nonempty
          | cons byte target =>
              intro head mem
              cases mem
              exact spells.noBlank byte (List.mem_cons_self ..)
        rw [spells.line_eq, List.cons_append, requestLineOk_append noBlank isFirst,
          List.singleton_append, strspn_append isMore stops, List.drop_left,
          versionOk_append spells.noBlank isBlank', spells.isGet, spells.isVersion,
          (urlOk_iff target).mpr spells.isTarget]
        rfl

/-! ## Header lines and line ends -/

/-- Header lines and the empty line behind them. -/
def HeadersEnd (bytes : List Byte) : Prop :=
  ∃ headers rest, bytes = wire headers ++ CR :: LF :: rest ∧
    ∀ header ∈ headers, Plain header ∧ header ≠ []

/-- No line feed without a carriage return in front of it, and no carriage return in
front of another byte. -/
def CleanEnds (bytes : List Byte) : Prop :=
  bytes.head? ≠ some LF ∧ bytes.IsChain fun byte next => byte = CR ↔ next = LF

section Ends

variable {line first tail rest bytes : List Byte}

theorem HeadersEnd.cases (headersEnd : HeadersEnd bytes) :
    ∃ line rest, Plain line ∧ bytes = line ++ CR :: LF :: rest ∧ (line = [] ∨ HeadersEnd rest) := by
  rcases headersEnd with ⟨headers, rest, rfl, named⟩
  cases headers with
  | nil => exact ⟨[], rest, by simp [Plain], rfl, .inl rfl⟩
  | cons header headers =>
      rcases List.forall_mem_cons.mp named with ⟨⟨plain, -⟩, others⟩
      refine ⟨header, _, plain, ?_, .inr ⟨headers, rest, rfl, others⟩⟩
      rw [wire_cons, List.append_assoc]
      rfl

theorem headersEnd_line (plain : Plain line) :
    HeadersEnd (line ++ CR :: LF :: rest) ↔ line = [] ∨ HeadersEnd rest := by
  constructor
  · intro headersEnd
    rcases headersEnd.cases with ⟨line', rest', plain', equal, ends⟩
    rcases plain_append_inj plain plain' (crlf_ends _) (crlf_ends _) equal with ⟨rfl, same⟩
    cases same
    exact ends
  · rintro (rfl | ⟨headers, rest', rfl, named⟩)
    · exact ⟨[], rest, rfl, by simp⟩
    · by_cases empty : line = []
      · subst empty
        exact ⟨[], _, rfl, by simp⟩
      · refine ⟨line :: headers, rest', ?_, List.forall_mem_cons.mpr ⟨⟨plain, empty⟩, named⟩⟩
        rw [wire_cons, List.append_assoc]
        rfl

theorem not_headersEnd_short (plain : Plain first) (short : Short tail) :
    ¬ HeadersEnd (first ++ tail) := by
  intro headersEnd
  rcases headersEnd.cases with ⟨line, rest, plain', equal, -⟩
  rcases plain_append_inj plain plain' short.ends (crlf_ends _) equal with ⟨-, rfl⟩
  exact not_short_of_line short

theorem not_headersEnd_bareEnd (plain : Plain first) (bare : BareEnd tail) :
    ¬ HeadersEnd (first ++ tail) := by
  intro headersEnd
  rcases headersEnd.cases with ⟨line, rest, plain', equal, -⟩
  rcases plain_append_inj plain plain' bare.ends (crlf_ends _) equal with ⟨-, rfl⟩
  exact not_bareEnd_of_line bare

/-- A byte of a line in front of further bytes. -/
theorem cleanEnds_cons {byte : Byte} (notCr : byte ≠ CR) (notLf : byte ≠ LF) :
    CleanEnds (byte :: bytes) ↔ CleanEnds bytes := by
  unfold CleanEnds
  cases bytes with
  | nil => simp [notLf]
  | cons next bytes =>
      rw [List.isChain_cons_cons]
      simp [notCr, notLf]

theorem cleanEnds_append (plain : Plain first) : CleanEnds (first ++ tail) ↔ CleanEnds tail := by
  induction first with
  | nil => rfl
  | cons byte first ih =>
      rcases List.forall_mem_cons.mp plain with ⟨⟨notCr, notLf⟩, others⟩
      rw [List.cons_append, cleanEnds_cons notCr notLf, ih others]

theorem cleanEnds_short (plain : Plain first) (short : Short tail) : CleanEnds (first ++ tail) := by
  rw [cleanEnds_append plain]
  rcases short with rfl | rfl
  · simp [CleanEnds]
  · simp [CleanEnds, CR, LF]

theorem not_cleanEnds_bareEnd (plain : Plain first) (bare : BareEnd tail) :
    ¬ CleanEnds (first ++ tail) := by
  rw [cleanEnds_append plain]
  cases bare with
  | lf rest => simp [CleanEnds]
  | cr other rest =>
      rintro ⟨-, chain⟩
      exact other ((List.isChain_cons_cons.mp chain).1.mp rfl)

theorem cleanEnds_line (plain : Plain line) :
    CleanEnds (line ++ CR :: LF :: rest) ↔ CleanEnds rest := by
  rw [cleanEnds_append plain]
  unfold CleanEnds
  cases rest with
  | nil => simp [CR, LF]
  | cons byte rest =>
      rw [List.isChain_cons_cons, List.isChain_cons_cons]
      simp [CR, LF]

end Ends

/-! ## What the reader accepts -/

/-- A complete request: a request line, header lines and an empty line. -/
def Complete (bytes : List Byte) : Prop :=
  ∃ first headers rest, bytes = wire (first :: headers) ++ CR :: LF :: rest ∧ Plain first ∧
    RequestLine first ∧ ∀ header ∈ headers, Plain header ∧ header ≠ []

/-- The beginning of a request. -/
structure Incomplete (bytes : List Byte) : Prop where
  notComplete : ¬ Complete bytes
  firstLine : ∀ first rest, Plain first → bytes = first ++ CR :: LF :: rest → RequestLine first
  cleanEnds : CleanEnds bytes

/-- The result of `parse_content` on a byte string. -/
def result (bytes : List Byte) : HttpCode :=
  (Reader.initial.receive bytes).parseContent.1

/-- The result is the one that the grammar gives. -/
structure Grammatical (bytes : List Byte) : Prop where
  getRequest : result bytes = .getRequest ↔ Complete bytes
  noRequest : result bytes = .noRequest ↔ Incomplete bytes
  badRequest : result bytes = .badRequest ↔ ¬ Complete bytes ∧ ¬ Incomplete bytes

/-- A request line has one blank in front of its version, or the bytes behind it are
broken before the empty line. -/
def BlanksFit (bytes : List Byte) : Prop :=
  ∀ first rest, Plain first → bytes = first ++ CR :: LF :: rest → RequestLine first →
    OneBlank first ∨ (¬ HeadersEnd rest ∧ ¬ CleanEnds rest)

/-- What the grammar says about the bytes behind the request line. -/
def HeaderVerdict (bytes : List Byte) : HttpCode → Prop
  | .getRequest => HeadersEnd bytes
  | .noRequest => ¬ HeadersEnd bytes ∧ CleanEnds bytes
  | .badRequest => ¬ HeadersEnd bytes ∧ ¬ CleanEnds bytes
  | _ => False

theorem cstr_of_noNul {text : List Byte} (noNul : 0 ∉ text) : cstr text = text := by
  have ended := cstr_append_nul noNul []
  rwa [cstr_append_zero] at ended

section Judged

variable {line rest bytes : List Byte} {code : HttpCode}

theorem headerVerdict_line (plain : Plain line) (named : line ≠ []) :
    HeaderVerdict (line ++ CR :: LF :: rest) code ↔ HeaderVerdict rest code := by
  have ends : HeadersEnd (line ++ CR :: LF :: rest) ↔ HeadersEnd rest := by
    rw [headersEnd_line plain, or_iff_right named]
  cases code with
  | getRequest => exact ends
  | noRequest | badRequest =>
      unfold HeaderVerdict
      rw [ends, cleanEnds_line plain]
  | forbiddenRequest | internalError | closedConnection => exact Iff.rfl

theorem Judged.headerVerdict {state : CheckState} (judged : Judged state bytes code)
    (header : state = .header) (noNul : 0 ∉ bytes) : HeaderVerdict bytes code := by
  induction judged with
  | waits plain short => exact ⟨not_headersEnd_short plain short, cleanEnds_short plain short⟩
  | broken plain bare => exact ⟨not_headersEnd_bareEnd plain bare, not_cleanEnds_bareEnd plain bare⟩
  | refused | accepted => cases header
  | @done line rest plain empty =>
      rw [cstr_of_noNul fun mem => noNul (List.mem_append_left _ mem)] at empty
      exact (headersEnd_line plain).mpr (.inl empty)
  | @header line rest code plain named next ih =>
      rw [cstr_of_noNul fun mem => noNul (List.mem_append_left _ mem)] at named
      rw [headerVerdict_line plain named]
      apply ih header
      intro mem
      exact noNul (by simp [mem])

end Judged

/-! ## The result and the grammar -/

/-- What the grammar says about a byte string. -/
def GrammarVerdict (bytes : List Byte) : HttpCode → Prop
  | .getRequest => Complete bytes
  | .noRequest => Incomplete bytes
  | .badRequest => ¬ Complete bytes ∧ ¬ Incomplete bytes
  | _ => False

section Verdict

variable {line first tail rest bytes : List Byte} {code : HttpCode}

theorem grammatical_iff : Grammatical bytes ↔ GrammarVerdict bytes (result bytes) := by
  constructor
  · intro grammatical
    have others : ∀ code, result bytes = code → code ≠ .getRequest → code ≠ .noRequest →
        code ≠ .badRequest → False := by
      rintro code rfl notGet notNo notBad
      apply notBad
      apply grammatical.badRequest.mpr
      exact ⟨fun complete => notGet (grammatical.getRequest.mpr complete),
        fun incomplete => notNo (grammatical.noRequest.mpr incomplete)⟩
    cases code : result bytes with
    | getRequest => exact grammatical.getRequest.mp code
    | noRequest => exact grammatical.noRequest.mp code
    | badRequest => exact grammatical.badRequest.mp code
    | forbiddenRequest | internalError | closedConnection =>
        exact others _ code (by decide) (by decide) (by decide)
  · intro verdict
    cases code : result bytes with
    | getRequest =>
        rw [code] at verdict
        have notIncomplete : ¬ Incomplete bytes := fun incomplete => incomplete.notComplete verdict
        constructor
        · exact iff_of_true code verdict
        · exact iff_of_false (by simp [code]) notIncomplete
        · exact iff_of_false (by simp [code]) fun neither => neither.1 verdict
    | noRequest =>
        rw [code] at verdict
        constructor
        · exact iff_of_false (by simp [code]) verdict.notComplete
        · exact iff_of_true code verdict
        · exact iff_of_false (by simp [code]) fun neither => neither.2 verdict
    | badRequest =>
        rw [code] at verdict
        constructor
        · exact iff_of_false (by simp [code]) verdict.1
        · exact iff_of_false (by simp [code]) verdict.2
        · exact iff_of_true code verdict
    | forbiddenRequest | internalError | closedConnection =>
        rw [code] at verdict
        exact verdict.elim

theorem Complete.firstLine (complete : Complete bytes) :
    ∃ first rest, Plain first ∧ bytes = first ++ CR :: LF :: rest := by
  rcases complete with ⟨first, headers, rest, rfl, plain, -, -⟩
  refine ⟨first, wire headers ++ CR :: LF :: rest, plain, ?_⟩
  rw [wire_cons, List.append_assoc]
  rfl

theorem complete_line (plain : Plain line) :
    Complete (line ++ CR :: LF :: rest) ↔ RequestLine line ∧ HeadersEnd rest := by
  constructor
  · rintro ⟨first, headers, rest', equal, plain', requestLine, named⟩
    rw [wire_cons, List.append_assoc] at equal
    rcases plain_append_inj plain plain' (crlf_ends _) (crlf_ends _) equal with ⟨rfl, same⟩
    cases same
    exact ⟨requestLine, headers, rest', rfl, named⟩
  · rintro ⟨requestLine, headers, rest', rfl, named⟩
    refine ⟨line, headers, rest', ?_, plain, requestLine, named⟩
    rw [wire_cons, List.append_assoc]
    rfl

theorem incomplete_line (plain : Plain line) :
    Incomplete (line ++ CR :: LF :: rest) ↔
      RequestLine line ∧ ¬ HeadersEnd rest ∧ CleanEnds rest := by
  constructor
  · intro incomplete
    have requestLine := incomplete.firstLine line rest plain rfl
    exact ⟨requestLine,
      fun ends => incomplete.notComplete ((complete_line plain).mpr ⟨requestLine, ends⟩),
      (cleanEnds_line plain).mp incomplete.cleanEnds⟩
  · rintro ⟨requestLine, notEnd, clean⟩
    constructor
    · intro complete
      exact notEnd ((complete_line plain).mp complete).2
    · intro first rest' plain' equal
      rcases plain_append_inj plain plain' (crlf_ends _) (crlf_ends _) equal with ⟨rfl, -⟩
      exact requestLine
    · exact (cleanEnds_line plain).mpr clean

theorem incomplete_short (plain : Plain first) (short : Short tail) :
    Incomplete (first ++ tail) := by
  have noLine : ∀ line rest, Plain line → first ++ tail ≠ line ++ CR :: LF :: rest := by
    intro line rest plain' equal
    rcases plain_append_inj plain plain' short.ends (crlf_ends _) equal with ⟨-, rfl⟩
    exact not_short_of_line short
  constructor
  · intro complete
    rcases complete.firstLine with ⟨line, rest, plain', equal⟩
    exact noLine line rest plain' equal
  · intro line rest plain' equal
    exact absurd equal (noLine line rest plain')
  · exact cleanEnds_short plain short

theorem neither_bareEnd (plain : Plain first) (bare : BareEnd tail) :
    ¬ Complete (first ++ tail) ∧ ¬ Incomplete (first ++ tail) := by
  constructor
  · intro complete
    rcases complete.firstLine with ⟨line, rest, plain', equal⟩
    rcases plain_append_inj plain plain' bare.ends (crlf_ends _) equal with ⟨-, rfl⟩
    exact not_bareEnd_of_line bare
  · intro incomplete
    exact not_cleanEnds_bareEnd plain bare incomplete.cleanEnds

theorem blanksFit_line (plain : Plain line) :
    BlanksFit (line ++ CR :: LF :: rest) ↔
      (RequestLine line → OneBlank line ∨ (¬ HeadersEnd rest ∧ ¬ CleanEnds rest)) := by
  constructor
  · intro fits
    exact fits line rest plain rfl
  · intro fits first rest' plain' equal
    rcases plain_append_inj plain plain' (crlf_ends _) (crlf_ends _) equal with ⟨rfl, same⟩
    cases same
    exact fits

/-- Behind a request line with one blank, the grammar's verdict is the one on the
header lines. -/
theorem grammarVerdict_line (plain : Plain line) (oneBlank : OneBlank line)
    (verdict : HeaderVerdict rest code) :
    GrammarVerdict (line ++ CR :: LF :: rest) code := by
  have requestLine := oneBlank.requestLine
  cases code with
  | getRequest => exact (complete_line plain).mpr ⟨requestLine, verdict⟩
  | noRequest => exact (incomplete_line plain).mpr ⟨requestLine, verdict⟩
  | badRequest =>
      constructor
      · intro complete
        exact verdict.1 ((complete_line plain).mp complete).2
      · intro incomplete
        exact verdict.2 ((incomplete_line plain).mp incomplete).2.2
  | forbiddenRequest | internalError | closedConnection => exact verdict.elim

/-- A refused line fits the grammar if it is no request line, or broken bytes follow. -/
theorem grammarVerdict_refused (plain : Plain line) :
    GrammarVerdict (line ++ CR :: LF :: rest) .badRequest ↔
      (RequestLine line → ¬ HeadersEnd rest ∧ ¬ CleanEnds rest) := by
  unfold GrammarVerdict
  rw [complete_line plain, incomplete_line plain]
  constructor
  · rintro ⟨notComplete, notIncomplete⟩ requestLine
    have notEnd : ¬ HeadersEnd rest := fun ends => notComplete ⟨requestLine, ends⟩
    exact ⟨notEnd, fun clean => notIncomplete ⟨requestLine, notEnd, clean⟩⟩
  · intro broken
    exact ⟨fun complete => (broken complete.1).1 complete.2,
      fun incomplete => (broken incomplete.1).2 incomplete.2.2⟩

/-- The result is the grammar's if and only if a request line has one blank in front of
its version, or the bytes behind it are broken. -/
theorem grammatical_iff_blanksFit (noNul : 0 ∉ bytes) (fits : bytes.length < BUFFER_SIZE) :
    Grammatical bytes ↔ BlanksFit bytes := by
  have judged : Judged .requestLine bytes (result bytes) :=
    Reader.receive_judged (Nat.le_of_lt fits)
  rw [grammatical_iff]
  rcases line_cases bytes with ⟨line, rest, plain, rfl⟩ | ⟨first, tail, plain, short, rfl⟩ |
    ⟨first, tail, plain, bare, rfl⟩
  · have noNulLine : 0 ∉ line := fun mem => noNul (List.mem_append_left _ mem)
    have noNulRest : 0 ∉ rest := fun mem => noNul (by simp [mem])
    rw [blanksFit_line plain]
    rcases judged.of_line plain rfl with ⟨accepts, next⟩ | ⟨refuses, bad⟩
    · rw [cstr_of_noNul noNulLine, requestLineOk_iff] at accepts
      have verdict := next.headerVerdict rfl noNulRest
      exact iff_of_true (grammarVerdict_line plain accepts verdict) fun _ => .inl accepts
    · rw [cstr_of_noNul noNulLine, ← Bool.not_eq_true, requestLineOk_iff] at refuses
      rw [bad, grammarVerdict_refused plain]
      simp only [refuses, false_or]
  · rw [judged.of_short plain short rfl]
    refine iff_of_true (incomplete_short plain short) fun line rest plain' equal => ?_
    rcases plain_append_inj plain plain' short.ends (crlf_ends _) equal with ⟨-, rfl⟩
    exact absurd short not_short_of_line
  · rw [judged.of_bareEnd plain bare rfl]
    refine iff_of_true (neither_bareEnd plain bare) fun line rest plain' equal => ?_
    rcases plain_append_inj plain plain' bare.ends (crlf_ends _) equal with ⟨-, rfl⟩
    exact absurd bare not_bareEnd_of_line

end Verdict

theorem grammatical_iff_blanksFit_get :
    Grammatical (ascii "GET / HTTP/1.1\r\nHost: a\r\n\r\n") ↔
      BlanksFit (ascii "GET / HTTP/1.1\r\nHost: a\r\n\r\n") :=
  grammatical_iff_blanksFit (by decide) (by decide)

/-- A request with two blanks in front of the version. -/
def twoBlanks : List Byte :=
  ascii "GET /  HTTP/1.1\r\n\r\n"

theorem twoBlanks_requestLine : RequestLine (ascii "GET /  HTTP/1.1") := by
  refine ⟨ascii "GET", ascii " ", ascii "/", ascii "  ", ascii "HTTP/1.1", ?_⟩
  constructor
  · decide +kernel
  · decide +kernel
  · decide +kernel
  · exact .path []
  · decide +kernel
  · decide +kernel
  · decide +kernel

theorem twoBlanks_complete : Complete twoBlanks :=
  ⟨ascii "GET /  HTTP/1.1", [], [], by decide +kernel, by decide +kernel, twoBlanks_requestLine,
    by simp⟩

theorem twoBlanks_not_grammatical : 0 ∉ twoBlanks ∧ twoBlanks.length < BUFFER_SIZE ∧
    result twoBlanks = .badRequest ∧ ¬ Grammatical twoBlanks := by
  have bad : result twoBlanks = .badRequest := by decide +kernel
  refine ⟨by decide, by decide, bad, fun grammatical => ?_⟩
  have get := grammatical.getRequest.mpr twoBlanks_complete
  rw [bad] at get
  cases get

end NetPractice.RequestReader
