import NetPractice.Http.Lines
import NetPractice.RequestReader.Core

/-!
# The judgment on a request

A string of bytes is split at its line ends, and each line is judged by itself.  The
judgment is a function of the string, and further bytes do not change one that is final.
-/

namespace NetPractice.RequestReader

open NetPractice.Text
open NetPractice.Http (Plain)

/-! ## The judgment on a byte string -/

/-- A URL that the request line may have. -/
def urlOk (url : List Byte) : Bool :=
  if strncasecmp url (ascii "http://") then (url.drop 7).contains 47
  else if strncasecmp url (ascii "https://") then (url.drop 8).contains 47
  else url.head? == some 47

/-- The blank behind the URL is followed by the version. -/
def versionOk (text : List Byte) : Bool :=
  match strpbrk text with
  | none => false
  | some blank =>
      strcasecmp (text.drop (blank + 1)) (ascii "HTTP/1.1") && urlOk (text.take blank)

/-- A request line that `parse_requestline` accepts. -/
def requestLineOk (line : List Byte) : Bool :=
  match strpbrk line with
  | none => false
  | some blank =>
      strcasecmp (line.take blank) (ascii "GET") &&
        versionOk ((line.drop (blank + 1)).drop (strspn (line.drop (blank + 1))))

/-- A line feed or a carriage return that does not end a line. -/
inductive BareEnd : List Byte → Prop where
  | lf (rest : List Byte) : BareEnd (LF :: rest)
  | cr {byte : Byte} (other : byte ≠ LF) (rest : List Byte) : BareEnd (CR :: byte :: rest)

/-- The end of a part of a line: nothing, or a carriage return. -/
def Short (tail : List Byte) : Prop :=
  tail = [] ∨ tail = [CR]

/-- The judgment on the bytes behind the last handled line. -/
inductive Judged : CheckState → List Byte → HttpCode → Prop where
  | waits {state : CheckState} {first tail : List Byte} (plain : Plain first)
      (short : Short tail) : Judged state (first ++ tail) .noRequest
  | broken {state : CheckState} {first tail : List Byte} (plain : Plain first)
      (bare : BareEnd tail) : Judged state (first ++ tail) .badRequest
  | refused {line rest : List Byte} (plain : Plain line)
      (refuses : requestLineOk (cstr line) = false) :
      Judged .requestLine (line ++ CR :: LF :: rest) .badRequest
  | accepted {line rest : List Byte} {code : HttpCode} (plain : Plain line)
      (accepts : requestLineOk (cstr line) = true) (next : Judged .header rest code) :
      Judged .requestLine (line ++ CR :: LF :: rest) code
  | done {line rest : List Byte} (plain : Plain line) (empty : cstr line = []) :
      Judged .header (line ++ CR :: LF :: rest) .getRequest
  | header {line rest : List Byte} {code : HttpCode} (plain : Plain line)
      (named : cstr line ≠ []) (next : Judged .header rest code) :
      Judged .header (line ++ CR :: LF :: rest) code

/-- The beginning of a byte string up to the first byte of a line end. -/
def plainPart (bytes : List Byte) : List Byte :=
  bytes.takeWhile fun byte => byte ≠ CR ∧ byte ≠ LF

/-- What is behind the bytes of a line. -/
def Ends (tail : List Byte) : Prop :=
  ∀ byte ∈ tail.head?, byte = CR ∨ byte = LF

theorem Short.ends {tail : List Byte} (short : Short tail) : Ends tail := by
  rcases short with rfl | rfl
  · simp [Ends]
  · simp [Ends]

theorem BareEnd.ends {tail : List Byte} (bare : BareEnd tail) : Ends tail := by
  cases bare with
  | lf rest => simp [Ends]
  | cr other rest => simp [Ends]

theorem crlf_ends (rest : List Byte) : Ends (CR :: LF :: rest) := by
  simp [Ends]

theorem plainPart_append {line tail : List Byte} (plain : Plain line) (ends : Ends tail) :
    plainPart (line ++ tail) = line := by
  unfold plainPart
  rw [List.takeWhile_append_of_pos]
  · cases tail with
    | nil => simp
    | cons byte tail =>
        have stops := ends byte rfl
        rw [List.takeWhile_cons_of_neg, List.append_nil]
        simpa [or_iff_not_imp_left] using stops
  · intro byte mem
    simpa using plain byte mem

/-- The bytes of a line and what is behind them are determined. -/
theorem plain_append_inj {line line' tail tail' : List Byte} (plain : Plain line)
    (plain' : Plain line') (ends : Ends tail) (ends' : Ends tail')
    (equal : line ++ tail = line' ++ tail') : line = line' ∧ tail = tail' := by
  have same : line = line' := by
    rw [← plainPart_append plain ends, equal, plainPart_append plain' ends']
  exact ⟨same, List.append_cancel_left (same ▸ equal)⟩

/-- A byte string begins with a line, or with a part of a line, or with a broken line. -/
theorem line_cases (bytes : List Byte) :
    (∃ line rest, Plain line ∧ bytes = line ++ CR :: LF :: rest) ∨
      (∃ first tail, Plain first ∧ Short tail ∧ bytes = first ++ tail) ∨
      ∃ first tail, Plain first ∧ BareEnd tail ∧ bytes = first ++ tail := by
  induction bytes with
  | nil => exact .inr (.inl ⟨[], [], by simp [Plain], .inl rfl, rfl⟩)
  | cons byte bytes ih =>
      by_cases lf : byte = LF
      · subst lf
        exact .inr (.inr ⟨[], _, by simp [Plain], .lf bytes, rfl⟩)
      · by_cases cr : byte = CR
        · subst cr
          cases bytes with
          | nil => exact .inr (.inl ⟨[], [CR], by simp [Plain], .inr rfl, rfl⟩)
          | cons next rest =>
              by_cases line : next = LF
              · subst line
                exact .inl ⟨[], rest, by simp [Plain], rfl⟩
              · exact .inr (.inr ⟨[], _, by simp [Plain], .cr line rest, rfl⟩)
        · have plain : ∀ line, Plain line → Plain (byte :: line) := by
            intro line others
            exact List.forall_mem_cons.mpr ⟨⟨cr, lf⟩, others⟩
          rcases ih with ⟨line, rest, others, rfl⟩ | ⟨first, tail, others, short, rfl⟩ |
            ⟨first, tail, others, bare, rfl⟩
          · exact .inl ⟨byte :: line, rest, plain line others, rfl⟩
          · exact .inr (.inl ⟨byte :: first, tail, plain first others, short, rfl⟩)
          · exact .inr (.inr ⟨byte :: first, tail, plain first others, bare, rfl⟩)

theorem not_short_of_line {rest : List Byte} : ¬ Short (CR :: LF :: rest) := by
  simp [Short]

theorem BareEnd.not_short {tail : List Byte} (bare : BareEnd tail) : ¬ Short tail := by
  cases bare with
  | lf rest => simp [Short, LF, CR]
  | cr other rest => simp [Short]

theorem not_bareEnd_of_line {rest : List Byte} : ¬ BareEnd (CR :: LF :: rest) := by
  rintro (_ | ⟨other, _⟩)
  exact other rfl

/-- The judgment on bytes that begin with this line. -/
def LineJudged (line rest : List Byte) (code : HttpCode) : CheckState → Prop
  | .requestLine =>
      (requestLineOk (cstr line) = true ∧ Judged .header rest code) ∨
        (requestLineOk (cstr line) = false ∧ code = .badRequest)
  | .header =>
      (cstr line ≠ [] ∧ Judged .header rest code) ∨ (cstr line = [] ∧ code = .getRequest)

section Judged

variable {state : CheckState} {bytes line rest first tail : List Byte} {code : HttpCode}

theorem Judged.of_short (judged : Judged state bytes code) (plain : Plain first)
    (short : Short tail) (equal : bytes = first ++ tail) : code = .noRequest := by
  cases judged with
  | waits => rfl
  | broken plain' bare =>
      rcases plain_append_inj plain' plain bare.ends short.ends equal with ⟨-, rfl⟩
      exact absurd short bare.not_short
  | refused plain' | accepted plain' | done plain' | header plain' =>
      rcases plain_append_inj plain' plain (crlf_ends _) short.ends equal with ⟨-, rfl⟩
      exact absurd short not_short_of_line

theorem Judged.of_bareEnd (judged : Judged state bytes code) (plain : Plain first)
    (bare : BareEnd tail) (equal : bytes = first ++ tail) : code = .badRequest := by
  cases judged with
  | waits plain' short =>
      rcases plain_append_inj plain' plain short.ends bare.ends equal with ⟨-, rfl⟩
      exact absurd short bare.not_short
  | broken => rfl
  | refused plain' | accepted plain' | done plain' | header plain' =>
      rcases plain_append_inj plain' plain (crlf_ends _) bare.ends equal with ⟨-, rfl⟩
      exact absurd bare not_bareEnd_of_line

theorem Judged.of_line (judged : Judged state bytes code) (plain : Plain line)
    (equal : bytes = line ++ CR :: LF :: rest) : LineJudged line rest code state := by
  have inj := fun {line' rest' : List Byte} (plain' : Plain line')
      (equal : line' ++ CR :: LF :: rest' = line ++ CR :: LF :: rest) =>
    plain_append_inj plain' plain (crlf_ends rest') (crlf_ends rest) equal
  cases judged with
  | waits plain' short =>
      rcases plain_append_inj plain' plain short.ends (crlf_ends _) equal with ⟨-, rfl⟩
      exact absurd short not_short_of_line
  | broken plain' bare =>
      rcases plain_append_inj plain' plain bare.ends (crlf_ends _) equal with ⟨-, rfl⟩
      exact absurd bare not_bareEnd_of_line
  | refused plain' refuses =>
      rcases inj plain' equal with ⟨rfl, -⟩
      exact .inr ⟨refuses, rfl⟩
  | accepted plain' accepts next =>
      rcases inj plain' equal with ⟨rfl, same⟩
      cases same
      exact .inl ⟨accepts, next⟩
  | done plain' empty =>
      rcases inj plain' equal with ⟨rfl, -⟩
      exact .inr ⟨empty, rfl⟩
  | header plain' named next =>
      rcases inj plain' equal with ⟨rfl, same⟩
      cases same
      exact .inl ⟨named, next⟩

/-- A byte string has one judgment. -/
theorem Judged.unique {code' : HttpCode} (judged : Judged state bytes code)
    (judged' : Judged state bytes code') : code = code' := by
  induction judged generalizing code' with
  | waits plain short => exact (judged'.of_short plain short rfl).symm
  | broken plain bare => exact (judged'.of_bareEnd plain bare rfl).symm
  | refused plain refuses =>
      rcases judged'.of_line plain rfl with ⟨accepts, -⟩ | ⟨-, equal⟩
      · rw [refuses] at accepts
        cases accepts
      · exact equal.symm
  | accepted plain accepts next ih =>
      rcases judged'.of_line plain rfl with ⟨-, next'⟩ | ⟨refuses, -⟩
      · exact ih next'
      · rw [refuses] at accepts
        cases accepts
  | done plain empty =>
      rcases judged'.of_line plain rfl with ⟨named, -⟩ | ⟨-, equal⟩
      · exact absurd empty named
      · exact equal.symm
  | header plain named next ih =>
      rcases judged'.of_line plain rfl with ⟨-, next'⟩ | ⟨empty, -⟩
      · exact ih next'
      · exact absurd empty named

theorem BareEnd.append (bare : BareEnd tail) (more : List Byte) : BareEnd (tail ++ more) := by
  cases bare with
  | lf rest => exact .lf (rest ++ more)
  | cr other rest => exact .cr other (rest ++ more)

/-- A judgment that ends the reading does not depend on further bytes. -/
theorem Judged.append (judged : Judged state bytes code) (ended : code ≠ .noRequest)
    (more : List Byte) : Judged state (bytes ++ more) code := by
  induction judged with
  | waits => exact absurd rfl ended
  | broken plain bare =>
      rw [List.append_assoc]
      exact .broken plain (bare.append more)
  | refused plain refuses =>
      rw [List.append_assoc]
      exact .refused plain refuses
  | accepted plain accepts next ih =>
      rw [List.append_assoc]
      exact .accepted plain accepts (ih ended)
  | done plain empty =>
      rw [List.append_assoc]
      exact .done plain empty
  | header plain named next ih =>
      rw [List.append_assoc]
      exact .header plain named (ih ended)

end Judged

end NetPractice.RequestReader
