import NetPractice.Text.LastLine
import NetPractice.MiniHttpd.Lines
import NetPractice.MiniHttpd.ServeFile

/-!
# The body of a served file

A file is read by lines, and a line that is longer than the array by pieces of its size.
The end of file that a call of `fgets` runs into sets the flag, also when the call has read
bytes before; and what is read is written up to its first NUL byte.  So the bytes behind the
last newline get lost, unless they fill the array.
-/

namespace NetPractice.MiniHttpd

open NetPractice.Text

/-- A regular file. -/
def ofContent (content : List Byte) : Resource := fun n =>
  match content[n]? with
  | some byte => .byte byte
  | none => .eof

/-- `serve_file` writes these bytes behind its header. -/
def WritesBody (resource : Resource) (stack bytes : List Byte) : Prop :=
  ∃ fuel header body, serveFile fuel (some resource) stack = some (.file header body) ∧
    (body.map Written.bytes).flatten = bytes

/-- The bytes behind the last newline. -/
def unfinished (content : List Byte) : List Byte :=
  content.rtakeWhile (· ≠ LF)

theorem unfinished_eq (content : List Byte) : unfinished content = behindLast LF content :=
  rfl

/-! ## What a call reads -/

/-- What a call of `fgets` reads of a file, if it is not stopped by the end of file. -/
def piece : Nat → List Byte → Option (List Byte)
  | 0, _ => some []
  | _ + 1, [] => none
  | room + 1, byte :: content =>
      if byte = LF then some [byte] else (piece room content).map (byte :: ·)

section Piece

variable {room : Nat} {content taken : List Byte}

/-- A piece ends with a newline, or fills the array. -/
theorem piece_some (cut : piece room content = some taken) :
    ∃ rest, content = taken ++ rest ∧
      ((∃ text, taken = text ++ [LF]) ∨ LF ∉ taken ∧ taken.length = room) := by
  induction room generalizing content taken with
  | zero =>
      cases cut
      exact ⟨content, rfl, .inr ⟨List.not_mem_nil, rfl⟩⟩
  | succ room ih =>
      cases content with
      | nil => cases cut
      | cons byte content =>
          rw [piece] at cut
          by_cases lf : byte = LF
          · rw [if_pos lf] at cut
            cases cut
            exact ⟨content, rfl, .inl ⟨[], congrArg (fun last => [last]) lf⟩⟩
          · rw [if_neg lf] at cut
            rcases Option.map_eq_some_iff.mp cut with ⟨taken, further, rfl⟩
            rcases ih further with ⟨rest, rfl, ⟨text, rfl⟩ | ⟨noLf, full⟩⟩
            · exact ⟨rest, rfl, .inl ⟨byte :: text, rfl⟩⟩
            · refine ⟨rest, rfl, .inr ⟨?_, congrArg Nat.succ full⟩⟩
              intro mem
              rcases List.mem_cons.mp mem with first | mem
              · exact lf first.symm
              · exact noLf mem

theorem piece_none (ended : piece room content = none) :
    LF ∉ content ∧ content.length < room := by
  induction room generalizing content with
  | zero => cases ended
  | succ room ih =>
      cases content with
      | nil => exact ⟨List.not_mem_nil, Nat.zero_lt_succ room⟩
      | cons byte content =>
          rw [piece] at ended
          by_cases lf : byte = LF
          · rw [if_pos lf] at ended
            cases ended
          · rw [if_neg lf] at ended
            rcases ih (Option.map_eq_none_iff.mp ended) with ⟨noLf, short⟩
            refine ⟨?_, Nat.succ_lt_succ short⟩
            intro mem
            rcases List.mem_cons.mp mem with first | mem
            · exact lf first.symm
            · exact noLf mem

/-- A file comes to its end, and its reads do not fail. -/
theorem endsAt_ofContent (content : List Byte) : EndsAt (ofContent content) content.length := by
  constructor
  · rw [ofContent, List.getElem?_eq_none (Nat.le_refl _)]
  · intro k less left error
    rw [ofContent, List.getElem?_eq_getElem less] at error
    cases error

/-- So `serve_file` ends on every file. -/
theorem servesProperly_ofContent (content stack : List Byte) :
    ServesProperly (ofContent content) stack :=
  servesProperly_iff_loopServes.mpr (loopServes_of_endsAt (endsAt_ofContent content))

theorem rest_ofContent (content : List Byte) (used : Nat) :
    (ofContent content).rest used = ofContent (content.drop used) := by
  funext n
  rw [Resource.rest, ofContent, ofContent, List.getElem?_drop]

/-- The loop of `fgets` on a file. -/
theorem fgetsLoop_ofContent (used : Nat) (bytes : List Byte) :
    (∀ taken, piece room (content.drop used) = some taken →
      fgetsLoop (ofContent content) room used bytes =
        ⟨.filled (bytes ++ taken), false, used + taken.length⟩) ∧
    (piece room (content.drop used) = none →
      (fgetsLoop (ofContent content) room used bytes).feof = true) := by
  induction room generalizing used bytes with
  | zero =>
      constructor
      · intro taken cut
        cases cut
        rw [List.append_nil]
        rfl
      · intro ended
        cases ended
  | succ room ih =>
      rw [fgetsLoop, ofContent]
      cases next : content[used]? with
      | none =>
          have behind : content.drop used = [] :=
            List.drop_eq_nil_of_le (List.getElem?_eq_none_iff.mp next)
          rw [behind]
          constructor
          · intro taken cut
            cases cut
          · intro _
            rfl
      | some byte =>
          have behind : content.drop used = byte :: content.drop (used + 1) := by
            rcases List.getElem?_eq_some_iff.mp next with ⟨less, rfl⟩
            exact List.drop_eq_getElem_cons less
          rw [behind, piece]
          dsimp only
          by_cases lf : byte = LF
          · rw [if_pos lf, if_pos lf]
            constructor
            · intro taken cut
              cases cut
              rfl
            · intro ended
              cases ended
          · rw [if_neg lf, if_neg lf]
            rcases ih (used + 1) (bytes ++ [byte]) with ⟨goes, ends⟩
            constructor
            · intro taken cut
              rcases Option.map_eq_some_iff.mp cut with ⟨taken, further, rfl⟩
              have count : used + 1 + taken.length = used + (byte :: taken).length := by
                rw [List.length_cons, Nat.add_assoc, Nat.add_comm 1]
              have call := goes taken further
              rw [List.append_assoc, count] at call
              exact call
            · intro ended
              exact ends (Option.map_eq_none_iff.mp ended)

end Piece

theorem fgets_ofContent {content taken : List Byte}
    (cut : piece (CONTENT_SIZE - 1) content = some taken) :
    fgets (ofContent content) = ⟨.filled taken, false, taken.length⟩ := by
  have call := (fgetsLoop_ofContent 0 []).1 taken cut
  rw [Nat.zero_add] at call
  exact call

theorem feof_ofContent {content : List Byte} (ended : piece (CONTENT_SIZE - 1) content = none) :
    (fgets (ofContent content)).feof = true :=
  (fgetsLoop_ofContent 0 []).2 ended

/-! ## What the loop writes -/

/-- The loop writes these bytes. -/
def LoopWrites (resource : Resource) (before bytes : List Byte) : Prop :=
  ∃ fuel body, serveLoop fuel resource before = some body ∧
    (body.map Written.bytes).flatten = bytes

theorem writesBody_iff_loopWrites {resource : Resource} {stack bytes : List Byte} :
    WritesBody resource stack bytes ↔ LoopWrites resource stack bytes := by
  constructor
  · rintro ⟨fuel, header, body, served, whole⟩
    exact ⟨fuel, body, (serveFile_eq_file_iff.mp served).2, whole⟩
  · rintro ⟨fuel, body, loop, whole⟩
    exact ⟨fuel, mainHeader, body, serveFile_eq_file_iff.mpr ⟨rfl, loop⟩, whole⟩

section Loop

variable {content taken rest before bytes : List Byte}

/-- The end of file ends the loop, and what is read in front of it is not written. -/
theorem loopWrites_ended (ended : piece (CONTENT_SIZE - 1) content = none) :
    LoopWrites (ofContent content) before bytes ↔ bytes = [] := by
  have feof := feof_ofContent ended
  constructor
  · rintro ⟨fuel, body, served, rfl⟩
    cases fuel with
    | zero => cases served
    | succ fuel =>
        simp only [serveLoop, feof, if_true] at served
        cases served
        rfl
  · rintro rfl
    exact ⟨1, [], by simp [serveLoop, feof], rfl⟩

/-- A round writes a piece up to its first NUL byte. -/
theorem loopWrites_round (cut : piece (CONTENT_SIZE - 1) (taken ++ rest) = some taken) :
    LoopWrites (ofContent (taken ++ rest)) before bytes ↔
      ∃ more, bytes = cstr taken ++ more ∧ LoopWrites (ofContent rest) (cstr taken) more := by
  have call := fgets_ofContent cut
  have left : (ofContent (taken ++ rest)).rest taken.length = ofContent rest := by
    rw [rest_ofContent, List.drop_left]
  constructor
  · rintro ⟨fuel, body, served, rfl⟩
    cases fuel with
    | zero => cases served
    | succ fuel =>
        simp only [serveLoop, call, left, Bool.false_eq_true, if_false] at served
        rcases Option.map_eq_some_iff.mp served with ⟨later, loop, rfl⟩
        exact ⟨_, rfl, fuel, later, loop, rfl⟩
  · rintro ⟨more, rfl, fuel, body, loop, rfl⟩
    refine ⟨fuel + 1, ⟨cstr taken, true⟩ :: body, ?_, rfl⟩
    simp only [serveLoop, call, left, Bool.false_eq_true, if_false]
    exact Option.map_eq_some_iff.mpr ⟨body, loop, rfl⟩

/-- A file is read piece by piece. -/
theorem pieces_induction {motive : List Byte → Prop}
    (ended : ∀ content, piece (CONTENT_SIZE - 1) content = none → motive content)
    (round : ∀ taken rest, piece (CONTENT_SIZE - 1) (taken ++ rest) = some taken →
      ((∃ text, taken = text ++ [LF]) ∨ LF ∉ taken ∧ taken.length = CONTENT_SIZE - 1) →
      motive rest → motive (taken ++ rest)) (content : List Byte) : motive content := by
  induction known : content.length using Nat.strong_induction_on generalizing content with
  | _ n ih =>
      subst known
      cases cut : piece (CONTENT_SIZE - 1) content with
      | none => exact ended content cut
      | some taken =>
          rcases piece_some cut with ⟨rest, rfl, shape⟩
          have some : taken ≠ [] := by
            rintro rfl
            rcases shape with ⟨text, empty⟩ | ⟨-, full⟩
            · exact List.append_ne_nil_of_right_ne_nil text (List.cons_ne_nil LF []) empty.symm
            · cases full
          have shorter : rest.length < (taken ++ rest).length := by
            rw [List.length_append]
            exact Nat.lt_add_of_pos_left (List.length_pos_iff.mpr some)
          exact round taken rest cut shape (ih rest.length shorter rest rfl)

/-- What is written holds no NUL byte. -/
theorem LoopWrites.zero_notMem (writes : LoopWrites (ofContent content) before bytes) :
    0 ∉ bytes := by
  induction content using pieces_induction generalizing before bytes with
  | ended content cut =>
      rw [(loopWrites_ended cut).mp writes]
      exact List.not_mem_nil
  | round taken rest cut shape ih =>
      rcases (loopWrites_round cut).mp writes with ⟨more, rfl, later⟩
      intro mem
      rcases List.mem_append.mp mem with mem | mem
      · exact zero_notMem_cstr taken mem
      · exact ih later mem

/-- The loop writes a file without NUL bytes whose bytes behind the last newline fill the
array so and so often. -/
theorem loopWrites_content_iff (content before : List Byte) :
    LoopWrites (ofContent content) before content ↔
      0 ∉ content ∧ CONTENT_SIZE - 1 ∣ (unfinished content).length := by
  induction content using pieces_induction generalizing before with
  | ended content cut =>
      rcases piece_none cut with ⟨noLf, short⟩
      rw [loopWrites_ended cut, unfinished_eq, behindLast_of_notMem noLf]
      constructor
      · rintro rfl
        exact ⟨List.not_mem_nil, Nat.dvd_zero _⟩
      · rintro ⟨-, divides⟩
        exact List.eq_nil_of_length_eq_zero (Nat.eq_zero_of_dvd_of_lt divides short)
  | round taken rest cut shape ih =>
      have same : CONTENT_SIZE - 1 ∣ (unfinished (taken ++ rest)).length ↔
          CONTENT_SIZE - 1 ∣ (unfinished rest).length :=
        dvd_behindLast_append shape rest
      constructor
      · intro writes
        have noNul := writes.zero_notMem
        have whole : cstr taken = taken :=
          cstr_of_notMem fun mem => noNul (List.mem_append_left rest mem)
        rcases (loopWrites_round cut).mp writes with ⟨more, equal, later⟩
        rw [whole] at equal later
        cases List.append_cancel_left equal
        exact ⟨noNul, same.mpr ((ih taken).mp later).2⟩
      · rintro ⟨noNul, divides⟩
        have noNulRest : 0 ∉ rest := fun mem => noNul (List.mem_append_right taken mem)
        have whole : cstr taken = taken :=
          cstr_of_notMem fun mem => noNul (List.mem_append_left rest mem)
        refine (loopWrites_round cut).mpr ⟨rest, by rw [whole], ?_⟩
        exact (ih _).mpr ⟨noNulRest, same.mp divides⟩

end Loop

/-- `serve_file` writes a file as it is if and only if it holds no NUL byte, and the array
is filled by the bytes behind the last newline: there are none, or `1023`, or a multiple. -/
theorem writesBody_content_iff (content stack : List Byte) :
    WritesBody (ofContent content) stack content ↔
      0 ∉ content ∧ CONTENT_SIZE - 1 ∣ (unfinished content).length := by
  rw [writesBody_iff_loopWrites]
  exact loopWrites_content_iff content stack

/-- The line without a newline is not written, and what is behind a NUL byte is not. -/
theorem content_not_written :
    serveFile 2 (some (ofContent (ascii "a\nb"))) [] =
        some (.file mainHeader [⟨ascii "a\n", true⟩]) ∧
      ¬ WritesBody (ofContent (ascii "a\nb")) [] (ascii "a\nb") ∧
      ¬ WritesBody (ofContent [97, 0, 98, 10]) [] [97, 0, 98, 10] := by
  refine ⟨by decide +kernel, ?_, ?_⟩
  · rw [writesBody_iff_loopWrites, loopWrites_content_iff]
    decide +kernel
  · rw [writesBody_iff_loopWrites, loopWrites_content_iff]
    decide +kernel

end NetPractice.MiniHttpd
