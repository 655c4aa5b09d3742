import NetPractice.MiniHttpd.Core

/-!
# Serving a file

This module embeds `serve_file` of `mini_httpd.c`; the loop of `httpd.c` is the same.
What a resource gives for each byte that `fgets` asks for is an infinite sequence, so that
it can be a file, a device without an end, or a directory, whose reads all fail.

`fgets` leaves the array as it was when the end of file comes first, and with
indeterminate contents when a read fails.  The loop looks at neither its result nor
`ferror`.
-/

namespace NetPractice.MiniHttpd

open NetPractice.Text

/-- The size of `file_content`. -/
def CONTENT_SIZE : Nat := 1024

/-- What a resource gives: a byte, the end of file, or an error, with the string that the
array of the failing call then holds. -/
inductive Getc where
  | byte (byte : Byte)
  | eof
  | error (left : List Byte)
  deriving DecidableEq, Repr

/-- What the calls of `fgetc` give, one after the other. -/
abbrev Resource := Nat → Getc

/-- What is left of a resource. -/
def Resource.rest (resource : Resource) (used : Nat) : Resource :=
  fun n => resource (used + n)

/-- What a call of `fgets` makes of the array: it is filled, left alone, or indeterminate. -/
inductive Fill where
  | filled (bytes : List Byte)
  | nothing
  | failed (left : List Byte)
  deriving DecidableEq, Repr

/-- A call of `fgets`: what becomes of the array, the flag that `feof` tests, and how much
of the resource is used. -/
structure Fgets where
  fill : Fill
  feof : Bool
  used : Nat
  deriving DecidableEq, Repr

/-- `fgets` with room for some more bytes behind those that it has. -/
def fgetsLoop (resource : Resource) : Nat → Nat → List Byte → Fgets
  | 0, used, bytes => ⟨.filled bytes, false, used⟩
  | room + 1, used, bytes =>
      match resource used with
      | .byte byte =>
          if byte = LF then ⟨.filled (bytes ++ [byte]), false, used + 1⟩
          else fgetsLoop resource room (used + 1) (bytes ++ [byte])
      | .eof => ⟨if bytes = [] then .nothing else .filled bytes, true, used + 1⟩
      | .error left => ⟨.failed left, false, used + 1⟩

/-- `fgets(file_content, sizeof(file_content), resource)`. -/
def fgets (resource : Resource) : Fgets :=
  fgetsLoop resource (CONTENT_SIZE - 1) 0 []

/-- The string in the array behind a call of `fgets`, when it was another one before. -/
def Fill.content (before : List Byte) : Fill → List Byte
  | .filled bytes => cstr bytes
  | .nothing => before
  | .failed left => left

/-- `fgets` has returned a string that it has read. -/
def Fill.Succeeded : Fill → Prop
  | .filled _ => True
  | .nothing | .failed _ => False

instance : ∀ fill : Fill, Decidable fill.Succeeded
  | .filled _ => isTrue trivial
  | .nothing | .failed _ => isFalse id

/-- A call of `write`, and whether what it writes was read by the last call of `fgets`. -/
structure Written where
  bytes : List Byte
  fresh : Bool
  deriving DecidableEq, Repr

/-- The loop of `serve_file` behind a call of `fgets`, with the string in the array before
that call.  Without fuel there is no result. -/
def serveLoop : Nat → Resource → List Byte → Option (List Written)
  | 0, _, _ => none
  | fuel + 1, resource, before =>
      let call := fgets resource
      if call.feof then some []
      else
        let content := call.fill.content before
        (serveLoop fuel (resource.rest call.used) content).map
          (⟨content, decide call.fill.Succeeded⟩ :: ·)

/-- The header that `main` sends. -/
def mainHeader : List Byte :=
  ascii "HTTP/1.0 200 OK\r\nServer: Mini-httpd\r\nContent-Type: text/html\r\n" ++
    ascii "charset=\"zh-CN\"\r\nConnection: Close\r\n\r\n"

/-- What `serve_file` sends: the answer of `not_found`, or the header and what its loop
writes. -/
inductive Reply where
  | notFound
  | file (header : List Byte) (body : List Written)
  deriving DecidableEq, Repr

/-- `serve_file(client_sock, filename)`, with what `fopen` gives and the string on the
stack that `file_content` starts with. -/
def serveFile (fuel : Nat) (resource : Option Resource) (stack : List Byte) : Option Reply :=
  match resource with
  | none => some .notFound
  | some resource => (serveLoop fuel resource stack).map (.file mainHeader)

/-- The loop ends, and writes only what was read. -/
def ServesProperly (resource : Resource) (stack : List Byte) : Prop :=
  ∃ fuel header body, serveFile fuel (some resource) stack = some (.file header body) ∧
    ∀ written ∈ body, written.bytes ≠ [] → written.fresh = true

/-- The end of file of a resource, when no read in front of it fails, unless the array then
holds the empty string. -/
def EndsAt (resource : Resource) (n : Nat) : Prop :=
  resource n = .eof ∧ ∀ k, k < n → ∀ left, resource k = .error left → left = []

/-- The resource comes to an end. -/
def ReachesEnd (resource : Resource) : Prop :=
  ∃ n, EndsAt resource n

/-! ## A call of `fgets` -/

/-- The resource begins with these bytes. -/
def Gives (resource : Resource) (bytes : List Byte) : Prop :=
  ∀ k byte, bytes[k]? = some byte → resource k = .byte byte

section Fgets

variable {resource : Resource} {text : List Byte}

theorem Gives.byte (gives : Gives resource text) {k : Nat} (less : k < text.length) :
    resource k = .byte text[k] :=
  gives k text[k] (List.getElem?_eq_getElem less)

/-- A call takes some bytes, and then stops by itself, at the end of file or at an error. -/
theorem fgetsLoop_cases (resource : Resource) (room used : Nat) (bytes : List Byte) :
    ∃ text, Gives (resource.rest used) text ∧
      ((fgetsLoop resource room used bytes = ⟨.filled (bytes ++ text), false, used + text.length⟩ ∧
          (0 < room → text ≠ [])) ∨
        (resource.rest used text.length = .eof ∧
          fgetsLoop resource room used bytes =
            ⟨if bytes ++ text = [] then .nothing else .filled (bytes ++ text), true,
              used + text.length + 1⟩) ∨
        ∃ left, resource.rest used text.length = .error left ∧
          fgetsLoop resource room used bytes = ⟨.failed left, false, used + text.length + 1⟩) := by
  have empty : Gives (resource.rest used) [] := by
    intro k byte found
    simp at found
  induction room generalizing used bytes with
  | zero =>
      refine ⟨[], empty, .inl ⟨?_, fun none => absurd none (Nat.lt_irrefl 0)⟩⟩
      rw [List.append_nil]
      rfl
  | succ room ih =>
      rw [fgetsLoop]
      cases next : resource used with
      | eof =>
          refine ⟨[], empty, .inr (.inl ⟨next, ?_⟩)⟩
          rw [List.append_nil]
          rfl
      | error left => exact ⟨[], empty, .inr (.inr ⟨left, next, rfl⟩)⟩
      | byte byte =>
          have one : Gives (resource.rest used) [byte] := by
            rintro (_ | k) other found
            · cases found
              exact next
            · simp at found
          dsimp only
          split
          · exact ⟨[byte], one, .inl ⟨rfl, fun _ => List.cons_ne_nil _ _⟩⟩
          · have none : Gives (resource.rest (used + 1)) [] := by
              intro k other found
              simp at found
            rcases ih (used + 1) (bytes ++ [byte]) none with ⟨text, gives, outcome⟩
            have index : used + 1 + text.length = used + (text.length + 1) := by omega
            have later : resource.rest (used + 1) text.length =
                resource.rest used (text.length + 1) := congrArg resource (by omega)
            rw [List.append_assoc, List.singleton_append, index, later] at outcome
            refine ⟨byte :: text, ?_, ?_⟩
            · rintro (_ | k) other found
              · cases found
                exact next
              · rw [← gives k other found]
                exact congrArg resource (by omega)
            · rcases outcome with ⟨filled, -⟩ | ended | failed
              · exact .inl ⟨filled, fun _ => List.cons_ne_nil _ _⟩
              · exact .inr (.inl ended)
              · exact .inr (.inr failed)

theorem fgets_cases (resource : Resource) :
    ∃ text, Gives resource text ∧
      ((fgets resource = ⟨.filled text, false, text.length⟩ ∧ text ≠ []) ∨
        (resource text.length = .eof ∧ (fgets resource).feof = true) ∨
        ∃ left, resource text.length = .error left ∧
          fgets resource = ⟨.failed left, false, text.length + 1⟩) := by
  have whole : resource.rest 0 = resource := by
    funext n
    exact congrArg resource (Nat.zero_add n)
  rcases fgetsLoop_cases resource (CONTENT_SIZE - 1) 0 [] with ⟨text, gives, outcome⟩
  rw [List.nil_append, Nat.zero_add, whole] at outcome
  rw [whole] at gives
  refine ⟨text, gives, ?_⟩
  rcases outcome with ⟨filled, some⟩ | ⟨ended, call⟩ | failed
  · exact .inl ⟨filled, some (by decide)⟩
  · exact .inr (.inl ⟨ended, by rw [fgets, call]⟩)
  · exact .inr (.inr failed)

/-! ## The end of a resource -/

theorem endsAt_of_eof (gives : Gives resource text) (eof : resource text.length = .eof) :
    EndsAt resource text.length := by
  refine ⟨eof, ?_⟩
  intro k less left error
  rw [gives.byte less] at error
  cases error

theorem Gives.le_of_endsAt {n : Nat} (gives : Gives resource text) (ends : EndsAt resource n) :
    text.length ≤ n := by
  by_contra inText
  have eof := ends.1
  rw [gives.byte (Nat.not_le.mp inText)] at eof
  cases eof

/-- Bytes in front of the rest do not matter. -/
theorem endsAt_append_iff (gives : Gives resource text) (n : Nat) :
    EndsAt resource (text.length + n) ↔ EndsAt (resource.rest text.length) n := by
  constructor
  · rintro ⟨eof, safe⟩
    refine ⟨eof, ?_⟩
    intro k less left error
    exact safe (text.length + k) (Nat.add_lt_add_left less _) left error
  · rintro ⟨eof, safe⟩
    refine ⟨eof, ?_⟩
    intro k less left error
    by_cases inText : k < text.length
    · rw [gives.byte inText] at error
      cases error
    · have index : text.length + (k - text.length) = k := by omega
      apply safe (k - text.length) (by omega) left
      rw [Resource.rest, index]
      exact error

/-- An error that leaves a string is one too many. -/
theorem endsAt_error_iff {left : List Byte} (gives : Gives resource text)
    (error : resource text.length = .error left) (n : Nat) :
    EndsAt resource (text.length + 1 + n) ↔
      left = [] ∧ EndsAt (resource.rest (text.length + 1)) n := by
  constructor
  · rintro ⟨eof, safe⟩
    refine ⟨safe text.length (by omega) left error, eof, ?_⟩
    intro k less other failed
    exact safe (text.length + 1 + k) (Nat.add_lt_add_left less _) other failed
  · rintro ⟨empty, eof, safe⟩
    refine ⟨eof, ?_⟩
    intro k less other failed
    rcases Nat.lt_trichotomy k text.length with inText | rfl | later
    · rw [gives.byte inText] at failed
      cases failed
    · rw [error] at failed
      cases failed
      exact empty
    · have index : text.length + 1 + (k - (text.length + 1)) = k := by omega
      apply safe (k - (text.length + 1)) (by omega) other
      rw [Resource.rest, index]
      exact failed

theorem lt_of_endsAt_error {left : List Byte} {n : Nat} (gives : Gives resource text)
    (error : resource text.length = .error left) (ends : EndsAt resource n) :
    text.length < n := by
  apply Nat.lt_of_le_of_ne (gives.le_of_endsAt ends)
  rintro rfl
  have eof := ends.1
  rw [error] at eof
  cases eof

/-! ## The loop -/

/-- The loop ends within some rounds, and writes only what was read. -/
def LoopServes (fuel : Nat) (resource : Resource) (before : List Byte) : Prop :=
  ∃ body, serveLoop fuel resource before = some body ∧
    ∀ written ∈ body, written.bytes ≠ [] → written.fresh = true

variable {fuel : Nat} {before left : List Byte}

theorem loopServes_of_feof (ended : (fgets resource).feof = true) :
    LoopServes (fuel + 1) resource before :=
  ⟨[], by simp [serveLoop, ended], nofun⟩

/-- A round of the loop writes what its array holds. -/
theorem loopServes_round (goes : (fgets resource).feof = false) :
    LoopServes (fuel + 1) resource before ↔
      (¬ (fgets resource).fill.Succeeded → (fgets resource).fill.content before = []) ∧
        LoopServes fuel (resource.rest (fgets resource).used)
          ((fgets resource).fill.content before) := by
  simp only [LoopServes, serveLoop, goes, Bool.false_eq_true, if_false]
  constructor
  · rintro ⟨body, served, fresh⟩
    rcases Option.map_eq_some_iff.mp served with ⟨rest, later, rfl⟩
    constructor
    · intro failed
      by_contra some
      exact failed (of_decide_eq_true (fresh _ List.mem_cons_self some))
    · exact ⟨rest, later, fun written mem => fresh written (List.mem_cons_of_mem _ mem)⟩
  · rintro ⟨first, rest, served, fresh⟩
    refine ⟨_, Option.map_eq_some_iff.mpr ⟨rest, served, rfl⟩, ?_⟩
    intro written mem
    rcases List.mem_cons.mp mem with rfl | mem
    · intro some
      apply decide_eq_true
      by_contra failed
      exact some (first failed)
    · exact fresh written mem

/-- A round that fills the array. -/
theorem loopServes_filled (call : fgets resource = ⟨.filled text, false, text.length⟩) :
    LoopServes (fuel + 1) resource before ↔
      LoopServes fuel (resource.rest text.length) (cstr text) := by
  rw [loopServes_round (by rw [call]), call]
  exact and_iff_right fun failed => absurd trivial failed

/-- A round whose read fails. -/
theorem loopServes_failed {used : Nat} (call : fgets resource = ⟨.failed left, false, used⟩) :
    LoopServes (fuel + 1) resource before ↔
      left = [] ∧ LoopServes fuel (resource.rest used) left := by
  rw [loopServes_round (by rw [call]), call]
  exact and_congr_left fun _ => ⟨fun failed => failed id, fun empty _ => empty⟩

/-- A loop that ends has come to the end of the resource. -/
theorem LoopServes.reachesEnd (serves : LoopServes fuel resource before) :
    ReachesEnd resource := by
  induction fuel generalizing resource before with
  | zero =>
      rcases serves with ⟨body, served, -⟩
      cases served
  | succ fuel ih =>
      rcases fgets_cases resource with ⟨text, gives, ⟨call, -⟩ | ⟨eof, -⟩ | ⟨left, error, call⟩⟩
      · rcases ih ((loopServes_filled call).mp serves) with ⟨n, ends⟩
        exact ⟨_, (endsAt_append_iff gives n).mpr ends⟩
      · exact ⟨_, endsAt_of_eof gives eof⟩
      · rcases (loopServes_failed call).mp serves with ⟨empty, later⟩
        rcases ih later with ⟨n, ends⟩
        exact ⟨_, (endsAt_error_iff gives error n).mpr ⟨empty, ends⟩⟩

/-- Every round comes nearer to the end. -/
theorem loopServes_of_endsAt {n : Nat} (ends : EndsAt resource n) :
    ∃ fuel, LoopServes fuel resource before := by
  induction n using Nat.strong_induction_on generalizing resource before with
  | _ n ih =>
      rcases fgets_cases resource with
        ⟨text, gives, ⟨call, some⟩ | ⟨-, ended⟩ | ⟨left, error, call⟩⟩
      · rcases Nat.le.dest (gives.le_of_endsAt ends) with ⟨m, rfl⟩
        have nearer : m < text.length + m :=
          Nat.lt_add_of_pos_left (List.length_pos_iff.mpr some)
        rcases ih m nearer ((endsAt_append_iff gives m).mp ends) with ⟨fuel, later⟩
        exact ⟨fuel + 1, (loopServes_filled call).mpr later⟩
      · exact ⟨1, loopServes_of_feof ended⟩
      · rcases Nat.le.dest (lt_of_endsAt_error gives error ends) with ⟨m, rfl⟩
        rcases (endsAt_error_iff gives error m).mp ends with ⟨empty, ends⟩
        rcases ih m (by omega) ends with ⟨fuel, later⟩
        exact ⟨fuel + 1, (loopServes_failed call).mpr ⟨empty, later⟩⟩

/-- `serve_file` sends the header and what its loop writes. -/
theorem serveFile_eq_file_iff {header : List Byte} {body : List Written} :
    serveFile fuel (some resource) before = some (.file header body) ↔
      header = mainHeader ∧ serveLoop fuel resource before = some body := by
  rw [serveFile, Option.map_eq_some_iff]
  constructor
  · rintro ⟨written, loop, equal⟩
    cases equal
    exact ⟨rfl, loop⟩
  · rintro ⟨rfl, loop⟩
    exact ⟨body, loop, rfl⟩

theorem servesProperly_iff_loopServes :
    ServesProperly resource before ↔ ∃ fuel, LoopServes fuel resource before := by
  constructor
  · rintro ⟨fuel, header, body, served, fresh⟩
    exact ⟨fuel, body, (serveFile_eq_file_iff.mp served).2, fresh⟩
  · rintro ⟨fuel, body, loop, fresh⟩
    exact ⟨fuel, mainHeader, body, serveFile_eq_file_iff.mpr ⟨rfl, loop⟩, fresh⟩

end Fgets

/-- `serve_file` ends, and writes only bytes that it has read, exactly for the resources
that come to their end, and whose reads do not fail before. -/
theorem servesProperly_iff_reachesEnd (resource : Resource) (stack : List Byte) :
    ServesProperly resource stack ↔ ReachesEnd resource := by
  rw [servesProperly_iff_loopServes]
  constructor
  · rintro ⟨fuel, serves⟩
    exact serves.reachesEnd
  · rintro ⟨n, ends⟩
    exact loopServes_of_endsAt ends

/-- A directory: every read fails, and the array stays as it was. -/
def directory (stack : List Byte) : Resource :=
  fun _ => .error stack

theorem serveLoop_directory (fuel : Nat) (stack before : List Byte) :
    serveLoop fuel (directory stack) before = none := by
  induction fuel generalizing before with
  | zero => rfl
  | succ fuel ih =>
      have call : fgets (directory stack) = ⟨.failed stack, false, 1⟩ := rfl
      have rest : (directory stack).rest 1 = directory stack := rfl
      rw [serveLoop, call]
      dsimp only
      rw [if_neg Bool.false_ne_true, rest, ih]
      rfl

/-- The directory of a URL has a directory `index.html` in it, which the loop reads for
ever; and an error in front of the end of file has it write what was on the stack. -/
theorem directory_not_served :
    doHttpResponse (fun path => if path = ascii "./htdocs/d" then some true else none) 0
        (ascii "/d") = [.stat (ascii "./htdocs/d"), .fopen (ascii "./htdocs/d/index.html")] ∧
      ¬ ServesProperly (directory (ascii "secret")) (ascii "secret") ∧
      serveFile 2 (some fun n => if n = 0 then .error (ascii "secret") else .eof)
        (ascii "secret") = some (.file mainHeader [⟨ascii "secret", false⟩]) := by
  refine ⟨by decide +kernel, ?_, by decide +kernel⟩
  rintro ⟨fuel, header, body, served, -⟩
  have loop := (serveFile_eq_file_iff.mp served).2
  rw [serveLoop_directory] at loop
  cases loop

end NetPractice.MiniHttpd
