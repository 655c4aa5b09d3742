import NetPractice.LineReader.Stream
import NetPractice.Transition.Core

/-!
# What `readline` returns

Whatever the refills, a call stores the next bytes of the stream, up to the first newline,
and at most `maxlen - 1` of them.  Its loop leaves `n` at the number of stored bytes when
it breaks at a newline, and the branch of end of file subtracts the one that `n` is ahead;
when the loop ends because the buffer is full, the call returns `maxlen`, one more than it
has stored.
-/

namespace NetPractice.LineReader

open NetPractice.Text
open NetPractice.Transition

/-! ## The stream behind a buffer -/

/-- The bytes of an answer. -/
def Answer.bytes : Answer → List Byte
  | .data chunk => chunk.bytes
  | .interrupted | .fail => []

/-- The bytes in front of the first failing `read`. -/
def untilFail : List Answer → List Byte
  | [] | .fail :: _ => []
  | .interrupted :: answers => untilFail answers
  | .data chunk :: answers => chunk.bytes ++ untilFail answers

/-- The rest of the stream. -/
def upcoming (r : Rline) (answers : List Answer) : List Byte :=
  r.pending ++ answers.flatMap Answer.bytes

/-- What can be read before a `read` fails. -/
def available (r : Rline) (answers : List Answer) : List Byte :=
  r.pending ++ untilFail answers

theorem untilFail_eq_current (answers : List Answer) :
    untilFail answers = (Stream.ofAnswers answers).current := by
  induction answers with
  | nil => rfl
  | cons answer answers ih =>
      cases answer with
      | data chunk => exact congrArg (chunk.bytes ++ ·) ih
      | interrupted => exact ih
      | fail => rfl

theorem flatMap_bytes_eq_all (answers : List Answer) :
    answers.flatMap Answer.bytes = (Stream.ofAnswers answers).all := by
  induction answers with
  | nil => rfl
  | cons answer answers ih =>
      rw [List.flatMap_cons, ih]
      cases answer with
      | data chunk => exact (List.append_assoc _ _ _).symm
      | interrupted | fail => rfl

theorem fail_mem_iff (answers : List Answer) :
    .fail ∈ answers ↔ (Stream.ofAnswers answers).later ≠ [] := by
  induction answers with
  | nil => simp [Stream.ofAnswers]
  | cons answer answers ih =>
      cases answer with
      | data chunk | interrupted => simp [Stream.ofAnswers, ih]
      | fail => simp [Stream.ofAnswers]

/-- What can be read is the stream up to its next error. -/
theorem available_eq_current (r : Rline) (answers : List Answer) :
    available r answers = (Stream.ofReader r answers).current :=
  congrArg (r.pending ++ ·) (untilFail_eq_current answers)

/-- The rest of the stream is all of it. -/
theorem upcoming_eq_all (r : Rline) (answers : List Answer) :
    upcoming r answers = (Stream.ofReader r answers).all := by
  rw [upcoming, flatMap_bytes_eq_all]
  exact (List.append_assoc _ _ _).symm

/-! ## Sequences of calls -/

/-- A version of `readline`, with the buffer that its next call works on. -/
structure Version (ρ : Type) where
  readline : ρ → List Answer → Nat → Returned ρ
  start : ρ
  buffer : ρ → Rline
  reads : ∀ r answers maxlen, readLoop (maxlen - 1) 1 [] (buffer r) answers =
    ⟨(readline r answers maxlen).ret, (readline r answers maxlen).stored,
      buffer (readline r answers maxlen).reader, (readline r answers maxlen).answers⟩
  empty : (buffer start).pending = []

/-- `lib/readline.c`. -/
def lib : Version Rline where
  readline := Lib.readline
  start := .zero
  buffer := id
  reads _ _ _ := rfl
  empty := rfl

/-- `threads/readline.c`, in one thread. -/
def threads : Version (Option Rline) where
  readline := Threads.readline
  start := none
  buffer tsd := tsd.getD .zero
  reads _ _ _ := rfl
  empty := rfl

/-- A call that has returned: its argument, the rest of the stream when it was made, what
it returned, and what it stored in front of the NUL. -/
structure Result where
  maxlen : Nat
  before : List Byte
  ret : Int
  stored : List Byte
  deriving DecidableEq, Repr

/-- The bytes that the caller gets, as many as were returned. -/
def Result.piece (result : Result) : List Byte :=
  (result.stored ++ [0]).take result.ret.toNat

/-- A sequence of calls on one descriptor, with all bytes of its stream. -/
structure Session (ρ : Type) where
  reader : ρ
  answers : List Answer
  results : List Result
  stream : List Byte

namespace Version

variable {ρ : Type} (version : Version ρ)

/-- The rest of the stream. -/
def rest (s : Session ρ) : List Byte :=
  upcoming (version.buffer s.reader) s.answers

/-- In front of the first call. -/
def session (answers : List Answer) : Session ρ where
  reader := version.start
  answers := answers
  results := []
  stream := answers.flatMap Answer.bytes

/-- A call with `maxlen`, which is at least 1. -/
def next (s : Session ρ) (maxlen : Nat) : Option (Session ρ) :=
  if 0 < maxlen then
    let out := version.readline s.reader s.answers maxlen
    some { s with
      reader := out.reader
      answers := out.answers
      results := s.results ++ [⟨maxlen, version.rest s, out.ret, out.stored⟩] }
  else none

/-- Every call that does not fail returns the number of bytes that it has stored, which
are the next line; and the pieces make up the stream. -/
structure Exact (s : Session ρ) : Prop where
  counted : ∀ result ∈ s.results, 0 ≤ result.ret → result.ret = result.stored.length ∧
    result.stored = takeLine (result.maxlen - 1) result.before
  whole : (∀ result ∈ s.results, 0 ≤ result.ret) →
    s.results.flatMap Result.piece ++ version.rest s = s.stream

/-- The next `maxlen - 1` bytes hold a newline, or there are not so many in front of end of
file or of an error. -/
def Undershoots (s : Session ρ) (maxlen : Nat) : Prop :=
  newline ∈ (available (version.buffer s.reader) s.answers).take (maxlen - 1) ∨
    (available (version.buffer s.reader) s.answers).length < maxlen - 1

instance (s : Session ρ) (maxlen : Nat) : Decidable (version.Undershoots s maxlen) :=
  inferInstanceAs (Decidable (_ ∨ _))

variable {version} {s t : Session ρ} {maxlen : Nat}

/-- What a call sees. -/
def stream (version : Version ρ) (r : ρ) (answers : List Answer) : Stream :=
  .ofReader (version.buffer r) answers

/-- What a call does. -/
theorem readline_spec (version : Version ρ) (r : ρ) (answers : List Answer) (maxlen : Nat) :
    (version.readline r answers maxlen).stored =
        (version.stream r answers).piece (maxlen - 1) ∧
      (version.readline r answers maxlen).ret =
        ((version.stream r answers).exit (maxlen - 1)).ret 1
          ((version.stream r answers).piece (maxlen - 1)).length ∧
      version.stream (version.readline r answers maxlen).reader
          (version.readline r answers maxlen).answers =
        (version.stream r answers).next (maxlen - 1) := by
  have reads := version.reads r answers maxlen
  rw [readLoop_eq_scan, List.nil_append, Returned.mk.injEq] at reads
  rcases reads with ⟨ret_eq, stored_eq, reader_eq, answers_eq⟩
  rcases scan_spec (maxlen - 1) (version.buffer r) answers with ⟨piece, exit, next⟩
  refine ⟨?_, ?_, ?_⟩
  · rw [← stored_eq, piece, stream]
  · rw [← ret_eq, exit, piece, stream]
  · rw [stream, ← reader_eq, ← answers_eq, next, stream]

/-- The stored bytes are the next ones of the stream. -/
theorem stored_isPrefix (version : Version ρ) (r : ρ) (answers : List Answer) (maxlen : Nat) :
    (version.readline r answers maxlen).stored <+: upcoming (version.buffer r) answers := by
  rw [(readline_spec version r answers maxlen).1, upcoming_eq_all]
  exact Stream.piece_isPrefix_all _ _

/-- A call takes from the stream what it stores. -/
theorem upcoming_readline (version : Version ρ) (r : ρ) (answers : List Answer) (maxlen : Nat) :
    upcoming (version.buffer (version.readline r answers maxlen).reader)
        (version.readline r answers maxlen).answers =
      (upcoming (version.buffer r) answers).drop
        (version.readline r answers maxlen).stored.length := by
  rcases readline_spec version r answers maxlen with ⟨stored_eq, -, next_eq⟩
  rw [upcoming_eq_all, upcoming_eq_all, stored_eq]
  exact (congrArg Stream.all next_eq).trans (Stream.all_next _ _)

/-- A call fills its buffer without a newline exactly if it does not meet the guard. -/
theorem undershoots_iff : version.Undershoots s maxlen ↔
    (version.stream s.reader s.answers).exit (maxlen - 1) ≠ .full := by
  rw [ne_eq, Stream.exit_eq_full_iff, not_and_or, not_not, not_le, stream,
    ← available_eq_current]
  rfl

/-- A call that meets the guard returns what it has stored, and that is the next line. -/
theorem readline_exact (guard : version.Undershoots s maxlen)
    (returns : 0 ≤ (version.readline s.reader s.answers maxlen).ret) :
    (version.readline s.reader s.answers maxlen).ret =
        (version.readline s.reader s.answers maxlen).stored.length ∧
      (version.readline s.reader s.answers maxlen).stored =
        takeLine (maxlen - 1) (version.rest s) := by
  rcases readline_spec version s.reader s.answers maxlen with ⟨stored_eq, ret_eq, -⟩
  have notFull := undershoots_iff.mp guard
  have noError : (version.stream s.reader s.answers).exit (maxlen - 1) ≠ .error := by
    intro failed
    rw [ret_eq] at returns
    exact Int.not_lt.mpr returns (Exit.ret_neg_iff.mpr failed)
  constructor
  · rw [ret_eq, stored_eq, Exit.ret_one notFull noError]
  · rw [stored_eq, Stream.piece_of_ne_error noError, rest, upcoming_eq_all, stream]

theorem Exact.next (exact : version.Exact s) (guard : version.Undershoots s maxlen)
    (step : version.next s maxlen = some t) : version.Exact t := by
  simp only [Version.next, Option.ite_none_right_eq_some, Option.some.injEq] at step
  rcases step with ⟨-, rfl⟩
  constructor
  · intro result mem returns
    rcases List.mem_append.mp mem with old | new
    · exact exact.counted result old returns
    · obtain rfl := List.mem_singleton.mp new
      exact readline_exact guard returns
  · intro all
    have before := exact.whole fun result mem => all result (List.mem_append_left _ mem)
    have returns := all _ (List.mem_append_right _ (List.mem_singleton.mpr rfl))
    rcases readline_exact guard returns with ⟨ret_eq, line⟩
    have rest_eq : _ = (version.rest s).drop _ :=
      upcoming_readline version s.reader s.answers maxlen
    rw [line] at rest_eq
    have piece : Result.piece ⟨maxlen, version.rest s,
        (version.readline s.reader s.answers maxlen).ret,
        (version.readline s.reader s.answers maxlen).stored⟩ =
          takeLine (maxlen - 1) (version.rest s) := by
      unfold Result.piece
      dsimp only
      rw [ret_eq, Int.toNat_natCast, List.take_left, line]
    have split : takeLine (maxlen - 1) (version.rest s) ++
        (version.rest s).drop (takeLine (maxlen - 1) (version.rest s)).length = version.rest s :=
      List.prefix_iff_eq_append.mp (takeLine_isPrefix_stream (maxlen - 1) (version.rest s))
    rw [List.flatMap_append, List.flatMap_singleton, piece, List.append_assoc]
    change _ ++ (_ ++ upcoming _ _) = _
    rw [rest_eq, split]
    exact before

/-- Any other call returns one more than it has stored. -/
theorem Exact.overshoots (over' : ¬ version.Undershoots s maxlen)
    (step : version.next s maxlen = some t) : ¬ version.Exact t := by
  simp only [Version.next, Option.ite_none_right_eq_some, Option.some.injEq] at step
  rcases step with ⟨-, rfl⟩
  intro exact
  have full := Classical.not_not.mp (mt undershoots_iff.mpr over')
  rcases readline_spec version s.reader s.answers maxlen with ⟨stored_eq, ret_eq, -⟩
  have counted := exact.counted _ (List.mem_append_right _ (List.mem_singleton.mpr rfl))
  rw [full, Exit.ret] at ret_eq
  dsimp only at counted
  rw [ret_eq, stored_eq] at counted
  have same := (counted (by omega)).1
  omega

theorem session_exact (version : Version ρ) (answers : List Answer) :
    version.Exact (version.session answers) where
  counted _ mem := absurd mem List.not_mem_nil
  whole _ := by
    change [] ++ upcoming (version.buffer version.start) answers = _
    unfold upcoming
    rw [version.empty]
    rfl

/-- For every stream and every sequence of calls, all counts are right exactly if no call
fills its buffer without reaching a newline. -/
theorem exact_along_iff (version : Version ρ) (answers : List Answer) {maxlens : List Nat}
    (positive : ∀ maxlen ∈ maxlens, 0 < maxlen) :
    Along version.next version.Exact (version.session answers) maxlens ↔
      Meets version.next version.Undershoots (version.session answers) maxlens := by
  have defined : ∀ (maxlens : List Nat) (s : Session ρ), (∀ maxlen ∈ maxlens, 0 < maxlen) →
      ∃ t, run version.next s maxlens = some t := by
    intro maxlens
    induction maxlens with
    | nil => exact fun s _ => ⟨s, rfl⟩
    | cons maxlen maxlens ih =>
        intro s positive
        rcases ih _ fun other mem => positive other (List.mem_cons_of_mem maxlen mem) with
          ⟨t, finished⟩
        exact ⟨t, (run_cons_of_step (if_pos (positive maxlen List.mem_cons_self)) _).trans finished⟩
  rcases defined maxlens (version.session answers) positive with ⟨t, finished⟩
  exact along_iff_meets (fun _ _ _ exact guard step => exact.next guard step) (fun _ exact => exact)
    (fun _ _ _ _ over' step => Exact.overshoots over' step) (session_exact version answers) finished

end Version

/-- In both versions of `readline`, for every stream, every segmentation of it and every
sequence of calls: each return value is the number of stored bytes, these are the next
line, and the pieces make up the stream, exactly if every call has a newline among the
next `maxlen - 1` bytes, or fewer bytes in front of end of file or of an error. -/
theorem readline_exact_iff_undershoots (answers : List Answer) {maxlens : List Nat}
    (positive : ∀ maxlen ∈ maxlens, 0 < maxlen) :
    (Along lib.next lib.Exact (lib.session answers) maxlens ↔
      Meets lib.next lib.Undershoots (lib.session answers) maxlens) ∧
    (Along threads.next threads.Exact (threads.session answers) maxlens ↔
      Meets threads.next threads.Undershoots (threads.session answers) maxlens) :=
  ⟨lib.exact_along_iff answers positive, threads.exact_along_iff answers positive⟩

/-- `ab`, a newline and `c`, then `d` behind an interrupted call, then end of file. -/
def twoLines : List Answer :=
  [.data ⟨[97, 98, 10, 99], by decide, by decide⟩, .interrupted,
    .data ⟨[100], by decide, by decide⟩]

theorem readline_exact_twoLines :
    Along lib.next lib.Exact (lib.session twoLines) [4, 4, 2] ∧
      Along threads.next threads.Exact (threads.session twoLines) [4, 4, 2] := by
  have positive : ∀ maxlen ∈ [4, 4, 2], 0 < maxlen := by decide
  have both := readline_exact_iff_undershoots twoLines positive
  exact ⟨both.1.mpr (by decide +kernel), both.2.mpr (by decide +kernel)⟩

/-- A call that fills its buffer of 3 bytes with `a` and `b` returns 3. -/
theorem readline_overshoots :
    (run lib.next (lib.session twoLines) [3]).map Session.results =
      some [⟨3, [97, 98, 10, 99, 100], 3, [97, 98]⟩] ∧
    (run threads.next (threads.session twoLines) [3]).map Session.results =
      some [⟨3, [97, 98, 10, 99, 100], 3, [97, 98]⟩] ∧
    ¬ Along lib.next lib.Exact (lib.session twoLines) [3] ∧
    ¬ Along threads.next threads.Exact (threads.session twoLines) [3] := by
  have wrong : ∀ {ρ : Type} (version : Version ρ),
      (run version.next (version.session twoLines) [3]).map Session.results =
        some [⟨3, [97, 98, 10, 99, 100], 3, [97, 98]⟩] →
      ¬ Along version.next version.Exact (version.session twoLines) [3] := by
    intro ρ version outcome along
    rcases Option.map_eq_some_iff.mp outcome with ⟨t, finished, results⟩
    have counted := (along.last finished).counted ⟨3, [97, 98, 10, 99, 100], 3, [97, 98]⟩
    rw [results] at counted
    exact absurd (counted (List.mem_singleton.mpr rfl) (by decide)).1 (by decide)
  have one : (run lib.next (lib.session twoLines) [3]).map Session.results =
      some [⟨3, [97, 98, 10, 99, 100], 3, [97, 98]⟩] := by
    decide +kernel
  have two : (run threads.next (threads.session twoLines) [3]).map Session.results =
      some [⟨3, [97, 98, 10, 99, 100], 3, [97, 98]⟩] := by
    decide +kernel
  exact ⟨one, two, wrong lib one, wrong threads two⟩

end NetPractice.LineReader
