import NetPractice.LineReader.Correctness
import NetPractice.Socket.Core
import Mathlib.Logic.Function.Basic

/-!
# Calls of `readline` on several descriptors

The buffer of `lib/readline.c` belongs to the process and that of `threads/readline.c` to
the thread, so what one call has read ahead is handed out by the next call, whichever
descriptor that is for.
-/

namespace NetPractice.LineReader

open NetPractice.Text
open NetPractice.Socket
open NetPractice.Transition

/-! ## Where the bytes come from -/

/-- The descriptors that the bytes of the loop of `readline` were read from, and the one
that the bytes behind them in the buffer were read from.  Those in the buffer are from
`owner`, and `my_read` reads `fd` when the buffer is empty. -/
def origins (fd : Fd) : Nat → Fd → Rline → List Answer → List Fd × Fd
  | 0, owner, _, _ => ([], owner)
  | left + 1, owner, r, answers =>
      let owner := if 0 < r.cnt then owner else fd
      match myRead r answers with
      | (.byte c, r, answers) =>
          if c = newline then ([owner], owner)
          else
            let (rest, last) := origins fd left owner r answers
            (owner :: rest, last)
      | (.eof, _, _) | (.error, _, _) => ([], owner)

/-- What a call has returned: the bytes in front of the terminating NUL, and where each of
them was read from. -/
structure Piece where
  bytes : List Byte
  origins : List Fd
  deriving DecidableEq, Repr

/-- Calls on several descriptors, with all bytes of their streams. -/
structure Streams (ρ : Type) where
  reader : ρ
  owner : Fd
  answers : Fd → List Answer
  pieces : Fd → List Piece
  stream : Fd → List Byte

namespace Version

variable {ρ : Type} (version : Version ρ)

/-- In front of the first call. -/
def streams (answers : Fd → List Answer) : Streams ρ where
  reader := version.start
  owner := -1
  answers := answers
  pieces := fun _ => []
  stream := fun fd => (answers fd).flatMap Answer.bytes

/-- A call with a descriptor and with `maxlen`, which is at least 1.  A call that fails
returns no bytes. -/
def call (s : Streams ρ) : Fd × Nat → Option (Streams ρ)
  | (fd, maxlen) =>
      if 0 < maxlen then
        let out := version.readline s.reader (s.answers fd) maxlen
        let from' := origins fd (maxlen - 1) s.owner (version.buffer s.reader) (s.answers fd)
        some { s with
          reader := out.reader
          owner := from'.2
          answers := Function.update s.answers fd out.answers
          pieces :=
            if 0 ≤ out.ret then
              Function.update s.pieces fd (s.pieces fd ++ [⟨out.stored, from'.1⟩])
            else s.pieces }
      else none

/-- The bytes of a descriptor that have been read and not been handed out. -/
def ahead (s : Streams ρ) (fd : Fd) : List Byte :=
  if s.owner = fd then (version.buffer s.reader).pending else []

/-- The rest of a descriptor's stream. -/
def restOf (s : Streams ρ) (fd : Fd) : List Byte :=
  version.ahead s fd ++ (s.answers fd).flatMap Answer.bytes

/-- Every returned byte was read from the descriptor of its call, and the pieces of each
descriptor make up its stream. -/
structure Unmixed (s : Streams ρ) : Prop where
  own : ∀ fd, ∀ piece ∈ s.pieces fd, piece.origins = List.replicate piece.bytes.length fd
  whole : ∀ fd, (s.pieces fd).flatMap Piece.bytes ++ version.restOf s fd = s.stream fd

/-- A call that takes a byte finds none of another descriptor in the buffer. -/
def Reaches (s : Streams ρ) (fd : Fd) (maxlen : Nat) : Prop :=
  maxlen ≤ 1 ∨ (version.buffer s.reader).pending = [] ∨ s.owner = fd

/-- No `read` fails behind a part of a line. -/
def Completes (s : Streams ρ) (fd : Fd) (maxlen : Nat) : Prop :=
  .fail ∈ s.answers fd →
    available (version.buffer s.reader) (s.answers fd) = [] ∨
      newline ∈ available (version.buffer s.reader) (s.answers fd) ∨
      maxlen - 1 ≤ (available (version.buffer s.reader) (s.answers fd)).length

/-- The call hands out bytes of its own descriptor, and loses none. -/
def KeepsApart (s : Streams ρ) : Fd × Nat → Prop
  | (fd, maxlen) => version.Reaches s fd maxlen ∧ version.Completes s fd maxlen

instance (s : Streams ρ) : ∀ call, Decidable (version.KeepsApart s call)
  | (_, _) => inferInstanceAs (Decidable ((_ ∨ _ ∨ _) ∧ (_ → _ ∨ _ ∨ _)))

end Version

/-! ## What a call takes from the buffer -/

section Origins

variable {fd owner : Fd} {left n : Nat} {stored : List Byte} {r : Rline} {answers : List Answer}

/-- From an empty buffer, or one with its own bytes, a call takes bytes of its descriptor
only. -/
theorem origins_own (reaches : r.pending = [] ∨ owner = fd) :
    (∀ origin ∈ (origins fd left owner r answers).1, origin = fd) ∧
      (0 < left → (origins fd left owner r answers).2 = fd) := by
  induction left generalizing owner r answers with
  | zero => exact ⟨fun _ mem => absurd mem List.not_mem_nil, fun positive => by cases positive⟩
  | succ left ih =>
      have owner_eq : (if 0 < r.cnt then owner else fd) = fd := by
        split
        · rename_i some
          rcases reaches with empty | same
          · rw [pending_pop r some] at empty
            cases empty
          · exact same
        · rfl
      rw [origins]
      simp only [owner_eq]
      generalize myRead r answers = result
      rcases result with ⟨c | _ | _, r', answers'⟩
      · dsimp only
        split
        · exact ⟨fun origin mem => List.mem_singleton.mp mem, fun _ => rfl⟩
        · have rest := @ih fd r' answers' (.inr rfl)
          constructor
          · intro origin mem
            rcases List.mem_cons.mp mem with first | behind
            · exact first
            · exact rest.1 origin behind
          · intro _
            cases left with
            | zero => rfl
            | succ left => exact rest.2 (Nat.succ_pos left)
      · exact ⟨fun _ mem => absurd mem List.not_mem_nil, fun _ => rfl⟩
      · exact ⟨fun _ mem => absurd mem List.not_mem_nil, fun _ => rfl⟩

/-- From a buffer with bytes, a call takes the first one. -/
theorem owner_mem_origins (some : r.pending ≠ []) (positive : 0 < left) :
    owner ∈ (origins fd left owner r answers).1 := by
  have count : 0 < r.cnt := by
    by_contra none
    exact some (pending_of_nonpos none)
  cases left with
  | zero => cases positive
  | succ left =>
      rw [origins, if_pos count, myRead, dif_pos count]
      dsimp only
      split
      · exact List.mem_singleton_self owner
      · exact List.mem_cons_self

/-- An error is one of the descriptor that the call is for. -/
theorem origins_of_error (positive : 1 ≤ n) (failed : (readLoop left n stored r answers).ret < 0) :
    (origins fd left owner r answers).2 = fd := by
  induction left generalizing n stored owner r answers with
  | zero =>
      change (n : Int) < 0 at failed
      omega
  | succ left ih =>
      rw [readLoop] at failed
      rw [origins]
      by_cases count : 0 < r.cnt
      · rw [myRead, dif_pos count] at failed ⊢
        dsimp only at failed ⊢
        split at failed
        · change (n : Int) < 0 at failed
          omega
        · rename_i other
          rw [if_neg other]
          exact ih (Nat.le_add_left 1 n) failed
      · rw [if_neg count]
        generalize myRead r answers = result at failed
        rcases result with ⟨c | _ | _, r', answers'⟩
        · dsimp only at failed ⊢
          split at failed
          · change (n : Int) < 0 at failed
            omega
          · rename_i other
            rw [if_neg other]
            exact ih (Nat.le_add_left 1 n) failed
        · rfl
        · rfl

/-- Each stored byte has its origin. -/
theorem length_origins : (origins fd left owner r answers).1.length + stored.length =
    (readLoop left n stored r answers).stored.length := by
  induction left generalizing n stored owner r answers with
  | zero => exact Nat.zero_add _
  | succ left ih =>
      rw [readLoop, origins]
      generalize myRead r answers = result
      rcases result with ⟨c | _ | _, r', answers'⟩
      · dsimp only
        split
        · rw [List.length_append]
          exact Nat.add_comm _ _
        · have rest : (origins fd left (if 0 < r.cnt then owner else fd) r' answers').1.length +
              (stored ++ [c]).length =
                (readLoop left (n + 1) (stored ++ [c]) r' answers').stored.length := ih
          rw [← rest, List.length_append, List.length_cons, List.length_singleton]
          omega
      · exact Nat.zero_add _
      · exact Nat.zero_add _

end Origins

namespace Version

variable {ρ : Type} {version : Version ρ} {s t : Streams ρ} {fd : Fd} {maxlen : Nat}

/-! ## One call -/

/-- The parts of a call. -/
structure Called (version : Version ρ) (s : Streams ρ) (fd : Fd) (maxlen : Nat)
    (t : Streams ρ) : Prop where
  stream_eq : t.stream = s.stream
  answers_eq : t.answers =
    Function.update s.answers fd (version.readline s.reader (s.answers fd) maxlen).answers
  reader_eq : t.reader = (version.readline s.reader (s.answers fd) maxlen).reader
  owner_eq : t.owner =
    (origins fd (maxlen - 1) s.owner (version.buffer s.reader) (s.answers fd)).2
  pieces_eq : t.pieces =
    if 0 ≤ (version.readline s.reader (s.answers fd) maxlen).ret then
      Function.update s.pieces fd (s.pieces fd ++
        [⟨(version.readline s.reader (s.answers fd) maxlen).stored,
          (origins fd (maxlen - 1) s.owner (version.buffer s.reader) (s.answers fd)).1⟩])
    else s.pieces

theorem called (step : version.call s (fd, maxlen) = some t) : version.Called s fd maxlen t := by
  simp only [call, Option.ite_none_right_eq_some, Option.some.injEq] at step
  rcases step with ⟨-, rfl⟩
  exact ⟨rfl, rfl, rfl, rfl, rfl⟩

/-- A call without room takes nothing from the buffer. -/
theorem readline_short (short : maxlen ≤ 1) :
    (version.buffer (version.readline s.reader (s.answers fd) maxlen).reader) =
        version.buffer s.reader ∧
      (version.readline s.reader (s.answers fd) maxlen).answers = s.answers fd ∧
      (version.readline s.reader (s.answers fd) maxlen).stored = [] ∧
      origins fd (maxlen - 1) s.owner (version.buffer s.reader) (s.answers fd) = ([], s.owner) := by
  have reads := version.reads s.reader (s.answers fd) maxlen
  have none : maxlen - 1 = 0 := by omega
  rw [none] at reads ⊢
  rw [readLoop, Returned.mk.injEq] at reads
  exact ⟨reads.2.2.1.symm, reads.2.2.2.symm, reads.2.1.symm, rfl⟩

/-- A call that reaches its own bytes takes what it stores from the stream of its
descriptor, and nothing from any other. -/
theorem restOf_call (reaches : version.Reaches s fd maxlen)
    (step : version.call s (fd, maxlen) = some t) :
    version.restOf t fd = (version.restOf s fd).drop
        (version.readline s.reader (s.answers fd) maxlen).stored.length ∧
      ∀ other, other ≠ fd → version.restOf t other = version.restOf s other := by
  have called := called step
  have same : t.answers fd = (version.readline s.reader (s.answers fd) maxlen).answers := by
    rw [called.answers_eq, Function.update_self]
  have others : ∀ other, other ≠ fd → t.answers other = s.answers other := by
    intro other ne
    rw [called.answers_eq, Function.update_of_ne ne]
  by_cases short : maxlen ≤ 1
  · rcases @readline_short _ version s fd maxlen short with
      ⟨buffer_eq, answers_eq, stored_eq, origins_eq⟩
    have ahead_eq : ∀ other, version.ahead t other = version.ahead s other := by
      intro other
      rw [ahead, ahead, called.owner_eq, origins_eq, called.reader_eq, buffer_eq]
    constructor
    · rw [restOf, restOf, ahead_eq, same, answers_eq, stored_eq]
      rfl
    · intro other ne
      rw [restOf, restOf, ahead_eq, others other ne]
  · have own := reaches.resolve_left short
    have owner_eq : t.owner = fd := by
      rw [called.owner_eq]
      exact (origins_own own).2 (by omega)
    have before : version.restOf s fd = upcoming (version.buffer s.reader) (s.answers fd) := by
      rw [restOf, ahead, upcoming]
      split
      · rfl
      · rename_i ne
        rw [own.resolve_right ne]
    constructor
    · rw [before, ← upcoming_readline, restOf, ahead, if_pos owner_eq, same, called.reader_eq,
        upcoming]
    · intro other ne
      rw [restOf, restOf, others other ne, ahead, ahead, owner_eq, if_neg (Ne.symm ne)]
      split
      · rename_i owns
        rw [own.resolve_right fun equal => ne (owns.symm.trans equal)]
      · rfl

/-- A call that fails behind a part of a line has stored that part. -/
theorem stored_of_fails (fails : (version.readline s.reader (s.answers fd) maxlen).ret < 0) :
    (version.readline s.reader (s.answers fd) maxlen).stored =
        available (version.buffer s.reader) (s.answers fd) ∧
      .fail ∈ s.answers fd ∧
      newline ∉ available (version.buffer s.reader) (s.answers fd) ∧
      (available (version.buffer s.reader) (s.answers fd)).length < maxlen - 1 := by
  rcases readline_spec version s.reader (s.answers fd) maxlen with ⟨stored_eq, ret_eq, -⟩
  rw [ret_eq] at fails
  have failed := Exit.ret_neg_iff.mp fails
  rcases Stream.exit_eq_error_iff.mp failed with ⟨noNewline, short, later⟩
  rw [stored_eq, Stream.piece_of_error failed, available_eq_current, fail_mem_iff]
  exact ⟨rfl, later, noNewline, short⟩

/-- The stored bytes are the next ones of the descriptor's stream. -/
theorem stored_isPrefix_restOf (reaches : version.Reaches s fd maxlen) :
    (version.readline s.reader (s.answers fd) maxlen).stored <+: version.restOf s fd := by
  by_cases short : maxlen ≤ 1
  · rw [(readline_short short).2.2.1]
    exact List.nil_prefix
  · have own := reaches.resolve_left short
    have whole := stored_isPrefix version s.reader (s.answers fd) maxlen
    unfold upcoming at whole
    rw [restOf, ahead]
    split
    · exact whole
    · rename_i ne
      rw [own.resolve_right ne] at whole
      exact whole

/-- Every stored byte was read from the descriptor of the call. -/
theorem origins_call (reaches : version.Reaches s fd maxlen) :
    (origins fd (maxlen - 1) s.owner (version.buffer s.reader) (s.answers fd)).1 =
      List.replicate (version.readline s.reader (s.answers fd) maxlen).stored.length fd := by
  have length := @length_origins fd s.owner (maxlen - 1) 1 [] (version.buffer s.reader)
    (s.answers fd)
  rw [version.reads] at length
  apply List.eq_replicate_iff.mpr
  refine ⟨length, ?_⟩
  by_cases short : maxlen ≤ 1
  · rw [(readline_short short).2.2.2]
    exact fun _ mem => absurd mem List.not_mem_nil
  · exact (origins_own (reaches.resolve_left short)).1

theorem Unmixed.onCall (unmixed : version.Unmixed s) (reaches : version.Reaches s fd maxlen)
    (completes : version.Completes s fd maxlen) (step : version.call s (fd, maxlen) = some t) :
    version.Unmixed t := by
  have called := called step
  rcases restOf_call reaches step with ⟨rest_eq, others⟩
  have split_eq : (version.readline s.reader (s.answers fd) maxlen).stored ++
      version.restOf t fd = version.restOf s fd := by
    rw [rest_eq]
    exact List.prefix_iff_eq_append.mp (stored_isPrefix_restOf reaches)
  by_cases returns : 0 ≤ (version.readline s.reader (s.answers fd) maxlen).ret
  · have pieces_eq := called.pieces_eq
    rw [if_pos returns] at pieces_eq
    constructor
    · intro other piece mem
      rw [pieces_eq] at mem
      by_cases same : other = fd
      · subst same
        rw [Function.update_self] at mem
        rcases List.mem_append.mp mem with old | new
        · exact unmixed.own other piece old
        · rw [List.mem_singleton.mp new]
          exact origins_call reaches
      · rw [Function.update_of_ne same] at mem
        exact unmixed.own other piece mem
    · intro other
      rw [pieces_eq, called.stream_eq]
      by_cases same : other = fd
      · subst same
        rw [Function.update_self, List.flatMap_append, List.flatMap_singleton, List.append_assoc,
          split_eq]
        exact unmixed.whole other
      · rw [Function.update_of_ne same, others other same]
        exact unmixed.whole other
  · have pieces_eq := called.pieces_eq
    rw [if_neg returns] at pieces_eq
    rcases stored_of_fails (Int.not_le.mp returns) with ⟨stored_eq, fails, noNewline, short⟩
    have empty : available (version.buffer s.reader) (s.answers fd) = [] := by
      rcases completes fails with empty | mem | long
      · exact empty
      · exact absurd mem noNewline
      · exact absurd long (Nat.not_le_of_lt short)
    rw [stored_eq, empty, List.nil_append] at split_eq
    constructor
    · rw [pieces_eq]
      exact unmixed.own
    · intro other
      rw [pieces_eq, called.stream_eq]
      by_cases same : other = fd
      · rw [same, split_eq]
        exact unmixed.whole fd
      · rw [others other same]
        exact unmixed.whole other

/-- A call that finds bytes of another descriptor returns one of them, or loses them. -/
theorem Unmixed.mixes (unmixed : version.Unmixed s) (reaches : ¬ version.Reaches s fd maxlen)
    (step : version.call s (fd, maxlen) = some t) : ¬ version.Unmixed t := by
  intro unmixed'
  have called := called step
  rcases not_or.mp reaches with ⟨long, reaches⟩
  rcases not_or.mp reaches with ⟨some, ne⟩
  by_cases returns : 0 ≤ (version.readline s.reader (s.answers fd) maxlen).ret
  · have pieces_eq := called.pieces_eq
    rw [if_pos returns] at pieces_eq
    have own := unmixed'.own fd ⟨_, _⟩ (by
      rw [pieces_eq, Function.update_self]
      exact List.mem_append_right _ (List.mem_singleton.mpr rfl))
    have first : s.owner ∈ (origins fd (maxlen - 1) s.owner (version.buffer s.reader)
        (s.answers fd)).1 :=
      owner_mem_origins some (by omega)
    dsimp only at own
    rw [own] at first
    exact ne (List.eq_of_mem_replicate first)
  · have pieces_eq := called.pieces_eq
    rw [if_neg returns] at pieces_eq
    have failed := Int.not_le.mp returns
    have ret_eq : (readLoop (maxlen - 1) 1 [] (version.buffer s.reader) (s.answers fd)).ret =
        (version.readline s.reader (s.answers fd) maxlen).ret := by
      rw [version.reads]
    rw [← ret_eq] at failed
    have owner_eq : t.owner = fd := by
      rw [called.owner_eq]
      exact origins_of_error (Nat.le_refl 1) failed
    have before := unmixed.whole s.owner
    have after := unmixed'.whole s.owner
    rw [pieces_eq, called.stream_eq, ← before, restOf, restOf, called.answers_eq,
      Function.update_of_ne ne, ahead, ahead, if_pos rfl, owner_eq, if_neg (Ne.symm ne),
      List.append_cancel_left_eq, List.nil_append] at after
    exact some (List.self_eq_append_left.mp after)

/-- A call that fails behind a part of a line loses that part. -/
theorem Unmixed.loses (unmixed : version.Unmixed s) (reaches : version.Reaches s fd maxlen)
    (completes : ¬ version.Completes s fd maxlen) (step : version.call s (fd, maxlen) = some t) :
    ¬ version.Unmixed t := by
  intro unmixed'
  have called := called step
  rcases Classical.not_imp.mp completes with ⟨fails, missing⟩
  rcases not_or.mp missing with ⟨some, missing⟩
  rcases not_or.mp missing with ⟨noNewline, short⟩
  rcases readline_spec version s.reader (s.answers fd) maxlen with ⟨stored_eq, ret_eq, -⟩
  have failed : (version.stream s.reader (s.answers fd)).exit (maxlen - 1) = .error := by
    rw [available_eq_current] at noNewline short
    exact Stream.exit_eq_error_iff.mpr
      ⟨noNewline, Nat.lt_of_not_le short, (fail_mem_iff _).mp fails⟩
  rw [Stream.piece_of_error failed, stream, ← available_eq_current] at stored_eq
  have returns : ¬ 0 ≤ (version.readline s.reader (s.answers fd) maxlen).ret := by
    rw [ret_eq]
    exact Int.not_le.mpr (Exit.ret_neg_iff.mpr failed)
  have pieces_eq := called.pieces_eq
  rw [if_neg returns] at pieces_eq
  have rest_eq := (restOf_call reaches step).1
  have before := unmixed.whole fd
  have after := unmixed'.whole fd
  rw [pieces_eq, called.stream_eq, ← before, List.append_cancel_left_eq, rest_eq,
    stored_eq] at after
  have inside := (stored_isPrefix_restOf reaches).length_le
  have positive := List.length_pos_of_ne_nil some
  have lengths := congrArg List.length after
  rw [stored_eq] at inside
  rw [List.length_drop] at lengths
  omega

theorem streams_unmixed (version : Version ρ) (answers : Fd → List Answer) :
    version.Unmixed (version.streams answers) where
  own _ _ mem := absurd mem List.not_mem_nil
  whole fd := by
    rw [restOf, ahead]
    change [] ++ ((if _ then (version.buffer version.start).pending else []) ++ _) = _
    rw [version.empty, ite_self]
    rfl

/-- In every sequence of calls, no streams are mixed exactly if each call keeps them
apart. -/
theorem unmixed_along_iff (version : Version ρ) (answers : Fd → List Answer)
    {calls : List (Fd × Nat)} (positive : ∀ call ∈ calls, 0 < call.2) :
    Along version.call version.Unmixed (version.streams answers) calls ↔
      Meets version.call version.KeepsApart (version.streams answers) calls := by
  have defined : ∀ (calls : List (Fd × Nat)) (s : Streams ρ), (∀ call ∈ calls, 0 < call.2) →
      ∃ t, run version.call s calls = some t := by
    intro calls
    induction calls with
    | nil => exact fun s _ => ⟨s, rfl⟩
    | cons call calls ih =>
        intro s positive
        rcases ih _ fun other mem => positive other (List.mem_cons_of_mem call mem) with
          ⟨t, finished⟩
        exact ⟨t, (run_cons_of_step (if_pos (positive call List.mem_cons_self)) _).trans finished⟩
  rcases defined calls (version.streams answers) positive with ⟨t, finished⟩
  apply along_iff_meets _ (fun _ unmixed => unmixed) _ (streams_unmixed version answers) finished
  · rintro s ⟨fd, maxlen⟩ t unmixed ⟨reaches, completes⟩ step
    exact unmixed.onCall reaches completes step
  · rintro s ⟨fd, maxlen⟩ t unmixed mixed step
    by_cases reaches : version.Reaches s fd maxlen
    · exact unmixed.loses reaches (fun completes => mixed ⟨reaches, completes⟩) step
    · exact unmixed.mixes reaches step

end Version

/-- In both versions of `readline`, for all streams of any number of descriptors and every
interleaving of calls: each returned byte was read from the descriptor of its call and the
pieces make up the streams, exactly if every call that takes a byte finds the buffer empty
or filled from its own descriptor, and no `read` fails behind a part of a line. -/
theorem readline_unmixed_iff_keepsApart (answers : Fd → List Answer) {calls : List (Fd × Nat)}
    (positive : ∀ call ∈ calls, 0 < call.2) :
    (Along lib.call lib.Unmixed (lib.streams answers) calls ↔
      Meets lib.call lib.KeepsApart (lib.streams answers) calls) ∧
    (Along threads.call threads.Unmixed (threads.streams answers) calls ↔
      Meets threads.call threads.KeepsApart (threads.streams answers) calls) :=
  ⟨lib.unmixed_along_iff answers positive, threads.unmixed_along_iff answers positive⟩

/-- Descriptor 3 answers with `a`, a newline, `b` and a newline at once, descriptor 4 with `c`
and a newline. -/
def twoDescriptors (fd : Fd) : List Answer :=
  if fd = 3 then [.data ⟨[97, 10, 98, 10], by decide, by decide⟩]
  else if fd = 4 then [.data ⟨[99, 10], by decide, by decide⟩]
  else []

/-- The second descriptor is read when the first is at its end. -/
theorem readline_unmixed_inOrder :
    Along lib.call lib.Unmixed (lib.streams twoDescriptors) [(3, 8), (3, 8), (4, 8)] ∧
      Along threads.call threads.Unmixed (threads.streams twoDescriptors)
        [(3, 8), (3, 8), (4, 8)] := by
  have positive : ∀ call ∈ [((3 : Fd), 8), (3, 8), (4, 8)], 0 < call.2 := by decide
  have both := readline_unmixed_iff_keepsApart twoDescriptors positive
  exact ⟨both.1.mpr (by decide +kernel), both.2.mpr (by decide +kernel)⟩

/-- A call on descriptor 4 behind the first line of descriptor 3 returns the second line of
descriptor 3. -/
theorem readline_mixes :
    (run lib.call (lib.streams twoDescriptors) [(3, 8), (4, 8)]).map (fun s => s.pieces 4) =
      some [⟨[98, 10], [3, 3]⟩] ∧
    (run threads.call (threads.streams twoDescriptors) [(3, 8), (4, 8)]).map
        (fun s => s.pieces 4) = some [⟨[98, 10], [3, 3]⟩] ∧
    ¬ Along lib.call lib.Unmixed (lib.streams twoDescriptors) [(3, 8), (4, 8)] ∧
    ¬ Along threads.call threads.Unmixed (threads.streams twoDescriptors) [(3, 8), (4, 8)] := by
  have wrong : ∀ {ρ : Type} (version : Version ρ),
      (run version.call (version.streams twoDescriptors) [(3, 8), (4, 8)]).map
        (fun s => s.pieces 4) = some [⟨[98, 10], [3, 3]⟩] →
      ¬ Along version.call version.Unmixed (version.streams twoDescriptors) [(3, 8), (4, 8)] := by
    intro ρ version outcome along
    rcases Option.map_eq_some_iff.mp outcome with ⟨t, finished, pieces_eq⟩
    have own := (along.last finished).own 4 ⟨[98, 10], [3, 3]⟩
    rw [pieces_eq] at own
    exact absurd (own (List.mem_singleton.mpr rfl)) (by decide)
  have one : (run lib.call (lib.streams twoDescriptors) [(3, 8), (4, 8)]).map
      (fun s => s.pieces 4) = some [⟨[98, 10], [3, 3]⟩] := by
    decide +kernel
  have two : (run threads.call (threads.streams twoDescriptors) [(3, 8), (4, 8)]).map
      (fun s => s.pieces 4) = some [⟨[98, 10], [3, 3]⟩] := by
    decide +kernel
  exact ⟨one, two, wrong lib one, wrong threads two⟩

end NetPractice.LineReader
