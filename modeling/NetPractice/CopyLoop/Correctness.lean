import NetPractice.CopyLoop.Core
import NetPractice.Transition.Core

/-!
# What the copy loop delivers

Each direction satisfies one equation: what has been written and what is in the buffer is
what has been read.  End of file on the socket ends the function whatever the buffers
hold, so that it loses nothing, and has sent its FIN, exactly if both are empty then.
-/

namespace NetPractice.CopyLoop

open NetPractice.Memory
open NetPractice.Socket
open NetPractice.Text
open NetPractice.Transition

/-- The pointers are in order, both directions write what they have read, the socket is
shut down at most once and not too early, at the top of the loop not too late either, and
nothing is left when the function returns. -/
structure Correct (c : Client) : Prop where
  toPointers : 0 ≤ c.toBuf.optr ∧ c.toBuf.optr ≤ c.toBuf.iptr ∧ c.toBuf.iptr ≤ MAXLINE
  frPointers : 0 ≤ c.frBuf.optr ∧ c.frBuf.optr ≤ c.frBuf.iptr ∧ c.frBuf.iptr ≤ MAXLINE
  toSocket : c.sockWritten <+: c.stdinRead
  toStdout : c.stdoutWritten <+: c.sockRead
  shutOnce : c.shutdowns ≤ 1
  shutBehind : 0 < c.shutdowns → c.stdineof = true ∧ c.sockWritten = c.stdinRead
  shut : c.pc = .select → c.stdineof = true → c.sockWritten = c.stdinRead → c.shutdowns = 1
  returned : c.pc = .returned → c.stdoutWritten = c.sockRead ∧ c.shutdowns = 1

/-- When the socket is at end of file behind the end of standard input, both buffers are
empty. -/
def Drained (c : Client) (answer : Answer) : Prop :=
  c.pc = .readSocket → answer = .read .eof → c.stdineof = true →
    c.frBuf.optr = c.frBuf.iptr ∧ c.toBuf.optr = c.toBuf.iptr

instance (c : Client) (answer : Answer) : Decidable (Drained c answer) :=
  inferInstanceAs (Decidable (_ → _ → _ → _ ∧ _))

namespace Client

variable {c d : Client}

/-! ## The invariant -/

/-- Both directions are copied. -/
structure Copied (c : Client) : Prop where
  toSocket : c.sockWritten ++ c.toBuf.pending = c.stdinRead
  toStdout : c.stdoutWritten ++ c.frBuf.pending = c.sockRead

/-- All of standard input is written. -/
def Finished (c : Client) : Prop :=
  c.stdineof = true ∧ c.toBuf.optr = c.toBuf.iptr

instance (c : Client) : Decidable c.Finished :=
  inferInstanceAs (Decidable (_ ∧ _))

/-- The socket has been shut down if all of standard input is written. -/
def Settled (c : Client) : Prop :=
  c.shutdowns = if c.Finished then 1 else 0

/-- What is known in front of a system call. -/
def AtPc (c : Client) : Pc → Prop
  | .select | .readSocket | .writeStdout => c.Settled
  | .readStdin => c.Settled ∧ c.stdineof = false
  | .writeSocket => c.Settled ∧ c.toBuf.optr ≠ c.toBuf.iptr
  | .shutdownAtEof | .shutdownDrained => c.Finished ∧ c.shutdowns = 0
  | .returned => c.Settled ∧ c.Finished ∧ c.frBuf.optr = c.frBuf.iptr
  | .exited => c.shutdowns ≤ 1 ∧ (0 < c.shutdowns → c.Finished)

/-- The invariant of the loop. -/
structure Inv (c : Client) : Prop where
  copied : c.Copied
  atPc : c.AtPc c.pc

theorem Settled.shutOnce (settled : c.Settled) : c.shutdowns ≤ 1 := by
  rw [settled]
  split <;> decide

theorem Settled.shutBehind (settled : c.Settled) (some : 0 < c.shutdowns) : c.Finished := by
  rw [settled] at some
  by_contra unfinished
  rw [if_neg unfinished] at some
  exact absurd some (Nat.lt_irrefl 0)

theorem settled_of_not_finished (unfinished : ¬ c.Finished) :
    c.Settled ↔ c.shutdowns = 0 := by
  unfold Settled
  rw [if_neg unfinished]

theorem settled_of_finished (finished : c.Finished) : c.Settled ↔ c.shutdowns = 1 := by
  unfold Settled
  rw [if_pos finished]

theorem Inv.shutOnce (inv : c.Inv) : c.shutdowns ≤ 1 := by
  have atPc := inv.atPc
  cases pc : c.pc <;> rw [pc] at atPc
  case select | readSocket | writeStdout => exact Settled.shutOnce atPc
  case readStdin | writeSocket | returned => exact Settled.shutOnce atPc.1
  case shutdownAtEof | shutdownDrained => exact atPc.2.le.trans (Nat.zero_le 1)
  case exited => exact atPc.1

theorem Inv.shutBehind (inv : c.Inv) (some : 0 < c.shutdowns) : c.Finished := by
  have atPc := inv.atPc
  cases pc : c.pc <;> rw [pc] at atPc
  case select | readSocket | writeStdout => exact Settled.shutBehind atPc some
  case readStdin | writeSocket | returned => exact Settled.shutBehind atPc.1 some
  case shutdownAtEof | shutdownDrained => exact atPc.1
  case exited => exact atPc.2 some

theorem Inv.exit (inv : c.Inv) : c.exit.Inv where
  copied := ⟨inv.copied.toSocket, inv.copied.toStdout⟩
  atPc := ⟨inv.shutOnce, inv.shutBehind⟩

theorem Copied.sockWritten_eq_iff (copied : c.Copied) :
    c.sockWritten = c.stdinRead ↔ c.toBuf.optr = c.toBuf.iptr := by
  rw [← copied.toSocket, ← LinearBuffer.pending_eq_nil_iff]
  exact List.self_eq_append_right

theorem Copied.stdoutWritten_eq_iff (copied : c.Copied) :
    c.stdoutWritten = c.sockRead ↔ c.frBuf.optr = c.frBuf.iptr := by
  rw [← copied.toStdout, ← LinearBuffer.pending_eq_nil_iff]
  exact List.self_eq_append_right

theorem Inv.correct (inv : c.Inv) : Correct c where
  toPointers := ⟨Nat.zero_le _, c.toBuf.order, c.toBuf.inside⟩
  frPointers := ⟨Nat.zero_le _, c.frBuf.order, c.frBuf.inside⟩
  toSocket := ⟨_, inv.copied.toSocket⟩
  toStdout := ⟨_, inv.copied.toStdout⟩
  shutOnce := inv.shutOnce
  shutBehind some := by
    rcases inv.shutBehind some with ⟨eof, empty⟩
    exact ⟨eof, inv.copied.sockWritten_eq_iff.mpr empty⟩
  shut pc eof written := by
    have settled := inv.atPc
    rw [pc] at settled
    exact (settled_of_finished ⟨eof, inv.copied.sockWritten_eq_iff.mp written⟩).mp settled
  returned pc := by
    have atPc := inv.atPc
    rw [pc] at atPc
    rcases atPc with ⟨settled, finished, empty⟩
    exact ⟨inv.copied.stdoutWritten_eq_iff.mpr empty, (settled_of_finished finished).mp settled⟩

/-! ## Every call keeps the invariant -/

theorem start_inv (toBuf frBuf : { mem : List Byte // mem.length = MAXLINE }) :
    (start toBuf frBuf).Inv where
  copied := ⟨rfl, rfl⟩
  atPc := rfl

section Tests

variable (copied : c.Copied) (settled : c.Settled)

include copied settled

theorem inv_select : Inv { c with pc := .select } where
  copied := ⟨copied.toSocket, copied.toStdout⟩
  atPc := settled

theorem inv_tryWriteSocket : c.tryWriteSocket.Inv := by
  unfold tryWriteSocket
  split
  next writes =>
    constructor
    · exact ⟨copied.toSocket, copied.toStdout⟩
    · exact ⟨settled, (Nat.lt_of_sub_pos writes.2).ne⟩
  next => exact inv_select copied settled

theorem inv_tryWriteStdout : c.tryWriteStdout.Inv := by
  unfold tryWriteStdout
  split
  next =>
    constructor
    · exact ⟨copied.toSocket, copied.toStdout⟩
    · exact settled
  next => exact inv_tryWriteSocket copied settled

theorem inv_tryReadSocket : c.tryReadSocket.Inv := by
  unfold tryReadSocket
  split
  next =>
    constructor
    · exact ⟨copied.toSocket, copied.toStdout⟩
    · exact settled
  next => exact inv_tryWriteStdout copied settled

theorem inv_tryReadStdin (reads : c.sets.stdinR = true → c.stdineof = false) :
    c.tryReadStdin.Inv := by
  unfold tryReadStdin
  split
  next reported =>
    constructor
    · exact ⟨copied.toSocket, copied.toStdout⟩
    · exact ⟨settled, reads reported⟩
  next => exact inv_tryReadSocket copied settled

end Tests

theorem Inv.readStdin (inv : c.Inv) (pc : c.pc = .readStdin) (answer : Recv)
    (fits : answer.AtMost c.toBuf.room) : (c.readStdin answer fits).Inv := by
  have atPc := inv.atPc
  rw [pc] at atPc
  rcases atPc with ⟨settled, more⟩
  have unfinished : ¬ c.Finished := fun finished =>
    Bool.noConfusion (more.symm.trans finished.1)
  have none := (settled_of_not_finished unfinished).mp settled
  cases answer with
  | data bytes =>
      apply inv_tryReadSocket
      · constructor
        · change c.sockWritten ++ (c.toBuf.put bytes (fits bytes rfl).2).pending = _
          rw [LinearBuffer.pending_put, ← List.append_assoc, inv.copied.toSocket]
        · exact inv.copied.toStdout
      · refine (settled_of_not_finished fun finished => ?_).mpr none
        exact Bool.noConfusion (more.symm.trans finished.1)
  | eof =>
      change (if c.toBuf.optr = c.toBuf.iptr then _ else _ : Client).Inv
      split
      next empty =>
        constructor
        · exact ⟨inv.copied.toSocket, inv.copied.toStdout⟩
        · exact ⟨⟨rfl, empty⟩, none⟩
      next filled =>
        apply inv_tryReadSocket
        · exact ⟨inv.copied.toSocket, inv.copied.toStdout⟩
        · refine (settled_of_not_finished ?_).mpr none
          exact fun finished => filled finished.2
  | again => exact inv_tryReadSocket inv.copied settled
  | fail => exact inv.exit

theorem Inv.readSocket (inv : c.Inv) (pc : c.pc = .readSocket) (answer : Recv)
    (fits : answer.AtMost c.frBuf.room) (drained : Drained c (.read answer)) :
    (c.readSocket answer fits).Inv := by
  have settled := inv.atPc
  rw [pc] at settled
  cases answer with
  | data bytes =>
      apply inv_tryWriteStdout
      · constructor
        · exact inv.copied.toSocket
        · change c.stdoutWritten ++ (c.frBuf.put bytes (fits bytes rfl).2).pending = _
          rw [LinearBuffer.pending_put, ← List.append_assoc, inv.copied.toStdout]
      · exact settled
  | eof =>
      change (if c.stdineof then _ else _ : Client).Inv
      split
      next eof =>
        rcases drained pc rfl eof with ⟨frEmpty, toEmpty⟩
        constructor
        · exact ⟨inv.copied.toSocket, inv.copied.toStdout⟩
        · exact ⟨settled, ⟨eof, toEmpty⟩, frEmpty⟩
      next => exact inv.exit
  | again => exact inv_tryWriteStdout inv.copied settled
  | fail => exact inv.exit

theorem Inv.writeStdout (inv : c.Inv) (pc : c.pc = .writeStdout) (answer : Send)
    (fits : answer.AtMost (c.frBuf.iptr - c.frBuf.optr)) : (c.writeStdout answer fits).Inv := by
  have settled := inv.atPc
  rw [pc] at settled
  cases answer with
  | taken nwritten =>
      apply inv_tryWriteSocket
      · constructor
        · exact inv.copied.toSocket
        · exact (c.frBuf.taken_append nwritten _ _).trans inv.copied.toStdout
      · exact settled
  | again => exact inv_tryWriteSocket inv.copied settled
  | gone => exact inv.exit

theorem Inv.writeSocket (inv : c.Inv) (pc : c.pc = .writeSocket) (answer : Send)
    (fits : answer.AtMost (c.toBuf.iptr - c.toBuf.optr)) : (c.writeSocket answer fits).Inv := by
  have atPc := inv.atPc
  rw [pc] at atPc
  rcases atPc with ⟨settled, filled⟩
  have none := (settled_of_not_finished fun finished => filled finished.2).mp settled
  cases answer with
  | taken nwritten =>
      have copied := (c.toBuf.taken_append nwritten (fits nwritten rfl) _).trans inv.copied.toSocket
      have empty_iff := (c.toBuf.advance nwritten (fits nwritten rfl)).rewind_empty_iff
      constructor
      · exact ⟨copied, inv.copied.toStdout⟩
      · by_cases last : (c.toBuf.advance nwritten (fits nwritten rfl)).optr =
            (c.toBuf.advance nwritten (fits nwritten rfl)).iptr ∧ c.stdineof
        · have pc_eq : (c.writeSocket (.taken nwritten) fits).pc = .shutdownDrained := if_pos last
          rw [pc_eq]
          exact ⟨⟨last.2, empty_iff.mpr last.1⟩, none⟩
        · have pc_eq : (c.writeSocket (.taken nwritten) fits).pc = .select := if_neg last
          rw [pc_eq]
          refine (settled_of_not_finished ?_).mpr none
          exact fun finished => last ⟨empty_iff.mp finished.2, finished.1⟩
  | again => exact inv_select inv.copied settled
  | gone => exact inv.exit

/-- A `Shutdown` that is due. -/
theorem Inv.shutdown (inv : c.Inv) (due : c.Finished ∧ c.shutdowns = 0) (succeeds : Bool)
    {behind : Client → Client}
    (keeps : ∀ ⦃d : Client⦄, d.Copied → d.Settled → (behind d).Inv) :
    (c.shutdown succeeds behind).Inv := by
  unfold Client.shutdown
  split
  next =>
    apply keeps
    · exact ⟨inv.copied.toSocket, inv.copied.toStdout⟩
    · apply (settled_of_finished _).mpr
      · exact congrArg Nat.succ due.2
      · exact due.1
  next => exact inv.exit

theorem Inv.next (answer : Answer) (inv : c.Inv) (drained : Drained c answer)
    (step : c.next answer = some d) : d.Inv := by
  have atPc := inv.atPc
  unfold Client.next at step
  split at step
  next sets pc =>
    rw [pc] at atPc
    rcases guarded_eq_some_iff.mp step with ⟨within, rfl⟩
    apply inv_tryReadStdin
    · exact ⟨inv.copied.toSocket, inv.copied.toStdout⟩
    · exact atPc
    · intro reported
      rw [← Bool.not_eq_true']
      exact (Bool.and_eq_true_iff.mp (within.1 reported)).1
  next =>
    cases step
    exact inv.exit
  next answer pc =>
    rcases dependent_eq_some_iff.mp step with ⟨fits, rfl⟩
    exact inv.readStdin pc answer fits
  next succeeds pc =>
    rw [pc] at atPc
    cases step
    exact inv.shutdown atPc succeeds fun _ => inv_tryReadSocket
  next answer pc =>
    rcases dependent_eq_some_iff.mp step with ⟨fits, rfl⟩
    exact inv.readSocket pc answer fits drained
  next answer pc =>
    rcases dependent_eq_some_iff.mp step with ⟨fits, rfl⟩
    exact inv.writeStdout pc answer fits
  next answer pc =>
    rcases dependent_eq_some_iff.mp step with ⟨fits, rfl⟩
    exact inv.writeSocket pc answer fits
  next succeeds pc =>
    rw [pc] at atPc
    cases step
    exact inv.shutdown atPc succeeds fun _ => inv_select
  next => cases step

/-- At end of file on the socket, a buffer that is not empty is given up. -/
theorem Inv.loses {answer : Answer} (inv : c.Inv) (left : ¬ Drained c answer)
    (step : c.next answer = some d) : ¬ Correct d := by
  intro correct
  apply left
  rintro pc rfl eof
  have fits : Recv.eof.AtMost c.frBuf.room := fun _ mem => by cases mem
  have step_eq : c.next (.read .eof) = some { c with pc := .returned } := by
    unfold Client.next
    rw [pc]
    exact (dif_pos fits).trans (congrArg some (if_pos eof))
  obtain rfl := Option.some.inj (step_eq.symm.trans step)
  rcases correct.returned rfl with ⟨written, shut⟩
  have finished := inv.shutBehind (by rw [← Nat.succ_le_iff]; exact shut.ge)
  exact ⟨inv.copied.stdoutWritten_eq_iff.mp written, finished.2⟩

end Client

/-- In every schedule of readiness, short reads, short writes and `EWOULDBLOCK`, the loop
is correct exactly if both buffers are empty whenever the socket is at end of file behind
the end of standard input. -/
theorem copyLoop_along_iff_drained {toBuf frBuf : { mem : List Byte // mem.length = MAXLINE }}
    {answers : List Answer} {c : Client}
    (finished : run Client.next (Client.start toBuf frBuf) answers = some c) :
    Along Client.next Correct (Client.start toBuf frBuf) answers ↔
      Meets Client.next Drained (Client.start toBuf frBuf) answers :=
  along_iff_meets (fun _ answer _ inv drained step => Client.Inv.next answer inv drained step)
    (fun _ inv => inv.correct) (fun _ _ _ inv left step => inv.loses left step)
    (Client.start_inv toBuf frBuf) finished

/-- Arrays that hold zeros. -/
def zeros : { mem : List Byte // mem.length = MAXLINE } :=
  ⟨List.replicate MAXLINE 0, List.length_replicate⟩

/-- Three bytes go to the socket in two writes, the second one behind the end of standard
input, and two bytes come back. -/
def echoed : List Answer :=
  [.ready ⟨true, false, false, false⟩, .read (.data [97, 98, 10]), .write (.taken 2),
    .ready ⟨true, false, true, false⟩, .read .eof, .write .again,
    .ready ⟨false, false, true, false⟩, .write (.taken 1), .shutdown true,
    .ready ⟨false, true, false, false⟩, .read (.data [97, 98]), .write (.taken 2),
    .ready ⟨false, true, false, false⟩, .read .eof]

theorem copyLoop_along_echoed :
    Along Client.next Correct (Client.start zeros zeros) echoed := by
  have returns : (run Client.next (Client.start zeros zeros) echoed).map Client.pc =
      some .returned := by
    decide +kernel
  rcases Option.map_eq_some_iff.mp returns with ⟨c, finished, -⟩
  exact (copyLoop_along_iff_drained finished).mpr (by decide +kernel)

/-- Standard input ends, two bytes come from the socket, standard output is not writable,
and the server closes the connection. -/
def slowStdout : List Answer :=
  [.ready ⟨true, false, false, false⟩, .read .eof, .shutdown true,
    .ready ⟨false, true, false, false⟩, .read (.data [97, 98]), .write .again,
    .ready ⟨false, true, false, false⟩, .read .eof]

/-- A byte of standard input is not written when the server closes the connection. -/
def slowSocket : List Answer :=
  [.ready ⟨true, false, false, false⟩, .read (.data [97]), .write .again,
    .ready ⟨true, false, false, false⟩, .read .eof,
    .ready ⟨false, true, false, false⟩, .read .eof]

/-- The function returns with two bytes that are not written to standard output; in the
other run, without a `Shutdown`. -/
theorem copyLoop_loses :
    (run Client.next (Client.start zeros zeros) slowStdout).map
        (fun c => (c.pc, c.sockRead, c.stdoutWritten)) = some (.returned, [97, 98], []) ∧
      ¬ Along Client.next Correct (Client.start zeros zeros) slowStdout ∧
    (run Client.next (Client.start zeros zeros) slowSocket).map
        (fun c => (c.pc, c.shutdowns)) = some (.returned, 0) ∧
      ¬ Along Client.next Correct (Client.start zeros zeros) slowSocket := by
  have first : (run Client.next (Client.start zeros zeros) slowStdout).map
      (fun c => (c.pc, c.sockRead, c.stdoutWritten)) = some (.returned, [97, 98], []) := by
    decide +kernel
  have second : (run Client.next (Client.start zeros zeros) slowSocket).map
      (fun c => (c.pc, c.shutdowns)) = some (.returned, 0) := by
    decide +kernel
  refine ⟨first, fun along => ?_, second, fun along => ?_⟩
  · rcases Option.map_eq_some_iff.mp first with ⟨c, finished, fields⟩
    rcases Prod.mk.inj fields with ⟨pc, bytes⟩
    rcases Prod.mk.inj bytes with ⟨read, written⟩
    have all := ((along.last finished).returned pc).1
    rw [read, written] at all
    cases all
  · rcases Option.map_eq_some_iff.mp second with ⟨c, finished, fields⟩
    rcases Prod.mk.inj fields with ⟨pc, shutdowns⟩
    have once := ((along.last finished).returned pc).2
    rw [shutdowns] at once
    cases once

end NetPractice.CopyLoop
