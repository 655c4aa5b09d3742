import NetPractice.BoundedBuffer.Core
import NetPractice.Memory.Ring

/-!
# What goes through the buffer

The values are numbered in the order in which they are produced, and each one has the slot
of its number.  A thread that waits has no room or no data, or the other one is about to
signal.  So both never wait at once.
-/

namespace NetPractice.BoundedBuffer

open NetPractice.Transition
open NetPractice.Memory

/-! ## Weights -/

/-- The number of values that the thread has put or got. -/
def Thread.done (thread : Thread) : Nat :=
  match thread.position with
  | .signalling | .unlocking => thread.i + 1
  | .loop | .locking | .testing | .waiting | .woken | .returned => thread.i

/-- Whether the thread has locked the mutex. -/
def Thread.holds (thread : Thread) : Nat :=
  match thread.position with
  | .testing | .signalling | .unlocking => 1
  | .loop | .locking | .waiting | .woken | .returned => 0

/-- A bound of the statements that the thread still executes, where those of a thread that
waits are two less than those of one that was woken up. -/
def Thread.left (nloop : Nat) (thread : Thread) : Nat :=
  match thread.position with
  | .loop => 7 * (nloop - thread.i) + 1
  | .locking | .woken => 7 * (nloop - thread.i)
  | .testing => 7 * (nloop - thread.i) - 1
  | .waiting | .signalling => 7 * (nloop - thread.i) - 2
  | .unlocking => 7 * (nloop - thread.i) - 5
  | .returned => 0

/-- The local variable in the loop, and behind it. -/
def Thread.Counts (nloop : Nat) (thread : Thread) : Prop :=
  match thread.position with
  | .loop => thread.i ≤ nloop
  | .returned => thread.i = nloop
  | .locking | .testing | .waiting | .woken | .signalling | .unlocking => thread.i < nloop

/-- Whether the event is a statement of a thread. -/
def Event.isStep : Event → Bool
  | .step _ => true
  | .wakeup _ => false

@[simp]
theorem Role.other_other (role : Role) : role.other.other = role := by
  cases role <;> rfl

theorem Role.other_ne (role : Role) : role.other ≠ role := by
  cases role <;> decide

theorem Role.eq_or_eq_other (role one : Role) : one = role ∨ one = role.other := by
  cases role <;> cases one <;> decide

namespace Program

/-- How many values have been put. -/
def stored (s : Program) : Nat :=
  (s.threads .producer).done

/-- How many values have been got. -/
def taken (s : Program) : Nat :=
  (s.threads .consumer).done

/-- The buffer: the values that were stored and not taken are in their slots. -/
structure Filled (nloop : Nat) (s : Program) : Prop where
  whole : s.buf.b_buf.length = BUFFSIZE
  nitems : s.buf.b_nitems + s.taken = s.stored
  room : s.buf.b_nitems ≤ BUFFSIZE
  nextget : s.buf.b_nextget = s.taken % BUFFSIZE
  nextput : s.buf.b_nextput = s.stored % BUFFSIZE
  holds : Ring.Holds BUFFSIZE s.buf.b_buf (List.range nloop) s.taken s.stored
  consumed : s.consumed = List.range s.taken

/-- The invariant. -/
structure Consistent (nloop : Nat) (s : Program) : Prop where
  filled : s.Filled nloop
  counts : ∀ role, (s.threads role).Counts nloop
  holders : ∀ role, (s.threads role).holds + (s.threads role.other).holds =
    if s.b_mutex then 1 else 0
  awake : ∀ role, (s.threads role).position = .waiting →
    s.mustWait role ∨ (s.threads role.other).position = .signalling

section Threads

variable {nloop : Nat} {s t : Program} {role : Role} {thread : Thread}

@[simp]
theorem setThread_self : (s.setThread role thread).threads role = thread := by
  simp [setThread]

@[simp]
theorem setThread_other : (s.setThread role thread).threads role.other = s.threads role.other := by
  simp [setThread, role.other_ne]

/-- A thread that has done the same leaves the buffer as it is. -/
theorem done_setThread (mutex : Bool) (same : thread.done = (s.threads role).done) (one : Role) :
    (({ s with b_mutex := mutex }.setThread role thread).threads one).done =
      (s.threads one).done := by
  rcases role.eq_or_eq_other one with rfl | rfl
  · rw [setThread_self, same]
  · rw [setThread_other]

/-- A step that does nothing to the buffer. -/
theorem Consistent.moves (consistent : s.Consistent nloop) (mutex : Bool)
    (same : thread.done = (s.threads role).done) (counts : thread.Counts nloop)
    (holders : thread.holds + (if s.b_mutex then 1 else 0) =
      (s.threads role).holds + if mutex then 1 else 0)
    (blocked : thread.position = .waiting →
      s.mustWait role ∨ (s.threads role.other).position = .signalling)
    (signals : (s.threads role.other).position = .waiting →
      s.mustWait role.other ∨ thread.position = .signalling) :
    ({ s with b_mutex := mutex }.setThread role thread).Consistent nloop := by
  have done := done_setThread mutex same
  have filled := consistent.filled
  refine ⟨⟨filled.whole, ?_, filled.room, ?_, ?_, ?_, ?_⟩, ?_, ?_, ?_⟩
  · rw [taken, stored, done, done]
    exact filled.nitems
  · rw [taken, done]
    exact filled.nextget
  · rw [stored, done]
    exact filled.nextput
  · rw [taken, stored, done, done]
    exact filled.holds
  · rw [taken, done]
    exact filled.consumed
  · intro one
    rcases role.eq_or_eq_other one with rfl | rfl
    · rw [setThread_self]
      exact counts
    · rw [setThread_other]
      exact consistent.counts role.other
  · have before := consistent.holders role
    have after : thread.holds + (s.threads role.other).holds = if mutex then 1 else 0 := by
      omega
    intro one
    rcases role.eq_or_eq_other one with rfl | rfl
    · rw [setThread_self, setThread_other]
      exact after
    · rw [Role.other_other, setThread_self, setThread_other, Nat.add_comm]
      exact after
  · intro one waiting
    rcases role.eq_or_eq_other one with rfl | rfl
    · rw [setThread_self] at waiting
      rw [setThread_other]
      exact blocked waiting
    · rw [setThread_other] at waiting
      rw [Role.other_other, setThread_self]
      exact signals waiting

end Threads

/-! ## Steps -/

section Steps

variable {nloop i : Nat} {s t : Program} {role : Role}

theorem advance_mod (number : Nat) : advance (number % BUFFSIZE) = (number + 1) % BUFFSIZE := by
  have less : number % BUFFSIZE < BUFFSIZE := Nat.mod_lt number (by decide)
  rw [← Ring.mod_advance (by decide) number, advance]
  exact if_congr (by omega) rfl rfl

/-- The value of a number, while there is one. -/
theorem getElem?_range {number : Nat} (less : number < nloop) :
    (List.range nloop)[number]? = some number := by
  rw [List.getElem?_range less]

theorem Consistent.put (consistent : s.Consistent nloop)
    (running : s.threads .producer = ⟨i, .testing⟩) (room : s.mustWait .producer = false) :
    ({ s with buf := s.buf.put i }.setThread .producer ⟨i, .signalling⟩).Consistent nloop := by
  have filled := consistent.filled
  have counts : i < nloop := by
    have counts := consistent.counts .producer
    rw [running] at counts
    exact counts
  have stored : s.stored = i := by
    rw [Program.stored, running]
    rfl
  have free : s.buf.b_nitems < BUFFSIZE := by
    simpa [mustWait] using room
  have nitems := filled.nitems
  have taken_eq : ∀ buf : Buf, ({ s with buf := buf }.setThread .producer
      ⟨i, .signalling⟩).taken = s.taken := fun _ => rfl
  have stored_eq : ∀ buf : Buf, ({ s with buf := buf }.setThread .producer
      ⟨i, .signalling⟩).stored = i + 1 := fun _ => rfl
  refine ⟨⟨?_, ?_, free, ?_, ?_, ?_, ?_⟩, ?_, ?_, ?_⟩
  · exact (List.length_set ..).trans filled.whole
  · rw [taken_eq, stored_eq]
    change s.buf.b_nitems + 1 + s.taken = i + 1
    omega
  · rw [taken_eq]
    exact filled.nextget
  · rw [stored_eq]
    change advance s.buf.b_nextput = _
    rw [filled.nextput, stored, advance_mod]
  · rw [taken_eq, stored_eq]
    change Ring.Holds BUFFSIZE (s.buf.b_buf.set s.buf.b_nextput i) _ _ _
    have holds := filled.holds
    rw [filled.nextput, stored]
    rw [stored] at holds
    exact holds.push (by decide) filled.whole (by omega) (getElem?_range counts)
  · rw [taken_eq]
    exact filled.consumed
  · intro one
    cases one with
    | producer => exact counts
    | consumer => exact consistent.counts .consumer
  · intro one
    have before := consistent.holders one
    cases one with
    | producer =>
        rw [running] at before
        exact before
    | consumer =>
        change _ + (s.threads .producer).holds = _ at before
        rw [running] at before
        exact before
  · intro one waiting
    cases one with
    | producer => cases waiting
    | consumer => exact .inr rfl

theorem Consistent.get {val : Nat} {buf : Buf} (consistent : s.Consistent nloop)
    (running : s.threads .consumer = ⟨i, .testing⟩) (data : s.mustWait .consumer = false)
    (got : s.buf.get = some (val, buf)) :
    ({ s with buf := buf, consumed := s.consumed ++ [val] }.setThread .consumer
      ⟨i, .signalling⟩).Consistent nloop := by
  have filled := consistent.filled
  have counts : i < nloop := by
    have counts := consistent.counts .consumer
    rw [running] at counts
    exact counts
  have taken : s.taken = i := by
    rw [Program.taken, running]
    rfl
  have some : 0 < s.buf.b_nitems := by
    simpa [mustWait, Nat.pos_iff_ne_zero] using data
  have nitems := filled.nitems
  rcases Option.bind_eq_some_iff.mp got with ⟨value, found, equal⟩
  cases equal
  obtain rfl : val = i := by
    have slot := filled.holds i (Nat.le_of_eq taken) (by omega)
    rw [← taken, ← filled.nextget, found, taken, getElem?_range counts] at slot
    exact Option.some.inj slot
  have taken_eq : ∀ (buf : Buf) (consumed : List Nat),
      ({ s with buf := buf, consumed := consumed }.setThread .consumer
        ⟨val, .signalling⟩).taken = val + 1 := fun _ _ => rfl
  have stored_eq : ∀ (buf : Buf) (consumed : List Nat),
      ({ s with buf := buf, consumed := consumed }.setThread .consumer
        ⟨val, .signalling⟩).stored = s.stored := fun _ _ => rfl
  refine ⟨⟨filled.whole, ?_, ?_, ?_, ?_, ?_, ?_⟩, ?_, ?_, ?_⟩
  · rw [taken_eq, stored_eq]
    change s.buf.b_nitems - 1 + (val + 1) = _
    omega
  · exact Nat.le_trans (Nat.sub_le _ 1) filled.room
  · rw [taken_eq]
    change advance s.buf.b_nextget = _
    rw [filled.nextget, taken, advance_mod]
  · rw [stored_eq]
    exact filled.nextput
  · rw [taken_eq, stored_eq]
    have holds := filled.holds
    rw [taken] at holds
    exact holds.pop
  · rw [taken_eq]
    change s.consumed ++ [val] = _
    rw [filled.consumed, taken, List.range_succ]
  · intro one
    cases one with
    | producer => exact consistent.counts .producer
    | consumer => exact counts
  · intro one
    have before := consistent.holders one
    cases one with
    | producer =>
        change _ + (s.threads .consumer).holds = _ at before
        rw [running] at before
        exact before
    | consumer =>
        rw [running] at before
        exact before
  · intro one waiting
    cases one with
    | producer => exact .inr rfl
    | consumer => cases waiting

/-- A signal wakes up the other thread, so that it needs no other one. -/
theorem Consistent.wake (consistent : s.Consistent nloop) {one : Role}
    (signals : (s.threads one.other).position = .signalling) :
    (s.wake one).Consistent nloop := by
  unfold Program.wake
  by_cases waiting : (s.threads one).position = .waiting
  · have counts := consistent.counts one
    rw [if_pos waiting]
    refine consistent.moves s.b_mutex ?_ ?_ ?_ ?_ ?_
    · rw [Thread.done, Thread.done, waiting]
    · rw [Thread.Counts, waiting] at counts
      exact counts
    · rw [Thread.holds, Thread.holds, waiting]
    · intro equal
      cases equal
    · intro other
      rw [signals] at other
      cases other
  · rw [if_neg waiting]
    exact consistent

/-- A thread that does not signal leaves the other one as it is. -/
theorem Consistent.waits (consistent : s.Consistent nloop)
    (silent : (s.threads role).position ≠ .signalling)
    (waiting : (s.threads role.other).position = .waiting) : s.mustWait role.other := by
  rcases consistent.awake role.other waiting with must | signals
  · exact must
  · rw [Role.other_other] at signals
    exact absurd signals silent

theorem wake_self : (s.wake role.other).threads role = s.threads role := by
  unfold Program.wake
  split
  · exact Function.update_of_ne role.other_ne.symm _ _
  · rfl

theorem wake_other : ((s.wake role).threads role).position ≠ .waiting := by
  unfold Program.wake
  by_cases waiting : (s.threads role).position = .waiting
  · rw [if_pos waiting, goto, setThread_self]
    intro equal
    cases equal
  · rw [if_neg waiting]
    exact waiting

theorem Consistent.locked (consistent : s.Consistent nloop) (holds : (s.threads role).holds = 1) :
    s.b_mutex = true := by
  have holders := consistent.holders role
  by_contra free
  rw [if_neg free, holds] at holders
  omega

theorem Consistent.locks (consistent : s.Consistent nloop)
    (position : (s.threads role).position = .locking ∨ (s.threads role).position = .woken)
    (free : s.b_mutex = false) :
    ({ s with b_mutex := true }.goto role .testing).Consistent nloop := by
  have counts := consistent.counts role
  have silent : (s.threads role).position ≠ .signalling := by
    rcases position with position | position <;> rw [position] <;> decide
  refine consistent.moves true ?_ ?_ ?_ ?_ fun waiting => .inl (consistent.waits silent waiting)
  · rcases position with position | position <;> rw [Thread.done, Thread.done, position]
  · rcases position with position | position <;> rw [Thread.Counts, position] at counts <;>
      exact counts
  · rw [free]
    rcases position with position | position <;> rw [Thread.holds, Thread.holds, position] <;> rfl
  · intro equal
    cases equal

theorem Consistent.tests (consistent : s.Consistent nloop)
    (position : (s.threads role).position = .testing)
    (step : s.step nloop role = some t) : t.Consistent nloop := by
  rw [Program.step, position] at step
  dsimp only at step
  have locked : s.b_mutex = true := consistent.locked (by rw [Thread.holds, position])
  cases must : s.mustWait role with
  | true =>
      have counts := consistent.counts role
      rw [Thread.Counts, position] at counts
      rw [must, if_pos rfl] at step
      cases step
      refine consistent.moves false ?_ counts ?_ (fun _ => .inl must) fun waiting =>
        .inl (consistent.waits (by rw [position]; decide) waiting)
      · rw [Thread.done, Thread.done, position]
      · rw [locked, Thread.holds, Thread.holds, position]
        rfl
  | false =>
      have running : s.threads role = ⟨(s.threads role).i, .testing⟩ := by rw [← position]
      rw [must, if_neg Bool.false_ne_true] at step
      rcases Option.bind_eq_some_iff.mp step with ⟨middle, access, moved⟩
      cases moved
      cases role with
      | producer =>
          cases access
          exact consistent.put running must
      | consumer =>
          rcases Option.bind_eq_some_iff.mp access with ⟨⟨val, buf⟩, got, equal⟩
          cases equal
          exact consistent.get running must got

theorem Consistent.signals (consistent : s.Consistent nloop)
    (position : (s.threads role).position = .signalling) :
    ((s.wake role.other).goto role .unlocking).Consistent nloop := by
  have woken : (s.wake role.other).Consistent nloop :=
    consistent.wake (by rwa [Role.other_other])
  have counts := consistent.counts role
  rw [Thread.Counts, position] at counts
  have position' : ((s.wake role.other).threads role).position = .signalling := by
    rw [wake_self, position]
  refine woken.moves (s.wake role.other).b_mutex ?_ ?_ ?_ ?_ fun waiting =>
    absurd waiting wake_other
  · rw [Thread.done, Thread.done, position']
  · rw [wake_self]
    exact counts
  · rw [Thread.holds, Thread.holds, position']
  · intro equal
    cases equal

theorem Consistent.unlocks (consistent : s.Consistent nloop)
    (position : (s.threads role).position = .unlocking) :
    ({ s with b_mutex := false }.setThread role ⟨(s.threads role).i + 1, .loop⟩).Consistent
      nloop := by
  have counts := consistent.counts role
  rw [Thread.Counts, position] at counts
  have locked : s.b_mutex = true := consistent.locked (by rw [Thread.holds, position])
  refine consistent.moves false ?_ counts ?_ ?_ fun waiting =>
    .inl (consistent.waits (by rw [position]; decide) waiting)
  · rw [Thread.done, Thread.done, position]
  · rw [locked, Thread.holds, Thread.holds, position]
    rfl
  · intro equal
    cases equal

theorem Consistent.loops (consistent : s.Consistent nloop)
    (position : (s.threads role).position = .loop) :
    (s.goto role (if (s.threads role).i < nloop then .locking else .returned)).Consistent
      nloop := by
  have counts := consistent.counts role
  rw [Thread.Counts, position] at counts
  have silent : (s.threads role).position ≠ .signalling := by
    rw [position]
    decide
  by_cases more : (s.threads role).i < nloop
  · rw [if_pos more]
    refine consistent.moves s.b_mutex ?_ more ?_ ?_ fun waiting =>
      .inl (consistent.waits silent waiting)
    · rw [Thread.done, Thread.done, position]
    · rw [Thread.holds, Thread.holds, position]
    · intro equal
      cases equal
  · rw [if_neg more]
    refine consistent.moves s.b_mutex ?_ (Nat.le_antisymm counts (Nat.le_of_not_lt more)) ?_ ?_
      fun waiting => .inl (consistent.waits silent waiting)
    · rw [Thread.done, Thread.done, position]
    · rw [Thread.holds, Thread.holds, position]
    · intro equal
      cases equal

theorem Consistent.step (consistent : s.Consistent nloop) (step : s.step nloop role = some t) :
    t.Consistent nloop := by
  cases position : (s.threads role).position with
  | testing => exact consistent.tests position step
  | loop =>
      rw [Program.step, position] at step
      cases step
      exact consistent.loops position
  | locking | woken =>
      rw [Program.step, position] at step
      rcases Option.ite_none_left_eq_some.mp step with ⟨free, moved⟩
      cases moved
      exact consistent.locks (by simp [position]) (by simpa using free)
  | signalling =>
      rw [Program.step, position] at step
      cases step
      exact consistent.signals position
  | unlocking =>
      rw [Program.step, position] at step
      cases step
      exact consistent.unlocks position
  | waiting | returned =>
      rw [Program.step, position] at step
      cases step

theorem Consistent.next {event : Event} (consistent : s.Consistent nloop)
    (step : s.next nloop event = some t) : t.Consistent nloop := by
  cases event with
  | step role => exact consistent.step step
  | wakeup role =>
      rcases Option.ite_none_right_eq_some.mp step with ⟨position, moved⟩
      cases moved
      have counts := consistent.counts role
      rw [Thread.Counts, position] at counts
      refine consistent.moves s.b_mutex ?_ counts ?_ ?_ fun waiting =>
        .inl (consistent.waits (by rw [position]; decide) waiting)
      · rw [Thread.done, Thread.done, position]
      · rw [Thread.holds, Thread.holds, position]
      · intro equal
        cases equal

theorem create_consistent (nloop : Nat) : create.Consistent nloop where
  filled :=
    { whole := rfl
      nitems := rfl
      room := Nat.zero_le _
      nextget := rfl
      nextput := rfl
      holds := Ring.holds_empty _ _ _ 0
      consumed := rfl }
  counts _ := Nat.zero_le nloop
  holders _ := rfl
  awake role waiting := by cases waiting

end Steps

/-! ## The end of a run -/

section Ends

variable {nloop : Nat} {s t : Program} {role : Role}

/-- The statements that are still executed without another thread's signal. -/
def left (nloop : Nat) (s : Program) : Nat :=
  (s.threads .producer).left nloop + (s.threads .consumer).left nloop

theorem left_eq (s : Program) (nloop : Nat) (role : Role) :
    s.left nloop = (s.threads role).left nloop + (s.threads role.other).left nloop := by
  cases role with
  | producer => rfl
  | consumer => exact Nat.add_comm _ _

/-- Only one thread has changed. -/
theorem left_of_threads (nloop : Nat) {thread : Thread} (self : t.threads role = thread)
    (other : t.threads role.other = s.threads role.other) :
    t.left nloop + (s.threads role).left nloop = s.left nloop + thread.left nloop := by
  rw [left_eq t nloop role, left_eq s nloop role, self, other]
  omega

/-- A signal costs its receiver two statements. -/
theorem left_wake (counts : (s.threads role).Counts nloop) :
    (s.wake role).left nloop ≤ s.left nloop + 2 := by
  unfold wake
  by_cases waiting : (s.threads role).position = .waiting
  · rw [Thread.Counts, waiting] at counts
    have change : (s.goto role .woken).left nloop + (s.threads role).left nloop =
        s.left nloop + 7 * (nloop - (s.threads role).i) :=
      left_of_threads nloop setThread_self setThread_other
    rw [Thread.left, waiting] at change
    rw [if_pos waiting]
    dsimp only at change counts
    omega
  · rw [if_neg waiting]
    exact Nat.le_add_right _ 2

/-- What a thread does to itself brings it closer to its end. -/
theorem Consistent.step_thread (consistent : s.Consistent nloop)
    (silent : (s.threads role).position ≠ .signalling) (step : s.step nloop role = some t) :
    t.threads role.other = s.threads role.other ∧
      (t.threads role).left nloop < (s.threads role).left nloop := by
  have counts := consistent.counts role
  rw [Thread.Counts] at counts
  unfold Program.step at step
  rw [Thread.left.eq_def nloop (s.threads role)]
  cases position : (s.threads role).position with
  | loop =>
      rw [position] at step counts
      cases step
      refine ⟨setThread_other, ?_⟩
      rw [goto, setThread_self]
      by_cases more : (s.threads role).i < nloop
      · rw [if_pos more]
        exact Nat.lt_succ_self _
      · rw [if_neg more]
        exact Nat.succ_pos _
  | locking | woken =>
      rw [position] at step counts
      rcases Option.ite_none_left_eq_some.mp step with ⟨-, moved⟩
      cases moved
      refine ⟨setThread_other, ?_⟩
      rw [goto, setThread_self]
      change 7 * (nloop - (s.threads role).i) - 1 < _
      dsimp only at counts ⊢
      omega
  | testing =>
      rw [position] at step counts
      dsimp only at step counts ⊢
      split at step
      · cases step
        refine ⟨setThread_other, ?_⟩
        rw [goto, setThread_self]
        change 7 * (nloop - (s.threads role).i) - 2 < _
        omega
      · rcases Option.bind_eq_some_iff.mp step with ⟨middle, access, moved⟩
        have same : middle.threads = s.threads := by
          cases role with
          | producer =>
              cases access
              rfl
          | consumer =>
              rcases Option.bind_eq_some_iff.mp access with ⟨⟨val, buf⟩, -, equal⟩
              cases equal
              rfl
        cases moved
        rw [goto, setThread_other, setThread_self, same]
        refine ⟨rfl, ?_⟩
        change 7 * (nloop - (s.threads role).i) - 2 < _
        omega
  | waiting | returned =>
      rw [position] at step
      cases step
  | signalling => exact absurd position silent
  | unlocking =>
      rw [position] at step counts
      cases step
      refine ⟨setThread_other, ?_⟩
      rw [setThread_self]
      change 7 * (nloop - ((s.threads role).i + 1)) + 1 < _
      dsimp only at counts ⊢
      omega

/-- Every statement of a thread is one less to come. -/
theorem Consistent.step_left (consistent : s.Consistent nloop)
    (step : s.step nloop role = some t) : t.left nloop < s.left nloop := by
  by_cases position : (s.threads role).position = .signalling
  · have counts := consistent.counts role
    rw [Program.step, position] at step
    cases step
    have woken := left_wake (consistent.counts role.other)
    have self : ((s.wake role.other).goto role .unlocking).threads role =
        ⟨(s.threads role).i, .unlocking⟩ := by
      rw [goto, setThread_self, wake_self]
    have change := left_of_threads nloop self setThread_other
    rw [wake_self, Thread.left, Thread.left, position] at change
    rw [Thread.Counts, position] at counts
    dsimp only at change counts
    omega
  · rcases consistent.step_thread position step with ⟨other, less⟩
    have change := left_of_threads nloop rfl other
    omega

theorem wakeup_left (counts : (s.threads role).Counts nloop)
    (step : s.next nloop (.wakeup role) = some t) : t.left nloop ≤ s.left nloop + 2 := by
  rcases Option.ite_none_right_eq_some.mp step with ⟨position, moved⟩
  have woken := left_wake counts
  rw [wake, if_pos position] at woken
  cases moved
  exact woken

/-! ## Threads that go on -/

/-- The number of statements, and of returns without a signal. -/
theorem Consistent.count_le (consistent : s.Consistent nloop) {events : List Event}
    (finished : run (Program.next nloop) s events = some t) :
    events.countP Event.isStep + t.left nloop ≤
      s.left nloop + 2 * events.countP fun event => !event.isStep := by
  induction events generalizing s with
  | nil =>
      cases finished
      exact Nat.le_of_eq (Nat.zero_add _)
  | cons event events ih =>
      rcases (run_cons_eq_some_iff _ _ _ _ _).mp finished with ⟨middle, step, rest⟩
      have bound := ih (consistent.next step) rest
      rw [List.countP_cons, List.countP_cons]
      cases event with
      | step role =>
          have less := consistent.step_left step
          change _ + 1 + t.left nloop ≤ s.left nloop + 2 * (_ + 0)
          omega
      | wakeup role =>
          have more := wakeup_left (consistent.counts role) step
          change _ + 0 + t.left nloop ≤ s.left nloop + 2 * (_ + 1)
          omega

/-- A thread that cannot go on has returned, or waits for the condition or for the mutex. -/
theorem Consistent.step_isSome (consistent : s.Consistent nloop)
    (unlocked : s.b_mutex = false ∨ (s.threads role).holds = 1)
    (active : (s.threads role).position ≠ .waiting)
    (running : (s.threads role).position ≠ .returned) : (s.step nloop role).isSome := by
  unfold Program.step
  cases position : (s.threads role).position with
  | loop | signalling | unlocking => rfl
  | waiting => exact absurd position active
  | returned => exact absurd position running
  | locking | woken =>
      rcases unlocked with free | holds
      · rw [free]
        rfl
      · rw [Thread.holds, position] at holds
        cases holds
  | testing =>
      dsimp only
      split
      · rfl
      · cases role with
        | producer => rfl
        | consumer =>
            have filled := consistent.filled
            have inside : s.buf.b_nextget < s.buf.b_buf.length := by
              rw [filled.whole, filled.nextget]
              exact Nat.mod_lt _ (by decide)
            simp [access, Buf.get, inside]

/-- When nobody goes on, nobody waits: one would have no room and the other no data, and
when the other one has returned, all values have been put or got. -/
theorem Consistent.not_waiting (consistent : s.Consistent nloop)
    (idle : ∀ role, (s.threads role).position = .waiting ∨ (s.threads role).position = .returned)
    (role : Role) : (s.threads role).position ≠ .waiting := by
  have must : ∀ role, (s.threads role).position = .waiting → s.mustWait role := by
    intro role waiting
    rcases consistent.awake role waiting with must | signals
    · exact must
    · rcases idle role.other with other | other <;> rw [signals] at other <;> cases other
  have done : ∀ role, (s.threads role).done = (s.threads role).i := by
    intro role
    rcases idle role with position | position <;> rw [Thread.done, position]
  have returned : ∀ role, (s.threads role).position = .returned → (s.threads role).i = nloop := by
    intro role position
    have counts := consistent.counts role
    rwa [Thread.Counts, position] at counts
  have less : ∀ role, (s.threads role).position = .waiting → (s.threads role).i < nloop := by
    intro role position
    have counts := consistent.counts role
    rwa [Thread.Counts, position] at counts
  have nitems := consistent.filled.nitems
  rw [taken, stored, done, done] at nitems
  have full : (s.threads .producer).position = .waiting → 10 ≤ s.buf.b_nitems := fun waiting =>
    of_decide_eq_true (must .producer waiting)
  have empty : (s.threads .consumer).position = .waiting → s.buf.b_nitems ≤ 0 := fun waiting =>
    of_decide_eq_true (must .consumer waiting)
  intro waiting
  rcases idle .producer with producer | producer <;>
    rcases idle .consumer with consumer | consumer
  · have some := full producer
    have none := empty consumer
    omega
  · have some := full producer
    have most := less .producer producer
    have all := returned .consumer consumer
    omega
  · have none := empty consumer
    have most := less .consumer consumer
    have all := returned .producer producer
    omega
  · cases role with
    | producer =>
        rw [producer] at waiting
        cases waiting
    | consumer =>
        rw [consumer] at waiting
        cases waiting

theorem Consistent.stuck_iff (consistent : s.Consistent nloop) :
    (∀ role, s.step nloop role = none) ↔ s.Joined := by
  constructor
  · intro stuck
    have goes : ∀ role, (s.threads role).position ≠ .waiting →
        (s.threads role).position ≠ .returned →
          ¬ (s.b_mutex = false ∨ (s.threads role).holds = 1) := by
      intro role active running unlocked
      have possible := consistent.step_isSome unlocked active running
      rw [stuck role] at possible
      cases possible
    have free : s.b_mutex = false := by
      by_contra locked
      have holders := consistent.holders .producer
      rw [if_pos (by simpa using locked)] at holders
      have one : ∃ role, (s.threads role).holds = 1 := by
        by_cases producer : (s.threads .producer).holds = 1
        · exact ⟨.producer, producer⟩
        · refine ⟨.consumer, ?_⟩
          change _ + (s.threads .consumer).holds = 1 at holders
          omega
      rcases one with ⟨role, holds⟩
      refine goes role ?_ ?_ (.inr holds) <;> intro position <;>
        rw [Thread.holds, position] at holds <;> cases holds
    have idle : ∀ role, (s.threads role).position = .waiting ∨
        (s.threads role).position = .returned := by
      intro role
      by_contra neither
      rw [not_or] at neither
      exact goes role neither.1 neither.2 (.inl free)
    intro role
    exact (idle role).resolve_left (consistent.not_waiting idle role)
  · intro joined role
    rw [Program.step, joined role]

/-- Every schedule consumes the values in the order in which they were produced, keeps to the
buffer, cannot get stuck, and ends, whatever `Pthread_cond_wait` returns without a signal, with
all values consumed. -/
theorem produced_consumed {events : List Event}
    (finished : run (Program.next nloop) create events = some s) :
    s.consumed = List.range s.consumed.length ∧ s.buf.b_nitems ≤ BUFFSIZE ∧
      s.buf.b_nextput < BUFFSIZE ∧ s.buf.b_nextget < BUFFSIZE ∧
      ((∀ role, s.step nloop role = none) ↔ s.Joined) ∧
      (s.Joined → s.consumed = List.range nloop) ∧
      events.countP Event.isStep ≤
        2 * (7 * nloop + 1) + 2 * events.countP fun event => !event.isStep := by
  have consistent := invariant_run (fun _ _ _ consistent => Consistent.next consistent)
    (create_consistent nloop) finished
  have filled := consistent.filled
  refine ⟨?_, filled.room, ?_, ?_, consistent.stuck_iff, ?_, ?_⟩
  · rw [filled.consumed, List.length_range]
  · rw [filled.nextput]
    exact Nat.mod_lt _ (by decide)
  · rw [filled.nextget]
    exact Nat.mod_lt _ (by decide)
  · intro joined
    have counts := consistent.counts .consumer
    rw [Thread.Counts, joined .consumer] at counts
    rw [filled.consumed, taken, Thread.done, joined .consumer]
    exact congrArg List.range counts
  · have bound := (create_consistent nloop).count_le finished
    have all : create.left nloop = 2 * (7 * nloop + 1) := by
      change 7 * (nloop - 0) + 1 + (7 * (nloop - 0) + 1) = _
      omega
    omega

/-- The consumer waits for each value, and is woken up once without a signal. -/
def oneByOne (nloop : Nat) : List Event :=
  let c := Event.step .consumer
  let p := Event.step .producer
  [c, c, c, .wakeup .consumer, c, c] ++
    (List.replicate (nloop - 1) [p, p, p, p, p, c, c, c, c, c, c, c]).flatten ++
    [p, p, p, p, p, p, c, c, c, c, c]

theorem produced_consumed_waiting :
    ∃ s, run (Program.next NLOOP) create (oneByOne NLOOP) = some s ∧ s.Joined ∧
      s.consumed = List.range NLOOP ∧
      (oneByOne NLOOP).countP Event.isStep ≤ 2 * (7 * NLOOP + 1) + 2 * 1 := by
  have ends : (run (Program.next NLOOP) create (oneByOne NLOOP)).any fun s =>
      (s.threads .producer).position = .returned ∧ (s.threads .consumer).position = .returned := by
    decide +kernel
  rcases Option.any_eq_true_iff_get _ _ |>.mp ends with ⟨possible, joined⟩
  have finished : run (Program.next NLOOP) create (oneByOne NLOOP) = some _ :=
    (Option.some_get possible).symm
  rcases produced_consumed finished with ⟨-, -, -, -, -, all, count⟩
  have joined : ((run (Program.next NLOOP) create (oneByOne NLOOP)).get possible).Joined := by
    intro role
    cases role with
    | producer => exact (of_decide_eq_true joined).1
    | consumer => exact (of_decide_eq_true joined).2
  have woken : (oneByOne NLOOP).countP (fun event => !event.isStep) = 1 := by
    decide +kernel
  rw [woken] at count
  exact ⟨_, finished, joined, all joined, count⟩

end Ends

end Program

end NetPractice.BoundedBuffer
