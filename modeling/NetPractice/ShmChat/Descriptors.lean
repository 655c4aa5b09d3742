import NetPractice.Memory.DenseTable
import NetPractice.ShmChat.Segments

/-!
# The descriptors of the shared-memory chat room

The loop opens three descriptors for each client: the connection and both ends of
a pipe.  The parent closes the connection and the child's end once the child is
forked, and its own end when the child is reaped.  A failing `fork` closes the
connection only.
-/

namespace NetPractice.ShmChat

open NetPractice.Memory
open NetPractice.Socket
open NetPractice.Transition

/-- The program, and the state in front of the last step if that was an `accept`
that created no child. -/
structure Recorded where
  server : Server
  before : Option Server

namespace Recorded

/-- In front of the first `epoll_wait`. -/
def initial (users : Nat → ClientData) : Recorded where
  server := Server.initial users
  before := none

/-- The server goes on; a call that lets nobody in records the state in front of it. -/
def next (r : Recorded) (event : Event) : Option Recorded :=
  (r.server.next event).map fun server =>
    { server := server
      before :=
        match event with
        | .accept answer => if r.server.Forks (.accept answer) then none else some r.server
        | _ => none }

end Recorded

/-- The open descriptors of the loop are those of the entries, and an `accept`
that creates no child changes neither them nor the tables. -/
structure Conserved (r : Recorded) : Prop where
  opened : ∀ fd, r.server.opened fd = true ↔
    ∃ i, i < r.server.userCount ∧ (r.server.users i).pipefd.1 = fd
  restored : ∀ before ∈ r.before, r.server.opened = before.opened ∧
    r.server.users = before.users ∧ r.server.subProcess = before.subProcess

/-- No `fork` fails. -/
def ForkSucceeds (r : Recorded) : Event → Prop
  | .accept (some answer) => r.server.userCount < USER_LIMIT → answer.pid.isSome
  | _ => True

instance (r : Recorded) : ∀ event, Decidable (ForkSucceeds r event)
  | .accept (some _) => inferInstanceAs (Decidable (_ → _))
  | .accept none | .wait _ | .signals _ | .signal | .waitpid _ | .pipe | .relay _ | .arrive _
  | .child _ _ => isTrue trivial

/-! ## The parent's ends of the pipes -/

namespace Server

/-- The parent's end of the pipe of an entry. -/
def parentEnd (s : Server) (i : Nat) : Fd :=
  (s.users i).pipefd.1

end Server

/-- The open descriptors of the loop are the parent's ends, and no two entries
have the same one. -/
structure Ends (s : Server) : Prop where
  injective : Set.InjOn s.parentEnd (Set.Iio s.userCount)
  opened : {fd | s.opened fd = true} = s.parentEnd '' Set.Iio s.userCount

theorem Ends.opened_iff {s : Server} (ends : Ends s) (fd : Fd) :
    s.opened fd = true ↔ ∃ i, i < s.userCount ∧ (s.users i).pipefd.1 = fd :=
  Set.ext_iff.mp ends.opened fd

theorem Ends.congr {s t : Server} (ends : Ends s) (users_eq : t.users = s.users)
    (userCount_eq : t.userCount = s.userCount) (opened_eq : t.opened = s.opened) : Ends t := by
  have end_eq : t.parentEnd = s.parentEnd := by
    funext i
    rw [Server.parentEnd, Server.parentEnd, users_eq]
  constructor
  · rw [end_eq, userCount_eq]
    exact ends.injective
  · rw [end_eq, userCount_eq, opened_eq]
    exact ends.opened

theorem Ends.initial (users : Nat → ClientData) : Ends (Server.initial users) where
  injective i below := absurd below (Nat.not_lt_zero i)
  opened := by
    ext fd
    simp [Server.initial]

/-- The parent's end of the new pipe is all that stays open of what an accepted
client opened. -/
theorem Ends.letIn {s t : Server} (ends : Ends s) {answer : Accepted} {pid : Pid}
    (letIn : s.LetIn t answer pid) (fresh : s.Fresh answer) : Ends t := by
  rcases fresh with ⟨connClosed, leftClosed, rightClosed, left_ne, right_ne, ends_ne, -⟩
  have pushed : Set.EqOn t.parentEnd
      (Function.update s.parentEnd s.userCount answer.pipefd.1) (Set.Iio (s.userCount + 1)) := by
    intro i below
    by_cases last : i = s.userCount
    · rw [last, Function.update_self, Server.parentEnd, letIn.last_eq]
    · have before : i < s.userCount := Nat.lt_of_le_of_ne (Nat.lt_succ_iff.mp below) last
      rw [Function.update_of_ne last, Server.parentEnd, Server.parentEnd,
        letIn.entry_eq i before]
  have new : answer.pipefd.1 ∉ s.parentEnd '' Set.Iio s.userCount := by
    rw [← ends.opened]
    intro isOpen
    rw [Set.mem_ofPred_eq, leftClosed] at isOpen
    contradiction
  have grown : {fd | t.opened fd = true} =
      insert answer.pipefd.1 {fd | s.opened fd = true} := by
    ext fd
    simp only [Set.mem_insert_iff, Set.mem_ofPred_eq, letIn.opened_eq, Function.update_apply]
    by_cases right : fd = answer.pipefd.2
    · rw [if_pos right, right, rightClosed]
      simp [Ne.symm ends_ne]
    · by_cases conn : fd = answer.connfd
      · rw [if_neg right, if_pos conn, conn, connClosed]
        simp [Ne.symm left_ne]
      · rw [if_neg right, if_neg conn, if_neg right]
        by_cases left : fd = answer.pipefd.1
        · simp [left]
        · simp [left, conn]
  constructor
  · rw [letIn.userCount_eq, pushed.injOn_iff]
    exact injOn_push ends.injective new
  · rw [grown, ends.opened, letIn.userCount_eq, pushed.image_eq, image_push]

/-- Reaping the child of an entry closes the parent's end of its pipe and no
other. -/
theorem Ends.reaped {s t : Server} (ends : Ends s) {pid : Pid} {i : Nat}
    (below : i < s.userCount) (reaped : s.Reaped t pid i) : Ends t := by
  have removed : t.parentEnd =
      Function.update s.parentEnd i (s.parentEnd (s.userCount - 1)) := by
    funext j
    rw [Server.parentEnd, reaped.users_eq]
    exact Function.apply_update (fun _ (user : ClientData) => user.pipefd.1) _ _ _ j
  have shrunk : {fd | t.opened fd = true} =
      {fd | s.opened fd = true} \ {s.parentEnd i} := by
    ext fd
    rw [Set.mem_ofPred_eq, reaped.opened_eq]
    by_cases closed : fd = (s.users i).pipefd.1
    · subst closed
      rw [Function.update_self]
      simp [Server.parentEnd]
    · rw [Function.update_of_ne closed]
      exact ⟨fun isOpen => ⟨isOpen, closed⟩, And.left⟩
  constructor
  · rw [removed, reaped.userCount_eq]
    exact injOn_swapRemove ends.injective
  · rw [shrunk, ends.opened, removed, reaped.userCount_eq,
      image_swapRemove ends.injective below]

/-! ## An `accept` that creates no child -/

/-- A failing `accept`, and a client that is refused. -/
theorem Server.onAccept_restored {s : Server} {answer : Option Accepted}
    (fresh : ∀ accepted ∈ answer, s.Fresh accepted) (noChild : ¬ s.Forks (.accept answer))
    (forkSucceeds : ∀ accepted ∈ answer, s.userCount < USER_LIMIT → accepted.pid.isSome) :
    (s.onAccept answer).opened = s.opened ∧ (s.onAccept answer).users = s.users ∧
      (s.onAccept answer).subProcess = s.subProcess := by
  cases answer with
  | none => exact ⟨rfl, rfl, rfl⟩
  | some accepted =>
      have full : s.userCount ≥ USER_LIMIT := by
        by_contra room
        have below := Nat.lt_of_not_le room
        exact noChild ⟨below, forkSucceeds accepted rfl below⟩
      have result : s.onAccept (some accepted) =
          (s.openFd accepted.connfd).close accepted.connfd := if_pos full
      rw [result]
      refine ⟨?_, rfl, rfl⟩
      change Function.update (Function.update s.opened accepted.connfd true)
        accepted.connfd false = s.opened
      rw [Function.update_idem]
      exact Function.update_eq_self_iff.mpr (fresh accepted rfl).1.symm

/-- A failing `fork` leaves the parent's end of the pipe open. -/
theorem Server.onAccept_leaks {s : Server} {accepted : Accepted} (fresh : s.Fresh accepted)
    (below : s.userCount < USER_LIMIT) (failed : accepted.pid = none) :
    (s.onAccept (some accepted)).opened accepted.pipefd.1 = true := by
  rcases fresh with ⟨-, -, -, left_ne, -, ends_ne, -⟩
  have room : ¬ s.userCount ≥ USER_LIMIT := Nat.not_le.mpr below
  have result : (s.onAccept (some accepted)).opened =
      Function.update (Function.update (Function.update (Function.update s.opened
        accepted.connfd true) accepted.pipefd.1 true) accepted.pipefd.2 true)
        accepted.connfd false := by
    simp only [onAccept, openFd, if_neg room, failed, close]
  rw [result, Function.update_of_ne left_ne, Function.update_of_ne ends_ne, Function.update_self]

/-! ## The runs that keep the account -/

/-- The invariant behind `Conserved`. -/
structure Accounted (r : Recorded) : Prop extends Conserved r where
  enrolled : Enrolled r.server
  ends : Ends r.server

theorem Accounted.initial (users : Nat → ClientData) : Accounted (Recorded.initial users) where
  enrolled := Enrolled.initial users
  ends := Ends.initial users
  opened := (Ends.initial users).opened_iff
  restored _ recorded := by contradiction

/-- What the step of the server brings about. -/
theorem Recorded.next_eq_some {r r' : Recorded} {event : Event} (step : r.next event = some r') :
    ∃ t, r.server.next event = some t ∧ r'.server = t ∧
      ∀ before ∈ r'.before, before = r.server ∧
        ∃ answer, event = .accept answer ∧ ¬ r.server.Forks (.accept answer) := by
  rcases Option.map_eq_some_iff.mp step with ⟨t, taken, rfl⟩
  refine ⟨t, taken, rfl, fun before recorded => ?_⟩
  cases event with
  | accept answer =>
      by_cases forks : r.server.Forks (.accept answer)
      · simp only [if_pos forks] at recorded
        contradiction
      · simp only [if_neg forks] at recorded
        exact ⟨(Option.some.inj recorded).symm, answer, rfl, forks⟩
  | _ => contradiction

theorem Ends.next {s t : Server} (ends : Ends s) (enrolled : Enrolled s) {event : Event}
    (forkSucceeds : ∀ accepted, event = .accept (some accepted) →
      s.userCount < USER_LIMIT → accepted.pid.isSome)
    (step : s.next event = some t) : Ends t := by
  have start : ∀ batch, Ends { s with batch := batch } := fun _ => ends.congr rfl rfl rfl
  rcases enrolled.next_cases step with ⟨accepted, pid, batch, -, -, fresh, letIn⟩ |
    ⟨answer, batch, rfl, noChild, fresh, result, refused⟩ | ⟨pid, i, -, below, -, reaped⟩ |
    ⟨-, -, untouched⟩
  · exact (start batch).letIn letIn fresh
  · have restored := Server.onAccept_restored (s := { s with batch := batch }) fresh noChild
      fun accepted is_answer => forkSucceeds accepted (congrArg Event.accept is_answer)
    rw [← result] at restored
    exact (start batch).congr restored.2.1 refused.userCount_eq restored.1
  · exact ends.reaped below reaped
  · exact ends.congr untouched.users_eq untouched.userCount_eq untouched.opened_eq

theorem Accounted.next {r r' : Recorded} (accounted : Accounted r) {event : Event}
    (guard : ForkSucceeds r event) (step : r.next event = some r') : Accounted r' := by
  rcases Recorded.next_eq_some step with ⟨t, taken, rfl, recorded⟩
  have forkSucceeds : ∀ accepted, event = .accept (some accepted) →
      r.server.userCount < USER_LIMIT → accepted.pid.isSome := by
    rintro accepted rfl
    exact guard
  have ends := accounted.ends.next accounted.enrolled forkSucceeds taken
  refine ⟨⟨ends.opened_iff, ?_⟩, accounted.enrolled.next taken, ends⟩
  intro before kept
  rcases recorded before kept with ⟨rfl, answer, rfl, noChild⟩
  rcases Server.next_accept taken with ⟨batch, -, -, fresh, result⟩
  rw [result]
  exact Server.onAccept_restored (s := { r.server with batch := batch }) fresh noChild
    fun accepted is_answer => forkSucceeds accepted (congrArg Event.accept is_answer)

theorem accounted_preserved : Preserves Recorded.next ForkSucceeds Accounted :=
  fun _ _ _ accounted guard step => accounted.next guard step

/-- Behind a failing `fork` a descriptor is open that is not of any entry. -/
theorem Accounted.leaks {r r' : Recorded} (accounted : Accounted r) {event : Event}
    (unguarded : ¬ ForkSucceeds r event) (step : r.next event = some r') : ¬ Conserved r' := by
  rcases Recorded.next_eq_some step with ⟨t, taken, rfl, -⟩
  have failing : ∃ accepted, event = .accept (some accepted) ∧
      r.server.userCount < USER_LIMIT ∧ accepted.pid = none := by
    cases event with
    | accept answer =>
        cases answer with
        | none => exact absurd trivial unguarded
        | some accepted =>
            rcases Classical.not_imp.mp unguarded with ⟨below, failed⟩
            exact ⟨accepted, rfl, below, Option.not_isSome_iff_eq_none.mp failed⟩
    | _ => exact absurd trivial unguarded
  rcases failing with ⟨accepted, rfl, below, failed⟩
  rcases accounted.enrolled.next_cases taken with ⟨other, pid, batch, same, forked, -⟩ |
    ⟨answer, batch, same, -, fresh, result, refused⟩ | ⟨_, _, same, -⟩ | ⟨notAccept, -⟩
  · cases same
    rw [failed] at forked
    contradiction
  · cases same
    have isOpen : r'.server.opened accepted.pipefd.1 = true := by
      rw [result]
      exact Server.onAccept_leaks (s := { r.server with batch := batch }) (fresh accepted rfl)
        below failed
    intro conserved
    rcases (conserved.opened _).mp isOpen with ⟨i, inside, is_end⟩
    rw [refused.userCount_eq] at inside
    rw [refused.entry_eq i inside] at is_end
    have before := (accounted.opened _).mpr ⟨i, inside, is_end⟩
    rw [(fresh accepted rfl).2.1] at before
    contradiction
  · cases same
  · exact absurd rfl (notAccept _)

/-- In every run, the open descriptors are those of the entries, and an `accept`
that creates no child changes nothing, exactly as long as no `fork` fails. -/
theorem conserved_along_iff_forkSucceeds (users : Nat → ClientData) (events : List Event)
    (possible : (run Recorded.next (Recorded.initial users) events).isSome) :
    Along Recorded.next Conserved (Recorded.initial users) events ↔
      Meets Recorded.next ForkSucceeds (Recorded.initial users) events :=
  along_iff_meets_of_isSome accounted_preserved (fun _ accounted => accounted.toConserved)
    (fun _ _ _ accounted unguarded step => accounted.leaks unguarded step)
    (Accounted.initial users) possible

/-- The older of two clients leaves, and another client joins. -/
theorem conserved_along_replaceRun :
    Along Recorded.next Conserved (Recorded.initial noUsers) (replaceRun 100) :=
  (conserved_along_iff_forkSucceeds noUsers (replaceRun 100) (by decide)).mpr (by decide)

/-- The first `fork` fails: both ends of the pipe stay open, and their numbers
stay in the entry that the next client gets. -/
theorem forkFails_leaks :
    (run Recorded.next (Recorded.initial noUsers)
        [.wait [.listen], .accept (some ⟨7, (8, 9), none⟩)]).map (fun r =>
      (r.server.userCount, r.server.opened 7, r.server.opened 8, r.server.opened 9,
        (r.server.users 0).pipefd)) = some (0, false, true, true, (8, 9)) ∧
    ¬ Along Recorded.next Conserved (Recorded.initial noUsers)
      [.wait [.listen], .accept (some ⟨7, (8, 9), none⟩)] := by
  have outcome : (run Recorded.next (Recorded.initial noUsers)
      [.wait [.listen], .accept (some ⟨7, (8, 9), none⟩)]).map (fun r =>
        (r.server.userCount, r.server.opened 7, r.server.opened 8, r.server.opened 9,
          (r.server.users 0).pipefd)) = some (0, false, true, true, (8, 9)) := by
    decide
  constructor
  · exact outcome
  · intro along
    rcases Option.map_eq_some_iff.mp outcome with ⟨r, finished, values⟩
    simp only [Prod.mk.injEq] at values
    rcases values with ⟨count, -, isOpen, -⟩
    rcases ((along.last finished).opened 8).mp isOpen with ⟨i, inside, -⟩
    rw [count] at inside
    exact Nat.not_lt_zero i inside

end NetPractice.ShmChat
