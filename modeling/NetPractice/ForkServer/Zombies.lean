import NetPractice.ForkServer.Core
import Mathlib.Data.List.Perm.Basic
import Mathlib.Data.List.Range

/-!
# Which children are waited for

The signals of children that terminate one after the other can become one.  A handler that
calls `waitpid` in a loop leaves no zombie behind.  One that calls `wait` once leaves none just
when no child terminates while the signal of another one is pending.
-/

namespace NetPractice.ForkServer

open NetPractice.Transition

variable {kind : Handler} {s t : Server} {event : Event}

/-- The connection that is accepted and has no child yet. -/
def Pc.hand : Pc → List Nat
  | .fork connfd => [connfd]
  | .accept | .close _ => []

/-- Every connection is in one place. -/
def Accounted (s : Server) : Prop :=
  (s.printed ++ (s.zombies ++ (s.alive ++ (s.pc.hand ++ s.backlog)))).Perm (List.range s.arrived)

/-- A child that moves from one list to the end of the list in front. -/
theorem perm_move {c : Nat} {front back : List Nat} (member : c ∈ back) :
    (front ++ [c] ++ back.erase c).Perm (front ++ back) := by
  rw [List.append_assoc, List.singleton_append]
  exact ((List.perm_cons_erase member).symm).append_left front

/-- What one event does. -/
inductive Moved (kind : Handler) (s : Server) : Event → Server → Prop
  | arrive : Moved kind s .arrive
      { s with backlog := s.backlog ++ [s.arrived], arrived := s.arrived + 1 }
  | accept {connfd : Nat} {backlog : List Nat} (pc : s.pc = .accept)
      (waiting : s.backlog = connfd :: backlog) :
      Moved kind s .parent { s with pc := .fork connfd, backlog := backlog }
  | fork {connfd : Nat} (pc : s.pc = .fork connfd) :
      Moved kind s .parent { s with pc := .close connfd, alive := s.alive ++ [connfd] }
  | close {connfd : Nat} (pc : s.pc = .close connfd) :
      Moved kind s .parent { s with pc := .accept }
  | exit {pid : Nat} (member : pid ∈ s.alive) :
      Moved kind s (.exit pid)
        { s with alive := s.alive.erase pid, zombies := s.zombies ++ [pid], pending := true }
  | deliver (pending : s.pending = true) (idle : s.handler = false) :
      Moved kind s .deliver { s with pending := false, handler := true }
  | reap {pid : Nat} (handler : s.handler = true) (member : pid ∈ s.zombies) :
      Moved kind s (.wait (some pid))
        { s with
          zombies := s.zombies.erase pid
          printed := s.printed ++ [pid]
          handler := decide (kind = .waitpid) }
  | none (handler : s.handler = true) (zombies : s.zombies = [])
      (childless : kind = .waitpid ∨ s.alive = []) :
      Moved kind s (.wait none) { s with handler := false }

theorem moved_of_next (step : next kind s event = some t) : Moved kind s event t := by
  cases event with
  | arrive =>
      cases step
      exact .arrive
  | parent =>
      simp only [next, Option.ite_none_left_eq_some, parentNext] at step
      rcases step with ⟨-, step⟩
      split at step
      · next pc =>
          split at step
          · next waiting =>
              cases step
              exact .accept pc waiting
          · cases step
      · next pc =>
          cases step
          exact .fork pc
      · next pc =>
          cases step
          exact .close pc
  | exit pid =>
      rcases Option.ite_none_right_eq_some.mp step with ⟨member, eq⟩
      cases eq
      exact .exit member
  | deliver =>
      rcases Option.ite_none_right_eq_some.mp step with ⟨due, eq⟩
      cases eq
      rcases Bool.and_eq_true_iff.mp due with ⟨pending, idle⟩
      exact .deliver pending (by simpa using idle)
  | wait pid =>
      rcases Option.ite_none_right_eq_some.mp step with ⟨handler, call⟩
      cases pid with
      | some pid =>
          rcases Option.ite_none_right_eq_some.mp call with ⟨member, eq⟩
          cases eq
          exact .reap handler member
      | none =>
          rcases Option.ite_none_right_eq_some.mp call with ⟨nothing, eq⟩
          cases eq
          exact .none handler nothing.1 nothing.2

theorem Accounted.step (accounted : Accounted s) (moved : Moved kind s event t) :
    Accounted t := by
  unfold Accounted at accounted ⊢
  cases moved with
  | arrive =>
      rw [List.range_succ]
      simp only [← List.append_assoc] at accounted ⊢
      exact accounted.append_right [s.arrived]
  | accept pc waiting =>
      rw [pc, waiting] at accounted
      exact accounted
  | fork pc =>
      rw [pc] at accounted
      simpa only [Pc.hand, List.append_assoc, List.nil_append] using accounted
  | close pc =>
      rw [pc] at accounted
      exact accounted
  | exit member =>
      refine List.Perm.trans ?_ accounted
      refine List.Perm.append_left _ ?_
      simp only [← List.append_assoc]
      exact ((perm_move member).append_right _).append_right _
  | deliver | none => exact accounted
  | reap handler member =>
      refine List.Perm.trans ?_ accounted
      simp only [← List.append_assoc]
      exact (((perm_move member).append_right _).append_right _).append_right _

/-! ## A loop of `waitpid` -/

/-- Zombies are there only while the handler runs, or will run. -/
def Noticed (s : Server) : Prop :=
  s.zombies ≠ [] → s.pending = true ∨ s.handler = true

theorem Noticed.step (noticed : Noticed s) (moved : Moved .waitpid s event t) : Noticed t := by
  unfold Noticed at noticed ⊢
  cases moved with
  | arrive | accept | fork | close => exact noticed
  | exit member => exact fun _ => .inl rfl
  | deliver | reap => exact fun _ => .inr rfl
  | none handler zombies childless => exact fun some => absurd zombies some

/-- The events of the handler. -/
def Event.OfHandler : Event → Prop
  | .deliver | .wait _ => True
  | .arrive | .parent | .exit _ => False

/-- What the handler has still to do. -/
def Server.calls (s : Server) : Nat :=
  s.zombies.length + (if s.handler then 1 else 0) + (if s.pending then 2 else 0)

theorem calls_lt (own : event.OfHandler) (moved : Moved .waitpid s event t) :
    t.calls < s.calls := by
  unfold Server.calls
  cases moved with
  | deliver pending idle =>
      rw [pending, idle]
      simp
  | reap handler member =>
      have pos := List.length_pos_of_mem member
      dsimp only
      rw [handler, List.length_erase_of_mem member]
      simp only [decide_true, if_true]
      omega
  | none handler zombies childless =>
      rw [handler]
      simp
  | arrive | accept | fork | close | exit => exact own.elim

theorem length_le_calls {events : List Event} (own : ∀ event ∈ events, event.OfHandler)
    (finished : run (next .waitpid) s events = some t) : events.length + t.calls ≤ s.calls := by
  induction events generalizing s with
  | nil =>
      cases finished
      exact (Nat.zero_add _).le
  | cons event events ih =>
      rcases (run_cons_eq_some_iff _ _ _ _ _).mp finished with ⟨middle, step, rest⟩
      have less := calls_lt (own event List.mem_cons_self) (moved_of_next step)
      have bound := ih (fun other member => own other (List.mem_cons_of_mem event member)) rest
      rw [List.length_cons]
      omega

/-- The handler can go on while it runs, or will run. -/
theorem exists_handler_event (due : s.pending = true ∨ s.handler = true) :
    ∃ event : Event, event.OfHandler ∧ (next .waitpid s event).isSome := by
  cases handler : s.handler with
  | false =>
      have pending : s.pending = true := due.resolve_right (by rw [handler]; decide)
      exact ⟨.deliver, trivial, by simp [next, pending, handler]⟩
  | true =>
      cases zombies : s.zombies with
      | nil => exact ⟨.wait none, trivial, by simp [next, handler, waitNext, zombies]⟩
      | cons pid rest =>
          exact ⟨.wait (some pid), trivial, by simp [next, handler, waitNext, zombies]⟩

/-- With `waitpid` in a loop, however the children terminate: no connection is served twice
and none is lost, the handler always comes to its end after at most as many calls as there are
zombies and three more, and when it can do nothing there are no zombies. -/
theorem waitpid_leaves_none {events : List Event}
    (finished : run (next .waitpid) start events = some s) :
    (s.printed ++ (s.zombies ++ (s.alive ++ (s.pc.hand ++ s.backlog)))).Perm
        (List.range s.arrived) ∧
      ((∀ event : Event, event.OfHandler → next .waitpid s event = none) → s.zombies = []) ∧
      ∀ own t, (∀ event ∈ own, event.OfHandler) → run (next .waitpid) s own = some t →
        own.length ≤ s.zombies.length + 3 := by
  have first : Accounted start ∧ Noticed start :=
    ⟨List.Perm.refl [], fun some => absurd rfl some⟩
  have kept : ∀ ⦃s event t⦄, Accounted s ∧ Noticed s → next .waitpid s event = some t →
      Accounted t ∧ Noticed t := fun s event t both step =>
    ⟨both.1.step (moved_of_next step), both.2.step (moved_of_next step)⟩
  rcases invariant_run kept first finished with ⟨accounted, noticed⟩
  refine ⟨accounted, fun stuck => ?_, fun own t ofHandler rest => ?_⟩
  · by_contra some
    rcases exists_handler_event (noticed some) with ⟨event, own, possible⟩
    rw [stuck event own] at possible
    cases possible
  · have bound := length_le_calls ofHandler rest
    have handler : (if s.handler then 1 else 0) ≤ 1 := by split <;> decide
    have pending : (if s.pending then 2 else 0) ≤ 2 := by split <;> decide
    unfold Server.calls at bound
    omega

/-- Two children that terminate before the signal is delivered. -/
theorem waitpid_leaves_none_merged :
    ∃ s, run (next .waitpid) start
        [.arrive, .arrive, .parent, .parent, .parent, .parent, .parent, .parent, .exit 0, .exit 1,
          .deliver, .wait (some 1), .wait (some 0), .wait none] = some s ∧
      ((∀ event : Event, event.OfHandler → next .waitpid s event = none) → s.zombies = []) := by
  have possible : (run (next .waitpid) start
      [.arrive, .arrive, .parent, .parent, .parent, .parent, .parent, .parent, .exit 0, .exit 1,
        .deliver, .wait (some 1), .wait (some 0), .wait none]).isSome := by decide
  rcases Option.isSome_iff_exists.mp possible with ⟨s, finished⟩
  exact ⟨s, finished, (waitpid_leaves_none finished).2.1⟩

/-! ## One call of `wait` -/

/-- How many zombies the handler is going to wait for. -/
def Server.due (s : Server) : Nat :=
  (if s.pending then 1 else 0) + (if s.handler then 1 else 0)

/-- No child terminates while SIGCHLD is pending. -/
def Alone (s : Server) : Event → Prop
  | .exit _ => s.pending = false
  | .arrive | .parent | .deliver | .wait _ => True

/-- Steps other than the end of a child change the zombies and the calls alike. -/
theorem due_step (le : s.due ≤ s.zombies.length) (moved : Moved .wait s event t) :
    Alone s event ∧ t.due + s.zombies.length = s.due + t.zombies.length ∨
      ¬ Alone s event ∧ t.zombies.length = s.zombies.length + 1 ∧ t.due = s.due := by
  unfold Server.due at le ⊢
  cases moved with
  | arrive | accept | fork | close => exact .inl ⟨trivial, rfl⟩
  | exit member =>
      unfold Alone
      dsimp only
      rw [List.length_append, List.length_singleton]
      cases s.pending with
      | true => exact .inr ⟨by decide, rfl, rfl⟩
      | false =>
          refine .inl ⟨rfl, ?_⟩
          simp only [if_true, Bool.false_eq_true, if_false]
          omega
  | deliver pending idle =>
      rw [pending, idle]
      exact .inl ⟨trivial, rfl⟩
  | reap handler member =>
      have pos := List.length_pos_of_mem member
      refine .inl ⟨trivial, ?_⟩
      dsimp only
      rw [handler, List.length_erase_of_mem member]
      simp only [reduceCtorEq, decide_false, Bool.false_eq_true, if_false, if_true]
      omega
  | none handler zombies childless =>
      rw [handler, zombies] at le
      simp only [if_true, List.length_nil] at le
      omega

theorem due_le_step (le : s.due ≤ s.zombies.length) (moved : Moved .wait s event t) :
    t.due ≤ t.zombies.length := by
  rcases due_step le moved with ⟨-, same⟩ | ⟨-, zombies, due⟩ <;> omega

/-- With one call of `wait`, the handler never blocks.  Every zombie is going to be waited for,
at all times, if and only if no child terminates while the signal of another one is pending. -/
theorem wait_leaves_none_iff {events : List Event}
    (possible : (run (next .wait) start events).isSome) :
    (∀ s, run (next .wait) start events = some s → s.handler = true → s.zombies ≠ []) ∧
      (Along (next .wait) (fun s => s.zombies.length ≤ s.due) start events ↔
        Meets (next .wait) Alone start events) := by
  constructor
  · intro s finished handler none
    have kept : ∀ ⦃s event t⦄, s.due ≤ s.zombies.length → next .wait s event = some t →
        t.due ≤ t.zombies.length := fun s event t le step => due_le_step le (moved_of_next step)
    have first : start.due ≤ start.zombies.length := Nat.le_refl 0
    have le : s.due ≤ s.zombies.length := invariant_run kept first finished
    unfold Server.due at le
    rw [handler, none] at le
    simp only [if_true, List.length_nil] at le
    omega
  · have preserves : Preserves (next .wait) Alone fun s => s.due = s.zombies.length := by
      intro s event t equal alone step
      rcases due_step equal.le (moved_of_next step) with ⟨-, same⟩ | ⟨crowded, -⟩
      · omega
      · exact absurd alone crowded
    refine along_iff_meets_of_isSome preserves ?_ ?_ rfl possible
    · intro s equal
      exact equal.ge
    · intro s event t equal crowded step
      rcases due_step equal.le (moved_of_next step) with ⟨alone, -⟩ | ⟨-, zombies, due⟩
      · exact absurd alone crowded
      · omega

/-- Two children that terminate before the signal is delivered. -/
theorem wait_leaves_none_iff_merged :
    ¬ Along (next .wait) (fun s => s.zombies.length ≤ s.due) start
      [.arrive, .arrive, .parent, .parent, .parent, .parent, .parent, .parent, .exit 0,
        .exit 1] := by
  have possible : (run (next .wait) start
      [.arrive, .arrive, .parent, .parent, .parent, .parent, .parent, .parent, .exit 0,
        .exit 1]).isSome := by decide
  rw [(wait_leaves_none_iff possible).2]
  simp [Meets, next, parentNext, start, Alone]

end NetPractice.ForkServer
