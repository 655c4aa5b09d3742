import NetPractice.Prefork.Core

/-!
# Who is in accept

At most one child is between the calls of the lock, whatever happens to the others.  What
happens when that child dies depends on the lock: a record lock goes to the next child, and a
mutex stays locked for ever.
-/

namespace NetPractice.Prefork

open NetPractice.Transition

/-- The calls behind `my_lock_wait`, up to `my_lock_release`. -/
def Control.Inside : Control → Prop
  | .accepting | .releasing _ => True
  | .locking | .serving _ | .dead => False

namespace Server

/-- The invariant: whoever is inside has the lock. -/
structure Exclusive (s : Server) : Prop where
  holder : ∀ (i : Nat) (control : Control), s.children[i]? = some control → control.Inside →
    s.holder = some i
  accepted : s.accepted.map Prod.snd ++ s.backlog = s.arrived

/-- The lock can be had: somebody lives, and whoever has it is inside. -/
structure Usable (s : Server) : Prop extends Exclusive s where
  lives : ∃ (i : Nat) (control : Control), s.children[i]? = some control ∧ control ≠ .dead
  inside : ∀ i, s.holder = some i →
    ∃ control : Control, s.children[i]? = some control ∧ control.Inside

/-- A child dies only when another one lives, and not with a mutex locked. -/
def Survivable (kind : LockKind) (s : Server) : Event → Prop
  | .die i => (∃ j control, s.children[j]? = some control ∧ j ≠ i ∧ control ≠ .dead) ∧
      (kind = .pthread → s.holder ≠ some i)
  | .child _ | .arrive _ => True

theorem exists_other_iff (s : Server) (i : Nat) :
    (∃ control ∈ s.children.eraseIdx i, control ≠ .dead) ↔
      ∃ j control, s.children[j]? = some control ∧ j ≠ i ∧ control ≠ .dead := by
  constructor
  · rintro ⟨control, mem, alive⟩
    rcases List.mem_eraseIdx_iff_getElem?.mp mem with ⟨j, different, found⟩
    exact ⟨j, control, found, different, alive⟩
  · rintro ⟨j, control, found, different, alive⟩
    exact ⟨control, List.mem_eraseIdx_iff_getElem?.mpr ⟨j, different, found⟩, alive⟩

instance (kind : LockKind) (s : Server) : ∀ event, Decidable (Survivable kind s event)
  | .die i => decidable_of_iff ((∃ control ∈ s.children.eraseIdx i, control ≠ .dead) ∧
      (kind = .pthread → s.holder ≠ some i)) (and_congr_left' (exists_other_iff s i))
  | .child _ | .arrive _ => isTrue trivial

section Steps

variable {kind : LockKind} {s t : Server} {i : Nat} {old new : Control}

theorem next_child (running : s.children[i]? = some old) :
    s.next kind (.child i) = s.step i old := by
  rw [next, running, Option.bind_some]

theorem next_die_eq_some_iff :
    s.next kind (.die i) = some t ↔ ∃ control, s.children[i]? = some control ∧
      control ≠ .dead ∧ { s with
        holder := kind.afterDeath s.holder i
        children := s.children.set i .dead } = t := by
  refine Option.bind_eq_some_iff.trans ?_
  simp only [Option.ite_none_left_eq_some, Option.some.injEq, ne_eq]

/-- A child that goes on leaves the others where they are. -/
theorem getElem?_set_cases {children : List Control} {j : Nat} {control : Control}
    (found : (children.set i new)[j]? = some control) :
    i = j ∧ control = new ∨ i ≠ j ∧ children[j]? = some control := by
  by_cases same : i = j
  · subst same
    have inside : i < children.length := by
      have bound := (List.getElem?_eq_some_iff.mp found).1
      rwa [List.length_set] at bound
    rw [List.getElem?_set_self inside] at found
    exact .inl ⟨rfl, (Option.some.inj found).symm⟩
  · rw [List.getElem?_set_ne same] at found
    exact .inr ⟨same, found⟩

theorem getElem?_set_running (running : s.children[i]? = some old) :
    (s.children.set i new)[i]? = some new :=
  List.getElem?_set_self (List.getElem?_eq_some_iff.mp running).1

/-! ## At most one child is inside -/

theorem Exclusive.step (exclusive : s.Exclusive) (running : s.children[i]? = some old)
    (step : s.step i old = some t) : t.Exclusive := by
  rcases exclusive with ⟨holder, accepted⟩
  cases old with
  | locking =>
      rcases guarded_eq_some_iff.mp step with ⟨free, moved⟩
      cases moved
      refine ⟨fun j control found inside => ?_, accepted⟩
      rcases getElem?_set_cases found with ⟨rfl, -⟩ | ⟨-, before⟩
      · rfl
      · have other := holder j control before inside
        rw [free] at other
        cases other
  | accepting =>
      have mine := holder i _ running trivial
      cases backlog : s.backlog with
      | nil =>
          rw [Server.step, backlog] at step
          cases step
      | cons connfd rest =>
          rw [Server.step, backlog] at step
          cases step
          refine ⟨fun j control found inside => ?_, ?_⟩
          · rcases getElem?_set_cases found with ⟨rfl, -⟩ | ⟨-, before⟩
            · exact mine
            · exact holder j control before inside
          · rw [← accepted, backlog]
            simp
  | releasing connfd =>
      have mine := holder i _ running trivial
      cases step
      refine ⟨fun j control found inside => ?_, accepted⟩
      rcases getElem?_set_cases found with ⟨-, rfl⟩ | ⟨different, before⟩
      · cases inside
      · have other := holder j control before inside
        rw [mine] at other
        exact absurd (Option.some.inj other) different
  | serving connfd =>
      cases step
      refine ⟨fun j control found inside => ?_, accepted⟩
      rcases getElem?_set_cases found with ⟨-, rfl⟩ | ⟨-, before⟩
      · cases inside
      · exact holder j control before inside
  | dead => cases step

theorem Exclusive.die (exclusive : s.Exclusive) (kind : LockKind) (i : Nat) :
    Exclusive { s with
      holder := kind.afterDeath s.holder i
      children := s.children.set i .dead } := by
  refine ⟨fun j control found inside => ?_, exclusive.accepted⟩
  rcases getElem?_set_cases found with ⟨-, rfl⟩ | ⟨different, before⟩
  · cases inside
  · have other := exclusive.holder j control before inside
    cases kind with
    | pthread => exact other
    | fcntl =>
        change (if s.holder = some i then none else s.holder) = some j
        rw [other, if_neg fun equal => different (Option.some.inj equal).symm]

theorem Exclusive.next {event : Event} (exclusive : s.Exclusive)
    (step : s.next kind event = some t) : t.Exclusive := by
  cases event with
  | child i =>
      rcases Option.bind_eq_some_iff.mp step with ⟨control, running, step⟩
      exact exclusive.step running step
  | arrive connfd =>
      cases step
      refine ⟨exclusive.holder, ?_⟩
      rw [← List.append_assoc, exclusive.accepted]
  | die i =>
      rcases next_die_eq_some_iff.mp step with ⟨-, -, -, rfl⟩
      exact exclusive.die kind i

theorem create_exclusive (nchildren : Nat) : (create nchildren).Exclusive := by
  refine ⟨fun i control found inside => ?_, rfl⟩
  have idle := List.eq_of_mem_replicate (List.mem_of_getElem? found)
  subst idle
  cases inside

/-- With either lock, and whichever children die, at most one child is inside, and every
connection is accepted once, in the order of their arrival. -/
theorem exclusive_run {nchildren : Nat} {events : List Event}
    (finished : run (next kind) (create nchildren) events = some s) :
    (∀ (i j : Nat) (one other : Control), s.children[i]? = some one →
        s.children[j]? = some other → one.Inside → other.Inside → i = j) ∧
      s.accepted.map Prod.snd ++ s.backlog = s.arrived := by
  have exclusive := invariant_run (fun _ _ _ exclusive => Exclusive.next exclusive)
    (create_exclusive nchildren) finished
  refine ⟨fun i j one other first second inside inside' => ?_, exclusive.accepted⟩
  have mine := exclusive.holder i one first inside
  rw [exclusive.holder j other second inside'] at mine
  exact (Option.some.inj mine).symm

/-- The first child dies in `Accept`, and the second one gets the connection. -/
theorem exclusive_run_killed :
    let events := [.child 0, .die 0, .child 1, .arrive 7, .child 1]
    ∃ s, run (next .fcntl) (create 2) events = some s ∧ s.accepted = [(1, 7)] ∧
      s.accepted.map Prod.snd ++ s.backlog = s.arrived := by
  intro events
  have finished : run (next .fcntl) (create 2) events =
      some ⟨some 1, [.dead, .releasing 7], [], [7], [(1, 7)]⟩ := by decide
  exact ⟨_, finished, rfl, (exclusive_run finished).2⟩

/-! ## The lock can be had -/

/-- A child goes on, and the lock is where it was, or has changed hands with that child. -/
theorem Usable.set (usable : s.Usable) (exclusive : t.Exclusive)
    (running : s.children[i]? = some old) (moved : t.children = s.children.set i new)
    (alive : new ≠ .dead)
    (holds : ∀ j, t.holder = some j → j = i ∧ new.Inside ∨ j ≠ i ∧ s.holder = some j) :
    t.Usable := by
  have here : t.children[i]? = some new := by
    rw [moved]
    exact getElem?_set_running running
  refine ⟨exclusive, ⟨i, new, here, alive⟩, fun j equal => ?_⟩
  rcases holds j equal with ⟨rfl, inside⟩ | ⟨different, before⟩
  · exact ⟨new, here, inside⟩
  · rcases usable.inside j before with ⟨control, found, inside⟩
    refine ⟨control, ?_, inside⟩
    rw [moved]
    exact (List.getElem?_set_ne (Ne.symm different)).trans found

theorem Usable.step (usable : s.Usable) (running : s.children[i]? = some old)
    (step : s.step i old = some t) : t.Usable := by
  have exclusive := usable.toExclusive.step running step
  cases old with
  | locking =>
      cases (guarded_eq_some_iff.mp step).2
      refine usable.set exclusive running rfl Control.noConfusion fun j equal => .inl ?_
      exact ⟨(Option.some.inj equal).symm, trivial⟩
  | accepting =>
      have mine := usable.holder i _ running trivial
      cases backlog : s.backlog with
      | nil =>
          rw [Server.step, backlog] at step
          cases step
      | cons connfd rest =>
          rw [Server.step, backlog] at step
          cases step
          refine usable.set exclusive running rfl Control.noConfusion fun j equal => .inl ?_
          exact ⟨Option.some.inj (equal.symm.trans mine), trivial⟩
  | releasing connfd =>
      cases step
      refine usable.set exclusive running rfl Control.noConfusion fun j equal => ?_
      cases equal
  | serving connfd =>
      cases step
      refine usable.set exclusive running rfl Control.noConfusion fun j equal => .inr ⟨?_, equal⟩
      rintro rfl
      rcases usable.inside j equal with ⟨control, found, inside⟩
      cases Option.some.inj (running.symm.trans found)
      exact inside
  | dead => cases step

theorem usable_preserved (kind : LockKind) :
    Preserves (next kind) (Survivable kind) Usable := by
  intro s event t usable survivable step
  have exclusive := usable.toExclusive.next step
  cases event with
  | child i =>
      rcases Option.bind_eq_some_iff.mp step with ⟨control, running, step⟩
      exact usable.step running step
  | arrive connfd =>
      cases step
      exact ⟨exclusive, usable.lives, usable.inside⟩
  | die i =>
      rcases survivable with ⟨⟨j, control, found, different, alive⟩, unlocked⟩
      rcases next_die_eq_some_iff.mp step with ⟨-, -, -, rfl⟩
      have other : (s.children.set i .dead)[j]? = some control :=
        (List.getElem?_set_ne (Ne.symm different)).trans found
      refine ⟨exclusive, ⟨j, control, other, alive⟩, fun k equal => ?_⟩
      have holder : s.holder = some k ∧ i ≠ k := by
        cases kind with
        | fcntl =>
            rcases Option.ite_none_left_eq_some.mp equal with ⟨kept, before⟩
            exact ⟨before, fun same => kept (same ▸ before)⟩
        | pthread => exact ⟨equal, fun same => unlocked rfl (same ▸ equal)⟩
      rcases usable.inside k holder.1 with ⟨held, foundHeld, inside⟩
      exact ⟨held, (List.getElem?_set_ne holder.2).trans foundHeld, inside⟩

theorem Open.head {event : Event} (step : s.next kind event = some t) (opened : t.Open kind) :
    s.Open kind := by
  rcases opened with ⟨final, reaches, accepting⟩
  exact ⟨final, .head step reaches, accepting⟩

/-- A child takes the free lock. -/
theorem open_of_locking (free : s.holder = none) (running : s.children[i]? = some .locking) :
    s.Open kind := by
  have step : s.next kind (.child i) =
      some { s with holder := some i, children := s.children.set i .accepting } := by
    rw [next_child running, Server.step, if_pos free]
  exact .head step ⟨_, .refl _ _, List.mem_of_getElem? (getElem?_set_running running)⟩

/-- A child that serves a connection comes back for the lock. -/
theorem open_of_serving {connfd : Nat} (free : s.holder = none)
    (running : s.children[i]? = some (.serving connfd)) : s.Open kind := by
  have step : s.next kind (.child i) =
      some { s with children := s.children.set i .locking } := by
    rw [next_child running, Server.step]
  have idle : ({ s with children := s.children.set i .locking } : Server).Open kind :=
    open_of_locking free (getElem?_set_running running)
  exact .head step idle

theorem Usable.open (usable : s.Usable) : s.Open kind := by
  cases holder : s.holder with
  | some i =>
      rcases usable.inside i holder with ⟨control, running, inside⟩
      cases control with
      | accepting => exact ⟨s, .refl _ _, List.mem_of_getElem? running⟩
      | releasing connfd =>
          have step : s.next kind (.child i) = some { s with
              holder := none
              children := s.children.set i (.serving connfd) } := by
            rw [next_child running, Server.step]
          have released : ({ s with
              holder := none
              children := s.children.set i (.serving connfd) } : Server).Open kind :=
            open_of_serving rfl (getElem?_set_running running)
          exact .head step released
      | locking | serving connfd | dead => cases inside
  | none =>
      rcases usable.lives with ⟨i, control, running, alive⟩
      cases control with
      | locking => exact open_of_locking holder running
      | serving connfd => exact open_of_serving holder running
      | accepting | releasing connfd =>
          have mine := usable.holder i _ running trivial
          rw [holder] at mine
          cases mine
      | dead => exact absurd rfl alive

/-! ## The lock is lost -/

/-- Everybody is dead, or the lock is held and nobody is inside. -/
structure Lost (kind : LockKind) (s : Server) : Prop where
  outside : ∀ control ∈ s.children, ¬ control.Inside
  stuck : (∀ control ∈ s.children, control = .dead) ∨ kind = .pthread ∧ s.holder ≠ none

theorem Lost.next {event : Event} (lost : s.Lost kind) (step : s.next kind event = some t) :
    t.Lost kind := by
  rcases lost with ⟨outside, stuck⟩
  cases event with
  | arrive connfd =>
      cases step
      exact ⟨outside, stuck⟩
  | die i =>
      rcases next_die_eq_some_iff.mp step with ⟨-, -, -, rfl⟩
      constructor
      · intro control mem
        rcases List.mem_or_eq_of_mem_set mem with before | rfl
        · exact outside control before
        · exact id
      · refine stuck.imp (fun all control mem => ?_) fun held => ⟨held.1, ?_⟩
        · rcases List.mem_or_eq_of_mem_set mem with before | rfl
          · exact all control before
          · rfl
        · rw [held.1]
          exact held.2
  | child i =>
      rcases Option.bind_eq_some_iff.mp step with ⟨control, running, step⟩
      have mem := List.mem_of_getElem? running
      cases control with
      | locking =>
          rcases guarded_eq_some_iff.mp step with ⟨free, -⟩
          rcases stuck with all | held
          · cases all _ mem
          · exact absurd free held.2
      | accepting | releasing connfd => exact absurd trivial (outside _ mem)
      | serving connfd =>
          cases step
          rcases stuck with all | held
          · cases all _ mem
          · refine ⟨fun control mem => ?_, .inr held⟩
            rcases List.mem_or_eq_of_mem_set mem with before | rfl
            · exact outside control before
            · exact id
      | dead => cases step

theorem Lost.not_open (lost : s.Lost kind) : ¬ s.Open kind := by
  rintro ⟨t, reaches, accepting⟩
  have final := reaches.invariant (fun _ _ _ lost => Lost.next lost) lost
  exact final.outside _ accepting trivial

/-- The death of the last child, or of one with the mutex locked. -/
theorem Usable.lost (usable : s.Usable) (fatal : ¬ Survivable kind s (.die i))
    (step : s.next kind (.die i) = some t) : t.Lost kind := by
  rcases next_die_eq_some_iff.mp step with ⟨-, -, -, rfl⟩
  by_cases lives : ∃ j control, s.children[j]? = some control ∧ j ≠ i ∧ control ≠ .dead
  · have locked : kind = .pthread ∧ s.holder = some i := by
      by_contra unlocked
      exact fatal ⟨lives, fun mutex equal => unlocked ⟨mutex, equal⟩⟩
    constructor
    · intro control mem inside
      rcases List.getElem?_of_mem mem with ⟨j, found⟩
      rcases getElem?_set_cases found with ⟨-, rfl⟩ | ⟨different, before⟩
      · exact inside
      · have other := usable.holder j control before inside
        rw [locked.2] at other
        exact different (Option.some.inj other)
    · right
      rw [locked.1]
      exact ⟨rfl, by rw [LockKind.afterDeath, locked.2]; exact Option.some_ne_none i⟩
  · have dead : ∀ control ∈ s.children.set i .dead, control = .dead := by
      intro control mem
      rcases List.getElem?_of_mem mem with ⟨j, found⟩
      rcases getElem?_set_cases found with ⟨-, rfl⟩ | ⟨different, before⟩
      · rfl
      · by_contra alive
        exact lives ⟨j, control, before, Ne.symm different, alive⟩
    refine ⟨fun control mem => ?_, .inl dead⟩
    rw [dead control mem]
    exact id

theorem create_usable {nchildren : Nat} (some : 0 < nchildren) : (create nchildren).Usable := by
  refine ⟨create_exclusive nchildren, ⟨0, .locking, ?_, Control.noConfusion⟩, ?_⟩
  · exact List.getElem?_replicate_of_lt some
  · intro i equal
    cases equal

/-- A connection can always still be accepted, if and only if no child dies as the last one,
and, where the lock is a mutex, none dies with the mutex locked. -/
theorem open_along_iff {nchildren : Nat} {events : List Event} (some : 0 < nchildren)
    (possible : (run (next kind) (create nchildren) events).isSome) :
    Along (next kind) (Open kind) (create nchildren) events ↔
      Meets (next kind) (Survivable kind) (create nchildren) events := by
  refine along_iff_meets_of_isSome (usable_preserved kind) (fun _ usable => usable.open) ?_
    (create_usable some) possible
  intro s event t usable fatal step
  cases event with
  | child i | arrive connfd => exact absurd trivial fatal
  | die i => exact (usable.lost fatal step).not_open

/-- A child dies in `Accept`, with either lock. -/
theorem open_along_iff_killed :
    let events := [.child 0, .die 0, .arrive 7]
    Along (next .fcntl) (Open .fcntl) (create 2) events ∧
      ¬ Along (next .pthread) (Open .pthread) (create 2) events := by
  intro events
  have fcntl : (run (next .fcntl) (create 2) events).isSome := by decide
  have pthread : (run (next .pthread) (create 2) events).isSome := by decide
  exact ⟨(open_along_iff Nat.two_pos fcntl).mpr (by decide),
    mt (open_along_iff Nat.two_pos pthread).mp (by decide)⟩

end Steps

end Server

end NetPractice.Prefork
