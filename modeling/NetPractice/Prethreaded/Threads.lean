import NetPractice.Prethreaded.Ring

/-!
# The threads that take descriptors from the ring

A thread that is woken up or that gets the mutex takes the first descriptor in
the ring, or blocks when the ring is empty.
-/

namespace NetPractice.Prethreaded

open NetPractice.Transition NetPractice.Memory

namespace Server

section Steps

variable {s t : Server}

/-! ## Steps of the threads -/

/-- A step that moves one thread. -/
theorem Consistent.moved {i : Nat} {old new : Thread} (consistent : Consistent s)
    (running : s.tptr[i]? = some old) (filled : Filled t) (tptr : t.tptr = s.tptr.set i new)
    (holders : t.main.holds + new.holds + (if s.clifdMutex then 1 else 0) =
      s.main.holds + old.holds + if t.clifdMutex then 1 else 0)
    (awake : new.position ≠ .waiting ∨ t.stored = t.taken.length)
    (others : ∀ j, j ≠ i → t.takenBy j = s.takenBy j) (own : t.Carries i new) :
    Consistent t where
  filled := filled
  holders := by
    have before := consistent.holders
    have changed := total_set Thread.holds running new
    rw [tptr]
    omega
  awake pending _ _ blocked := by
    rcases awake with awake | empty
    · apply awake
      apply blocked
      rw [tptr]
      exact List.mem_set (List.getElem?_eq_some_iff.mp running).1 new
    · exact pending empty
  carries j thread found := by
    by_cases same : j = i
    · subst same
      rw [tptr, List.getElem?_set_self (List.getElem?_eq_some_iff.mp running).1] at found
      cases found
      exact own
    · rw [tptr, List.getElem?_set_ne (Ne.symm same)] at found
      have carries := consistent.carries j thread found
      constructor
      · rw [others j same]
        exact carries.connfd
      · rw [others j same]
        exact carries.counted

/-- A thread goes on without touching the ring. -/
theorem Consistent.move {i : Nat} {old : Thread} {locked : Bool} {main : Main}
    {position : Position} (consistent : Consistent s) (running : s.tptr[i]? = some old)
    (main_eq : main.connfd = s.main.connfd) (quit : s.main = .quit → main = .quit)
    (holders : main.holds + Thread.holds { old with position := position } +
        (if s.clifdMutex then 1 else 0) =
      s.main.holds + old.holds + if locked then 1 else 0)
    (awake : position ≠ .waiting ∨ s.stored = s.taken.length)
    (idle : position.connfd = none) (counted : old.uncounted = 0) :
    Consistent ({ s with clifdMutex := locked, main := main }.move i old position) := by
  have carries := consistent.carries i old running
  apply consistent.moved running
  · exact consistent.filled.main main_eq quit
  · rfl
  · exact holders
  · rw [move_stored, move_taken]
    simpa only [stored, main_eq] using awake
  · intro j _
    rfl
  · constructor
    · simp [idle]
    · have uncounted : Thread.uncounted { old with position := position } = 0 := by
        cases position with
        | unlocking connfd => cases idle
        | locking | testing | waiting | woken | serving => rfl
      rw [uncounted, ← counted]
      exact carries.counted

theorem Consistent.signalStep {woken : Option Nat} (consistent : Consistent s)
    (signalling : s.main = .signalling) (step : s.signalStep woken = some t) :
    Consistent t := by
  cases woken with
  | none =>
      simp only [Server.signalStep, Option.ite_none_left_eq_some, Option.some.injEq] at step
      rcases step with ⟨nobody, rfl⟩
      apply consistent.main
      · apply consistent.filled.main
        · rw [signalling]
          rfl
        · simp [signalling]
      · rfl
      · rfl
      · simp [signalling, Main.holds]
      · intro _ _ nonempty blocked
        rcases List.exists_mem_of_ne_nil _ nonempty with ⟨thread, mem⟩
        exact nobody ⟨thread, mem, blocked thread mem⟩
  | some i =>
      simp only [Server.signalStep, Option.bind_eq_bind, Option.bind_eq_some_iff,
        Option.ite_none_right_eq_some, Option.some.injEq] at step
      rcases step with ⟨thread, running, waiting, rfl⟩
      apply consistent.move running
      · rw [signalling]
        rfl
      · simp [signalling]
      · simp [signalling, Main.holds, Thread.holds, waiting]
      · exact .inl Position.noConfusion
      · rfl
      · simp [Thread.uncounted, waiting]

/-- A thread takes the next descriptor. -/
theorem Consistent.take {i : Nat} {old : Thread} {connfd : Int} (consistent : Consistent s)
    (running : s.tptr[i]? = some old) (testing : old.position = .testing)
    (more : s.taken.length < s.stored) (read : s.clifd[s.iget]? = some connfd) :
    Consistent ({ s with
      iget := advance s.iget
      taken := s.taken ++ [(i, connfd)] }.move i old (.unlocking connfd)) := by
  have carries := consistent.carries i old running
  have own : takenBy ({ s with
      iget := advance s.iget
      taken := s.taken ++ [(i, connfd)] }.move i old (.unlocking connfd)) i =
        s.takenBy i ++ [(i, connfd)] := by
    simp [takenBy]
  apply consistent.moved running
  · exact consistent.filled.take more read
  · rfl
  · have before : old.holds = 1 := by simp [Thread.holds, testing]
    rw [before]
    rfl
  · exact .inl Position.noConfusion
  · intro j other
    simp [takenBy, Ne.symm other]
  · constructor
    · rintro _ ⟨⟩
      rw [own, List.getLast?_concat]
    · have counted := carries.counted
      simp only [Thread.uncounted, testing] at counted ⊢
      rw [own, List.length_append, List.length_singleton, ← counted]

/-- A thread that tests the indices finds out whether the ring is empty. -/
theorem Consistent.empty_iff {thread : Thread} (consistent : Consistent s)
    (mem : thread ∈ s.tptr) (testing : thread.position = .testing) :
    s.iget = s.iput ↔ s.stored = s.taken.length := by
  have main_holds := consistent.main_holds mem (by simp [Thread.holds, testing])
  apply consistent.filled.empty_iff
  intro quit
  rw [quit] at main_holds
  cases main_holds

theorem Consistent.threadStep {i : Nat} {thread : Thread} (consistent : Consistent s)
    (running : s.tptr[i]? = some thread) (step : s.threadStep i thread = some t) :
    Consistent t := by
  have mem := List.mem_of_getElem? running
  unfold Server.threadStep at step
  cases position : thread.position with
  | locking | woken =>
      simp only [position, Option.ite_none_left_eq_some, Option.some.injEq] at step
      rcases step with ⟨free, rfl⟩
      apply consistent.move running rfl id
      · simp [free, Thread.holds, position]
      · exact .inl nofun
      · rfl
      · simp [Thread.uncounted, position]
  | testing =>
      have holds : thread.holds = 1 := by simp [Thread.holds, position]
      have empty := consistent.empty_iff mem position
      simp only [position] at step
      split at step
      · next equal =>
        cases step
        apply consistent.move running rfl id
        · simp [consistent.locked (.inr ⟨thread, mem, holds⟩), Thread.holds, position]
        · exact .inr (empty.mp equal)
        · rfl
        · simp [Thread.uncounted, position]
      · next different =>
        simp only [Option.bind_eq_bind, Option.bind_eq_some_iff, Option.some.injEq] at step
        rcases step with ⟨connfd, read, rfl⟩
        apply consistent.take running position _ read
        have least := consistent.filled.least
        rw [empty] at different
        omega
  | waiting =>
      rw [position] at step
      cases step
  | unlocking connfd =>
      have holds : thread.holds = 1 := by simp [Thread.holds, position]
      have carries := consistent.carries i thread running
      simp only [position, Option.some.injEq] at step
      subst step
      apply consistent.moved running
      · exact consistent.filled.main rfl id
      · rfl
      · simp [consistent.locked (.inr ⟨thread, mem, holds⟩), Thread.holds, position]
      · exact .inl nofun
      · intro j _
        rfl
      · constructor
        · intro other equal
          apply carries.connfd
          rw [position]
          exact equal
        · have counted := carries.counted
          simp only [Thread.uncounted, position] at counted ⊢
          exact counted
  | serving connfd =>
      simp only [position, Option.some.injEq] at step
      subst step
      apply consistent.move running rfl id
      · simp [Thread.holds, position]
      · exact .inl nofun
      · rfl
      · simp [Thread.uncounted, position]

/-- Every step keeps the invariant. -/
theorem next_consistent {event : Event} (consistent : Consistent s)
    (step : s.next event = some t) : Consistent t := by
  cases event with
  | accept connfd =>
      simp only [next, Option.ite_none_right_eq_some, Option.some.injEq] at step
      rcases step with ⟨accepting, rfl⟩
      exact consistent.accept accepting
  | main => exact consistent.mainStep step
  | signal woken =>
      simp only [next, Option.ite_none_right_eq_some] at step
      exact consistent.signalStep step.1 step.2
  | thread i =>
      rcases Option.bind_eq_some_iff.mp step with ⟨thread, running, step⟩
      exact consistent.threadStep running step
  | wakeup i =>
      simp only [next, Option.bind_eq_bind, Option.bind_eq_some_iff,
        Option.ite_none_right_eq_some, Option.some.injEq] at step
      rcases step with ⟨thread, running, waiting, rfl⟩
      apply consistent.move running rfl id
      · simp [Thread.holds, waiting]
      · exact .inl nofun
      · rfl
      · simp [Thread.uncounted, waiting]

theorem create_consistent (nthreads : Nat) : Consistent (create nthreads) := by
  constructor
  · constructor
    · exact List.length_replicate
    · exact Nat.le_refl _
    · exact Nat.zero_le _
    · intro _
      exact positive_MAXNCLI
    · rfl
    · simp [create, Main.connfd]
    · rfl
    · rfl
    · apply Ring.holds_empty
    · rfl
  · simp [create, Main.holds, Thread.holds]
  · intro pending
    exact absurd rfl pending
  · intro i thread running
    rw [List.eq_of_mem_replicate (List.mem_of_getElem? running)]
    constructor
    · simp [Position.connfd]
    · rfl

end Steps

end Server

end NetPractice.Prethreaded
