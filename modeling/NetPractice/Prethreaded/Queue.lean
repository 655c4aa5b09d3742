import NetPractice.Prethreaded.Threads

/-!
# The queue of accepted descriptors

A thread blocks only when the ring is empty, and whoever stores a descriptor
wakes up a thread, so that a ring with a descriptor in it always has a thread
that is on its way.
-/

namespace NetPractice.Prethreaded

open NetPractice.Transition NetPractice.Memory

namespace Server

section Steps

variable {s t : Server}

/-! ## Threads left to themselves -/

theorem move_work (s : Server) {i : Nat} {old : Thread} (position : Position)
    (running : s.tptr[i]? = some old) :
    (s.move i old position).work + old.work =
      s.work + Thread.work { old with position := position } := by
  have changed := total_set Thread.work running { old with position := position }
  simp only [work, move_stored, move_taken, move_main, move_tptr]
  omega

theorem Consistent.mainStep_work (consistent : Consistent s) (step : s.mainStep = some t) :
    t.work < s.work := by
  unfold Server.mainStep at step
  cases main : s.main with
  | accepting | signalling | quit =>
      rw [main] at step
      cases step
  | locking connfd =>
      simp only [main, Option.ite_none_left_eq_some, Option.some.injEq] at step
      rcases step with ⟨-, rfl⟩
      simp only [work, stored, main, Main.work, Main.connfd]
      omega
  | storing connfd =>
      have more := consistent.filled.stored_store main
      have least := consistent.filled.least
      have signals : (if advance s.iput = s.iget then Main.quit else .signalling).work ≤ 4 := by
        split
        · exact Nat.zero_le _
        · exact Nat.le_refl _
      simp only [main, Option.some.injEq] at step
      subst step
      simp only [work, more, main, Main.work] at signals ⊢
      omega
  | unlocking =>
      simp only [main, Option.some.injEq] at step
      subst step
      simp only [work, stored, main, Main.work, Main.connfd]
      omega

theorem signalStep_work {woken : Option Nat} (signalling : s.main = .signalling)
    (step : s.signalStep woken = some t) : t.work < s.work := by
  have less : work { s with main := .unlocking } + 3 = s.work := by
    simp only [work, stored, signalling, Main.work, Main.connfd]
    omega
  cases woken with
  | none =>
      simp only [signalStep, Option.ite_none_left_eq_some, Option.some.injEq] at step
      rcases step with ⟨-, rfl⟩
      omega
  | some i =>
      simp only [signalStep, Option.bind_eq_bind, Option.bind_eq_some_iff,
        Option.ite_none_right_eq_some, Option.some.injEq] at step
      rcases step with ⟨thread, running, waiting, rfl⟩
      have moved := move_work { s with main := .unlocking } .woken running
      simp only [Thread.work, waiting] at moved
      omega

theorem Consistent.threadStep_work {i : Nat} {thread : Thread} (consistent : Consistent s)
    (running : s.tptr[i]? = some thread) (step : s.threadStep i thread = some t) :
    t.work < s.work := by
  unfold Server.threadStep at step
  cases position : thread.position with
  | locking | woken =>
      simp only [position, Option.ite_none_left_eq_some, Option.some.injEq] at step
      rcases step with ⟨-, rfl⟩
      have moved := move_work { s with clifdMutex := true } .testing running
      simp only [Thread.work, position] at moved
      have same : work { s with clifdMutex := true } = s.work := rfl
      omega
  | testing =>
      simp only [position] at step
      split at step
      · cases step
        have moved := move_work { s with clifdMutex := false } .waiting running
        simp only [Thread.work, position] at moved
        have same : work { s with clifdMutex := false } = s.work := rfl
        omega
      · next different =>
        simp only [Option.bind_eq_bind, Option.bind_eq_some_iff, Option.some.injEq] at step
        rcases step with ⟨connfd, -, rfl⟩
        have least := consistent.filled.least
        rw [consistent.empty_iff (List.mem_of_getElem? running) position] at different
        have moved := move_work { s with
          iget := advance s.iget
          taken := s.taken ++ [(i, connfd)] } (.unlocking connfd) running
        have one : work { s with
            iget := advance s.iget
            taken := s.taken ++ [(i, connfd)] } + 4 = s.work := by
          simp only [work, stored, List.length_append, List.length_singleton] at least different ⊢
          omega
        simp only [Thread.work, position] at moved
        omega
  | waiting =>
      rw [position] at step
      cases step
  | unlocking connfd =>
      simp only [position, Option.some.injEq] at step
      subst step
      have changed := total_set Thread.work running
        { position := .serving connfd, threadCount := thread.threadCount + 1 }
      simp only [Thread.work, position] at changed
      simp only [work, move_stored, move_taken, move_main, move_tptr]
      have same : stored { s with clifdMutex := false } = s.stored := rfl
      omega
  | serving connfd =>
      simp only [position, Option.some.injEq] at step
      subst step
      have moved := move_work s .locking running
      simp only [Thread.work, position] at moved
      omega

/-- Every statement that needs no connection is one less to come. -/
theorem Consistent.next_work {event : Event} (consistent : Consistent s)
    (continues : event.Continues) (step : s.next event = some t) : t.work < s.work := by
  cases event with
  | accept connfd | wakeup i => cases continues
  | main => exact consistent.mainStep_work step
  | signal woken =>
      simp only [next, Option.ite_none_right_eq_some] at step
      exact signalStep_work step.1 step.2
  | thread i =>
      rcases Option.bind_eq_some_iff.mp step with ⟨thread, running, step⟩
      exact consistent.threadStep_work running step

theorem Consistent.length_le_work {events : List Event} (consistent : Consistent s)
    (finished : run next s events = some t) (continues : ∀ event ∈ events, event.Continues) :
    events.length ≤ s.work := by
  induction events generalizing s with
  | nil => exact Nat.zero_le _
  | cons event events ih =>
      rcases (run_cons_eq_some_iff _ _ _ _ _).mp finished with ⟨middle, step, rest⟩
      have less := consistent.next_work (continues event List.mem_cons_self) step
      have bound := ih (next_consistent consistent step) rest
        fun other mem => continues other (List.mem_cons_of_mem _ mem)
      rw [List.length_cons]
      omega

/-- A thread that can always execute its next statement. -/
theorem threadStep_isSome {i : Nat} {thread : Thread} (consistent : Consistent s)
    (free : s.clifdMutex = false ∨ thread.holds = 1) (active : thread.position ≠ .waiting) :
    (s.threadStep i thread).isSome := by
  unfold Server.threadStep
  cases position : thread.position with
  | locking | woken =>
      have unlocked : s.clifdMutex = false := by
        rcases free with free | holds
        · exact free
        · simp [Thread.holds, position] at holds
      simp [unlocked]
  | testing =>
      have inside : s.iget < s.clifd.length := by
        rw [consistent.filled.whole, consistent.filled.iget]
        exact Nat.mod_lt _ positive_MAXNCLI
      dsimp only
      split
      · rfl
      · simp [inside]
  | waiting => exact absurd position active
  | unlocking connfd => rfl
  | serving connfd => rfl

/-- A thread that cannot go on waits for the condition, or for the mutex. -/
theorem Consistent.halted (consistent : Consistent s)
    (stuck : ∀ event, event.Continues → s.next event = none) {i : Nat} {thread : Thread}
    (found : s.tptr[i]? = some thread) :
    ¬ (s.clifdMutex = false ∨ thread.holds = 1) ∨ thread.position = .waiting := by
  by_contra goes
  rw [not_or, not_not] at goes
  have possible := threadStep_isSome (i := i) consistent goes.1 goes.2
  have none := stuck (.thread i) trivial
  rw [next, found, Option.bind_some] at none
  rw [none] at possible
  cases possible

/-- A signal can always be sent. -/
theorem not_signalling_of_stuck (stuck : ∀ event, event.Continues → s.next event = none) :
    s.main ≠ .signalling := by
  intro signalling
  by_cases somebody : ∃ thread ∈ s.tptr, thread.position = .waiting
  · rcases somebody with ⟨thread, mem, waiting⟩
    rcases List.getElem?_of_mem mem with ⟨i, found⟩
    have none := stuck (.signal (some i)) trivial
    simp [next, signalling, Server.signalStep, found, waiting] at none
  · have none := stuck (.signal none) trivial
    simp only [next, signalling, if_true, Server.signalStep, if_neg somebody] at none
    cases none

/-- Nobody that can go on holds the mutex. -/
theorem Consistent.free_of_stuck (consistent : Consistent s) (running : s.main ≠ .quit)
    (stuck : ∀ event, event.Continues → s.next event = none) : s.clifdMutex = false := by
  by_contra locked
  have holders := consistent.holders
  rw [if_pos (by simpa using locked)] at holders
  by_cases threads : total Thread.holds s.tptr = 0
  · have noStep := stuck .main trivial
    rw [next, Server.mainStep] at noStep
    cases main : s.main with
    | accepting | locking connfd =>
        rw [main] at holders
        simp [Main.holds, threads] at holders
    | storing connfd | unlocking =>
        rw [main] at noStep
        cases noStep
    | signalling => exact not_signalling_of_stuck stuck main
    | quit => exact running main
  · rcases exists_of_total_pos (Nat.pos_of_ne_zero threads) with ⟨i, thread, found, holds⟩
    have one : thread.holds = 1 := by
      have most := weight_le_total Thread.holds (List.mem_of_getElem? found)
      omega
    rcases consistent.halted stuck found with stopped | waiting
    · exact stopped (.inr one)
    · simp [Thread.holds, waiting] at holds

/-- Threads that cannot go on have blocked, and the main thread waits for a
connection. -/
theorem Consistent.settled (consistent : Consistent s) (running : s.main ≠ .quit)
    (stuck : ∀ event, event.Continues → s.next event = none) :
    s.main = .accepting ∧ s.Blocked := by
  have free := consistent.free_of_stuck running stuck
  constructor
  · have noStep := stuck .main trivial
    rw [next, Server.mainStep] at noStep
    cases main : s.main with
    | accepting => rfl
    | locking connfd =>
        simp only [main, free, Bool.false_eq_true, if_false] at noStep
        cases noStep
    | storing connfd | unlocking =>
        rw [main] at noStep
        cases noStep
    | signalling => exact absurd main (not_signalling_of_stuck stuck)
    | quit => exact absurd main running
  · intro thread mem
    rcases List.getElem?_of_mem mem with ⟨i, found⟩
    rcases consistent.halted stuck found with stopped | waiting
    · exact absurd (.inl free) stopped
    · exact waiting

/-! ## Every run -/

/-- The queue works: what was taken is a beginning of what was accepted, in the
same order, each descriptor by one thread; a stored descriptor stays in its slot
until it is taken; and the ring is empty when all threads are blocked.  Left to
themselves, the threads come to an end, with every accepted descriptor taken. -/
structure Queued (s : Server) : Prop where
  order : s.taken.map Prod.snd <+: s.accepted
  served : ∀ i thread, s.tptr[i]? = some thread →
    ∀ connfd ∈ thread.position.connfd, (s.takenBy i).getLast? = some (i, connfd)
  kept : ∀ number, s.taken.length ≤ number → number < s.stored →
    s.clifd[number % MAXNCLI]? = s.accepted[number]?
  iget : s.iget < MAXNCLI
  iput : s.iput < MAXNCLI
  idle : s.tptr ≠ [] → s.Blocked → ¬ s.Unsignalled →
    s.iget = s.iput ∧ s.stored = s.taken.length
  drained : ∀ events t, run next s events = some t → (∀ event ∈ events, event.Continues) →
    events.length ≤ s.work ∧
      (t.tptr ≠ [] → t.main ≠ .quit → (∀ event, event.Continues → t.next event = none) →
        t.taken.map Prod.snd = t.accepted)

theorem Consistent.order (consistent : Consistent s) :
    s.taken.map Prod.snd <+: s.accepted := by
  rw [consistent.filled.order]
  exact List.take_prefix _ _

theorem Consistent.idle (consistent : Consistent s) (threads : s.tptr ≠ [])
    (blocked : s.Blocked) (signalled : ¬ s.Unsignalled) :
    s.iget = s.iput ∧ s.stored = s.taken.length := by
  have empty : s.stored = s.taken.length := by
    by_contra pending
    exact consistent.awake pending signalled threads blocked
  have running : s.main ≠ .quit := by
    intro quit
    exact signalled (.inr quit)
  exact ⟨(consistent.filled.empty_iff running).mpr empty, empty⟩

/-- When the threads have come to an end, every accepted descriptor is taken. -/
theorem Consistent.drained (consistent : Consistent s) (threads : s.tptr ≠ [])
    (running : s.main ≠ .quit) (stuck : ∀ event, event.Continues → s.next event = none) :
    s.taken.map Prod.snd = s.accepted := by
  rcases consistent.settled running stuck with ⟨accepting, blocked⟩
  have signalled : ¬ s.Unsignalled := by simp [Unsignalled, accepting]
  have stored_eq := (consistent.idle threads blocked signalled).2
  rw [consistent.filled.order, ← stored_eq, stored, accepting]
  exact List.take_length

theorem Consistent.queued (consistent : Consistent s) : Queued s where
  order := consistent.order
  served i thread running := (consistent.carries i thread running).connfd
  kept := consistent.filled.holds
  iget := by
    rw [consistent.filled.iget]
    exact Nat.mod_lt _ positive_MAXNCLI
  iput := by
    rw [consistent.filled.iput]
    exact Nat.mod_lt _ positive_MAXNCLI
  idle := consistent.idle
  drained events t finished continues := by
    have last : Consistent t := invariant_run (fun _ _ _ => next_consistent) consistent finished
    exact ⟨consistent.length_le_work finished continues, last.drained⟩

/-- In every run, with any number of threads, the queue works. -/
theorem queued_of_run {nthreads : Nat} {events : List Event}
    (finished : run next (create nthreads) events = some t) : Queued t :=
  (invariant_run (fun _ _ _ => next_consistent) (create_consistent nthreads) finished).queued

end Steps

/-! ## Runs -/

/-- A connection that is stored and signalled to the given thread. -/
def connection (connfd : Int) (woken : Option Nat) : List Event :=
  [.accept connfd, .main, .main, .signal woken, .main]

/-- Both threads block; the second one is woken up, and the first one, which leaves
`Pthread_cond_wait` without a signal, overtakes it. -/
def overtaken : List Event :=
  [.thread 0, .thread 0, .thread 1, .thread 1] ++ connection 7 (some 1) ++
    [.wakeup 0, .thread 0, .thread 0, .thread 0, .thread 1, .thread 1, .thread 0]

theorem queued_overtaken : ∃ t, run next (create 2) overtaken = some t ∧ Queued t := by
  have possible : (run next (create 2) overtaken).isSome := by decide
  rcases Option.isSome_iff_exists.mp possible with ⟨t, finished⟩
  exact ⟨t, finished, queued_of_run finished⟩

/-- Without a thread, nobody takes a descriptor.  With a thread that does not get to
run, the 32nd descriptor fills the ring and ends the program. -/
theorem descriptors_left :
    (∃ t, run next (create 0) (connection 7 none) = some t ∧
      t.Blocked ∧ ¬ t.Unsignalled ∧ t.iget ≠ t.iput ∧ t.accepted = [7] ∧ t.taken = []) ∧
    ∃ events t, run next (create 1) events = some t ∧
      t.main = .quit ∧ t.accepted.length = 32 ∧ t.taken = [] := by
  constructor
  · have outcome : (run next (create 0) (connection 7 none)).map
        (fun t => (decide (t.Blocked ∧ ¬ t.Unsignalled ∧ t.iget ≠ t.iput), t.accepted, t.taken)) =
          some (true, [7], []) := by decide
    rcases Option.map_eq_some_iff.mp outcome with ⟨t, finished, observed⟩
    simp only [Prod.mk.injEq, decide_eq_true_eq] at observed
    rcases observed with ⟨⟨blocked, signalled, different⟩, accepted, taken⟩
    exact ⟨t, finished, blocked, signalled, different, accepted, taken⟩
  · have outcome : (run next (create 1)
        ((List.replicate 31 (connection 7 none)).flatten ++ [.accept 7, .main, .main])).map
          (fun t => (t.main, t.accepted.length, t.taken)) = some (.quit, 32, []) := by
      decide +kernel
    rcases Option.map_eq_some_iff.mp outcome with ⟨t, finished, observed⟩
    simp only [Prod.mk.injEq] at observed
    exact ⟨_, t, finished, observed⟩

end Server

end NetPractice.Prethreaded
