import NetPractice.ThreadPool.Core
import Mathlib.Data.List.Nodup

/-!
# The hand-off of requests

The semaphore is posted behind the critical section in which a request is pushed,
and a worker can pass `wait` without a post.  The invariant counts: each queued
request is matched by a unit of the semaphore, by a worker on its way to the queue,
or by a call of `append` on its way to `post`.
-/

namespace NetPractice.ThreadPool

open NetPractice.Transition

universe u

variable {R : Type u}

/-! ## Weights -/

/-- Whether a thread has locked the mutex. -/
def Appender.holds : Appender R → Nat
  | .testing _ | .refusing | .unlocking _ _ => 1
  | .outside | .locking _ | .posting _ _ => 0

/-- How many mutexes the worker holds. -/
def Worker.holds : Worker R → Nat
  | .testing | .unlocking _ => 1
  | .waiting | .locking | .processing _ => 0

/-- Whether a call of `append` still has to post. -/
def Appender.owes (appender : Appender R) : Nat :=
  if appender.pending.isSome then 1 else 0

/-- Whether a worker will look at the queue. -/
def Worker.comes : Worker R → Nat
  | .locking | .testing => 1
  | .waiting | .unlocking _ | .processing _ => 0

/-- Whether a call of `append` has pushed the request with a number. -/
def Appender.carries (ticket : Nat) (appender : Appender R) : Nat :=
  if appender.pending.map Prod.fst = some ticket then 1 else 0

/-- The statements that a thread can execute without another call of `append`,
where a unit of the semaphore lets a worker execute five. -/
def Appender.work : Appender R → Nat
  | .outside => 0
  | .refusing => 1
  | .posting _ _ => 6
  | .unlocking _ _ => 7
  | .testing _ => 8
  | .locking _ => 9

/-- How far the worker is from its next wait. -/
def Worker.work : Worker R → Nat
  | .waiting => 0
  | .processing _ => 1
  | .unlocking _ => 2
  | .testing => 3
  | .locking => 4

/-- The statements are those that continue calls: no call begins, and no `wait`
fails. -/
def Event.Continues : Event R → Prop
  | .append _ | .run _ => True
  | .call _ _ | .interrupt _ => False

namespace Pool

/-- A bound of the number of statements that continue calls. -/
def work (s : Pool R) : Nat :=
  5 * s.queuestat + total Appender.work s.appenders + total Worker.work s.workers

/-- The hand-off works: requests leave the queue in the order in which they were
pushed, each one once; a request is accepted under its own number; no request stays
in the queue when all workers are blocked; and the threads, left to themselves, come
to an end, with every accepted request removed by a worker. -/
structure HandedOff (s : Pool R) : Prop where
  order : s.pushed = s.popped.map Prod.snd ++ s.workqueue
  accepted : ∀ entry ∈ s.accepted, s.pushed[entry.1]? = some entry.2
  once : (s.accepted.map Prod.fst).Nodup
  idle : s.Blocked → s.Posted → s.workqueue = []
  drained : ∀ events t, run next s events = some t → (∀ event ∈ events, event.Continues) →
    events.length ≤ s.work ∧
      ((∀ event, event.Continues → t.next event = none) →
        ∀ entry ∈ s.accepted, ∃ worker, t.popped[entry.1]? = some (worker, entry.2))

/-- The invariant. -/
structure Consistent (s : Pool R) : Prop where
  workers : s.workers ≠ []
  holders : total Appender.holds s.appenders + total Worker.holds s.workers =
    if s.queuelocker then 1 else 0
  matched : s.workqueue.length ≤
    s.queuestat + total Worker.comes s.workers + total Appender.owes s.appenders
  order : s.pushed = s.popped.map Prod.snd ++ s.workqueue
  tickets : ∀ ticket, (s.accepted.map Prod.fst).count ticket +
    total (Appender.carries ticket) s.appenders = if ticket < s.pushed.length then 1 else 0
  accepted : ∀ entry ∈ s.accepted, s.pushed[entry.1]? = some entry.2
  pending : ∀ appender ∈ s.appenders, ∀ entry ∈ appender.pending,
    s.pushed[entry.1]? = some entry.2

section Steps

variable {s t : Pool R}

/-- A step of `append` that leaves the queue alone. -/
theorem Consistent.appender {i : Nat} {old new : Appender R} {locked : Bool}
    (consistent : Consistent s) (running : s.appenders[i]? = some old)
    (holders : (if locked then 1 else 0) + old.holds =
      (if s.queuelocker then 1 else 0) + new.holds)
    (pending : new.pending = old.pending) :
    Consistent { s with queuelocker := locked, appenders := s.appenders.set i new } where
  workers := consistent.workers
  holders := by
    have before := consistent.holders
    have changed := total_set Appender.holds running new
    simp only
    omega
  matched := by
    have before := consistent.matched
    have changed := total_set Appender.owes running new
    simp only [Appender.owes, pending] at changed
    simp only
    omega
  order := consistent.order
  tickets ticket := by
    have before := consistent.tickets ticket
    have changed := total_set (Appender.carries ticket) running new
    simp only [Appender.carries, pending] at changed
    simp only
    omega
  accepted := consistent.accepted
  pending thread mem := by
    rcases List.mem_or_eq_of_mem_set mem with mem | rfl
    · exact consistent.pending thread mem
    · rw [pending]
      exact consistent.pending old (List.mem_of_getElem? running)

/-- A step of `run`. -/
theorem Consistent.worker {i queuestat : Nat} {old new : Worker R} {locked : Bool}
    {workqueue : List (Option R)} {popped : List (Nat × Option R)} (consistent : Consistent s)
    (running : s.workers[i]? = some old)
    (holders : (if locked then 1 else 0) + old.holds =
      (if s.queuelocker then 1 else 0) + new.holds)
    (order : s.pushed = popped.map Prod.snd ++ workqueue)
    (matched : workqueue = [] ∨ workqueue.length + s.queuestat + old.comes ≤
      s.workqueue.length + queuestat + new.comes) :
    Consistent { s with
      workqueue := workqueue
      queuelocker := locked
      queuestat := queuestat
      workers := s.workers.set i new
      popped := popped } where
  workers nil := consistent.workers (by simpa using nil)
  holders := by
    have before := consistent.holders
    have changed := total_set Worker.holds running new
    simp only
    omega
  matched := by
    have before := consistent.matched
    have changed := total_set Worker.comes running new
    simp only
    rcases matched with rfl | matched
    · exact Nat.zero_le _
    · omega
  order := order
  tickets := consistent.tickets
  accepted := consistent.accepted
  pending := consistent.pending

/-- The mutex is locked while a thread holds it. -/
theorem Consistent.locked (consistent : Consistent s)
    (held : (∃ thread ∈ s.appenders, thread.holds = 1) ∨ ∃ thread ∈ s.workers, thread.holds = 1) :
    s.queuelocker = true := by
  have holders := consistent.holders
  by_contra free
  rw [if_neg free] at holders
  rcases held with ⟨thread, mem, holds⟩ | ⟨thread, mem, holds⟩
  · have le := weight_le_total Appender.holds mem
    omega
  · have le := weight_le_total Worker.holds mem
    omega

theorem Consistent.push {i : Nat} {request : Option R} (consistent : Consistent s)
    (running : s.appenders[i]? = some (.testing request)) :
    Consistent { s with
      workqueue := s.workqueue ++ [request]
      pushed := s.pushed ++ [request]
      appenders := s.appenders.set i (.unlocking s.pushed.length request) } where
  workers := consistent.workers
  holders := by
    have before := consistent.holders
    have changed := total_set Appender.holds running (.unlocking s.pushed.length request)
    simp only [Appender.holds] at changed
    simp only
    omega
  matched := by
    have before := consistent.matched
    have changed := total_set Appender.owes running (.unlocking s.pushed.length request)
    simp only [Appender.owes, Appender.pending, Option.isSome_none, Option.isSome_some,
      Bool.false_eq_true, if_true, if_false] at changed
    simp only [List.length_append, List.length_singleton]
    omega
  order := by
    simp only [consistent.order, List.append_assoc]
  tickets ticket := by
    have before := consistent.tickets ticket
    have changed := total_set (Appender.carries ticket) running (.unlocking s.pushed.length request)
    simp only [Appender.carries, Appender.pending, Option.map_none, Option.map_some,
      Option.some.injEq, reduceCtorEq, if_false] at changed
    simp only [List.length_append, List.length_singleton]
    split at changed <;> split at before <;> split <;> omega
  accepted entry mem := by
    have found := consistent.accepted entry mem
    rw [List.getElem?_append_left (List.getElem?_eq_some_iff.mp found).1]
    exact found
  pending thread mem entry pending := by
    rcases List.mem_or_eq_of_mem_set mem with mem | rfl
    · have found := consistent.pending thread mem entry pending
      rw [List.getElem?_append_left (List.getElem?_eq_some_iff.mp found).1]
      exact found
    · cases pending
      simp

theorem Consistent.post {i ticket : Nat} {request : Option R} (consistent : Consistent s)
    (running : s.appenders[i]? = some (.posting ticket request)) :
    Consistent { s with
      queuestat := s.queuestat + 1
      accepted := s.accepted ++ [(ticket, request)]
      appenders := s.appenders.set i .outside } where
  workers := consistent.workers
  holders := by
    have before := consistent.holders
    have changed := total_set Appender.holds running .outside
    simp only [Appender.holds] at changed
    simp only
    omega
  matched := by
    have before := consistent.matched
    have changed := total_set Appender.owes running .outside
    simp only [Appender.owes, Appender.pending, Option.isSome_none, Option.isSome_some,
      Bool.false_eq_true, if_true, if_false] at changed
    simp only
    omega
  order := consistent.order
  tickets other := by
    have before := consistent.tickets other
    have changed := total_set (Appender.carries other) running .outside
    simp only [Appender.carries, Appender.pending, Option.map_none, Option.map_some,
      Option.some.injEq, reduceCtorEq, if_false] at changed
    simp only [List.map_append, List.map_cons, List.map_nil, List.count_append,
      List.count_singleton, beq_iff_eq]
    omega
  accepted entry mem := by
    rcases List.mem_append.mp mem with mem | mem
    · exact consistent.accepted entry mem
    · rw [List.mem_singleton.mp mem]
      exact consistent.pending _ (List.mem_of_getElem? running) _ rfl
  pending thread mem := by
    rcases List.mem_or_eq_of_mem_set mem with mem | rfl
    · exact consistent.pending thread mem
    · intro entry pending
      cases pending

theorem Consistent.appendStep {i : Nat} {thread : Appender R} (consistent : Consistent s)
    (running : s.appenders[i]? = some thread) (step : s.appendStep i thread = some t) :
    Consistent t := by
  cases thread with
  | outside => cases step
  | locking request =>
      simp only [Pool.appendStep, Option.ite_none_left_eq_some, Option.some.injEq] at step
      rcases step with ⟨free, rfl⟩
      apply consistent.appender running
      · simp [free, Appender.holds]
      · rfl
  | testing request =>
      simp only [Pool.appendStep] at step
      split at step <;> cases step
      · exact consistent.appender running rfl rfl
      · exact consistent.push running
  | refusing =>
      cases step
      apply consistent.appender running
      · simp [consistent.locked (.inl ⟨_, List.mem_of_getElem? running, rfl⟩), Appender.holds]
      · rfl
  | unlocking ticket request =>
      cases step
      apply consistent.appender running
      · simp [consistent.locked (.inl ⟨_, List.mem_of_getElem? running, rfl⟩), Appender.holds]
      · rfl
  | posting ticket request =>
      cases step
      exact consistent.post running

theorem Consistent.runStep {i : Nat} {thread : Worker R} (consistent : Consistent s)
    (running : s.workers[i]? = some thread) (step : s.runStep i thread = some t) :
    Consistent t := by
  cases thread with
  | waiting =>
      simp only [Pool.runStep, Option.ite_none_left_eq_some, Option.some.injEq] at step
      rcases step with ⟨positive, rfl⟩
      apply consistent.worker running
      · rfl
      · exact consistent.order
      · right
        simp only [Worker.comes]
        omega
  | locking =>
      simp only [Pool.runStep, Option.ite_none_left_eq_some, Option.some.injEq] at step
      rcases step with ⟨free, rfl⟩
      apply consistent.worker running
      · simp [free, Worker.holds]
      · exact consistent.order
      · exact .inr (Nat.le_refl _)
  | testing =>
      simp only [Pool.runStep] at step
      split at step <;> cases step
      · rename_i empty
        exact consistent.worker running rfl consistent.order (.inl empty)
      · rename_i request workqueue queue
        apply consistent.worker running
        · rfl
        · simp [consistent.order, queue]
        · right
          simp only [queue, List.length_cons, Worker.comes]
          omega
  | unlocking removed =>
      cases step
      apply consistent.worker running
      · have after : (Pool.afterUnlock removed).holds = 0 := by
          rcases removed with _ | _ | request <;> rfl
        rw [after, consistent.locked (.inr ⟨_, List.mem_of_getElem? running, rfl⟩)]
        rfl
      · exact consistent.order
      · exact .inr (Nat.le_add_right _ _)
  | processing request =>
      cases step
      exact consistent.worker running rfl consistent.order (.inr (Nat.le_refl _))

/-- Every step keeps the invariant. -/
theorem next_consistent {event : Event R} (consistent : Consistent s)
    (step : s.next event = some t) : Consistent t := by
  cases event with
  | call i request =>
      simp only [next] at step
      split at step
      · rename_i running
        cases step
        exact consistent.appender running rfl rfl
      · contradiction
  | append i =>
      rcases Option.bind_eq_some_iff.mp step with ⟨thread, running, step⟩
      exact consistent.appendStep running step
  | run i =>
      rcases Option.bind_eq_some_iff.mp step with ⟨thread, running, step⟩
      exact consistent.runStep running step
  | interrupt i =>
      simp only [next] at step
      split at step
      · rename_i running
        cases step
        exact consistent.worker running rfl consistent.order
          (.inr (Nat.add_le_add_left (Nat.zero_le _) _))
      · contradiction

theorem create_consistent {threadNumber maxRequests : Int} {appenders : Nat}
    (created : create threadNumber maxRequests appenders = some s) : Consistent s := by
  simp only [create, Option.ite_none_left_eq_some, Option.some.injEq, not_or, Int.not_le] at created
  rcases created with ⟨⟨positive, -⟩, rfl⟩
  constructor
  · simp only [ne_eq, List.replicate_eq_nil_iff]
    omega
  · simp [Appender.holds, Worker.holds]
  · simp
  · rfl
  · simp [Appender.carries, Appender.pending]
  · simp
  · intro thread mem
    rw [List.eq_of_mem_replicate mem]
    intro entry pending
    cases pending

/-! ## Idle pools -/

theorem Consistent.once (consistent : Consistent s) : (s.accepted.map Prod.fst).Nodup := by
  apply List.nodup_iff_count_le_one.mpr
  intro ticket
  have tickets := consistent.tickets ticket
  split at tickets <;> omega

theorem Consistent.idle (consistent : Consistent s) (blocked : s.Blocked) (posted : s.Posted) :
    s.workqueue = [] := by
  have matched := consistent.matched
  have noWorker : total Worker.comes s.workers = 0 := by
    apply total_eq_zero_iff.mpr
    intro worker mem
    rw [(blocked worker mem).1]
    rfl
  have noAppender : total Appender.owes s.appenders = 0 := by
    apply total_eq_zero_iff.mpr
    intro appender mem
    simp [Appender.owes, posted appender mem]
  rcases List.exists_mem_of_ne_nil _ consistent.workers with ⟨worker, mem⟩
  have noPost := (blocked worker mem).2
  exact List.eq_nil_of_length_eq_zero (by omega)

/-! ## Threads left to themselves -/

theorem appendStep_work {i : Nat} {thread : Appender R} (running : s.appenders[i]? = some thread)
    (step : s.appendStep i thread = some t) : t.work < s.work := by
  have changed := total_set Appender.work running
  cases thread with
  | outside => cases step
  | locking request =>
      simp only [Pool.appendStep, Option.ite_none_left_eq_some, Option.some.injEq] at step
      rcases step with ⟨-, rfl⟩
      have changed := changed (.testing request)
      simp only [work, Appender.work] at changed ⊢
      omega
  | testing request =>
      simp only [Pool.appendStep] at step
      split at step <;> cases step
      · have changed := changed .refusing
        simp only [work, Appender.work] at changed ⊢
        omega
      · have changed := changed (.unlocking s.pushed.length request)
        simp only [work, Appender.work] at changed ⊢
        omega
  | refusing =>
      cases step
      have changed := changed .outside
      simp only [work, Appender.work] at changed ⊢
      omega
  | unlocking ticket request =>
      cases step
      have changed := changed (.posting ticket request)
      simp only [work, Appender.work] at changed ⊢
      omega
  | posting ticket request =>
      cases step
      have changed := changed .outside
      simp only [work, Appender.work] at changed ⊢
      omega

theorem afterUnlock_work (removed : Option (Option R)) : (afterUnlock removed).work ≤ 1 := by
  rcases removed with _ | _ | request
  · exact Nat.zero_le _
  · exact Nat.zero_le _
  · exact Nat.le_refl _

theorem runStep_work {i : Nat} {thread : Worker R} (running : s.workers[i]? = some thread)
    (step : s.runStep i thread = some t) : t.work < s.work := by
  have changed := total_set Worker.work running
  cases thread with
  | waiting =>
      simp only [Pool.runStep, Option.ite_none_left_eq_some, Option.some.injEq] at step
      rcases step with ⟨positive, rfl⟩
      have changed := changed .locking
      simp only [work, Worker.work] at changed ⊢
      omega
  | locking =>
      simp only [Pool.runStep, Option.ite_none_left_eq_some, Option.some.injEq] at step
      rcases step with ⟨-, rfl⟩
      have changed := changed .testing
      simp only [work, Worker.work] at changed ⊢
      omega
  | testing =>
      simp only [Pool.runStep] at step
      split at step <;> cases step
      · have changed := changed (.unlocking none)
        simp only [work, Worker.work] at changed ⊢
        omega
      · rename_i request workqueue queue
        have changed := changed (.unlocking (some request))
        simp only [work, Worker.work] at changed ⊢
        omega
  | unlocking removed =>
      cases step
      have changed := changed (afterUnlock removed)
      have after := afterUnlock_work removed
      simp only [Worker.work] at changed
      simp only [work]
      simp only [Worker.work] at after ⊢
      omega
  | processing request =>
      cases step
      have changed := changed .waiting
      simp only [work, Worker.work] at changed ⊢
      omega

/-- Every statement that continues a call is one less to come. -/
theorem next_work {event : Event R} (continues : event.Continues) (step : s.next event = some t) :
    t.work < s.work := by
  cases event with
  | call i request | interrupt i => cases continues
  | append i =>
      rcases Option.bind_eq_some_iff.mp step with ⟨thread, running, step⟩
      exact appendStep_work running step
  | run i =>
      rcases Option.bind_eq_some_iff.mp step with ⟨thread, running, step⟩
      exact runStep_work running step

theorem length_le_work {events : List (Event R)} (finished : run next s events = some t)
    (continues : ∀ event ∈ events, event.Continues) : events.length ≤ s.work := by
  induction events generalizing s with
  | nil => exact Nat.zero_le _
  | cons event events ih =>
      rcases (run_cons_eq_some_iff _ _ _ _ _).mp finished with ⟨middle, step, rest⟩
      have less := next_work (continues event List.mem_cons_self) step
      have bound := ih rest fun other mem => continues other (List.mem_cons_of_mem _ mem)
      rw [List.length_cons]
      omega

/-- Without a thread that can go on, the mutex is free. -/
theorem Consistent.free (consistent : Consistent s)
    (stuck : ∀ event, event.Continues → s.next event = none) : s.queuelocker = false := by
  by_contra locked
  have holders := consistent.holders
  rw [if_pos (by simpa using locked)] at holders
  by_cases appenders : total Appender.holds s.appenders = 0
  · have positive : 0 < total Worker.holds s.workers := by omega
    rcases exists_of_total_pos positive with ⟨i, thread, running, holds⟩
    have halted := stuck (.run i) trivial
    rw [next, running, Option.bind_some] at halted
    cases thread with
    | testing =>
        simp only [Pool.runStep] at halted
        split at halted <;> cases halted
    | unlocking removed => cases halted
    | waiting | locking | processing => cases holds
  · rcases exists_of_total_pos (Nat.pos_of_ne_zero appenders) with ⟨i, thread, running, holds⟩
    have halted := stuck (.append i) trivial
    rw [next, running, Option.bind_some] at halted
    cases thread with
    | testing request =>
        simp only [Pool.appendStep] at halted
        split at halted <;> cases halted
    | refusing | unlocking => cases halted
    | outside | locking | posting => cases holds

/-- Threads that cannot go on are outside of `append`, or blocked. -/
theorem Consistent.settled (consistent : Consistent s)
    (stuck : ∀ event, event.Continues → s.next event = none) : s.Blocked ∧ s.Posted := by
  have free := consistent.free stuck
  constructor
  · intro worker mem
    rcases List.getElem?_of_mem mem with ⟨i, running⟩
    have halted := stuck (.run i) trivial
    rw [next, running, Option.bind_some] at halted
    cases worker with
    | waiting =>
        simp only [Pool.runStep] at halted
        split at halted
        · rename_i zero
          exact ⟨rfl, zero⟩
        · cases halted
    | locking =>
        simp only [Pool.runStep, free, Bool.false_eq_true, if_false] at halted
        cases halted
    | testing =>
        simp only [Pool.runStep] at halted
        split at halted <;> cases halted
    | unlocking | processing => cases halted
  · intro appender mem
    rcases List.getElem?_of_mem mem with ⟨i, running⟩
    have halted := stuck (.append i) trivial
    rw [next, running, Option.bind_some] at halted
    cases appender with
    | outside | locking | testing | refusing => rfl
    | unlocking | posting => cases halted

/-! ## Requests over time -/

theorem appendStep_accepted {i : Nat} {thread : Appender R}
    (step : s.appendStep i thread = some t) : s.accepted <+: t.accepted := by
  cases thread with
  | outside => cases step
  | locking request =>
      simp only [appendStep, Option.ite_none_left_eq_some, Option.some.injEq] at step
      rcases step with ⟨-, rfl⟩
      exact List.prefix_rfl
  | testing request =>
      simp only [appendStep] at step
      split at step <;> cases step <;> exact List.prefix_rfl
  | refusing | unlocking =>
      cases step
      exact List.prefix_rfl
  | posting ticket request =>
      cases step
      exact List.prefix_append _ _

theorem runStep_accepted {i : Nat} {thread : Worker R} (step : s.runStep i thread = some t) :
    t.accepted = s.accepted := by
  cases thread with
  | waiting | locking =>
      simp only [runStep, Option.ite_none_left_eq_some, Option.some.injEq] at step
      rcases step with ⟨-, rfl⟩
      rfl
  | testing =>
      simp only [runStep] at step
      split at step <;> cases step <;> rfl
  | unlocking | processing =>
      cases step
      rfl

/-- A call that has returned stays accepted. -/
theorem next_accepted {event : Event R} (step : s.next event = some t) :
    s.accepted <+: t.accepted := by
  cases event with
  | call i request | interrupt i =>
      simp only [next] at step
      split at step
      · cases step
        exact List.prefix_rfl
      · contradiction
  | append i =>
      rcases Option.bind_eq_some_iff.mp step with ⟨thread, running, step⟩
      exact appendStep_accepted step
  | run i =>
      rcases Option.bind_eq_some_iff.mp step with ⟨thread, running, step⟩
      have same := runStep_accepted step
      exact same ▸ List.prefix_rfl

theorem run_accepted {events : List (Event R)} (finished : run next s events = some t) :
    s.accepted <+: t.accepted := by
  have kept : ∀ ⦃middle event last⦄, s.accepted <+: middle.accepted →
      next middle event = some last → s.accepted <+: last.accepted := by
    intro middle event last before step
    exact before.trans (next_accepted step)
  exact invariant_run kept List.prefix_rfl finished

/-- When the threads have come to an end, every accepted request has been removed. -/
theorem Consistent.removed (consistent : Consistent s)
    (stuck : ∀ event, event.Continues → s.next event = none) {entry : Nat × Option R}
    (mem : entry ∈ s.accepted) :
    ∃ worker, s.popped[entry.1]? = some (worker, entry.2) := by
  rcases consistent.settled stuck with ⟨blocked, posted⟩
  have order := consistent.order
  rw [consistent.idle blocked posted, List.append_nil] at order
  have pushed := consistent.accepted entry mem
  rw [order, List.getElem?_map] at pushed
  rcases Option.map_eq_some_iff.mp pushed with ⟨⟨worker, request⟩, popped, rfl⟩
  exact ⟨worker, popped⟩

/-- In every run of a pool, the hand-off works. -/
theorem handedOff_of_run {threadNumber maxRequests : Int} {appenders : Nat}
    {events : List (Event R)} (created : create threadNumber maxRequests appenders = some s)
    (finished : run next s events = some t) : HandedOff t := by
  have consistent : Consistent t :=
    invariant_run (fun _ _ _ => next_consistent) (create_consistent created) finished
  constructor
  · exact consistent.order
  · exact consistent.accepted
  · exact consistent.once
  · exact consistent.idle
  · intro more u continued continues
    constructor
    · exact length_le_work continued continues
    · intro stuck entry mem
      have last : Consistent u := invariant_run (fun _ _ _ => next_consistent) consistent continued
      exact last.removed stuck ((run_accepted continued).subset mem)

end Steps

/-- Two requests, of which the first one is taken by a worker that no post has woken
up. -/
def earlyWorker : List (Event Nat) :=
  [.call 0 (some 7), .append 0, .append 0, .interrupt 1, .append 0, .run 1, .run 1, .run 1,
    .append 0, .call 0 (some 8), .run 0, .append 0, .append 0, .append 0, .append 0, .run 0]

theorem handedOff_earlyWorker : ∃ s t,
    create 2 10000 1 = some s ∧ run next s earlyWorker = some t ∧ HandedOff t := by
  have created : ∃ s : Pool Nat, create 2 10000 1 = some s ∧ (run next s earlyWorker).isSome :=
    ⟨_, rfl, rfl⟩
  rcases created with ⟨s, created, finished⟩
  rcases Option.isSome_iff_exists.mp finished with ⟨t, finished⟩
  exact ⟨s, t, created, finished, handedOff_of_run created finished⟩

end Pool

end NetPractice.ThreadPool
