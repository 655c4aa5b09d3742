import NetPractice.ThreadPool.Core

/-!
# The capacity of the request queue

`append` refuses a request when the queue is longer than `m_max_requests`, so that the
queue can grow one request beyond it.
-/

namespace NetPractice.ThreadPool

open NetPractice.Transition

universe u

variable {R : Type u}

/-- The call has locked the mutex and looks at the queue next. -/
def Appender.tests : Appender R → Bool
  | .testing _ => true
  | .outside | .locking _ | .refusing | .unlocking _ _ | .posting _ _ => false

namespace Pool

variable {s t : Pool R}

/-- The queue is bounded: it never has more than `m_max_requests` requests, and a call
is refused only when it has this number; refusing it leaves the queue and the semaphore
alone. -/
structure Bounded (s : Pool R) : Prop where
  size : s.workqueue.length ≤ s.maxRequests
  full : Appender.refusing ∈ s.appenders → s.workqueue.length = s.maxRequests
  unchanged : ∀ i t, s.next (.append i) = some t →
    s.appenders[i]? = some .refusing ∨ t.appenders[i]? = some .refusing →
      t.workqueue = s.workqueue ∧ t.queuestat = s.queuestat

/-- The step is the look of a call at the queue. -/
def testsQueue (s : Pool R) : Event R → Bool
  | .append i => s.appenders[i]?.any Appender.tests
  | .call _ _ | .run _ | .interrupt _ => false

/-- A call that looks at the queue finds less than `m_max_requests` requests. -/
def NotFull (s : Pool R) (event : Event R) : Prop :=
  s.testsQueue event = true → s.workqueue.length < s.maxRequests

instance (s : Pool R) (event : Event R) : Decidable (s.NotFull event) :=
  inferInstanceAs (Decidable (s.testsQueue event = true → s.workqueue.length < s.maxRequests))

/-- A refused call changes the mutex and its own place in `append` only. -/
theorem refusal_unchanged {i : Nat} (step : s.next (.append i) = some t)
    (refused : s.appenders[i]? = some .refusing ∨ t.appenders[i]? = some .refusing) :
    t.workqueue = s.workqueue ∧ t.queuestat = s.queuestat := by
  rcases Option.bind_eq_some_iff.mp step with ⟨thread, running, step⟩
  have inside := (List.getElem?_eq_some_iff.mp running).1
  rw [running] at refused
  cases thread with
  | outside => cases step
  | locking request =>
      rcases refused_eq_some_iff.mp step with ⟨-, rfl⟩
      exact ⟨rfl, rfl⟩
  | testing request =>
      simp only [appendStep] at step
      split at step <;> cases step
      · exact ⟨rfl, rfl⟩
      · simp [inside] at refused
  | refusing =>
      cases step
      exact ⟨rfl, rfl⟩
  | unlocking ticket request =>
      cases step
      exact ⟨rfl, rfl⟩
  | posting ticket request =>
      cases step
      simp [inside] at refused

/-- Only a call that looks at the queue makes it longer or is refused. -/
theorem queue_step {event : Event R} (other : s.testsQueue event = false)
    (step : s.next event = some t) :
    t.maxRequests = s.maxRequests ∧ t.workqueue.length ≤ s.workqueue.length ∧
      (Appender.refusing ∈ t.appenders → Appender.refusing ∈ s.appenders) := by
  have set_mem : ∀ {i : Nat} {thread : Appender R}, thread ≠ .refusing →
      Appender.refusing ∈ s.appenders.set i thread → Appender.refusing ∈ s.appenders := by
    intro i thread different mem
    rcases List.mem_or_eq_of_mem_set mem with mem | equal
    · exact mem
    · exact absurd equal.symm different
  cases event with
  | call i request =>
      simp only [next] at step
      split at step <;> cases step
      exact ⟨rfl, Nat.le_refl _, set_mem (by simp)⟩
  | append i =>
      rcases Option.bind_eq_some_iff.mp step with ⟨thread, running, step⟩
      cases thread with
      | outside => cases step
      | locking request =>
          rcases refused_eq_some_iff.mp step with ⟨-, rfl⟩
          exact ⟨rfl, Nat.le_refl _, set_mem (by simp)⟩
      | testing request =>
          rw [testsQueue, running] at other
          cases other
      | refusing | unlocking ticket request | posting ticket request =>
          cases step
          exact ⟨rfl, Nat.le_refl _, set_mem (by simp)⟩
  | run i =>
      rcases Option.bind_eq_some_iff.mp step with ⟨thread, running, step⟩
      cases thread with
      | waiting | locking =>
          rcases refused_eq_some_iff.mp step with ⟨-, rfl⟩
          exact ⟨rfl, Nat.le_refl _, id⟩
      | testing =>
          simp only [runStep] at step
          split at step <;> cases step
          · exact ⟨rfl, Nat.le_refl _, id⟩
          · rename_i request workqueue queue
            refine ⟨rfl, ?_, id⟩
            rw [queue]
            exact Nat.le_succ _
      | unlocking removed | processing request =>
          cases step
          exact ⟨rfl, Nat.le_refl _, id⟩
  | interrupt i =>
      simp only [next] at step
      split at step <;> cases step
      exact ⟨rfl, Nat.le_refl _, id⟩

/-- A call that looks at the queue pushes its request, unless the queue is longer than
`m_max_requests`. -/
theorem queue_test {event : Event R} (tests : s.testsQueue event = true)
    (step : s.next event = some t) :
    t.maxRequests = s.maxRequests ∧
      (s.maxRequests < s.workqueue.length ∧ t.workqueue = s.workqueue ∨
        s.workqueue.length ≤ s.maxRequests ∧ t.workqueue.length = s.workqueue.length + 1 ∧
          (Appender.refusing ∈ t.appenders → Appender.refusing ∈ s.appenders)) := by
  cases event with
  | append i =>
      rcases Option.bind_eq_some_iff.mp step with ⟨thread, running, step⟩
      rw [testsQueue, running] at tests
      cases thread with
      | testing request =>
          simp only [appendStep] at step
          split at step <;> cases step
          · rename_i longer
            exact ⟨rfl, .inl ⟨longer, rfl⟩⟩
          · rename_i fits
            refine ⟨rfl, .inr ⟨Nat.le_of_not_lt fits, by simp, ?_⟩⟩
            intro mem
            rcases List.mem_or_eq_of_mem_set mem with mem | equal
            · exact mem
            · cases equal
      | outside | locking _ | refusing | unlocking _ _ | posting _ _ => cases tests
  | call _ _ | run _ | interrupt _ => cases tests

/-- The bound that the code keeps. -/
theorem queue_le_succ {events : List (Event R)}
    (start : s.workqueue.length ≤ s.maxRequests + 1)
    (finished : run next s events = some t) : t.workqueue.length ≤ t.maxRequests + 1 := by
  induction events generalizing s with
  | nil =>
      cases finished
      exact start
  | cons event events ih =>
      rcases (run_cons_eq_some_iff _ _ _ _ _).mp finished with ⟨middle, step, rest⟩
      apply ih _ rest
      cases tests : s.testsQueue event with
      | false =>
          rcases queue_step tests step with ⟨max_eq, shorter, -⟩
          rw [max_eq]
          exact Nat.le_trans shorter start
      | true =>
          rcases queue_test tests step with ⟨max_eq, ⟨-, same⟩ | ⟨fits, grown, -⟩⟩
          · rwa [same, max_eq]
          · rw [grown, max_eq]
            exact Nat.succ_le_succ fits

/-- No call has been refused, and the queue is within its bound. -/
structure Admitting (s : Pool R) : Prop where
  size : s.workqueue.length ≤ s.maxRequests
  accepts : Appender.refusing ∉ s.appenders

theorem Admitting.bounded (admitting : Admitting s) : Bounded s where
  size := admitting.size
  full refused := absurd refused admitting.accepts
  unchanged _ _ step refused := refusal_unchanged step refused

theorem admitting_preserves : Preserves (next (R := R)) NotFull Admitting := by
  intro s event t admitting guarded step
  cases tests : s.testsQueue event with
  | false =>
      rcases queue_step tests step with ⟨max_eq, shorter, kept⟩
      constructor
      · rw [max_eq]
        exact Nat.le_trans shorter admitting.size
      · exact fun refused => admitting.accepts (kept refused)
  | true =>
      have room := guarded tests
      rcases queue_test tests step with ⟨max_eq, ⟨longer, -⟩ | ⟨-, grown, kept⟩⟩
      · exact absurd longer (Nat.lt_asymm room)
      · constructor
        · rw [max_eq, grown]
          exact room
        · exact fun refused => admitting.accepts (kept refused)

/-- A call that finds the queue full pushes its request nevertheless. -/
theorem Admitting.overflows {event : Event R} (admitting : Admitting s)
    (full : ¬ s.NotFull event) (step : s.next event = some t) : ¬ Bounded t := by
  intro bounded
  rw [NotFull, Classical.not_imp, Nat.not_lt] at full
  rcases full with ⟨tests, full⟩
  rcases queue_test tests step with ⟨max_eq, ⟨longer, -⟩ | ⟨-, grown, -⟩⟩
  · exact absurd longer (Nat.not_lt.mpr admitting.size)
  · have size := bounded.size
    rw [max_eq, grown] at size
    exact Nat.not_succ_le_self _ (Nat.le_trans size full)

/-- For every number of workers, every bound, every number of calling threads and every
interleaving, the queue is bounded throughout a run exactly when no call finds
`m_max_requests` requests in it. -/
theorem along_bounded_iff_notFull {threadNumber maxRequests : Int} {appenders : Nat}
    {start : Pool R} (created : create threadNumber maxRequests appenders = some start)
    {events : List (Event R)} (possible : (run next start events).isSome) :
    Along next Bounded start events ↔ Meets next NotFull start events := by
  have admitting : Admitting start := by
    rw [create, refused_eq_some_iff] at created
    rcases created with ⟨-, rfl⟩
    constructor
    · exact Nat.zero_le _
    · intro mem
      cases List.eq_of_mem_replicate mem
  exact along_iff_meets_of_isSome admitting_preserves (fun _ => Admitting.bounded)
    (fun _ _ _ admitting full step => admitting.overflows full step) admitting possible

/-- One worker and one calling thread with room for a single request. -/
def single : Pool Unit where
  maxRequests := 1
  workqueue := []
  queuelocker := false
  queuestat := 0
  appenders := [.outside]
  workers := [.waiting]
  pushed := []
  popped := []
  accepted := []

/-- Two requests, of which the first is removed before the second is pushed. -/
theorem along_bounded_single :
    Along next Bounded single
      [.call 0 (some ()), .append 0, .append 0, .append 0, .append 0, .run 0, .run 0, .run 0,
        .call 0 (some ()), .run 0, .append 0, .append 0, .append 0] :=
  have created : create 1 1 1 = some single := rfl
  (along_bounded_iff_notFull created (by decide)).mpr (by decide)

/-- Two requests while the worker waits: both are accepted. -/
theorem single_holds_two :
    create 1 1 1 = some single ∧
      ¬ Along next Bounded single
        [.call 0 (some ()), .append 0, .append 0, .append 0, .append 0,
          .call 0 (some ()), .append 0, .append 0, .append 0, .append 0] := by
  refine ⟨rfl, fun along => ?_⟩
  have filled : (run next single
      [.call 0 (some ()), .append 0, .append 0, .append 0, .append 0,
        .call 0 (some ()), .append 0, .append 0, .append 0, .append 0]).map
      (fun pool => (pool.workqueue.length, pool.accepted.length, pool.maxRequests)) =
        some (2, 2, 1) := by
    decide
  rcases Option.map_eq_some_iff.mp filled with ⟨pool, finished, sizes⟩
  have bounded := (along.last finished).size
  rw [Prod.mk.injEq, Prod.mk.injEq] at sizes
  rw [sizes.1, sizes.2.2] at bounded
  exact absurd bounded (by decide)

end Pool

end NetPractice.ThreadPool
