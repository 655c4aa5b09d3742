import NetPractice.ThreadPool.Lifetime

/-!
# All or nothing

Nothing stops a worker before the destructor sets `m_stop`.  A constructor that has
started one therefore leaves it behind when it throws, and the destructor, which does
not wait for the workers, leaves those behind that are in the body of the loop.
-/

namespace NetPractice.ThreadPool

open NetPractice.Transition

universe u

variable {R : Type u}

/-! ## What the pool's own steps do to its workers -/

namespace Pool

variable {s t : Pool R}

theorem call_workers {i : Nat} {request : Option R}
    (step : s.next (.call i request) = some t) : t.workers = s.workers := by
  simp only [next] at step
  split at step <;> cases step
  rfl

theorem append_workers {i : Nat} (step : s.next (.append i) = some t) :
    t.workers = s.workers := by
  rcases Option.bind_eq_some_iff.mp step with ⟨thread, -, step⟩
  cases thread with
  | outside => cases step
  | locking request =>
      rcases refused_eq_some_iff.mp step with ⟨-, rfl⟩
      rfl
  | testing request =>
      simp only [appendStep] at step
      split at step <;> cases step <;> rfl
  | refusing | unlocking ticket request | posting ticket request =>
      cases step
      rfl

/-- A worker moves, and behind `process` it is at the beginning of the body. -/
theorem run_workers {i : Nat} (step : s.next (.run i) = some t) :
    ∃ old new, s.workers[i]? = some old ∧ t.workers = s.workers.set i new ∧
      (old.accesses = false → new = .waiting) := by
  rcases Option.bind_eq_some_iff.mp step with ⟨old, running, step⟩
  cases old with
  | waiting | locking =>
      rcases refused_eq_some_iff.mp step with ⟨-, rfl⟩
      exact ⟨_, _, running, rfl, nofun⟩
  | testing =>
      simp only [runStep] at step
      split at step <;> cases step <;> exact ⟨_, _, running, rfl, nofun⟩
  | unlocking removed =>
      cases step
      exact ⟨_, _, running, rfl, nofun⟩
  | processing request =>
      cases step
      exact ⟨_, _, running, rfl, fun _ => rfl⟩

theorem interrupt_workers {i : Nat} (step : s.next (.interrupt i) = some t) :
    t.workers = s.workers.set i .locking := by
  simp only [next] at step
  split at step <;> cases step
  rfl

end Pool

/-! ## The invariant -/

namespace Owner

/-- How many workers have been started, as far as the owner's place tells. -/
def started (threadNumber : Nat) : Owner → Option Nat
  | .allocating | .thrown => some 0
  | .creating i => some i
  | .detaching i => some (i + 1)
  | .built => some threadNumber
  | .stopping | .destroyed => none

/-- The counter of the constructor's loop. -/
def position : Owner → Option Nat
  | .allocating => some 0
  | .creating i | .detaching i => some i
  | .built | .stopping | .thrown | .destroyed => none

/-- The members are constructed. -/
def alive : Owner → Bool
  | .thrown | .destroyed => false
  | .allocating | .creating _ | .detaching _ | .built | .stopping => true

/-- `m_threads` is allocated. -/
def keeps : Owner → Bool
  | .creating _ | .detaching _ | .built => true
  | .allocating | .stopping | .thrown | .destroyed => false

/-- `m_stop` is set. -/
def stops : Owner → Bool
  | .stopping | .destroyed => true
  | .allocating | .creating _ | .detaching _ | .built | .thrown => false

end Owner

namespace Lifetime

/-- What holds as long as the pool is used in an orderly way. -/
structure Sound (s : Lifetime R) : Prop where
  paired : s.pool.workers.length = s.threads.length
  members : s.members = s.owner.alive
  array : s.array = s.owner.keeps
  stop : s.stop = s.owner.stops
  started : ∀ n ∈ s.owner.started s.threadNumber, s.threads.length = n
  bound : ∀ i ∈ s.owner.position, i < s.threadNumber
  detached : ∀ (i : Nat) (thread : Thread), s.threads[i]? = some thread →
    s.owner ≠ .detaching i → thread.detached = true
  running : s.owner.stops = false → ∀ thread ∈ s.threads, thread.stage ≠ .left
  begins : ∀ (i : Nat) (thread : Thread), s.threads[i]? = some thread →
    thread.stage = .test → s.pool.workers[i]? = some .waiting
  quiet : s.owner = .destroyed → ∀ i, s.accesses i = false

variable {s t : Lifetime R}

theorem Sound.allOrNothing (sound : Sound s) : AllOrNothing s where
  thrown thrown := by
    have empty : s.threads = [] := by
      apply List.eq_nil_of_length_eq_zero
      apply sound.started
      rw [thrown]
      rfl
    rw [sound.array, sound.members, thrown, empty]
    exact ⟨rfl, rfl, nofun⟩
  built built := by
    constructor
    · apply sound.started
      rw [built]
      rfl
    · intro thread mem
      constructor
      · apply sound.running _ thread mem
        rw [built]
        rfl
      · rcases List.getElem?_of_mem mem with ⟨i, found⟩
        apply sound.detached i thread found
        rw [built]
        nofun
  destroyed destroyed := by
    refine ⟨?_, ?_, sound.quiet destroyed⟩
    · rw [sound.array, destroyed]
      rfl
    · rw [sound.members, destroyed]
      rfl

theorem construct_sound (threadNumber maxRequests : Int) (appenders : Nat) :
    Sound (construct threadNumber maxRequests appenders : Lifetime R) := by
  have nothing : ∀ i, (construct threadNumber maxRequests appenders : Lifetime R).accesses i =
      false := fun i => by
    simp [accesses, construct]
  by_cases refused : threadNumber ≤ 0 ∨ maxRequests ≤ 0
  · constructor <;> simp [construct, refused, Owner.alive, Owner.keeps, Owner.stops,
      Owner.started, Owner.position]
  · have positive : 0 < threadNumber := by omega
    constructor <;> simp [construct, refused, Owner.alive, Owner.keeps, Owner.stops,
      Owner.started, Owner.position, positive]

/-- Whether a worker uses the members depends on this worker only. -/
theorem accesses_congr {i : Nat} (threads : t.threads[i]? = s.threads[i]?)
    (workers : t.pool.workers[i]? = s.pool.workers[i]?) : t.accesses i = s.accesses i := by
  rw [accesses, accesses, threads, workers]

/-- A step of the threads inside the pool that leaves all workers in their places. -/
theorem Sound.elsewhere {pool : Pool R} (sound : Sound s)
    (workers : pool.workers = s.pool.workers) : Sound { s with pool := pool } where
  paired := workers ▸ sound.paired
  members := sound.members
  array := sound.array
  stop := sound.stop
  started := sound.started
  bound := sound.bound
  detached := sound.detached
  running := sound.running
  begins := by
    rw [workers]
    exact sound.begins
  quiet destroyed i := by
    rw [← sound.quiet destroyed i]
    exact accesses_congr rfl (by rw [workers])

/-- A step of one worker. -/
theorem Sound.worker {i : Nat} {old : Thread} {stage : Stage} {pool : Pool R}
    (sound : Sound s) (found : s.threads[i]? = some old)
    (workers : pool.workers = s.pool.workers ∨
      ∃ new, pool.workers = s.pool.workers.set i new)
    (running : stage = .left → s.owner.stops = true)
    (begins : stage = .test → pool.workers[i]? = some .waiting)
    (quiet : s.owner = .destroyed → accesses { s with
      pool := pool
      threads := s.threads.set i ⟨stage, old.detached⟩ } i = false) :
    Sound { s with
      pool := pool
      threads := s.threads.set i ⟨stage, old.detached⟩ } := by
  have inside := (List.getElem?_eq_some_iff.mp found).1
  have others : ∀ j, i ≠ j → pool.workers[j]? = s.pool.workers[j]? := by
    intro j different
    rcases workers with same | ⟨new, changed⟩
    · rw [same]
    · rw [changed, List.getElem?_set_ne different]
  constructor
  · rw [List.length_set, ← sound.paired]
    rcases workers with same | ⟨new, changed⟩
    · rw [same]
    · rw [changed, List.length_set]
  · exact sound.members
  · exact sound.array
  · exact sound.stop
  · intro n mem
    rw [List.length_set]
    exact sound.started n mem
  · exact sound.bound
  · intro j thread threadFound notDetaching
    by_cases same : i = j
    · subst j
      rw [List.getElem?_set_self inside] at threadFound
      cases threadFound
      exact sound.detached i old found notDetaching
    · rw [List.getElem?_set_ne same] at threadFound
      exact sound.detached j thread threadFound notDetaching
  · intro notStopped thread mem
    rcases List.mem_or_eq_of_mem_set mem with mem | rfl
    · exact sound.running notStopped thread mem
    · intro left
      rw [running left] at notStopped
      cases notStopped
  · intro j thread threadFound atTest
    by_cases same : i = j
    · subst j
      rw [List.getElem?_set_self inside] at threadFound
      cases threadFound
      exact begins atTest
    · rw [List.getElem?_set_ne same] at threadFound
      exact (others j same).trans (sound.begins j thread threadFound atTest)
  · intro destroyed j
    by_cases same : i = j
    · subst j
      exact quiet destroyed
    · rw [← sound.quiet destroyed j]
      exact accesses_congr (List.getElem?_set_ne same) (others j same)

/-! ## The steps of the owner -/

/-- A constructor that has started no worker leaves nothing behind. -/
theorem Sound.throwing (sound : Sound s) (constructing : s.owner.stops = false)
    (empty : s.threads = []) : Sound s.throwing where
  paired := sound.paired
  members := rfl
  array := rfl
  stop := sound.stop.trans constructing
  started n mem := by
    cases mem
    exact congrArg List.length empty
  bound := nofun
  detached i thread found := by
    rw [Lifetime.throwing, empty] at found
    cases found
  running _ thread mem := by
    rw [Lifetime.throwing, empty] at mem
    cases mem
  begins := sound.begins
  quiet := nofun

theorem Sound.allocate (sound : Sound s) (allocating : s.owner = .allocating) :
    Sound { s with owner := .creating 0, array := true } := by
  have started := sound.started
  have bound := sound.bound
  have stop := sound.stop
  have running := sound.running
  have members := sound.members
  rw [allocating] at started bound stop running members
  exact ⟨sound.paired, members, rfl, stop, started, bound, fun i thread found _ =>
    sound.detached i thread found (by rw [allocating]; nofun), running, sound.begins, nofun⟩

/-- A new worker begins with the test of `m_stop`. -/
theorem Sound.create {i : Nat} (sound : Sound s) (creating : s.owner = .creating i) :
    Sound { s with
      owner := .detaching i
      threads := s.threads ++ [⟨.test, false⟩]
      pool := { s.pool with workers := s.pool.workers ++ [.waiting] } } := by
  have count : s.threads.length = i := by
    apply sound.started
    rw [creating]
    rfl
  have bound := sound.bound
  have stop := sound.stop
  have array := sound.array
  have members := sound.members
  have running := sound.running
  rw [creating] at bound stop array members running
  constructor
  · simp [sound.paired]
  · exact members
  · exact array
  · exact stop
  · rintro n ⟨⟩
    simp [count]
  · exact bound
  · intro j thread found notThis
    rcases Nat.lt_or_ge j s.threads.length with old | new
    · rw [List.getElem?_append_left old] at found
      exact sound.detached j thread found (by rw [creating]; nofun)
    · have inside := (List.getElem?_eq_some_iff.mp found).1
      rw [List.length_append, List.length_singleton] at inside
      obtain rfl : j = i := by omega
      exact absurd rfl notThis
  · intro _ thread mem
    rcases List.mem_append.mp mem with mem | mem
    · exact running rfl thread mem
    · cases List.mem_singleton.mp mem
      nofun
  · intro j thread found atTest
    rcases Nat.lt_or_ge j s.threads.length with old | new
    · rw [List.getElem?_append_left old] at found
      rw [List.getElem?_append_left (sound.paired ▸ old)]
      exact sound.begins j thread found atTest
    · have inside := (List.getElem?_eq_some_iff.mp found).1
      rw [List.length_append, List.length_singleton] at inside
      obtain rfl : j = s.pool.workers.length := by
        rw [sound.paired]
        omega
      exact List.getElem?_concat_length
  · nofun

/-- The worker just started is detached, and the loop goes on or ends. -/
theorem Sound.detach {i : Nat} (sound : Sound s) (detaching : s.owner = .detaching i) :
    Sound { s with
      owner := if i + 1 < s.threadNumber then .creating (i + 1) else .built
      threads := s.threads.modify i fun thread => { thread with detached := true } } := by
  have count : s.threads.length = i + 1 := by
    apply sound.started
    rw [detaching]
    rfl
  have bound : i < s.threadNumber := by
    apply sound.bound
    rw [detaching]
    rfl
  have stop := sound.stop
  have array := sound.array
  have members := sound.members
  have running := sound.running
  rw [detaching] at stop array members running
  -- A worker has kept its stage, and has been detached now or before.
  have kept : ∀ (j : Nat) (thread : Thread),
      (s.threads.modify i fun thread => { thread with detached := true })[j]? = some thread →
      thread.detached = true ∧
        ∃ old, s.threads[j]? = some old ∧ thread.stage = old.stage := by
    intro j thread found
    rw [List.getElem?_modify] at found
    rcases Option.map_eq_some_iff.mp found with ⟨old, oldFound, rfl⟩
    by_cases same : i = j
    · rw [if_pos same]
      exact ⟨rfl, old, oldFound, rfl⟩
    · rw [if_neg same]
      have notThis : s.owner ≠ .detaching j := by
        rw [detaching]
        exact fun equal => same (Owner.detaching.inj equal)
      exact ⟨sound.detached j old oldFound notThis, old, oldFound, rfl⟩
  have running' : ∀ thread ∈ s.threads.modify i fun thread => { thread with detached := true },
      thread.stage ≠ .left := by
    intro thread mem
    rcases List.getElem?_of_mem mem with ⟨j, found⟩
    rcases (kept j thread found).2 with ⟨old, oldFound, stage_eq⟩
    rw [stage_eq]
    exact running rfl old (List.mem_of_getElem? oldFound)
  have begins : ∀ (j : Nat) (thread : Thread),
      (s.threads.modify i fun thread => { thread with detached := true })[j]? = some thread →
      thread.stage = .test → s.pool.workers[j]? = some .waiting := by
    intro j thread found atTest
    rcases (kept j thread found).2 with ⟨old, oldFound, stage_eq⟩
    exact sound.begins j old oldFound (stage_eq ▸ atTest)
  have paired : s.pool.workers.length =
      (s.threads.modify i fun thread => { thread with detached := true }).length := by
    rw [List.length_modify]
    exact sound.paired
  have length : (s.threads.modify i fun thread => { thread with detached := true }).length =
      i + 1 := by
    rw [List.length_modify]
    exact count
  by_cases more : i + 1 < s.threadNumber
  · rw [if_pos more]
    refine ⟨paired, members, array, stop, ?_, ?_, fun j thread found _ => (kept j thread found).1,
      fun _ => running', begins, nofun⟩
    · rintro n ⟨⟩
      exact length
    · rintro j ⟨⟩
      exact more
  · rw [if_neg more]
    refine ⟨paired, members, array, stop, ?_, nofun, fun j thread found _ =>
      (kept j thread found).1, fun _ => running', begins, nofun⟩
    rintro n ⟨⟩
    rw [length]
    exact Nat.le_antisymm bound (Nat.le_of_not_lt more)

theorem Sound.stopped (sound : Sound s) (built : s.owner = .built) :
    Sound { s with owner := .stopping, array := false, stop := true } := by
  have members := sound.members
  rw [built] at members
  exact ⟨sound.paired, members, rfl, rfl, nofun, nofun, fun i thread found _ =>
    sound.detached i thread found (by rw [built]; nofun), nofun, sound.begins, nofun⟩

/-- The destructor returns while no worker uses what it destroys. -/
theorem Sound.destroy (sound : Sound s) (stopping : s.owner = .stopping)
    (free : ∀ i < s.threads.length, s.accesses i = false) :
    Sound { s with owner := .destroyed, members := false } := by
  have array := sound.array
  have stop := sound.stop
  rw [stopping] at array stop
  refine ⟨sound.paired, rfl, array, stop, nofun, nofun, fun i thread found _ =>
    sound.detached i thread found (by rw [stopping]; nofun), nofun, sound.begins, fun _ i => ?_⟩
  have same : accesses { s with owner := .destroyed, members := false } i = s.accesses i :=
    accesses_congr rfl rfl
  rw [same]
  rcases Nat.lt_or_ge i s.threads.length with inside | outside
  · exact free i inside
  · rw [accesses, List.getElem?_eq_none outside]

/-! ## The steps of the workers -/

/-- A worker has nothing of the pool in hand when it is not in the loop's body. -/
theorem accesses_of_stage {i : Nat} {thread : Thread} (found : s.threads[i]? = some thread)
    (outside : thread.stage ≠ .body) : s.accesses i = false := by
  rcases thread with ⟨stage, detached⟩
  rw [accesses, found]
  cases stage with
  | body => exact absurd rfl outside
  | test | left => rfl

theorem next_test_iff {i : Nat} {stop : Bool} :
    s.next (.test i stop) = some t ↔ ∃ detached, s.threads[i]? = some ⟨.test, detached⟩ ∧
      (s.members = true → stop = s.stop) ∧
      { s with threads := s.threads.set i ⟨if stop then .left else .body, detached⟩ } = t := by
  simp only [next]
  constructor
  · intro step
    split at step
    · rename_i detached found
      rcases refused_eq_some_iff.mp step with ⟨allowed, target⟩
      exact ⟨detached, found, fun alive => by_contra fun differs => allowed ⟨alive, differs⟩,
        target⟩
    · cases step
  · rintro ⟨detached, found, allowed, target⟩
    rw [found]
    exact refused_eq_some_iff.mpr ⟨fun ⟨alive, differs⟩ => differs (allowed alive), target⟩

theorem Sound.test {i : Nat} {stop : Bool} (sound : Sound s)
    (guarded : s.owner = .destroyed → stop = true) (step : s.next (.test i stop) = some t) :
    Sound t := by
  rcases next_test_iff.mp step with ⟨detached, found, allowed, rfl⟩
  apply sound.worker found (.inl rfl)
  · intro leaves
    have set : stop = true := by
      by_contra unset
      rw [if_neg unset] at leaves
      cases leaves
    cases owner : s.owner with
    | stopping | destroyed => rfl
    | allocating | creating _ | detaching _ | built =>
        have same := allowed (by rw [sound.members, owner]; rfl)
        rw [sound.stop, owner, set] at same
        cases same
    | thrown =>
        have empty := (sound.allOrNothing.thrown owner).2.2 _ (List.mem_of_getElem? found)
        cases empty.1
  · intro tests
    cases stop <;> cases tests
  · intro destroyed
    have inside := (List.getElem?_eq_some_iff.mp found).1
    apply accesses_of_stage (List.getElem?_set_self inside)
    rw [guarded destroyed]
    nofun

theorem Sound.run {i : Nat} (sound : Sound s) (step : s.next (.thread (.run i)) = some t) :
    Sound t := by
  simp only [next, threadStep] at step
  split at step
  · rename_i detached found
    rw [Option.ite_none_left_eq_some] at step
    rcases step with ⟨allowed, step⟩
    rcases Option.map_eq_some_iff.mp step with ⟨pool, poolStep, rfl⟩
    rcases Pool.run_workers poolStep with ⟨old, new, running, workers, behind⟩
    have insideThreads := (List.getElem?_eq_some_iff.mp found).1
    have insideWorkers := (List.getElem?_eq_some_iff.mp running).1
    have moved : pool.workers[i]? = some new := by
      rw [workers, List.getElem?_set_self insideWorkers]
    apply sound.worker found (.inr ⟨new, workers⟩)
    · intro leaves
      split at leaves <;> cases leaves
    · intro tests
      rw [moved] at tests ⊢
      cases new with
      | waiting => rfl
      | locking | testing | unlocking _ | processing _ => cases tests
    · intro destroyed
      have dead : s.members = false := by
        rw [sound.members, destroyed]
        rfl
      have free : old.accesses = false := by
        have free := sound.quiet destroyed i
        rwa [accesses, found, running] at free
      apply accesses_of_stage (List.getElem?_set_self insideThreads)
      rw [moved, behind free]
      nofun
  · cases step

theorem Sound.interrupt {i : Nat} (sound : Sound s)
    (step : s.next (.thread (.interrupt i)) = some t) : Sound t := by
  simp only [next, threadStep] at step
  split at step
  · rename_i detached found
    rw [Option.ite_none_right_eq_some] at step
    rcases step with ⟨alive, step⟩
    rcases Option.map_eq_some_iff.mp step with ⟨pool, poolStep, rfl⟩
    have same : s.threads.set i ⟨.body, detached⟩ = s.threads := by
      rcases List.getElem?_eq_some_iff.mp found with ⟨inside, equal⟩
      rw [← equal, List.set_getElem_self]
    have moved : Sound { s with
        pool := pool
        threads := s.threads.set i ⟨.body, detached⟩ } := by
      apply sound.worker found (.inr ⟨_, Pool.interrupt_workers poolStep⟩)
      · nofun
      · nofun
      · intro destroyed
        rw [sound.members, destroyed] at alive
        cases alive
    rwa [same] at moved
  · cases step

theorem Sound.call {event : Event R} (sound : Sound s)
    (outside : (∃ i request, event = .call i request) ∨ ∃ i, event = .append i)
    (step : s.next (.thread event) = some t) : Sound t := by
  rcases outside with ⟨i, request, rfl⟩ | ⟨i, rfl⟩
  · simp only [next, threadStep, Option.ite_none_right_eq_some] at step
    rcases step with ⟨-, step⟩
    rcases Option.map_eq_some_iff.mp step with ⟨pool, poolStep, rfl⟩
    exact sound.elsewhere (Pool.call_workers poolStep)
  · simp only [next, threadStep, Option.ite_none_right_eq_some] at step
    rcases step with ⟨-, step⟩
    rcases Option.map_eq_some_iff.mp step with ⟨pool, poolStep, rfl⟩
    exact sound.elsewhere (Pool.append_workers poolStep)

/-! ## Runs -/

theorem sound_preserves : Preserves (next (R := R)) Orderly Sound := by
  intro s act t sound guarded step
  cases act with
  | allocate succeeds =>
      rw [next, guarded_eq_some_iff] at step
      rcases step with ⟨allocating, rfl⟩
      cases succeeds with
      | true => exact sound.allocate allocating
      | false =>
          apply sound.throwing
          · rw [allocating]
            rfl
          · apply List.eq_nil_of_length_eq_zero
            apply sound.started
            rw [allocating]
            rfl
  | create succeeds =>
      simp only [next] at step
      split at step <;> cases step
      rename_i i creating
      cases succeeds with
      | true => exact sound.create creating
      | false =>
          apply sound.throwing
          · rw [creating]
            rfl
          · rcases guarded with absent | empty
            · cases absent
            · exact empty
  | detach succeeds =>
      simp only [next] at step
      split at step <;> cases step
      rename_i i detaching
      cases guarded
      exact sound.detach detaching
  | stop =>
      rcases guarded_eq_some_iff.mp step with ⟨built, rfl⟩
      exact sound.stopped built
  | destroy =>
      rcases guarded_eq_some_iff.mp step with ⟨stopping, rfl⟩
      exact sound.destroy stopping guarded
  | test i stop => exact sound.test guarded step
  | thread event =>
      cases event with
      | call i request => exact sound.call (.inl ⟨i, request, rfl⟩) step
      | append i => exact sound.call (.inr ⟨i, rfl⟩) step
      | run i => exact sound.run step
      | interrupt i => exact sound.interrupt step

/-- A worker that has been started before the constructor throws is left in `run`. -/
theorem Sound.not_allOrNothing_throwing (sound : Sound s) (constructing : s.owner.stops = false)
    (started : s.threads ≠ []) : ¬ AllOrNothing s.throwing := by
  intro allOrNothing
  rcases List.exists_mem_of_ne_nil _ started with ⟨thread, mem⟩
  have left := (allOrNothing.thrown rfl).2.2 thread mem
  exact sound.running constructing thread mem left.1

theorem Sound.loses {act : Act R} (sound : Sound s) (unguarded : ¬ s.Orderly act)
    (step : s.next act = some t) : ¬ AllOrNothing t := by
  cases act with
  | allocate _ | stop | thread _ => exact absurd trivial unguarded
  | create succeeds =>
      simp only [next] at step
      split at step <;> cases step
      rename_i i creating
      cases succeeds with
      | true => exact absurd (.inl rfl) unguarded
      | false =>
          apply sound.not_allOrNothing_throwing
          · rw [creating]
            rfl
          · exact fun empty => unguarded (.inr empty)
  | detach succeeds =>
      simp only [next] at step
      split at step <;> cases step
      rename_i i detaching
      cases succeeds with
      | true => exact absurd rfl unguarded
      | false =>
          apply sound.not_allOrNothing_throwing
          · rw [detaching]
            rfl
          · have count : s.threads.length = i + 1 := by
              apply sound.started
              rw [detaching]
              rfl
            exact List.ne_nil_of_length_eq_add_one count
  | destroy =>
      rcases guarded_eq_some_iff.mp step with ⟨stopping, rfl⟩
      intro allOrNothing
      apply unguarded
      intro i _
      exact (allOrNothing.destroyed rfl).2.2 i
  | test i stop =>
      intro allOrNothing
      rcases next_test_iff.mp step with ⟨detached, found, -, rfl⟩
      rw [Orderly, Classical.not_imp, Bool.not_eq_true] at unguarded
      rcases unguarded with ⟨destroyed, rfl⟩
      have inside := (List.getElem?_eq_some_iff.mp found).1
      have quiet := (allOrNothing.destroyed destroyed).2.2 i
      rw [accesses, List.getElem?_set_self inside, sound.begins i _ found rfl] at quiet
      cases quiet

/-- For every number of workers, every bound of the queue, every number of calling threads,
every outcome of the calls and every interleaving, the pool is constructed and destroyed
all or nothing throughout a run exactly when the run is orderly. -/
theorem along_allOrNothing_iff_orderly (threadNumber maxRequests : Int) (appenders : Nat)
    {acts : List (Act R)}
    (possible : (run next (construct threadNumber maxRequests appenders) acts).isSome) :
    Along next AllOrNothing (construct threadNumber maxRequests appenders) acts ↔
      Meets next Orderly (construct threadNumber maxRequests appenders) acts :=
  along_iff_meets_of_isSome sound_preserves (fun _ => Sound.allOrNothing)
    (fun _ _ _ sound unguarded step => sound.loses unguarded step)
    (construct_sound threadNumber maxRequests appenders) possible

/-- One worker that has just been started when the destructor returns: it leaves `run` at
its first test. -/
theorem along_allOrNothing_idle :
    Along next AllOrNothing (construct 1 1 0 : Lifetime Unit)
      [.allocate true, .create true, .detach true, .stop, .destroy, .test 0 true] :=
  (along_allOrNothing_iff_orderly 1 1 0 (by decide)).mpr (by decide)

/-- The second `pthread_create` fails, and the first worker stays in `run` on an object
that no longer exists.  The destructor of a pool with an idle worker returns while this
worker is blocked in `wait`. -/
theorem leaves_worker :
    ¬ Along next AllOrNothing (construct 2 1 0 : Lifetime Unit)
        [.allocate true, .create true, .detach true, .create false] ∧
      ¬ Along next AllOrNothing (construct 1 1 0 : Lifetime Unit)
        [.allocate true, .create true, .detach true, .test 0 false, .stop, .destroy] := by
  constructor
  · intro along
    have failed : (run next (construct 2 1 0 : Lifetime Unit)
        [.allocate true, .create true, .detach true, .create false]).map
          (fun s => (s.owner, s.threads)) = some (.thrown, [⟨.test, true⟩]) := by
      decide
    rcases Option.map_eq_some_iff.mp failed with ⟨s, finished, outcome⟩
    rcases Prod.mk.inj outcome with ⟨thrown, threads⟩
    have left := ((along.last finished).thrown thrown).2.2 ⟨.test, true⟩
      (by rw [threads]; simp)
    cases left.1
  · intro along
    have returned : (run next (construct 1 1 0 : Lifetime Unit)
        [.allocate true, .create true, .detach true, .test 0 false, .stop, .destroy]).map
          (fun s => (s.owner, s.accesses 0)) = some (.destroyed, true) := by
      decide
    rcases Option.map_eq_some_iff.mp returned with ⟨s, finished, outcome⟩
    rcases Prod.mk.inj outcome with ⟨destroyed, accesses⟩
    have quiet := ((along.last finished).destroyed destroyed).2.2 0
    rw [accesses] at quiet
    cases quiet

end Lifetime

end NetPractice.ThreadPool
