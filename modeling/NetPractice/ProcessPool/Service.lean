import NetPractice.ProcessPool.Dispatch
import NetPractice.Transition.Threads

/-!
# Service of connections

A connection passes through four places: the event of the listening socket, the
report of that event to the parent, the pipe of a child, and the child's `accept`.
Each place holds at most one connection for each event, but the kernel merges events
that have not been reported, and each report is answered with one `send` or one
`recv`.  A connection is served as long as no two of them are merged and no child
ends with a notification that it has not answered.
-/

namespace NetPractice.ProcessPool

open NetPractice.Transition

/-! ## Counting -/

/-- The notifications that a child has not answered. -/
def Child.unanswered (child : Child) : Nat :=
  if child.life = .running then child.pipe + child.accepting.toNat else 0

/-- The child waits in `epoll_wait`, and nothing is there to be reported. -/
def Child.Waiting (child : Child) : Prop :=
  child.stop = false ∧ child.batch = [] ∧ child.accepting = false ∧ child.edge = false

/-- The notifications in the pipe are those that have been or will be reported. -/
def Child.Balanced (child : Child) : Prop :=
  child.life = .running → child.pipe = child.edge.toNat + child.batch.count .pipe

namespace Pool

/-- The parent and all live children wait, and nothing is there to be reported. -/
def Quiet (s : Pool) : Prop :=
  s.stop = false ∧ s.batch = [] ∧ s.edge = false ∧
    ∀ child ∈ s.children, child.life = .running → child.Waiting

instance (child : Child) : Decidable child.Waiting :=
  inferInstanceAs (Decidable (_ ∧ _ ∧ _ ∧ _))

instance (s : Pool) : Decidable s.Quiet :=
  inferInstanceAs (Decidable (_ ∧ _ ∧ _ ∧ ∀ child ∈ s.children,
    child.life = .running → child.Waiting))

/-- When all processes wait, the queue is empty and each connection has been accepted
by exactly one child. -/
def Served (s : Pool) : Prop :=
  s.Quiet → s.backlog = [] ∧
    ∀ connection < s.arrivals, (s.accepted.map Prod.snd).count connection = 1

/-- No connection gets lost in the step: no two arrivals and no two notifications are
merged into one event, a notification goes to a live child, a child does not end
with unanswered notifications, and `accept` fails for an empty queue only. -/
def Lossless (s : Pool) : Event → Prop
  | .arrive => s.edge = false
  | .dispatch => ∀ k < s.processNumber, ¬ s.Reaped (s.candidate k) →
      (∀ j < k, s.Reaped (s.candidate j)) →
        ∃ child ∈ s.children[s.candidate k]?, child.life = .running ∧ child.edge = false
  | .child _ .refused => s.backlog = []
  | .child i .exit | .child i .die => ∀ child ∈ s.children[i]?, child.unanswered = 0
  | _ => True

instance (s : Pool) (i : Nat) : Decidable (s.Reaped i) :=
  inferInstanceAs (Decidable (_ = _))

instance (s : Pool) : ∀ event, Decidable (s.Lossless event)
  | .arrive => inferInstanceAs (Decidable (s.edge = false))
  | .dispatch => inferInstanceAs (Decidable (∀ k < s.processNumber, ¬ s.Reaped (s.candidate k) →
      (∀ j < k, s.Reaped (s.candidate j)) →
        ∃ child ∈ s.children[s.candidate k]?, child.life = .running ∧ child.edge = false))
  | .child _ .refused => inferInstanceAs (Decidable (s.backlog = []))
  | .child i .exit | .child i .die =>
      inferInstanceAs (Decidable (∀ child ∈ s.children[i]?, child.unanswered = 0))
  | .wait _ | .signals _ | .accept _ | .child _ (.wait _) | .child _ .recv
  | .child _ (.signals _) | .child _ .process => isTrue trivial

/-- The connections on their way to a child's `accept`. -/
def underway (s : Pool) : Nat :=
  s.edge.toNat + s.batch.count .listen + total Child.unanswered s.children

/-- The invariant. -/
structure Kept (s : Pool) : Prop where
  consistent : Consistent s
  account : s.accepted.map Prod.snd ++ s.backlog = List.range s.arrivals
  balanced : ∀ child ∈ s.children, child.Balanced
  underway : s.stop = false → s.backlog.length = s.underway

/-! ## Reports -/

/-- A report takes the place of the event. -/
theorem report_toNat {α : Type} [DecidableEq α] {a : α} {edge : Bool} {batch : List α}
    (single : batch.count a ≤ 1) (reported : a ∈ batch → edge = true) :
    (edge && !batch.contains a).toNat + batch.count a = edge.toNat := by
  by_cases mem : a ∈ batch
  · have one : batch.count a = 1 :=
      Nat.le_antisymm single (List.count_pos_iff.mpr mem)
    simp [mem, one, reported mem]
  · simp [mem, List.count_eq_zero_of_not_mem mem]

section Steps

variable {s t : Pool}

/-! ## Children -/

theorem balanced_setChild {i : Nat} {child : Child} (all : ∀ other ∈ s.children, other.Balanced)
    (balanced : child.Balanced) : ∀ other ∈ (s.setChild i child).children, other.Balanced := by
  intro other mem
  rcases List.mem_or_eq_of_mem_set mem with mem | rfl
  · exact all other mem
  · exact balanced

/-- A step of a child that leaves nothing unanswered behind keeps the balance of its
pipe and its unanswered notifications. -/
theorem child_next_unanswered {event : ChildEvent} {old new : Child} (balanced : old.Balanced)
    (notRefused : event = .refused → old.accepting = false)
    (notEnded : event = .exit ∨ event = .die → old.unanswered = 0)
    (step : old.next event = some new) :
    new.Balanced ∧ new.unanswered = old.unanswered := by
  have running : old.life = .running := (child_next_life step).2.1
  have balance := balanced running
  unfold Child.next at step
  rw [if_neg (not_not.mpr running)] at step
  cases event with
  | wait batch =>
      rcases Option.ite_none_right_eq_some.mp step with ⟨⟨-, empty, -, single, reported⟩, equal⟩
      cases equal
      constructor
      · intro _
        rw [balance, empty, ← report_toNat single reported]
        rfl
      · rfl
  | recv =>
      dsimp only at step
      split at step
      · rename_i batch reported
        rcases Option.ite_none_left_eq_some.mp step with ⟨notAccepting, equal⟩
        cases equal
        rw [reported, List.count_cons_self] at balance
        constructor
        · intro _
          change old.pipe - 1 = old.edge.toNat + batch.count .pipe
          omega
        · simp only [Child.unanswered, running, notAccepting, if_true]
          simp only [Bool.toNat_true, Bool.toNat_false]
          omega
      · cases step
  | refused =>
      rcases Option.ite_none_right_eq_some.mp step with ⟨accepting, -⟩
      rw [notRefused rfl] at accepting
      cases accepting
  | signals terminate =>
      dsimp only at step
      split at step
      · rename_i batch reported
        rcases Option.ite_none_left_eq_some.mp step with ⟨-, equal⟩
        cases equal
        rw [reported, List.count_cons_of_ne (by decide)] at balance
        exact ⟨fun _ => balance, rfl⟩
      · cases step
  | process =>
      dsimp only at step
      split at step
      · rename_i batch reported
        rcases Option.ite_none_left_eq_some.mp step with ⟨-, equal⟩
        cases equal
        rw [reported, List.count_cons_of_ne (by decide)] at balance
        exact ⟨fun _ => balance, rfl⟩
      · cases step
  | exit =>
      rcases Option.ite_none_right_eq_some.mp step with ⟨-, equal⟩
      cases equal
      constructor
      · intro alive
        cases alive
      · rw [notEnded (.inl rfl)]
        rfl
  | die =>
      cases step
      constructor
      · intro alive
        cases alive
      · rw [notEnded (.inr rfl)]
        rfl

/-- While a child runs, the parent does not stop. -/
theorem goes_of_running (consistent : Consistent s) {i : Nat} {child : Child}
    (found : s.children[i]? = some child) (running : child.life = .running) : s.stop = false := by
  by_contra stopped
  have all := consistent.stop.mp (Bool.of_not_eq_false stopped)
  have inside : i < s.processNumber := by
    rw [← consistent.length, roster, List.length_map]
    exact (List.getElem?_eq_some_iff.mp found).1
  have reaped := all i inside
  rw [Reaped, found, Option.map_some, running] at reaped
  cases reaped

/-- An accepting child has a connection underway. -/
theorem Kept.backlog_pos (kept : Kept s) {i : Nat} {child : Child}
    (found : s.children[i]? = some child) (running : child.life = .running)
    (accepting : child.accepting = true) : 0 < s.backlog.length := by
  have bound : child.unanswered ≤ total Child.unanswered s.children :=
    weight_le_total _ (List.mem_of_getElem? found)
  have one : 0 < child.unanswered := by
    simp [Child.unanswered, running, accepting]
  rw [kept.underway (goes_of_running kept.consistent found running), Pool.underway]
  omega

/-! ## Steps -/

theorem Kept.arrive (kept : Kept s) (unreported : s.edge = false)
    (step : s.next .arrive = some t) : Kept t := by
  have consistent := kept.consistent.next step
  cases step
  refine ⟨consistent, ?_, kept.balanced, ?_⟩
  · rw [List.range_succ, ← kept.account, List.append_assoc]
  · intro goes
    have before := kept.underway goes
    unfold Pool.underway at before ⊢
    rw [unreported] at before
    simp only [List.length_append, List.length_singleton, Bool.toNat_true]
    simp only [Bool.toNat_false] at before
    omega

theorem Kept.wait {batch : List ParentReport} (kept : Kept s)
    (step : s.next (.wait batch) = some t) : Kept t := by
  have consistent := kept.consistent.next step
  rcases Option.ite_none_right_eq_some.mp step with ⟨⟨empty, -, distinct, reported⟩, equal⟩
  cases equal
  refine ⟨consistent, kept.account, kept.balanced, ?_⟩
  intro goes
  have before := kept.underway goes
  have single := List.nodup_iff_count_le_one.mp distinct .listen
  have same := report_toNat single reported
  unfold Pool.underway at before ⊢
  rw [empty, List.count_nil] at before
  dsimp only
  omega

/-- A dispatch puts the connection into the pipe of a live child, or stops the parent. -/
theorem Kept.dispatch (kept : Kept s) (lossless : s.Lossless .dispatch)
    (step : s.next .dispatch = some t) : Kept t := by
  have consistent := kept.consistent.next step
  unfold Pool.next at step
  dsimp only at step
  split at step
  · rename_i batch reported
    let u : Pool := { s with batch := batch }
    have table : Table u := SameTable.table (s := s) ⟨rfl, rfl, rfl, rfl⟩ kept.consistent.toTable
    rcases table.announce_cases with ⟨k, lt, live, passed, announced⟩ | ⟨-, announced⟩
    · rcases lossless k lt live passed with ⟨child, found, running, unreported⟩
      have sends : u.send (u.candidate k) = _ := send_running (s := u) found running
      rw [announced, sends] at step
      cases step
      have pipe : child.pipe = child.batch.count .pipe := by
        have balance := kept.balanced child (List.mem_of_getElem? found) running
        rwa [unreported, Bool.toNat_false, Nat.zero_add] at balance
      have balanced : ({ child with pipe := child.pipe + 1, edge := true } : Child).Balanced := by
        intro _
        change child.pipe + 1 = 1 + child.batch.count .pipe
        omega
      refine ⟨consistent, kept.account, balanced_setChild (s := u) kept.balanced balanced, ?_⟩
      intro goes
      have before := kept.underway goes
      have sent := total_set Child.unanswered found
        { child with pipe := child.pipe + 1, edge := true }
      have more : ({ child with pipe := child.pipe + 1, edge := true } : Child).unanswered =
          child.unanswered + 1 := by
        simp only [Child.unanswered, running, if_true]
        omega
      rw [more] at sent
      unfold Pool.underway at before ⊢
      rw [reported, List.count_cons_self] at before
      change s.backlog.length = s.edge.toNat + batch.count .listen + total Child.unanswered
        (s.children.set (s.candidate k) { child with pipe := child.pipe + 1, edge := true })
      omega
    · rw [announced] at step
      cases step
      refine ⟨consistent, kept.account, kept.balanced, ?_⟩
      intro goes
      cases goes
  · cases step

/-! ## Signals -/

/-- What the table and the kernel note about children that have ended does not concern
the connections. -/
structure Untouched (s t : Pool) : Prop where
  batch : t.batch = s.batch
  edge : t.edge = s.edge
  backlog : t.backlog = s.backlog
  arrivals : t.arrivals = s.arrivals
  accepted : t.accepted = s.accepted
  unanswered : total Child.unanswered t.children = total Child.unanswered s.children
  balanced : (∀ child ∈ s.children, child.Balanced) → ∀ child ∈ t.children, child.Balanced

theorem Untouched.refl (s : Pool) : Untouched s s :=
  ⟨rfl, rfl, rfl, rfl, rfl, rfl, fun balanced => balanced⟩

theorem Untouched.trans {u : Pool} (first : Untouched s t) (second : Untouched t u) :
    Untouched s u :=
  ⟨second.batch.trans first.batch, second.edge.trans first.edge,
    second.backlog.trans first.backlog, second.arrivals.trans first.arrivals,
    second.accepted.trans first.accepted, second.unanswered.trans first.unanswered,
    fun balanced => second.balanced (first.balanced balanced)⟩

theorem join_untouched (s : Pool) (pid : Int) : Untouched s (s.join pid) := by
  refine ⟨rfl, rfl, rfl, rfl, rfl, ?_, ?_⟩
  · unfold total join
    rw [List.map_map]
    congr 1
    apply List.map_congr_left
    intro child _
    by_cases ended : child.life = .zombie ∧ child.pid = pid
    · simp [Child.unanswered, ended]
    · simp [ended]
  · intro balanced other mem
    rcases List.mem_map.mp mem with ⟨child, childMem, rfl⟩
    by_cases ended : child.life = .zombie ∧ child.pid = pid
    · rw [if_pos ended]
      intro running
      cases running
    · rw [if_neg ended]
      exact balanced child childMem

theorem foldl_join_untouched (s : Pool) (pids : List Int) :
    Untouched s (pids.foldl Pool.join s) := by
  induction pids generalizing s with
  | nil => exact Untouched.refl s
  | cons pid pids ih => exact (join_untouched s pid).trans (ih (s.join pid))

theorem Kept.untouched (kept : Kept s) (consistent : Consistent t) (untouched : Untouched s t)
    (goes : t.stop = false → s.stop = false) : Kept t := by
  refine ⟨consistent, ?_, untouched.balanced kept.balanced, ?_⟩
  · rw [untouched.accepted, untouched.backlog, untouched.arrivals]
    exact kept.account
  · intro going
    unfold Pool.underway
    rw [untouched.backlog, untouched.edge, untouched.batch, untouched.unanswered]
    exact kept.underway (goes going)

theorem Kept.catchSignal {caught : Caught} (kept : Kept s)
    (step : s.catchSignal caught = some t) : Kept t := by
  have consistent := kept.consistent.catchSignal step
  rcases catchSignal_cases step with rfl | ⟨pids, zombies, distinct, rfl⟩
  · exact kept
  · have untouched := foldl_join_untouched s pids
    rcases kept.consistent.toTable.foldl_join distinct zombies with ⟨-, grown⟩
    apply kept.untouched consistent ⟨untouched.batch, untouched.edge, untouched.backlog,
      untouched.arrivals, untouched.accepted, untouched.unanswered, untouched.balanced⟩
    -- A parent that has stopped does not start again.
    intro going
    by_contra stopped
    have all := kept.consistent.stop.mp (Bool.of_not_eq_false stopped)
    rw [consistent.stop.mpr fun i lt =>
      grown.reaped i (all i (grown.processNumber ▸ lt))] at going
    cases going

theorem Kept.signals {caught : List Caught} (kept : Kept s)
    (step : s.next (.signals caught) = some t) : Kept t := by
  unfold Pool.next at step
  dsimp only at step
  split at step
  · rename_i batch reported
    have consistent : Consistent { s with batch := batch } :=
      SameTable.consistent (s := s) ⟨rfl, rfl, rfl, rfl⟩ rfl rfl kept.consistent
    have before : Kept { s with batch := batch } := by
      refine ⟨consistent, kept.account, kept.balanced, ?_⟩
      intro goes
      have balance := kept.underway goes
      unfold Pool.underway at balance ⊢
      rwa [reported, List.count_cons_of_ne (by decide)] at balance
    generalize ({ s with batch := batch } : Pool) = u at before step
    clear kept consistent reported
    induction caught generalizing u with
    | nil =>
        cases step
        exact before
    | cons first caught ih =>
        rw [List.foldlM_cons] at step
        rcases Option.bind_eq_some_iff.mp step with ⟨middle, firstStep, rest⟩
        exact ih middle (before.catchSignal firstStep) rest
  · cases step

/-! ## Children's steps -/

theorem Kept.accept {i : Nat} (kept : Kept s) (step : s.next (.accept i) = some t) : Kept t := by
  have consistent := kept.consistent.next step
  unfold Pool.next at step
  dsimp only at step
  split at step
  · rename_i child connection backlog found queue
    rcases Option.ite_none_right_eq_some.mp step with ⟨⟨running, accepting⟩, equal⟩
    cases equal
    have balanced : ({ child with accepting := false } : Child).Balanced :=
      kept.balanced child (List.mem_of_getElem? found)
    refine ⟨consistent, ?_, balanced_setChild kept.balanced balanced, ?_⟩
    · have account := kept.account
      rw [queue] at account
      change (s.accepted ++ [(i, connection)]).map Prod.snd ++ backlog = List.range s.arrivals
      rw [List.map_append, List.append_assoc]
      exact account
    · intro goes
      have before := kept.underway goes
      have moved := total_set Child.unanswered found { child with accepting := false }
      have had : child.unanswered = child.pipe + 1 := by
        simp [Child.unanswered, running, accepting]
      have has : ({ child with accepting := false } : Child).unanswered = child.pipe := by
        simp [Child.unanswered, running]
      rw [had, has] at moved
      unfold Pool.underway at before ⊢
      rw [queue, List.length_cons] at before
      change backlog.length = s.edge.toNat + s.batch.count .listen +
        total Child.unanswered (s.children.set i { child with accepting := false })
      omega
  · cases step

theorem Kept.child {i : Nat} {event : ChildEvent} (kept : Kept s)
    (lossless : s.Lossless (.child i event)) (step : s.next (.child i event) = some t) :
    Kept t := by
  have consistent := kept.consistent.next step
  rcases Option.bind_eq_some_iff.mp step with ⟨old, found, childStep⟩
  rcases Option.map_eq_some_iff.mp childStep with ⟨new, next, rfl⟩
  have running := (child_next_life next).2.1
  have notRefused : event = .refused → old.accepting = false := by
    rintro rfl
    by_contra accepting
    have queue := kept.backlog_pos found running (Bool.of_not_eq_false accepting)
    rw [show s.backlog = [] from lossless] at queue
    cases queue
  have notEnded : event = .exit ∨ event = .die → old.unanswered = 0 := by
    rintro (rfl | rfl)
    · exact lossless old found
    · exact lossless old found
  rcases child_next_unanswered (kept.balanced old (List.mem_of_getElem? found)) notRefused
    notEnded next with ⟨balanced, same⟩
  refine ⟨consistent, kept.account, balanced_setChild kept.balanced balanced, ?_⟩
  intro goes
  have before := kept.underway goes
  have moved := total_set Child.unanswered found new
  unfold Pool.underway at before ⊢
  change s.backlog.length = s.edge.toNat + s.batch.count .listen +
    total Child.unanswered (s.children.set i new)
  omega

/-- A lossless step keeps the invariant. -/
theorem kept_preserved : Preserves next Lossless Kept := by
  intro s event t kept lossless step
  cases event with
  | arrive => exact kept.arrive lossless step
  | wait batch => exact kept.wait step
  | dispatch => exact kept.dispatch lossless step
  | signals caught => exact kept.signals step
  | child i event => exact kept.child lossless step
  | accept i => exact kept.accept step

theorem start_kept (forks : Forks) : Kept (start forks) := by
  have fresh : ∀ child ∈ (start forks).children, child.Balanced ∧ child.unanswered = 0 := by
    intro child mem
    rcases List.mem_map.mp mem with ⟨i, -, rfl⟩
    exact ⟨fun _ => rfl, rfl⟩
  refine ⟨start_consistent forks, rfl, fun child mem => (fresh child mem).1, ?_⟩
  intro _
  unfold Pool.underway
  rw [total_eq_zero_iff.mpr fun child mem => (fresh child mem).2]
  rfl

/-- While nothing is underway, all connections have been accepted. -/
theorem Kept.served (kept : Kept s) : s.Served := by
  rintro ⟨goes, empty, unreported, waiting⟩
  have nothing : total Child.unanswered s.children = 0 := by
    apply total_eq_zero_iff.mpr
    intro child mem
    by_cases running : child.life = .running
    · rcases waiting child mem running with ⟨-, batch, notAccepting, edge⟩
      have pipe := kept.balanced child mem running
      rw [batch, edge, List.count_nil] at pipe
      simp [Child.unanswered, notAccepting, pipe]
    · exact if_neg running
  have length := kept.underway goes
  unfold Pool.underway at length
  rw [empty, unreported, nothing, List.count_nil] at length
  have queue : s.backlog = [] := List.eq_nil_of_length_eq_zero length
  refine ⟨queue, ?_⟩
  intro connection lt
  have account := kept.account
  rw [queue, List.append_nil] at account
  rw [account]
  exact List.count_eq_one_of_mem List.nodup_range (List.mem_range.mpr lt)

end Steps

/-- In a run in which no step loses a connection, every connection is served. -/
theorem served_along_of_lossless (forks : Forks) {events : List Event}
    (lossless : Meets next Lossless (start forks) events) :
    Along next Served (start forks) events :=
  (kept_preserved.along (start_kept forks) lossless).mono fun _ kept => kept.served


/-- Two connections, one behind the other; the first child dies when it has accepted
its connection. -/
def twoConnections : List Event :=
  [.arrive, .wait [.listen], .dispatch, .arrive, .child 0 (.wait [.pipe]), .child 0 .recv,
    .accept 0, .child 0 .die, .wait [.signal, .listen], .signals [.sigchld [2]], .dispatch,
    .child 1 (.wait [.pipe]), .child 1 .recv, .accept 1]

theorem served_along_twoConnections :
    (run next (start threeForks) twoConnections).map accepted = some [(0, 0), (1, 1)] ∧
      Along next Served (start threeForks) twoConnections :=
  ⟨rfl, served_along_of_lossless threeForks (by decide +kernel)⟩

/-- Two connections arrive in front of the parent's `epoll_wait`. -/
def burst : List Event :=
  [.arrive, .arrive, .wait [.listen], .dispatch, .child 0 (.wait [.pipe]), .child 0 .recv,
    .accept 0]

/-- The second connection of a burst stays in the queue while all processes wait. -/
theorem burst_not_served : ∃ s, run next (start threeForks) burst = some s ∧
    s.Quiet ∧ s.backlog = [1] ∧ ¬ s.Served := by
  have stuck : (run next (start threeForks) burst).map (fun s => (decide s.Quiet, s.backlog)) =
      some (true, [1]) := by decide +kernel
  rcases Option.map_eq_some_iff.mp stuck with ⟨s, finished, outcome⟩
  rcases Prod.mk.inj outcome with ⟨quiet, queue⟩
  refine ⟨s, finished, of_decide_eq_true quiet, queue, ?_⟩
  intro served
  rw [(served (of_decide_eq_true quiet)).1] at queue
  cases queue

end Pool

end NetPractice.ProcessPool
