import NetPractice.DescriptorPassing.Core
import NetPractice.Transition.Core

/-!
# Where a connection is

A child that is marked as busy has one connection: in transit, served, or acknowledged.  That
holds as long as `web_child` returns.  A child that exits gives its connection up, and every
byte of its error text is taken for an acknowledgement, so that `navail` counts children that
do not exist.
-/

namespace NetPractice.DescriptorPassing

open NetPractice.Text
open NetPractice.Transition

/-! ## The connections of a child -/

/-- The connection that is acknowledged. -/
def Reply.connection : Reply → Option Nat
  | .served connection => some connection
  | .text _ => none

/-- The connection that a child serves. -/
def Doing.connections : Doing → List Nat
  | .serving connection => [connection]
  | .waiting | .exiting | .terminated => []

namespace Child

/-- What is in transit to the child, served by it, or acknowledged by a byte that the parent
has not read. -/
def connections (child : Child) : List Nat :=
  child.transit ++ child.doing.connections ++ child.pipe.filterMap Reply.connection

/-- Whether the parent takes the child for available. -/
def available (child : Child) : Nat :=
  if child.childStatus = 0 then 1 else 0

/-- The status tells whether the child has a connection, and nothing but acknowledgements is
in its pipe. -/
structure Sound (child : Child) : Prop where
  held : child.childStatus = 0 ∧ child.connections = [] ∨
    child.childStatus = 1 ∧ ∃ connection, child.connections = [connection]
  running : child.doing ≠ .exiting ∧ child.doing ≠ .terminated
  replies : ∀ reply ∈ child.pipe, ∃ connection, reply = .served connection

theorem initial_sound : Sound initial :=
  ⟨.inl ⟨rfl, rfl⟩, ⟨nofun, nofun⟩, fun _ mem => absurd mem List.not_mem_nil⟩

section Steps

variable {child target : Child}

theorem length_connections (child : Child) : child.connections.length =
    child.transit.length + child.doing.connections.length +
      (child.pipe.filterMap Reply.connection).length := by
  unfold connections
  rw [List.length_append, List.length_append]

theorem Sound.length_le (sound : Sound child) : child.connections.length ≤ 1 := by
  rcases sound.held with ⟨-, empty⟩ | ⟨-, connection, one⟩
  · rw [empty]
    exact Nat.zero_le 1
  · rw [one]
    exact le_refl 1

theorem Sound.eq_nil (sound : Sound child) (free : child.childStatus = 0) :
    child.connections = [] := by
  rcases sound.held with ⟨-, empty⟩ | ⟨busy, -⟩
  · exact empty
  · rw [free] at busy
    exact absurd busy (by decide)

theorem Sound.busy (sound : Sound child) (some : child.connections ≠ []) :
    child.childStatus = 1 := by
  rcases sound.held with ⟨-, empty⟩ | ⟨busy, -⟩
  · exact absurd empty some
  · exact busy

/-- As long as `web_child` returns, a child only moves its connection on. -/
theorem next_sound (sound : Sound child) {event : ChildEvent}
    (returns : ∀ failure, event ≠ .fail failure) (step : child.next event = some target) :
    Sound target ∧ target.childStatus = child.childStatus ∧
      target.connections = child.connections := by
  cases event with
  | receive =>
      simp only [Child.next] at step
      split at step
      next connection rest doing transit =>
        cases step
        have short := sound.length_le
        rw [length_connections, doing, transit, List.length_cons] at short
        have none : rest = [] := List.eq_nil_of_length_eq_zero (by omega)
        have moved : ({ child with doing := .serving connection, transit := rest } :
            Child).connections = child.connections := by
          unfold connections
          rw [doing, transit, none]
          rfl
        refine ⟨⟨?_, ⟨nofun, nofun⟩, sound.replies⟩, rfl, moved⟩
        rw [moved]
        exact sound.held
      next => cases step
  | serve =>
      simp only [Child.next] at step
      split at step
      next connection doing =>
        cases step
        have short := sound.length_le
        rw [length_connections, doing, Doing.connections, List.length_singleton] at short
        have none : child.pipe.filterMap Reply.connection = [] :=
          List.eq_nil_of_length_eq_zero (by omega)
        have moved : ({ child with
            doing := .waiting, pipe := child.pipe ++ [.served connection] } :
            Child).connections = child.connections := by
          unfold connections
          rw [doing, List.filterMap_append, none]
          simp [Doing.connections, Reply.connection]
        refine ⟨⟨?_, ⟨nofun, nofun⟩, ?_⟩, rfl, moved⟩
        · rw [moved]
          exact sound.held
        · intro reply mem
          rcases List.mem_append.mp mem with old | new
          · exact sound.replies reply old
          · exact ⟨connection, List.mem_singleton.mp new⟩
      next => cases step
  | fail failure => exact absurd rfl (returns failure)
  | exit =>
      rcases guarded_eq_some_iff.mp step with ⟨exiting, -⟩
      exact absurd exiting sound.running.1

/-- A child that exits has had its only connection. -/
theorem next_fail (sound : Sound child) {failure : Failure}
    (step : child.next (.fail failure) = some target) :
    target.childStatus = 1 ∧ target.connections = [] := by
  simp only [Child.next] at step
  split at step
  next connection doing =>
    rcases guarded_eq_some_iff.mp step with ⟨-, rfl⟩
    have number := length_connections child
    have short := sound.length_le
    rw [doing, Doing.connections, List.length_singleton] at number
    constructor
    · apply sound.busy
      intro empty
      rw [empty, List.length_nil] at number
      omega
    · have texts : (failure.text.map Reply.text).filterMap Reply.connection = [] := by
        rw [List.filterMap_map]
        exact List.filterMap_eq_nil_iff.mpr fun _ _ => rfl
      apply List.eq_nil_of_length_eq_zero
      rw [length_connections, List.filterMap_append, texts, List.append_nil, Doing.connections,
        List.length_nil]
      dsimp only
      omega
  next => cases step

end Steps

end Child

namespace Server

/-- What the two counts, the statuses and the messages say about each other. -/
structure Conserved (s : Server) : Prop where
  navail : s.navail = total Child.available s.children
  busy : ∀ (i : Nat) (child : Child), s.children[i]? = some child → child.childStatus = 1 →
    ∃ connection, child.connections = [connection] ∧ (connection, i) ∈ s.passed
  listen : s.phase = .listen → .listen ∈ s.rset → ∃ child ∈ s.children, child.childStatus = 0
  reachable : s.phase ≠ .quit .noAvailableChildren
  once : ∀ connection, connection < s.accepted → (s.passed.map Prod.fst).count connection = 1

/-- No child exits in `web_child`. -/
def Returns : Event → Prop
  | .child _ (.fail _) => False
  | _ => True

instance : DecidablePred Returns
  | .child _ event => by
      unfold Returns
      split <;> infer_instance
  | .arrive => .isTrue trivial
  | .select _ => .isTrue trivial
  | .parent => .isTrue trivial

/-- The counter follows the statuses, and a connection is where it was passed to. -/
structure Held (s : Server) : Prop where
  navail : s.navail = total Child.available s.children
  sound : ∀ (i : Nat) (child : Child), s.children[i]? = some child → child.Sound
  mine : ∀ (i : Nat) (child : Child), s.children[i]? = some child →
    ∀ connection ∈ child.connections, (connection, i) ∈ s.passed

/-- Connections are passed in the order in which they are accepted. -/
structure Inv (s : Server) : Prop extends Held s where
  listen : s.phase = .listen → .listen ∈ s.rset → 0 < s.navail
  running : ∀ reason, s.phase ≠ .quit reason
  once : s.passed.map Prod.fst = List.range s.accepted

section Steps

variable {s t : Server} {i : Nat} {child new : Child}

/-- A positive counter belongs to an available child. -/
theorem Held.exists_available (held : Held s) (positive : 0 < s.navail) :
    ∃ (i : Nat) (child : Child), s.children[i]? = some child ∧ child.childStatus = 0 := by
  have navail := held.navail
  have total_pos : 0 < total Child.available s.children := by omega
  rcases exists_of_total_pos total_pos with ⟨i, child, slot, available⟩
  refine ⟨i, child, slot, ?_⟩
  by_contra busy
  rw [Child.available, if_neg busy] at available
  exact absurd available (lt_irrefl 0)

theorem Inv.conserved (inv : Inv s) : Conserved s := by
  constructor
  · exact inv.navail
  · intro i child slot busy
    rcases (inv.sound i child slot).held with ⟨free, -⟩ | ⟨-, connection, one⟩
    · rw [free] at busy
      exact absurd busy (by decide)
    · refine ⟨connection, one, inv.mine i child slot connection ?_⟩
      rw [one]
      exact List.mem_cons_self
  · intro phase mem
    rcases inv.exists_available (inv.listen phase mem) with ⟨i, child, slot, free⟩
    exact ⟨child, List.mem_of_getElem? slot, free⟩
  · exact inv.running .noAvailableChildren
  · intro connection accepted
    rw [inv.once]
    exact List.count_eq_one_of_mem List.nodup_range (List.mem_range.mpr accepted)

/-- One child changes. -/
theorem Held.set (held : Held s) (slot : s.children[i]? = some child) (sound : new.Sound)
    (mine : ∀ connection ∈ new.connections, (connection, i) ∈ t.passed)
    (children : t.children = s.children.set i new)
    (navail : t.navail + child.available = s.navail + new.available)
    (grows : ∀ entry ∈ s.passed, entry ∈ t.passed) : Held t := by
  have inside : i < s.children.length := (List.getElem?_eq_some_iff.mp slot).1
  constructor
  · rw [children]
    exact eq_total_set held.navail slot navail
  · intro j other slot'
    rw [children] at slot'
    by_cases same : i = j
    · rw [← same, List.getElem?_set_self inside] at slot'
      cases slot'
      exact sound
    · rw [List.getElem?_set_ne same] at slot'
      exact held.sound j other slot'
  · intro j other slot' connection mem
    rw [children] at slot'
    by_cases same : i = j
    · rw [← same, List.getElem?_set_self inside] at slot'
      cases slot'
      rw [← same]
      exact mine connection mem
    · rw [List.getElem?_set_ne same] at slot'
      exact grows _ (held.mine j other slot' connection mem)

/-! ## Steps of the parent -/

theorem available_spec (found : s.available = some (child, i)) :
    s.children[i]? = some child ∧ child.childStatus = 0 := by
  unfold available at found
  constructor
  · exact List.mk_mem_zipIdx_iff_getElem?.mp (List.mem_of_find?_eq_some found)
  · have free := List.find?_some found
    exact of_decide_eq_true free

theorem available_ne_none (slot : s.children[i]? = some child) (free : child.childStatus = 0) :
    s.available ≠ none := by
  intro none
  have busy := List.find?_eq_none.mp none (child, i) (List.mk_mem_zipIdx_iff_getElem?.mpr slot)
  exact busy (decide_eq_true free)

/-- The parent goes on behind a descriptor that was reported. -/
theorem Held.proceed (held : Held s) (once : s.passed.map Prod.fst = List.range s.accepted)
    (k : Nat) : Inv (s.proceed (.scan k)) := by
  have phase : (s.proceed (.scan k)).phase = .select ∨ (s.proceed (.scan k)).phase = .scan k := by
    unfold Server.proceed
    dsimp only
    split
    · exact .inl rfl
    · exact .inr rfl
  refine ⟨⟨held.navail, held.sound, held.mine⟩, ?_, ?_, once⟩
  · intro listen
    rw [listen] at phase
    rcases phase with phase | phase <;> cases phase
  · intro reason quit
    rw [quit] at phase
    rcases phase with phase | phase <;> cases phase

/-- There is a child for every connection that is accepted. -/
theorem Inv.accept (inv : Inv s) (positive : 0 < s.navail) : Inv s.accept := by
  rcases inv.exists_available positive with ⟨j, idle, slot', idle_free⟩
  unfold Server.accept
  split
  next none => exact absurd none (available_ne_none slot' idle_free)
  next child i found =>
    rcases available_spec found with ⟨slot, free⟩
    have sound := inv.sound i child slot
    have empty := sound.eq_nil free
    dsimp only
    rw [if_neg sound.running.2]
    let busy : Child :=
      { child with
        childStatus := 1
        childCount := child.childCount + 1
        transit := child.transit ++ [s.accepted] }
    have connections : busy.connections = [s.accepted] := by
      have nothing := empty
      unfold Child.connections at nothing ⊢
      simp only [List.append_eq_nil_iff] at nothing
      rcases nothing with ⟨⟨transit, doing⟩, replies⟩
      dsimp only [busy]
      rw [transit, doing, replies]
      rfl
    have sound' : busy.Sound :=
      ⟨.inr ⟨rfl, s.accepted, connections⟩, sound.running, sound.replies⟩
    apply Held.proceed
    · refine inv.toHeld.set slot sound' ?_ rfl ?_ ?_
      · intro connection mem
        rw [connections] at mem
        rw [List.mem_singleton.mp mem]
        exact List.mem_append_right _ List.mem_cons_self
      · rw [Child.available, Child.available, if_pos free]
        dsimp only [busy]
        rw [if_neg (by decide)]
        omega
      · exact fun entry mem => List.mem_append_left _ mem
    · dsimp only
      rw [List.map_append, inv.once, List.range_succ]
      rfl

/-- A byte comes from a child that is marked as busy, and is its last one. -/
theorem Inv.read (inv : Inv s) (slot : s.children[i]? = some child)
    (step : s.read i child = some t) : Inv t := by
  have sound := inv.sound i child slot
  unfold Server.read at step
  split at step
  · rcases guarded_eq_some_iff.mp step with ⟨terminated, -⟩
    exact absurd terminated sound.running.2
  next reply rest pipe =>
    cases step
    have replies : ∀ other ∈ rest, ∃ connection, other = .served connection := by
      intro other mem
      apply sound.replies other
      rw [pipe]
      exact List.mem_cons_of_mem reply mem
    have first : reply ∈ child.pipe := by
      rw [pipe]
      exact List.mem_cons_self
    rcases sound.replies reply first with ⟨connection, rfl⟩
    have acknowledged : child.pipe.filterMap Reply.connection =
        connection :: rest.filterMap Reply.connection := by
      rw [pipe]
      rfl
    have number := Child.length_connections child
    have short := sound.length_le
    rw [acknowledged, List.length_cons] at number
    let idle : Child := { child with childStatus := 0, pipe := rest }
    have empty : idle.connections = [] := by
      apply List.eq_nil_of_length_eq_zero
      rw [Child.length_connections]
      dsimp only [idle]
      omega
    have sound' : idle.Sound := ⟨.inl ⟨rfl, empty⟩, sound.running, replies⟩
    have busy : child.childStatus ≠ 0 := by
      intro free
      rw [sound.eq_nil free, List.length_nil] at number
      omega
    apply Held.proceed
    · refine inv.toHeld.set slot sound' ?_ rfl ?_ ?_
      · intro connection mem
        rw [empty] at mem
        exact absurd mem List.not_mem_nil
      · rw [Child.available, Child.available, if_neg busy]
        dsimp only [idle]
        rw [if_pos rfl]
        omega
      · exact fun _ mem => mem
    · exact inv.once

theorem Inv.parent (inv : Inv s) (step : s.parent = some t) : Inv t := by
  unfold Server.parent at step
  split at step
  · cases step
  · cases step
  next phase =>
    cases step
    split
    next listen => exact inv.accept (inv.listen phase listen)
    next => exact ⟨⟨inv.navail, inv.sound, inv.mine⟩, nofun, nofun, inv.once⟩
  next i phase =>
    split at step
    · cases step
      exact ⟨⟨inv.navail, inv.sound, inv.mine⟩, nofun, nofun, inv.once⟩
    next child slot =>
      split at step
      · exact inv.read slot step
      · cases step
        exact ⟨⟨inv.navail, inv.sound, inv.mine⟩, nofun, nofun, inv.once⟩

/-! ## Runs -/

/-- The invariant survives every step but the exit of a child. -/
theorem preserves_inv : Preserves next (fun _ event => Returns event) Inv := by
  intro s event t inv returns step
  cases event with
  | arrive =>
      cases step
      exact ⟨⟨inv.navail, inv.sound, inv.mine⟩, inv.listen, inv.running, inv.once⟩
  | select rset =>
      rcases guarded_eq_some_iff.mp step with ⟨⟨-, -, ready⟩, rfl⟩
      exact ⟨⟨inv.navail, inv.sound, inv.mine⟩, fun _ mem => (ready .listen mem).1, nofun, inv.once⟩
  | parent => exact inv.parent step
  | child i event =>
      rcases Option.bind_eq_some_iff.mp step with ⟨child, slot, step⟩
      rcases Option.map_eq_some_iff.mp step with ⟨new, moved, rfl⟩
      have sound := inv.sound i child slot
      have reported : ∀ failure, event ≠ .fail failure := by
        rintro failure rfl
        exact returns
      rcases Child.next_sound sound reported moved with ⟨sound', status, connections⟩
      refine ⟨inv.toHeld.set slot sound' ?_ rfl ?_ fun _ mem => mem, inv.listen, inv.running,
        inv.once⟩
      · rw [connections]
        exact inv.mine i child slot
      · rw [Child.available, Child.available, status]

/-- A child that exits gives its connection up while it is marked as busy. -/
theorem Inv.lost (inv : Inv s) {event : Event} (exits : ¬ Returns event)
    (step : s.next event = some t) : ¬ Conserved t := by
  cases event with
  | child i event =>
      cases event with
      | fail failure =>
          rcases Option.bind_eq_some_iff.mp step with ⟨child, slot, step⟩
          rcases Option.map_eq_some_iff.mp step with ⟨new, failed, rfl⟩
          rcases Child.next_fail (inv.sound i child slot) failed with ⟨busy, empty⟩
          intro conserved
          have inside := (List.getElem?_eq_some_iff.mp slot).1
          rcases conserved.busy i new (List.getElem?_set_self inside) busy with
            ⟨connection, one, -⟩
          rw [empty] at one
          exact absurd one.symm (List.cons_ne_nil connection [])
      | receive => exact absurd trivial exits
      | serve => exact absurd trivial exits
      | exit => exact absurd trivial exits
  | arrive => exact absurd trivial exits
  | select _ => exact absurd trivial exits
  | parent => exact absurd trivial exits

end Steps

theorem initial_inv (nchildren : Nat) : Inv (initial nchildren) := by
  have fresh : ∀ (i : Nat) (child : Child), (initial nchildren).children[i]? = some child →
      child = Child.initial := by
    intro i child slot
    exact List.eq_of_mem_replicate (List.mem_of_getElem? slot)
  refine ⟨⟨?_, ?_, ?_⟩, nofun, nofun, rfl⟩
  · unfold initial
    dsimp only
    rw [total_replicate]
    simp [Child.available, Child.initial]
  · intro i child slot
    rw [fresh i child slot]
    exact Child.initial_sound
  · intro i child slot connection mem
    rw [fresh i child slot] at mem
    exact absurd mem List.not_mem_nil

/-- In every run of the server, the counts, the statuses and the messages agree, exactly when
no child exits in `web_child`. -/
theorem conserved_along_iff (nchildren : Nat) (events : List Event)
    (possible : (run next (initial nchildren) events).isSome) :
    Along next Conserved (initial nchildren) events ↔
      Meets next (fun _ event => Returns event) (initial nchildren) events :=
  along_iff_meets_of_isSome preserves_inv (fun _ inv => inv.conserved)
    (fun _ _ _ inv exits step => inv.lost exits step) (initial_inv nchildren) possible

/-! ## An error text -/

/-- Two connections are served by two children; the parent reads both acknowledgements behind
one `Select`. -/
def bothServed : List Event :=
  [.arrive, .arrive, .select {.listen}, .parent, .select {.listen}, .parent,
    .child 1 .receive, .child 0 .receive, .child 1 .serve, .child 0 .serve,
    .select {.pipe 0, .pipe 1}, .parent, .parent, .parent]

theorem conserved_along_bothServed :
    ((run next (initial 2) bothServed).map fun s => (s.navail, s.passed)) =
      some (2, [(0, 0), (1, 1)]) ∧
    Along next Conserved (initial 2) bothServed :=
  ⟨by decide +kernel, (conserved_along_iff 2 bothServed (by decide +kernel)).mpr
    (by decide +kernel)⟩

/-- A client requests 0 bytes.  The parent reads the error text of the only child before the
child is gone; two more connections arrive. -/
def errorText : List Event :=
  [.arrive, .select {.listen}, .parent, .child 0 .receive, .child 0 (.fail (.request 0))] ++
    ((Failure.request 0).text.map fun _ => [.select {.pipe 0}, .parent, .parent]).flatten ++
    [.arrive, .arrive, .select {.listen}, .parent, .select {.listen}, .parent]

/-- The last connection finds no child with status 0, although the counter is at 26. -/
theorem errorText_counts :
    ((run next (initial 1) errorText).map fun s => (s.phase, s.navail, s.accepted, s.passed)) =
      some (.quit .noAvailableChildren, 26, 3, [(0, 0), (1, 0)]) ∧
    ¬ Along next Conserved (initial 1) errorText := by
  have outcome : ((run next (initial 1) errorText).map fun s =>
      (s.phase, s.navail, s.accepted, s.passed)) =
        some (.quit .noAvailableChildren, 26, 3, [(0, 0), (1, 0)]) := by
    decide +kernel
  constructor
  · exact outcome
  · intro along
    rcases Option.map_eq_some_iff.mp outcome with ⟨t, finished, entries⟩
    exact (along.last finished).reachable (congrArg Prod.fst entries)

end Server

end NetPractice.DescriptorPassing
