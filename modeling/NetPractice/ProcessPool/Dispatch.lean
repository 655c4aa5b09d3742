import NetPractice.ProcessPool.Core
import Mathlib.Data.List.Nodup

/-!
# Dispatch and the table of children

The parent notes in `m_sub_process` which children have been reaped, and announces
each connection to the next child in turn that has not been reaped.
-/

namespace NetPractice.ProcessPool

open NetPractice.Transition

namespace Pool

/-- The parent has reaped the child with this number. -/
def Reaped (s : Pool) (i : Nat) : Prop :=
  s.children[i]?.map Child.life = some .reaped

/-- The `k`-th child, counted cyclically from `sub_process_counter`. -/
def candidate (s : Pool) (k : Nat) : Nat :=
  (s.subProcessCounter + k) % s.processNumber

/-- The pipe of the child holds one notification more, with an event that has not been
reported, unless the child has ended; the other children are left alone. -/
def Notifies (s t : Pool) (i : Nat) : Prop :=
  ∀ j, t.children[j]? = s.children[j]?.map fun child =>
    if j = i ∧ child.life = .running then { child with pipe := child.pipe + 1, edge := true }
    else child

/-- A dispatch notifies the first child in turn that has not been reaped, if there is
one. -/
def Announces (s t : Pool) : Prop :=
  (∃ k < s.processNumber, ¬ s.Reaped (s.candidate k) ∧ (∀ j < k, s.Reaped (s.candidate j)) ∧
    s.Notifies t (s.candidate k) ∧ t.announced = s.announced ++ [s.candidate k]) ∨
  ((∀ i < s.processNumber, s.Reaped i) ∧ t.children = s.children ∧ t.announced = s.announced)

/-- The parent's table is right, its search ends, and its announcements go round. -/
structure Dispatches (s : Pool) : Prop where
  table : ∀ i < s.processNumber, s.pids i ≠ -1 ↔ ¬ s.Reaped i
  search : ∃ i, ∀ fuel ≥ s.processNumber, s.search fuel s.subProcessCounter = some i
  announces : ∀ batch, s.batch = .listen :: batch →
    ∃ t, s.next .dispatch = some t ∧ s.Announces t
  rotates : (∀ i < s.processNumber, ¬ s.Reaped i) →
    ∀ k, ((s.announced.drop k).take s.processNumber).Nodup
  stop : s.stop = true ↔ ∀ i < s.processNumber, s.Reaped i

/-- What the table has to know about the children: their numbers, and whether they have
been reaped. -/
def roster (s : Pool) : List (Int × Bool) :=
  s.children.map fun child => (child.pid, child.life = .reaped)

theorem reaped_iff {s : Pool} {i : Nat} : s.Reaped i ↔ ∃ pid, s.roster[i]? = some (pid, true) := by
  unfold Reaped roster
  rw [List.getElem?_map]
  cases s.children[i]? with
  | none => simp
  | some child => simp

/-- The table agrees with the children. -/
structure Table (s : Pool) : Prop where
  positive : 0 < s.processNumber
  length : s.roster.length = s.processNumber
  counter : s.subProcessCounter < s.processNumber
  pids : ∀ i pid reaped, s.roster[i]? = some (pid, reaped) →
    s.pids i = if reaped then -1 else pid
  proper : ∀ entry ∈ s.roster, 0 < entry.1
  distinct : (s.roster.map Prod.fst).Nodup

/-- The invariant. -/
structure Consistent (s : Pool) : Prop extends Table s where
  stop : s.stop = true ↔ ∀ i < s.processNumber, s.Reaped i
  rotation : (∀ i < s.processNumber, ¬ s.Reaped i) →
    s.announced = (List.range s.announced.length).map (· % s.processNumber) ∧
      s.subProcessCounter = s.announced.length % s.processNumber

/-! ## The search -/

section Search

variable {s : Pool}

theorem candidate_lt (positive : 0 < s.processNumber) (k : Nat) :
    s.candidate k < s.processNumber :=
  Nat.mod_lt _ positive

theorem candidate_zero (counter : s.subProcessCounter < s.processNumber) :
    s.candidate 0 = s.subProcessCounter :=
  Nat.mod_eq_of_lt counter

theorem candidate_succ (k : Nat) : (s.candidate k + 1) % s.processNumber = s.candidate (k + 1) := by
  unfold candidate
  rw [Nat.mod_add_mod]
  rfl

/-- The candidates come back to the counter when all children have been looked at. -/
theorem candidate_eq_counter_iff (counter : s.subProcessCounter < s.processNumber) {k : Nat}
    (positive : 0 < k) (le : k ≤ s.processNumber) :
    s.candidate k = s.subProcessCounter ↔ k = s.processNumber := by
  unfold candidate
  constructor
  · intro same
    by_contra ne
    by_cases wraps : s.subProcessCounter + k < s.processNumber
    · rw [Nat.mod_eq_of_lt wraps] at same
      omega
    · rw [Nat.mod_eq_sub_mod (Nat.not_lt.mp wraps), Nat.mod_eq_of_lt (by omega)] at same
      omega
  · rintro rfl
    rw [Nat.add_mod_right, Nat.mod_eq_of_lt counter]

/-- Every child is a candidate. -/
theorem exists_candidate (counter : s.subProcessCounter < s.processNumber) {i : Nat}
    (lt : i < s.processNumber) : ∃ k < s.processNumber, s.candidate k = i := by
  unfold candidate
  by_cases le : s.subProcessCounter ≤ i
  · refine ⟨i - s.subProcessCounter, by omega, ?_⟩
    rw [Nat.add_sub_cancel' le, Nat.mod_eq_of_lt lt]
  · refine ⟨i + s.processNumber - s.subProcessCounter, by omega, ?_⟩
    rw [Nat.add_sub_cancel' (by omega), Nat.add_mod_right, Nat.mod_eq_of_lt lt]

/-- What the search finds: the first candidate that has a number, or the counter when
no child has one. -/
def Found (s : Pool) (i : Nat) : Prop :=
  (∃ k < s.processNumber, i = s.candidate k ∧ s.pids i ≠ -1 ∧
    ∀ j < k, s.pids (s.candidate j) = -1) ∨
  (i = s.subProcessCounter ∧ ∀ j < s.processNumber, s.pids (s.candidate j) = -1)

/-- From the `k`-th candidate on, the search takes at most as many turns as there are
candidates left. -/
theorem search_from (counter : s.subProcessCounter < s.processNumber) {left k : Nat}
    (rest : k + left = s.processNumber) (positive : 0 < left)
    (passed : ∀ j < k, s.pids (s.candidate j) = -1) :
    ∃ i, s.Found i ∧ ∀ fuel ≥ left, s.search fuel (s.candidate k) = some i := by
  induction left generalizing k with
  | zero => omega
  | succ left ih =>
      by_cases gone : s.pids (s.candidate k) = -1
      · have passed' : ∀ j < k + 1, s.pids (s.candidate j) = -1 := by
          intro j lt
          rcases Nat.lt_succ_iff_lt_or_eq.mp lt with lt | rfl
          · exact passed j lt
          · exact gone
        have back := candidate_eq_counter_iff counter (Nat.succ_pos k) (by omega)
        by_cases last : left = 0
        · refine ⟨s.subProcessCounter, .inr ⟨rfl, ?_⟩, ?_⟩
          · rwa [← rest, last]
          · intro fuel enough
            obtain ⟨fuel, rfl⟩ := Nat.exists_eq_succ_of_ne_zero (show fuel ≠ 0 by omega)
            rw [search, if_neg (not_not.mpr gone), candidate_succ]
            have same : s.candidate (k + 1) = s.subProcessCounter := back.mpr (by omega)
            rw [same]
            exact if_neg (not_not.mpr rfl)
        · rcases ih (k := k + 1) (by omega) (Nat.pos_of_ne_zero last) passed' with
            ⟨i, found, ends⟩
          refine ⟨i, found, ?_⟩
          intro fuel enough
          obtain ⟨fuel, rfl⟩ := Nat.exists_eq_succ_of_ne_zero (show fuel ≠ 0 by omega)
          rw [search, if_neg (not_not.mpr gone), candidate_succ]
          have ne : s.candidate (k + 1) ≠ s.subProcessCounter := fun same => by
            have := back.mp same
            omega
          exact (if_pos ne).trans (ends fuel (by omega))
      · refine ⟨s.candidate k, .inl ⟨k, by omega, rfl, gone, passed⟩, ?_⟩
        intro fuel enough
        obtain ⟨fuel, rfl⟩ := Nat.exists_eq_succ_of_ne_zero (show fuel ≠ 0 by omega)
        rw [search, if_pos gone]

theorem search_spec (positive : 0 < s.processNumber)
    (counter : s.subProcessCounter < s.processNumber) :
    ∃ i, s.Found i ∧ ∀ fuel ≥ s.processNumber, s.search fuel s.subProcessCounter = some i := by
  have found := search_from counter (Nat.zero_add s.processNumber) positive
    fun j lt => absurd lt (Nat.not_lt_zero j)
  rwa [candidate_zero counter] at found

/-! ## The table -/

theorem Table.pids_eq_iff (table : Table s) {i : Nat} (lt : i < s.processNumber) :
    s.pids i = -1 ↔ s.Reaped i := by
  have inside : i < s.roster.length := table.length ▸ lt
  have found : s.roster[i]? = some (s.roster[i]) := List.getElem?_eq_getElem inside
  have proper := table.proper _ (List.getElem_mem inside)
  rw [reaped_iff]
  generalize s.roster[i] = entry at found proper
  rcases entry with ⟨pid, reaped⟩
  rw [table.pids i pid reaped found, found]
  cases reaped with
  | true => simp
  | false =>
      simp only [Bool.false_eq_true, if_false, Option.some.injEq, Prod.mk.injEq, and_false,
        exists_false, iff_false]
      simp only at proper
      omega

theorem Table.found (table : Table s) {i : Nat} (found : s.Found i) :
    (∃ k < s.processNumber, i = s.candidate k ∧ ¬ s.Reaped i ∧
      ∀ j < k, s.Reaped (s.candidate j)) ∨
    (s.pids i = -1 ∧ ∀ j < s.processNumber, s.Reaped j) := by
  rcases found with ⟨k, lt, rfl, live, passed⟩ | ⟨rfl, gone⟩
  · refine .inl ⟨k, lt, rfl, ?_, ?_⟩
    · rwa [← table.pids_eq_iff (candidate_lt table.positive k)]
    · intro j less
      exact (table.pids_eq_iff (candidate_lt table.positive j)).mp (passed j less)
  · right
    constructor
    · have first := gone 0 table.positive
      rwa [candidate_zero table.counter] at first
    · intro j less
      rcases exists_candidate table.counter less with ⟨k, lt, rfl⟩
      exact (table.pids_eq_iff less).mp (gone k lt)

/-- A state with the same table. -/
structure SameTable (s t : Pool) : Prop where
  processNumber : t.processNumber = s.processNumber
  counter : t.subProcessCounter = s.subProcessCounter
  pids : t.pids = s.pids
  roster : t.roster = s.roster

variable {t : Pool}

theorem SameTable.reaped (same : SameTable s t) (i : Nat) : t.Reaped i ↔ s.Reaped i := by
  rw [reaped_iff, reaped_iff, same.roster]

theorem SameTable.table (same : SameTable s t) (table : Table s) : Table t := by
  constructor
  · exact same.processNumber ▸ table.positive
  · rw [same.roster, same.processNumber]
    exact table.length
  · rw [same.counter, same.processNumber]
    exact table.counter
  · rw [same.roster, same.pids]
    exact table.pids
  · rw [same.roster]
    exact table.proper
  · rw [same.roster]
    exact table.distinct

theorem SameTable.consistent (same : SameTable s t) (stop : t.stop = s.stop)
    (announced : t.announced = s.announced) (consistent : Consistent s) : Consistent t := by
  refine ⟨same.table consistent.toTable, ?_, ?_⟩
  · simp only [stop, same.processNumber, same.reaped]
    exact consistent.stop
  · simp only [announced, same.processNumber, same.reaped, same.counter]
    exact consistent.rotation

/-- A child that keeps its number, and is not reaped, keeps its entry. -/
theorem setChild_sameTable {i : Nat} {old new : Child} (found : s.children[i]? = some old)
    (pid : new.pid = old.pid) (life : new.life = .reaped ↔ old.life = .reaped) :
    SameTable s (s.setChild i new) := by
  refine ⟨rfl, rfl, rfl, ?_⟩
  rcases List.getElem?_eq_some_iff.mp found with ⟨lt, rfl⟩
  unfold roster setChild
  rw [List.map_set]
  apply List.ext_getElem
  · simp
  · intro j _ _
    by_cases equal : i = j
    · subst equal
      simp [pid, life]
    · simp [equal]

/-! ## Announcements -/

theorem send_sameTable (s : Pool) (i : Nat) : SameTable s (s.send i) := by
  unfold send
  cases found : s.children[i]? with
  | none => exact ⟨rfl, rfl, rfl, rfl⟩
  | some child =>
      dsimp only
      split
      · rename_i running
        exact setChild_sameTable found rfl Iff.rfl
      · exact ⟨rfl, rfl, rfl, rfl⟩

theorem send_running {i : Nat} {child : Child} (found : s.children[i]? = some child)
    (running : child.life = .running) :
    s.send i = s.setChild i { child with pipe := child.pipe + 1, edge := true } := by
  unfold send
  rw [found]
  exact if_pos running

theorem send_frame (s : Pool) (i : Nat) :
    s.send i = { s with children := (s.send i).children } := by
  unfold send
  split
  · split <;> rfl
  · rfl

/-- `send` reaches the child that it is for, and no other. -/
theorem send_notifies (s : Pool) (i : Nat) : s.Notifies (s.send i) i := by
  intro j
  by_cases here : j = i
  · subst here
    cases found : s.children[j]? with
    | none =>
        have same : s.send j = s := by
          unfold send
          rw [found]
        rw [same, found]
        rfl
    | some child =>
        rw [Option.map_some]
        by_cases running : child.life = .running
        · have inside := (List.getElem?_eq_some_iff.mp found).1
          rw [if_pos ⟨rfl, running⟩, send_running found running]
          exact List.getElem?_set_self inside
        · have same : s.send j = s := by
            unfold send
            rw [found]
            exact if_neg running
          rw [if_neg fun both => running both.2, same, found]
  · have others : (s.send i).children[j]? = s.children[j]? := by
      unfold send
      split
      · split
        · exact List.getElem?_set_ne (Ne.symm here)
        · rfl
      · rfl
    simp [others, here]

/-- The branch of the listening socket notifies the first child in turn that has not
been reaped, or leaves the loops when there is none. -/
theorem Table.announce_cases (table : Table s) :
    (∃ k < s.processNumber, ¬ s.Reaped (s.candidate k) ∧ (∀ j < k, s.Reaped (s.candidate j)) ∧
      s.announce = some { s.send (s.candidate k) with
        subProcessCounter := (s.candidate k + 1) % s.processNumber
        announced := s.announced ++ [s.candidate k] }) ∨
    ((∀ i < s.processNumber, s.Reaped i) ∧
      s.announce = some { s with stop := true, batch := [] }) := by
  rcases search_spec table.positive table.counter with ⟨i, found, ends⟩
  unfold Pool.announce
  rw [ends _ (Nat.le_refl _), Option.map_some]
  rcases table.found found with ⟨k, lt, rfl, live, passed⟩ | ⟨gone, all⟩
  · have number : s.pids (s.candidate k) ≠ -1 := fun gone =>
      live ((table.pids_eq_iff (candidate_lt table.positive k)).mp gone)
    rw [if_neg number]
    exact .inl ⟨k, lt, live, passed, rfl⟩
  · rw [if_pos gone]
    exact .inr ⟨all, rfl⟩

/-- While no child has been reaped, the announcements go round. -/
theorem Consistent.announced_of_none (consistent : Consistent s) {k : Nat}
    (untouched : ∀ j < s.processNumber, ¬ s.Reaped j) (passed : ∀ j < k, s.Reaped (s.candidate j)) :
    s.announced ++ [s.candidate k] =
        (List.range (s.announced.length + 1)).map (· % s.processNumber) ∧
      (s.candidate k + 1) % s.processNumber = (s.announced.length + 1) % s.processNumber := by
  rcases consistent.rotation untouched with ⟨announced, counter⟩
  have zero : k = 0 := by
    by_contra nonzero
    exact untouched _ (candidate_lt consistent.positive 0) (passed 0 (Nat.pos_of_ne_zero nonzero))
  have first : s.candidate k = s.announced.length % s.processNumber := by
    rw [zero, candidate_zero consistent.counter, counter]
  constructor
  · rw [List.range_succ, List.map_append, ← announced, first]
    rfl
  · rw [first, Nat.mod_add_mod]

theorem Consistent.announce (consistent : Consistent s) :
    ∃ t, s.announce = some t ∧ s.Announces t ∧ Consistent t := by
  rcases consistent.toTable.announce_cases with ⟨k, lt, live, passed, step⟩ | ⟨all, step⟩
  · have sent := send_sameTable s (s.candidate k)
    have table := sent.table consistent.toTable
    have counter :
        (s.candidate k + 1) % s.processNumber < (s.send (s.candidate k)).processNumber := by
      rw [sent.processNumber]
      exact Nat.mod_lt _ consistent.positive
    refine ⟨_, step, .inl ⟨k, lt, live, passed, send_notifies s _, rfl⟩, ?_, ?_, ?_⟩
    · exact ⟨table.positive, table.length, counter, table.pids, table.proper, table.distinct⟩
    · have stop : (s.send (s.candidate k)).stop = s.stop := by rw [send_frame]
      have reaped := sent.reaped
      have processNumber := sent.processNumber
      have before := consistent.stop
      rw [← stop, ← processNumber] at before
      exact before.trans (forall_congr' fun j => imp_congr_right fun _ => (reaped j).symm)
    · intro untouched
      have before : ∀ j < s.processNumber, ¬ s.Reaped j := by
        intro j less reaped
        exact untouched j (sent.processNumber.symm ▸ less) ((sent.reaped j).mpr reaped)
      rcases consistent.announced_of_none before passed with ⟨announced, counter⟩
      simp only [List.length_append, List.length_singleton, sent.processNumber]
      exact ⟨announced, counter⟩
  · have same : SameTable s { s with stop := true, batch := [] } := ⟨rfl, rfl, rfl, rfl⟩
    refine ⟨_, step, .inr ⟨all, rfl, rfl⟩, same.table consistent.toTable, ?_, ?_⟩
    · exact ⟨fun _ => all, fun _ => rfl⟩
    · exact consistent.rotation

/-! ## Reaped children -/

/-- A process that has ended and waits for the parent. -/
def Zombie (s : Pool) (pid : Int) : Prop :=
  ∃ child ∈ s.children, child.life = .zombie ∧ child.pid = pid

/-- Children with the same number are the same child. -/
theorem Table.child_unique (table : Table s) {i j : Nat} {first second : Child}
    (firstFound : s.children[i]? = some first) (secondFound : s.children[j]? = some second)
    (same : first.pid = second.pid) : first = second := by
  have firstEntry : (s.roster.map Prod.fst)[i]? = some first.pid := by
    simp [roster, firstFound]
  have secondEntry : (s.roster.map Prod.fst)[j]? = some second.pid := by
    simp [roster, secondFound]
  rcases List.getElem?_eq_some_iff.mp firstEntry with ⟨inside, -⟩
  have index : i = j := by
    apply (List.getElem?_inj inside table.distinct).mp
    rw [firstEntry, secondEntry, same]
  subst index
  exact Option.some.inj (firstFound.symm.trans secondFound)

/-- What `join` does to the children. -/
theorem join_child (s : Pool) (pid : Int) (i : Nat) :
    (s.join pid).children[i]? = s.children[i]?.map fun child =>
      if child.life = .zombie ∧ child.pid = pid then { child with life := .reaped } else child := by
  unfold join
  rw [List.getElem?_map]

theorem join_pids_column (s : Pool) (pid : Int) :
    (s.join pid).roster.map Prod.fst = s.roster.map Prod.fst := by
  unfold roster join
  rw [List.map_map, List.map_map, List.map_map]
  apply List.map_congr_left
  intro child _
  simp only [Function.comp_apply]
  split <;> rfl

/-- `join` notes in the table what the kernel has done. -/
theorem Table.join (table : Table s) {pid : Int} (zombie : s.Zombie pid) :
    Table (s.join pid) := by
  have column := join_pids_column s pid
  constructor
  · exact table.positive
  · have same := congrArg List.length column
    rw [List.length_map, List.length_map] at same
    exact same.trans table.length
  · exact table.counter
  · intro i number reaped entry
    unfold roster at entry
    rw [List.getElem?_map, join_child, Option.map_map] at entry
    rcases Option.map_eq_some_iff.mp entry with ⟨child, found, rest⟩
    have before := table.pids i child.pid (child.life = .reaped) (by simp [roster, found])
    have inside : i < s.processNumber := by
      rw [← table.length, roster, List.length_map]
      exact (List.getElem?_eq_some_iff.mp found).1
    change (if i < s.processNumber ∧ s.pids i = pid then -1 else s.pids i) = _
    by_cases ended : child.life = .zombie ∧ child.pid = pid
    · have gone : (number, reaped) = (child.pid, true) := by simpa [ended] using rest.symm
      cases gone
      have named : s.pids i = pid := by
        rw [before, ended.1]
        exact ended.2
      exact if_pos ⟨inside, named⟩
    · have kept : (number, reaped) = (child.pid, decide (child.life = .reaped)) := by
        simpa [ended] using rest.symm
      cases kept
      rw [← before]
      -- The number of a child that is not reaped names that child only.
      by_cases named : s.pids i = pid
      · rcases zombie with ⟨dead, member, life, rfl⟩
        rcases List.getElem?_of_mem member with ⟨j, deadFound⟩
        by_cases reaped : child.life = .reaped
        · simp only [reaped, decide_true, if_true] at before
          simp [before]
        · simp only [reaped, decide_false, Bool.false_eq_true, if_false] at before
          have same := table.child_unique found deadFound (before.symm.trans named)
          subst same
          exact absurd ⟨life, rfl⟩ ended
      · exact if_neg fun both => named both.2
  · intro entry member
    have proper : ∀ number ∈ s.roster.map Prod.fst, 0 < number := by
      intro number memberBefore
      rcases List.mem_map.mp memberBefore with ⟨old, oldMember, rfl⟩
      exact table.proper old oldMember
    apply proper
    rw [← column]
    exact List.mem_map_of_mem member
  · rw [column]
    exact table.distinct

/-- A later state of the table: no announcement has been made, and no child has come
back. -/
structure Grown (s t : Pool) : Prop where
  processNumber : t.processNumber = s.processNumber
  counter : t.subProcessCounter = s.subProcessCounter
  announced : t.announced = s.announced
  reaped : ∀ i, s.Reaped i → t.Reaped i

theorem Grown.refl (s : Pool) : Grown s s :=
  ⟨rfl, rfl, rfl, fun _ reaped => reaped⟩

theorem Grown.trans {u : Pool} (first : Grown s t) (second : Grown t u) : Grown s u :=
  ⟨second.processNumber.trans first.processNumber, second.counter.trans first.counter,
    second.announced.trans first.announced,
    fun i reaped => second.reaped i (first.reaped i reaped)⟩

theorem join_grown (s : Pool) (pid : Int) : Grown s (s.join pid) := by
  refine ⟨rfl, rfl, rfl, ?_⟩
  intro i reaped
  unfold Reaped at reaped ⊢
  rw [join_child, Option.map_map]
  rcases Option.map_eq_some_iff.mp reaped with ⟨child, found, life⟩
  simp [found, life]

/-- The other processes that have ended still wait. -/
theorem Zombie.join {pid other : Int} (zombie : s.Zombie other) (ne : other ≠ pid) :
    (s.join pid).Zombie other := by
  rcases zombie with ⟨child, member, life, rfl⟩
  refine ⟨child, ?_, life, rfl⟩
  unfold Pool.join
  apply List.mem_map.mpr
  refine ⟨child, member, ?_⟩
  exact if_neg fun both => ne both.2

theorem Table.foldl_join {pids : List Int} (table : Table s) (distinct : pids.Nodup)
    (zombies : ∀ pid ∈ pids, s.Zombie pid) :
    Table (pids.foldl Pool.join s) ∧ Grown s (pids.foldl Pool.join s) := by
  induction pids generalizing s with
  | nil => exact ⟨table, Grown.refl s⟩
  | cons pid pids ih =>
      rcases List.nodup_cons.mp distinct with ⟨fresh, distinct⟩
      have first := table.join (zombies pid List.mem_cons_self)
      have others : ∀ other ∈ pids, (s.join pid).Zombie other := by
        intro other member
        apply (zombies other (List.mem_cons_of_mem pid member)).join
        rintro rfl
        exact fresh member
      rcases ih first distinct others with ⟨last, grown⟩
      exact ⟨last, (join_grown s pid).trans grown⟩

/-- The loop over the table finds out whether all children have been reaped. -/
theorem Table.all_gone_iff (table : Table s) :
    ((List.range s.processNumber).all fun i => s.pids i = -1) = true ↔
      ∀ i < s.processNumber, s.Reaped i := by
  rw [List.all_eq_true]
  constructor
  · intro gone i lt
    exact (table.pids_eq_iff lt).mp (of_decide_eq_true (gone i (List.mem_range.mpr lt)))
  · intro reaped i member
    have lt := List.mem_range.mp member
    exact decide_eq_true ((table.pids_eq_iff lt).mpr (reaped i lt))

/-! ## Steps -/

/-- What `catchSignal` leaves behind, up to the children that it has reaped. -/
theorem catchSignal_cases {caught : Caught} (step : s.catchSignal caught = some t) :
    t = s ∨ ∃ pids : List Int,
      (∀ pid ∈ pids, s.Zombie pid) ∧ pids.Nodup ∧
        t = { pids.foldl Pool.join s with
          stop := (List.range (pids.foldl Pool.join s).processNumber).all fun i =>
            (pids.foldl Pool.join s).pids i = -1 } := by
  cases caught with
  | sigchld pids =>
      rcases Option.ite_none_right_eq_some.mp step with ⟨waitable, equal⟩
      cases equal
      exact .inr ⟨pids, waitable.2.1, waitable.1, rfl⟩
  | terminate | other =>
      cases step
      exact .inl rfl

/-- The handling of a signal keeps the invariant. -/
theorem Consistent.catchSignal {caught : Caught} (consistent : Consistent s)
    (step : s.catchSignal caught = some t) : Consistent t := by
  rcases catchSignal_cases step with rfl | ⟨pids, zombies, distinct, rfl⟩
  · exact consistent
  · rcases consistent.toTable.foldl_join distinct zombies with ⟨table, grown⟩
    refine ⟨⟨table.positive, table.length, table.counter, table.pids, table.proper,
      table.distinct⟩, table.all_gone_iff, ?_⟩
    intro untouched
    have before : ∀ i < s.processNumber, ¬ s.Reaped i := by
      intro i lt reaped
      exact untouched i (grown.processNumber.symm ▸ lt) (grown.reaped i reaped)
    have rotation := consistent.rotation before
    rw [← grown.processNumber, ← grown.counter, ← grown.announced] at rotation
    exact rotation

theorem Consistent.signals {caught : List Caught} (consistent : Consistent s)
    (step : caught.foldlM Pool.catchSignal s = some t) : Consistent t := by
  induction caught generalizing s with
  | nil =>
      cases step
      exact consistent
  | cons first caught ih =>
      rw [List.foldlM_cons] at step
      rcases Option.bind_eq_some_iff.mp step with ⟨middle, firstStep, rest⟩
      exact ih (consistent.catchSignal firstStep) rest

/-- A child keeps its number, and only its parent reaps it. -/
theorem child_next_life {event : ChildEvent} {old new : Child} (step : old.next event = some new) :
    new.pid = old.pid ∧ old.life = .running ∧ new.life ≠ .reaped := by
  unfold Child.next at step
  by_cases running : old.life = .running
  · rw [if_neg (not_not.mpr running)] at step
    cases event with
    | wait batch =>
        rcases Option.ite_none_right_eq_some.mp step with ⟨-, equal⟩
        cases equal
        simp [running]
    | refused =>
        rcases Option.ite_none_right_eq_some.mp step with ⟨-, equal⟩
        cases equal
        simp [running]
    | exit =>
        rcases Option.ite_none_right_eq_some.mp step with ⟨-, equal⟩
        cases equal
        simp [running]
    | die =>
        cases step
        simp [running]
    | recv | signals terminate | process =>
        dsimp only at step
        split at step
        · rcases Option.ite_none_left_eq_some.mp step with ⟨-, equal⟩
          cases equal
          simp [running]
        · cases step
  · rw [if_pos running] at step
    cases step

/-- Every step keeps the invariant. -/
theorem Consistent.next {event : Event} (consistent : Consistent s)
    (step : s.next event = some t) : Consistent t := by
  cases event with
  | arrive =>
      cases step
      exact SameTable.consistent (s := s) ⟨rfl, rfl, rfl, rfl⟩ rfl rfl consistent
  | wait batch =>
      rcases Option.ite_none_right_eq_some.mp step with ⟨-, equal⟩
      cases equal
      exact SameTable.consistent (s := s) ⟨rfl, rfl, rfl, rfl⟩ rfl rfl consistent
  | dispatch =>
      unfold Pool.next at step
      dsimp only at step
      split at step
      · rename_i batch _
        have same : SameTable s { s with batch := batch } := ⟨rfl, rfl, rfl, rfl⟩
        rcases (same.consistent rfl rfl consistent).announce with ⟨u, announced, -, after⟩
        rw [announced] at step
        cases step
        exact after
      · cases step
  | signals caught =>
      unfold Pool.next at step
      dsimp only at step
      split at step
      · rename_i batch _
        have same : SameTable s { s with batch := batch } := ⟨rfl, rfl, rfl, rfl⟩
        exact (same.consistent rfl rfl consistent).signals step
      · cases step
  | child i event =>
      rcases Option.bind_eq_some_iff.mp step with ⟨old, found, childStep⟩
      rcases Option.map_eq_some_iff.mp childStep with ⟨new, next, rfl⟩
      rcases child_next_life next with ⟨pid, running, alive⟩
      have life : new.life = .reaped ↔ old.life = .reaped := by simp [running, alive]
      exact (setChild_sameTable found pid life).consistent rfl rfl consistent
  | accept i =>
      unfold Pool.next at step
      dsimp only at step
      split at step
      · rename_i child connection backlog found _
        rcases Option.ite_none_right_eq_some.mp step with ⟨-, equal⟩
        cases equal
        have same : SameTable s (s.setChild i { child with accepting := false }) :=
          setChild_sameTable found rfl Iff.rfl
        exact SameTable.consistent (s := s) ⟨rfl, rfl, rfl, same.roster⟩ rfl rfl consistent
      · cases step

/-! ## The start -/

/-- The numbers that the constructor has written. -/
theorem forkLoop_pids (pid : Nat → {pid : Int // 0 < pid}) (left i : Nat) (p : Process) (j : Nat) :
    (forkLoop (fun i => .created (pid i)) left i p).caller.pids j =
      if i ≤ j ∧ j < i + left then ↑(pid j) else p.pids j := by
  induction left generalizing i p with
  | zero => exact (if_neg (by omega)).symm
  | succ left ih =>
      have positive : ((pid i : Int) > 0) := (pid i).property
      simp only [forkLoop, Process.afterFork, if_pos positive, ih]
      change (if i + 1 ≤ j ∧ j < i + 1 + left then _ else Function.update p.pids i _ j) = _
      by_cases here : j = i
      · subst here
        rw [Function.update_self, if_neg (by omega), if_pos (by omega)]
      · rw [Function.update_of_ne here]
        by_cases later : i + 1 ≤ j ∧ j < i + 1 + left
        · rw [if_pos later, if_pos (by omega)]
        · rw [if_neg later, if_neg (by omega)]

theorem start_consistent (forks : Forks) : Consistent (start forks) := by
  have entries : (start forks).roster =
      (List.range forks.processNumber).map fun i => ((forks.pid i : Int), false) := by
    simp [roster, start, newChild, Function.comp_def]
  have fresh : ∀ i, ¬ (start forks).Reaped i := by
    intro i reaped
    rcases reaped_iff.mp reaped with ⟨pid, entry⟩
    rw [entries, List.getElem?_map] at entry
    rcases Option.map_eq_some_iff.mp entry with ⟨j, -, equal⟩
    cases equal
  refine ⟨?_, ?_, ?_⟩
  · constructor
    · exact forks.positive
    · rw [entries, List.length_map, List.length_range]
      rfl
    · exact forks.positive
    · intro i pid reaped entry
      rw [entries, List.getElem?_map] at entry
      rcases Option.map_eq_some_iff.mp entry with ⟨j, inside, equal⟩
      rcases List.getElem?_eq_some_iff.mp inside with ⟨lt, rfl⟩
      rw [List.length_range] at lt
      rw [List.getElem_range] at equal
      cases equal
      have written := forkLoop_pids forks.pid forks.processNumber 0 .initial i
      rw [if_pos ⟨Nat.zero_le i, by omega⟩] at written
      exact written
    · intro entry member
      rw [entries] at member
      rcases List.mem_map.mp member with ⟨i, -, rfl⟩
      exact (forks.pid i).property
    · rw [entries, List.map_map]
      apply List.Nodup.map_on _ List.nodup_range
      intro i first j second same
      exact forks.distinct i (List.mem_range.mp first) j (List.mem_range.mp second) same
  · constructor
    · intro stop
      cases stop
    · intro all
      exact absurd (all 0 forks.positive) (fresh 0)
  · intro _
    constructor
    · rfl
    · exact (Nat.zero_mod _).symm

/-! ## Runs -/

/-- Two turns less than a round apart are different. -/
theorem eq_of_mod_eq {n x y : Nat} (le : x ≤ y) (near : y < x + n) (same : x % n = y % n) :
    x = y := by
  have multiple := Nat.sub_mod_eq_zero_of_mod_eq same.symm
  rw [Nat.mod_eq_of_lt (by omega)] at multiple
  omega

/-- The turns of a round are distinct. -/
theorem round_nodup (n m k : Nat) :
    ((((List.range m).map (· % n)).drop k).take n).Nodup := by
  rw [← List.map_drop, ← List.map_take]
  have distinct : (((List.range m).drop k).take n).Nodup :=
    (List.nodup_range.sublist (List.drop_sublist k _)).sublist (List.take_sublist n _)
  have near : ∀ x ∈ ((List.range m).drop k).take n, k ≤ x ∧ x < k + n := by
    intro x member
    rcases List.mem_iff_getElem.mp member with ⟨i, inside, rfl⟩
    rw [List.length_take] at inside
    rw [List.getElem_take, List.getElem_drop, List.getElem_range]
    omega
  apply List.Nodup.map_on _ distinct
  intro x first y second same
  rcases near x first with ⟨fromX, untilX⟩
  rcases near y second with ⟨fromY, untilY⟩
  rcases Nat.le_total x y with le | le
  · exact eq_of_mod_eq le (by omega) same
  · exact (eq_of_mod_eq le (by omega) same.symm).symm

theorem Consistent.dispatches (consistent : Consistent s) : Dispatches s := by
  constructor
  · intro i lt
    exact not_congr (consistent.toTable.pids_eq_iff lt)
  · rcases search_spec consistent.positive consistent.counter with ⟨i, -, ends⟩
    exact ⟨i, ends⟩
  · intro batch reported
    have same : SameTable s { s with batch := batch } := ⟨rfl, rfl, rfl, rfl⟩
    rcases (same.consistent rfl rfl consistent).announce with ⟨t, announced, announces, -⟩
    refine ⟨t, ?_, announces⟩
    unfold Pool.next
    rw [reported]
    exact announced
  · intro untouched k
    rw [(consistent.rotation untouched).1]
    exact round_nodup _ _ k
  · exact consistent.stop

end Search

/-- In every reachable state of a pool, the table of children is right, the search
ends, announcements go to the next child that has not been reaped, and the parent
stops when all children have been reaped. -/
theorem dispatches_of_run (forks : Forks) {events : List Event} {s : Pool}
    (finished : run next (start forks) events = some s) : Dispatches s :=
  (invariant_run (fun _ _ _ consistent step => consistent.next step) (start_consistent forks)
    finished).dispatches

/-- Three children with the numbers 2, 3 and 4. -/
def threeForks : Forks where
  processNumber := 3
  positive := by decide
  bounded := by decide
  pid := fun i => ⟨(i : Int) + 2, pid_pos i⟩
  distinct := by
    intro i _ j _ same
    dsimp only at same
    omega

/-- The first child dies, and has been reaped when the second connection is announced. -/
def firstDies : List Event :=
  [.arrive, .wait [.listen], .dispatch, .child 0 .die, .arrive, .wait [.signal, .listen],
    .signals [.sigchld [2]], .dispatch, .arrive, .wait [.listen], .dispatch, .arrive,
    .wait [.listen], .dispatch]

theorem dispatches_firstDies : ∃ s, run next (start threeForks) firstDies = some s ∧
    s.announced = [0, 1, 2, 1] ∧ s.children.map Child.pipe = [1, 2, 1] ∧ Dispatches s := by
  have outcome : (run next (start threeForks) firstDies).map
      (fun s => (s.announced, s.children.map Child.pipe)) = some ([0, 1, 2, 1], [1, 2, 1]) := rfl
  rcases Option.map_eq_some_iff.mp outcome with ⟨s, finished, state⟩
  rcases Prod.mk.inj state with ⟨order, pipes⟩
  exact ⟨s, finished, order, pipes, dispatches_of_run threeForks finished⟩

end Pool

end NetPractice.ProcessPool
