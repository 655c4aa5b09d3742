import Mathlib.Data.List.Basic
import Mathlib.Logic.Function.Basic

/-!
# Construction of the process pool

This module embeds the constructor of `processpool` and its loop of `fork` calls.
A child is a copy of the calling process, so that it inherits all pipe ends that
are open when it is forked.  Descriptors are named after the pipe ends that they
refer to.

The constructor closes only the two ends of the current pipe that it does not
need, and takes a failed `fork` for the child's side of a successful one.
-/

namespace NetPractice.ProcessPool

/-- The most children. -/
def MAX_PROCESS_NUMBER : Nat := 16

/-- `m_pipefd[0]` and `m_pipefd[1]`. -/
inductive Side where
  | parent | child
  deriving DecidableEq, Repr

/-- An end of the pipe of `m_sub_process[child]`. -/
structure PipeEnd where
  child : Nat
  side : Side
  deriving DecidableEq, Repr

/-- What `fork` returns to the calling process: the number of a child, or `-1`. -/
inductive Fork where
  | created (pid : {pid : Int // 0 < pid})
  | failed

/-- Whether `fork` has made a child. -/
def Fork.isCreated : Fork → Bool
  | .created _ => true
  | .failed => false

/-- A process with its copy of the pool: `m_idx`, the numbers in `m_sub_process`,
and the pipe ends that are open. -/
structure Process where
  idx : Int
  pids : Nat → Int
  ends : List PipeEnd

namespace Process

/-- The calling process in front of the loop. -/
def initial : Process where
  idx := -1
  pids := fun _ => -1
  ends := []

/-- `socketpair(.., m_sub_process[i].m_pipefd)`. -/
def socketpair (p : Process) (i : Nat) : Process :=
  { p with ends := p.ends ++ [⟨i, .parent⟩, ⟨i, .child⟩] }

/-- `close` of an end of a pipe. -/
def close (p : Process) (pipeEnd : PipeEnd) : Process :=
  { p with ends := p.ends.erase pipeEnd }

/-- The statements behind `fork`, for its result; whether the loop goes on. -/
def afterFork (p : Process) (i : Nat) (pid : Int) : Bool × Process :=
  let p := { p with pids := Function.update p.pids i pid }
  if pid > 0 then (true, p.close ⟨i, .child⟩)
  else (false, { p.close ⟨i, .parent⟩ with idx := i })

end Process

/-- The processes behind the constructor: the calling process, and the children
with their numbers. -/
structure Family where
  caller : Process
  children : List (Nat × Process)

/-- The loop of the constructor, for the next `left` values of `i`. -/
def forkLoop (forks : Nat → Fork) : Nat → Nat → Process → Family
  | 0, _, p => ⟨p, []⟩
  | left + 1, i, p =>
      let p := p.socketpair i
      match forks i with
      | .created pid =>
          let child := (i, (p.afterFork i 0).2)
          match p.afterFork i pid with
          | (true, p) =>
              let family := forkLoop forks left (i + 1) p
              ⟨family.caller, child :: family.children⟩
          | (false, p) => ⟨p, [child]⟩
      | .failed =>
          match p.afterFork i (-1) with
          | (true, p) => forkLoop forks left (i + 1) p
          | (false, p) => ⟨p, []⟩

/-- `processpool(listenfd, process_number)`, which aborts for a number that is out
of range. -/
def construct (processNumber : Int) (forks : Nat → Fork) : Option Family :=
  if processNumber > 0 ∧ processNumber ≤ MAX_PROCESS_NUMBER then
    some (forkLoop forks processNumber.toNat 0 .initial)
  else none

/-- Which loop a process runs in `run`. -/
def Process.runsParent (p : Process) : Prop :=
  p.idx = -1

/-- The calling process is the parent and holds its ends of all pipes, and each
child has its number and holds its own end only. -/
structure Separated (family : Family) : Prop where
  parent : family.caller.runsParent
  parentEnds : ∀ pipeEnd, pipeEnd ∈ family.caller.ends ↔
    ∃ child ∈ family.children, pipeEnd = ⟨child.1, .parent⟩
  childIdx : ∀ child ∈ family.children, child.2.idx = child.1
  childEnds : ∀ child ∈ family.children, child.2.ends = [⟨child.1, .child⟩]

/-! ## The loop -/

/-- The parent's ends of the first pipes. -/
def parentEnds (n : Nat) : List PipeEnd :=
  (List.range n).map fun child => ⟨child, .parent⟩

theorem parentEnds_succ (n : Nat) : parentEnds (n + 1) = parentEnds n ++ [⟨n, .parent⟩] := by
  simp [parentEnds, List.range_succ]

theorem mem_parentEnds {n : Nat} {pipeEnd : PipeEnd} :
    pipeEnd ∈ parentEnds n ↔ ∃ child < n, pipeEnd = ⟨child, .parent⟩ := by
  simp [parentEnds, eq_comm]

theorem notMem_parentEnds (n : Nat) (side : Side) : (⟨n, side⟩ : PipeEnd) ∉ parentEnds n := by
  rw [mem_parentEnds]
  rintro ⟨child, lt, equal⟩
  cases equal
  exact Nat.lt_irrefl _ lt

/-- The calling process in front of the turn with `i`, when all forks have
succeeded. -/
structure IsParent (i : Nat) (p : Process) : Prop where
  idx : p.idx = -1
  ends : p.ends = parentEnds i

/-- The child of the turn with `i`: it has inherited the parent's ends of the
earlier pipes. -/
structure IsChild (i : Nat) (p : Process) : Prop where
  idx : p.idx = i
  ends : p.ends = parentEnds i ++ [⟨i, .child⟩]

section Turns

variable {i : Nat} {p : Process}

theorem IsParent.afterFork (parent : IsParent i p) (pid : {pid : Int // 0 < pid}) :
    ∃ q, (p.socketpair i).afterFork i pid = (true, q) ∧ IsParent (i + 1) q := by
  unfold Process.afterFork
  rw [if_pos pid.property]
  refine ⟨_, rfl, parent.idx, ?_⟩
  simp only [Process.close, Process.socketpair, parent.ends]
  rw [List.erase_append_right _ (notMem_parentEnds i _), parentEnds_succ]
  simp

theorem IsParent.notForked (parent : IsParent i p) {pid : Int} (notPositive : pid ≤ 0) :
    ∃ q, (p.socketpair i).afterFork i pid = (false, q) ∧ IsChild i q := by
  unfold Process.afterFork
  rw [if_neg (Int.not_lt.mpr notPositive)]
  refine ⟨_, rfl, rfl, ?_⟩
  simp only [Process.close, Process.socketpair, parent.ends]
  rw [List.erase_append_right _ (notMem_parentEnds i _), List.erase_cons_head]

theorem IsParent.child (parent : IsParent i p) : IsChild i ((p.socketpair i).afterFork i 0).2 := by
  rcases parent.notForked (Int.le_refl 0) with ⟨q, forked, child⟩
  rw [forked]
  exact child

end Turns

/-- What the loop leaves behind, started with `i`: the children of the successful
forks in front of the first failed one, and a caller that is the parent if no fork
has failed. -/
structure Forked (forks : Nat → Fork) (left i : Nat) (family : Family) : Prop where
  children : ∀ child ∈ family.children,
    i ≤ child.1 ∧ child.1 < i + left ∧ IsChild child.1 child.2
  created : (∀ j, i ≤ j → j < i + left → (forks j).isCreated = true) →
    IsParent (i + left) family.caller ∧ family.children.map Prod.fst = List.range' i left
  failed : ∀ j, i ≤ j → j < i + left → (forks j).isCreated = false →
    ∃ k, IsChild k family.caller

theorem forkLoop_forked (forks : Nat → Fork) {left i : Nat} {p : Process} (parent : IsParent i p) :
    Forked forks left i (forkLoop forks left i p) := by
  induction left generalizing i p with
  | zero =>
      constructor
      · intro child mem
        cases mem
      · intro _
        exact ⟨parent, rfl⟩
      · intro j le lt
        omega
  | succ left ih =>
      rw [forkLoop]
      cases fork : forks i with
      | created pid =>
          rcases parent.afterFork pid with ⟨q, forked, next⟩
          have rest := ih next
          simp only [forked]
          constructor
          · intro child mem
            rcases List.mem_cons.mp mem with rfl | mem
            · exact ⟨Nat.le_refl _, Nat.lt_add_of_pos_right (Nat.succ_pos _), parent.child⟩
            · rcases rest.children child mem with ⟨le, lt, spec⟩
              exact ⟨by omega, by omega, spec⟩
          · intro all
            rcases rest.created fun j le lt => all j (by omega) (by omega) with ⟨last, numbers⟩
            constructor
            · rwa [Nat.add_assoc, Nat.add_comm 1] at last
            · rw [List.map_cons, numbers, List.range'_succ]
          · intro j le lt failure
            apply rest.failed j _ (by omega) failure
            apply Nat.lt_of_le_of_ne le
            rintro rfl
            rw [fork] at failure
            cases failure
      | failed =>
          rcases parent.notForked (show (-1 : Int) ≤ 0 by decide) with ⟨q, forked, child⟩
          simp only [forked]
          constructor
          · intro child mem
            cases mem
          · intro all
            have created := all i (Nat.le_refl _) (by omega)
            rw [fork] at created
            cases created
          · intro _ _ _ _
            exact ⟨i, child⟩

theorem initial_parent : IsParent 0 .initial :=
  ⟨rfl, rfl⟩

/-! ## Separated processes -/

theorem IsChild.not_separated {family : Family} {i : Nat} (child : IsChild i family.caller) :
    ¬ Separated family := by
  intro separated
  have idx := child.idx.symm.trans separated.parent
  omega

/-- A child that is not the first one has inherited the parent's end of the first
pipe. -/
theorem not_separated_of_two {family : Family} {i : Nat} {p : Process}
    (mem : (i, p) ∈ family.children) (child : IsChild i p) (later : 0 < i) :
    ¬ Separated family := by
  intro separated
  have ends := separated.childEnds (i, p) mem
  simp only [child.ends] at ends
  have inherited : (⟨0, .parent⟩ : PipeEnd) ∈ parentEnds i :=
    mem_parentEnds.mpr ⟨0, later, rfl⟩
  have own := List.mem_append_left [⟨i, .child⟩] inherited
  rw [ends] at own
  simp at own

theorem separated_of_one {forks : Nat → Fork} (created : (forks 0).isCreated = true) :
    Separated (forkLoop forks 1 0 .initial) := by
  have forked : Forked forks 1 0 (forkLoop forks 1 0 .initial) :=
    forkLoop_forked forks initial_parent
  generalize forkLoop forks 1 0 .initial = family at forked ⊢
  rcases forked.created fun j _ lt => (Nat.lt_one_iff.mp lt) ▸ created with ⟨parent, numbers⟩
  have number : ∀ child ∈ family.children, child.1 = 0 ∧ IsChild child.1 child.2 := by
    intro child mem
    rcases forked.children child mem with ⟨-, lt, spec⟩
    exact ⟨Nat.lt_one_iff.mp lt, spec⟩
  constructor
  · exact parent.idx
  · intro pipeEnd
    rw [parent.ends, mem_parentEnds]
    constructor
    · rintro ⟨child, lt, rfl⟩
      have mem : child ∈ family.children.map Prod.fst := by
        rw [numbers]
        simpa using lt
      rcases List.mem_map.mp mem with ⟨entry, entryMem, rfl⟩
      exact ⟨entry, entryMem, rfl⟩
    · rintro ⟨child, mem, rfl⟩
      exact ⟨child.1, Nat.lt_one_iff.mpr (number child mem).1, rfl⟩
  · intro child mem
    exact (number child mem).2.idx
  · intro child mem
    rw [(number child mem).2.ends, (number child mem).1]
    rfl

/-- The processes of a pool are separated if and only if it has one child, whose
`fork` succeeds. -/
theorem separated_iff {processNumber : Int} {forks : Nat → Fork} {family : Family}
    (constructed : construct processNumber forks = some family) :
    Separated family ↔ processNumber = 1 ∧ (forks 0).isCreated = true := by
  simp only [construct, Option.ite_none_right_eq_some, Option.some.injEq] at constructed
  rcases constructed with ⟨⟨positive, -⟩, rfl⟩
  obtain ⟨n, rfl⟩ := Int.eq_ofNat_of_zero_le (Int.le_of_lt positive)
  have forked : Forked forks n 0 (forkLoop forks n 0 .initial) :=
    forkLoop_forked forks initial_parent
  rw [Int.toNat_natCast]
  constructor
  · intro separated
    have all : ∀ j, 0 ≤ j → j < 0 + n → (forks j).isCreated = true := by
      intro j le lt
      by_contra failure
      rcases forked.failed j le lt (by simpa using failure) with ⟨k, child⟩
      exact child.not_separated separated
    have single : n < 2 := by
      by_contra more
      have mem : 1 ∈ (forkLoop forks n 0 .initial).children.map Prod.fst := by
        rw [(forked.created all).2, List.mem_range'_1]
        omega
      rcases List.mem_map.mp mem with ⟨⟨i, p⟩, mem, rfl⟩
      have child := (forked.children _ mem).2.2
      exact not_separated_of_two mem child Nat.zero_lt_one separated
    have one : n = 1 := by omega
    subst one
    exact ⟨rfl, all 0 (Nat.le_refl _) Nat.zero_lt_one⟩
  · rintro ⟨one, created⟩
    obtain rfl : n = 1 := by omega
    exact separated_of_one created

theorem pid_pos (i : Nat) : 0 < (i : Int) + 2 := by
  omega

/-- All forks succeed. -/
def allCreated (i : Nat) : Fork :=
  .created ⟨(i : Int) + 2, pid_pos i⟩

theorem separated_one : ∃ family, construct 1 allCreated = some family ∧ Separated family :=
  ⟨_, rfl, (separated_iff rfl).mpr ⟨rfl, rfl⟩⟩

/-- A pool of the default size, of which the third `fork` fails: the calling process
becomes a child, and the second child holds an end of the first pipe. -/
theorem thirdFails_not_separated : ∃ family,
    construct 8 (fun i => if i = 2 then .failed else allCreated i) = some family ∧
      family.caller.idx = 2 ∧
      family.children.map (fun child => child.2.ends) =
        [[⟨0, .child⟩], [⟨0, .parent⟩, ⟨1, .child⟩]] ∧
      ¬ Separated family := by
  refine ⟨_, rfl, rfl, rfl, fun separated => ?_⟩
  have idx : (2 : Int) = -1 := separated.parent
  contradiction

end NetPractice.ProcessPool
