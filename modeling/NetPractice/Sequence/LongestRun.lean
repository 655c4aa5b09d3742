import Mathlib.Data.List.Basic
import Mathlib.Data.Nat.Basic

/-!
# The first of the longest runs

One pass over the positions of a sequence finds the longest run of positions that a test
picks, and of several longest runs the first.  The pass keeps the run that it is in, and
the best of the runs that have ended.
-/

namespace NetPractice.Sequence

/-- Successive positions. -/
structure Run where
  base : Nat
  len : Nat
  deriving DecidableEq, Repr

/-- The best run after a run has ended. -/
def better (best : Option Run) (cur : Run) : Option Run :=
  match best with
  | none => some cur
  | some best => if best.len < cur.len then some cur else some best

/-- One position; the runs are the best one and the one that has not ended. -/
def searchRun (picked : Nat → Bool) (runs : Option Run × Option Run) (i : Nat) :
    Option Run × Option Run :=
  match runs with
  | (best, none) => if picked i then (best, some ⟨i, 1⟩) else (best, none)
  | (best, some cur) =>
      if picked i then (best, some { cur with len := cur.len + 1 }) else (better best cur, none)

/-- The pass over the positions in front of `count`. -/
def longestRun (picked : Nat → Bool) (count : Nat) : Option Run :=
  match (List.range count).foldl (searchRun picked) (none, none) with
  | (best, none) => best
  | (best, some cur) => better best cur

/-! ## What the pass finds -/

section Search

variable {picked : Nat → Bool} {count : Nat} {run cur other : Run} {best : Option Run}

/-- A run of picked positions in front of `count`. -/
structure IsRun (picked : Nat → Bool) (count : Nat) (run : Run) : Prop where
  positive : 0 < run.len
  inside : run.base + run.len ≤ count
  picks : ∀ i, run.base ≤ i → i < run.base + run.len → picked i

/-- The first of the longest runs. -/
structure FirstLongest (picked : Nat → Bool) (count : Nat) (run : Run) : Prop
    extends IsRun picked count run where
  longest : ∀ other, IsRun picked count other → other.len ≤ run.len
  first : ∀ other, IsRun picked count other → other.len = run.len → run.base ≤ other.base

/-- There is no run, or the best one is the first of the longest. -/
def Best (picked : Nat → Bool) (count : Nat) : Option Run → Prop
  | none => ∀ run, ¬ IsRun picked count run
  | some run => FirstLongest picked count run

/-- The run ends at `count` and cannot be extended to the front. -/
structure Ending (picked : Nat → Bool) (count : Nat) (cur : Run) : Prop
    extends IsRun picked count cur where
  ends : cur.base + cur.len = count
  starts : ∀ i, cur.base = i + 1 → picked i = false

theorem IsRun.mono {more : Nat} (isRun : IsRun picked count run) (le : count ≤ more) :
    IsRun picked more run :=
  ⟨isRun.positive, Nat.le_trans isRun.inside le, isRun.picks⟩

/-- A run does not go over a position that is not picked. -/
theorem isRun_succ_iff (unpicked : picked count = false) :
    IsRun picked (count + 1) run ↔ IsRun picked count run := by
  constructor
  · intro isRun
    refine ⟨isRun.positive, ?_, isRun.picks⟩
    by_contra behind
    have inside := isRun.inside
    have positive := isRun.positive
    have picks := isRun.picks count (by omega) (by omega)
    rw [unpicked] at picks
    cases picks
  · exact fun isRun => isRun.mono (Nat.le_succ count)

theorem best_succ (unpicked : picked count = false) (isBest : Best picked count best) :
    Best picked (count + 1) best := by
  cases best with
  | none => exact fun run isRun => isBest run ((isRun_succ_iff unpicked).mp isRun)
  | some run =>
      refine ⟨(isRun_succ_iff unpicked).mpr isBest.toIsRun, fun other isRun => ?_,
        fun other isRun => ?_⟩
      · exact isBest.longest other ((isRun_succ_iff unpicked).mp isRun)
      · exact isBest.first other ((isRun_succ_iff unpicked).mp isRun)

/-- Any run ends in front of the last one or is a part of it. -/
theorem Ending.front_or_part (ending : Ending picked count cur) (isRun : IsRun picked count other) :
    IsRun picked cur.base other ∨ cur.base ≤ other.base ∧ other.base + other.len ≤ count := by
  by_cases front : other.base + other.len ≤ cur.base
  · exact .inl ⟨isRun.positive, front, isRun.picks⟩
  · refine .inr ⟨?_, isRun.inside⟩
    by_contra before
    have unpicked := ending.starts (cur.base - 1) (by omega)
    have picks := isRun.picks (cur.base - 1) (by omega) (by omega)
    rw [unpicked] at picks
    cases picks

/-- The best run when another one has ended. -/
theorem Ending.best_better (ending : Ending picked count cur)
    (isBest : Best picked cur.base best) : Best picked count (better best cur) := by
  have ends := ending.ends
  have le : cur.base ≤ count := by omega
  cases best with
  | none =>
      refine ⟨ending.toIsRun, fun other isRun => ?_, fun other isRun same => ?_⟩
      · rcases ending.front_or_part isRun with front | ⟨after, inside⟩
        · exact absurd front (isBest other)
        · omega
      · rcases ending.front_or_part isRun with front | ⟨after, -⟩
        · exact absurd front (isBest other)
        · exact after
  | some best =>
      unfold better
      dsimp only
      by_cases longer : best.len < cur.len
      · rw [if_pos longer]
        refine ⟨ending.toIsRun, fun other isRun => ?_, fun other isRun same => ?_⟩
        · rcases ending.front_or_part isRun with front | ⟨after, inside⟩
          · have shorter := isBest.longest other front
            omega
          · omega
        · rcases ending.front_or_part isRun with front | ⟨after, -⟩
          · have shorter := isBest.longest other front
            omega
          · exact after
      · rw [if_neg longer]
        refine ⟨isBest.toIsRun.mono le, fun other isRun => ?_, fun other isRun same => ?_⟩
        · rcases ending.front_or_part isRun with front | ⟨after, inside⟩
          · exact isBest.longest other front
          · omega
        · rcases ending.front_or_part isRun with front | ⟨after, -⟩
          · exact isBest.first other front same
          · have inside := isBest.inside
            omega

/-- The invariant of the pass in front of the position `count`. -/
def Searched (picked : Nat → Bool) (count : Nat) : Option Run × Option Run → Prop
  | (best, none) => Best picked count best ∧ ∀ i, count = i + 1 → picked i = false
  | (best, some cur) => Best picked cur.base best ∧ Ending picked count cur

theorem searched_succ {runs : Option Run × Option Run} (searched : Searched picked count runs) :
    Searched picked (count + 1) (searchRun picked runs count) := by
  rcases runs with ⟨best, _ | cur⟩
  · rcases searched with ⟨isBest, unpicked⟩
    by_cases here : picked count
    · have step : searchRun picked (best, none) count = (best, some ⟨count, 1⟩) := if_pos here
      rw [step]
      refine ⟨isBest, ⟨Nat.one_pos, Nat.le_refl _, fun i lower upper => ?_⟩, rfl, unpicked⟩
      have equal : i = count := Nat.le_antisymm (Nat.le_of_lt_succ upper) lower
      rw [equal]
      exact here
    · have step : searchRun picked (best, none) count = (best, none) := if_neg here
      rw [step]
      refine ⟨best_succ (by simpa using here) isBest, fun i equal => ?_⟩
      rw [← Nat.succ.inj equal]
      simpa using here
  · rcases searched with ⟨isBest, ending⟩
    have ends := ending.ends
    by_cases here : picked count
    · have step : searchRun picked (best, some cur) count =
          (best, some { cur with len := cur.len + 1 }) := if_pos here
      rw [step]
      refine ⟨isBest, ⟨Nat.succ_pos _, ?_, fun i lower upper => ?_⟩, ?_, ending.starts⟩
      · change cur.base + (cur.len + 1) ≤ count + 1
        omega
      · change i < cur.base + (cur.len + 1) at upper
        by_cases last : i = count
        · rw [last]
          exact here
        · exact ending.picks i lower (by omega)
      · change cur.base + (cur.len + 1) = count + 1
        omega
    · have unpicked : picked count = false := by simpa using here
      have step : searchRun picked (best, some cur) count = (better best cur, none) := if_neg here
      rw [step]
      refine ⟨best_succ unpicked (ending.best_better isBest), fun i equal => ?_⟩
      rw [← Nat.succ.inj equal]
      exact unpicked

theorem searched_range (picked : Nat → Bool) (count : Nat) :
    Searched picked count ((List.range count).foldl (searchRun picked) (none, none)) := by
  induction count with
  | zero =>
      refine ⟨fun run isRun => ?_, fun i equal => by cases equal⟩
      have inside := isRun.inside
      have positive := isRun.positive
      omega
  | succ count ih =>
      rw [List.range_succ, List.foldl_append]
      exact searched_succ ih

theorem best_longestRun (picked : Nat → Bool) (count : Nat) :
    Best picked count (longestRun picked count) := by
  have searched := searched_range picked count
  unfold longestRun
  generalize (List.range count).foldl (searchRun picked) (none, none) = runs at searched
  rcases runs with ⟨best, _ | cur⟩
  · exact searched.1
  · exact searched.2.best_better searched.1

end Search

end NetPractice.Sequence
