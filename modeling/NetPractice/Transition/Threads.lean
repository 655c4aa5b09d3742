import Mathlib.Data.List.Basic
import Mathlib.Algebra.Ring.Nat

/-!
# Threads as a list of control states

A program with several threads keeps one control state for each thread.  Counting
arguments give a weight to every control state.  The total weight changes by what
the thread that takes a step gains or loses.
-/

namespace NetPractice.Transition

universe u

variable {σ : Type u}

/-- The sum of the weights of all threads. -/
def total (weight : σ → Nat) (threads : List σ) : Nat :=
  (threads.map weight).sum

@[simp]
theorem total_nil (weight : σ → Nat) : total weight [] = 0 :=
  rfl

@[simp]
theorem total_cons (weight : σ → Nat) (thread : σ) (threads : List σ) :
    total weight (thread :: threads) = weight thread + total weight threads :=
  List.sum_cons

@[simp]
theorem total_append (weight : σ → Nat) (first second : List σ) :
    total weight (first ++ second) = total weight first + total weight second := by
  simp [total]

/-- Only the thread that takes a step changes its weight. -/
theorem total_set (weight : σ → Nat) {threads : List σ} {i : Nat} {old : σ}
    (running : threads[i]? = some old) (new : σ) :
    total weight (threads.set i new) + weight old = total weight threads + weight new := by
  induction threads generalizing i with
  | nil => cases running
  | cons thread threads ih =>
      cases i with
      | zero =>
          cases running
          simp only [List.set_cons_zero, total_cons]
          omega
      | succ i =>
          have rest := ih running
          simp only [List.set_cons_succ, total_cons]
          omega

/-- A counter of the program follows the total. -/
theorem eq_total_set {weight : σ → Nat} {threads : List σ} {i : Nat} {old new : σ}
    {before after : Int} (counted : before = total weight threads)
    (running : threads[i]? = some old) (changed : after + weight old = before + weight new) :
    after = total weight (threads.set i new) := by
  have moved := total_set weight running new
  omega

theorem weight_le_total (weight : σ → Nat) {threads : List σ} {thread : σ}
    (mem : thread ∈ threads) : weight thread ≤ total weight threads := by
  induction mem with
  | head => exact Nat.le_add_right _ _
  | tail _ _ ih => exact Nat.le_add_left_of_le ih

/-- Two threads have at most the total weight. -/
theorem add_le_total (weight : σ → Nat) {threads : List σ} {i j : Nat} {first second : σ}
    (one : threads[i]? = some first) (other : threads[j]? = some second) (different : i ≠ j) :
    weight first + weight second ≤ total weight threads := by
  induction threads generalizing i j with
  | nil => cases one
  | cons thread threads ih =>
      rw [total_cons]
      cases i with
      | zero =>
          obtain rfl := Option.some.inj one
          cases j with
          | zero => exact absurd rfl different
          | succ j =>
              rw [List.getElem?_cons_succ] at other
              exact Nat.add_le_add_left (weight_le_total weight (List.mem_of_getElem? other)) _
      | succ i =>
          cases j with
          | zero =>
              obtain rfl := Option.some.inj other
              rw [List.getElem?_cons_succ] at one
              rw [Nat.add_comm]
              exact Nat.add_le_add_left (weight_le_total weight (List.mem_of_getElem? one)) _
          | succ j =>
              have rest := ih one other fun equal => different (congrArg Nat.succ equal)
              exact Nat.le_add_left_of_le rest

theorem total_eq_zero_iff {weight : σ → Nat} {threads : List σ} :
    total weight threads = 0 ↔ ∀ thread ∈ threads, weight thread = 0 := by
  induction threads with
  | nil => simp
  | cons thread threads ih => simp [ih]

/-- A positive total belongs to some thread. -/
theorem exists_of_total_pos {weight : σ → Nat} {threads : List σ}
    (positive : 0 < total weight threads) :
    ∃ (i : Nat) (thread : σ), threads[i]? = some thread ∧ 0 < weight thread := by
  by_contra none
  have zero : total weight threads = 0 := by
    apply total_eq_zero_iff.mpr
    intro thread mem
    rcases List.getElem?_of_mem mem with ⟨i, running⟩
    by_contra nonzero
    exact none ⟨i, thread, running, Nat.pos_of_ne_zero nonzero⟩
  omega

@[simp]
theorem total_replicate (weight : σ → Nat) (n : Nat) (thread : σ) :
    total weight (List.replicate n thread) = n * weight thread := by
  simp [total]

end NetPractice.Transition
