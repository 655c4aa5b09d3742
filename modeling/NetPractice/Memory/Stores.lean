import Mathlib.Data.List.Basic

/-!
# Stores that do not overlap

A function that fills a buffer field by field makes some stores.  Where no two of them
overlap, each is read back from the buffer at the end, and what lies outside of all of them
is what was there at the beginning.
-/

namespace NetPractice.Memory

variable {β : Type}

/-- The cells from `k` on, `width` of them. -/
def window (mem : Nat → β) (k width : Nat) : List β :=
  (List.range width).map fun i => mem (k + i)

/-- Some values that are stored from an index on. -/
structure Store (β : Type) where
  place : Nat
  values : List β

namespace Store

/-- The first cell behind the values. -/
def stop (s : Store β) : Nat :=
  s.place + s.values.length

/-- The memory behind the store. -/
def apply (s : Store β) (mem : Nat → β) : Nat → β :=
  fun i => if i < s.place then mem i else (s.values[i - s.place]?).getD (mem i)

/-- Neither changes a cell that the other one changes. -/
def Apart (s t : Store β) : Prop :=
  s.stop ≤ t.place ∨ t.stop ≤ s.place

instance (s t : Store β) : Decidable (s.Apart t) :=
  inferInstanceAs (Decidable (_ ∨ _))

/-- The memory after some stores. -/
def applyAll (stores : List (Store β)) (mem : Nat → β) : Nat → β :=
  stores.foldl (fun mem s => s.apply mem) mem

variable {s t : Store β} {stores : List (Store β)} {mem : Nat → β} {i k width : Nat}

theorem Apart.symm (apart : s.Apart t) : t.Apart s :=
  Or.symm apart

theorem apply_of_lt (before : i < s.place) : s.apply mem i = mem i :=
  if_pos before

theorem apply_of_stop_le (behind : s.stop ≤ i) : s.apply mem i = mem i := by
  have le : s.place ≤ i := Nat.le_trans (Nat.le_add_right _ _) behind
  have absent : s.values[i - s.place]? = none :=
    List.getElem?_eq_none (Nat.le_sub_of_add_le' behind)
  rw [apply, if_neg (Nat.not_lt_of_le le), absent, Option.getD_none]

theorem apply_place_add (below : i < s.values.length) :
    s.apply mem (s.place + i) = s.values[i] := by
  rw [apply, if_neg (Nat.not_lt_of_le (Nat.le_add_right _ _)), Nat.add_sub_cancel_left,
    List.getElem?_eq_getElem below, Option.getD_some]

theorem applyAll_cons (s : Store β) (stores : List (Store β)) (mem : Nat → β) :
    applyAll (s :: stores) mem = applyAll stores (s.apply mem) :=
  rfl

/-- A cell outside of all stores is left as it is. -/
theorem applyAll_eq_of_outside (outside : ∀ s ∈ stores, i < s.place ∨ s.stop ≤ i) :
    applyAll stores mem i = mem i := by
  induction stores generalizing mem with
  | nil => rfl
  | cons s stores ih =>
      rw [applyAll_cons, ih fun t member => outside t (List.mem_cons_of_mem s member)]
      rcases outside s List.mem_cons_self with before | behind
      · exact apply_of_lt before
      · exact apply_of_stop_le behind

end Store

open Store

variable {s : Store β} {stores : List (Store β)} {mem : Nat → β} {k width : Nat}

@[simp]
theorem length_window (mem : Nat → β) (k width : Nat) : (window mem k width).length = width :=
  (List.length_map _).trans List.length_range

theorem window_congr {other : Nat → β} (same : ∀ i < width, mem (k + i) = other (k + i)) :
    window mem k width = window other k width :=
  List.map_congr_left fun i member => same i (List.mem_range.mp member)

theorem window_succ (mem : Nat → β) (k width : Nat) :
    window mem k (width + 1) = mem k :: window mem (k + 1) width := by
  unfold window
  rw [List.range_succ_eq_map, List.map_cons, List.map_map]
  exact congrArg (mem k :: ·) (List.map_congr_left fun i _ => congrArg mem (by
    rw [Nat.succ_eq_add_one, Nat.add_assoc, Nat.add_comm 1]))

theorem window_add (mem : Nat → β) (k width more : Nat) :
    window mem k (width + more) = window mem k width ++ window mem (k + width) more := by
  unfold window
  rw [List.range_add, List.map_append, List.map_map]
  exact congrArg _ (List.map_congr_left fun i _ => congrArg mem (Nat.add_assoc k width i).symm)

theorem window_apply (s : Store β) (mem : Nat → β) :
    window (s.apply mem) s.place s.values.length = s.values := by
  apply List.ext_getElem (length_window _ _ _)
  intro i _ below
  simp only [window, List.getElem_map, List.getElem_range]
  exact apply_place_add below

/-- A window outside of all stores. -/
theorem window_applyAll_of_outside
    (outside : ∀ s ∈ stores, k + width ≤ s.place ∨ s.stop ≤ k) :
    window (applyAll stores mem) k width = window mem k width := by
  refine window_congr fun i below => applyAll_eq_of_outside fun s member => ?_
  rcases outside s member with before | behind
  · exact .inl (by omega)
  · exact .inr (by omega)

/-- Every store is read back, where no two of them overlap. -/
theorem window_applyAll_of_mem (apart : stores.Pairwise Apart) (member : s ∈ stores) :
    window (applyAll stores mem) s.place s.values.length = s.values := by
  induction stores generalizing mem with
  | nil => exact absurd member List.not_mem_nil
  | cons first stores ih =>
      rcases List.pairwise_cons.mp apart with ⟨ahead, rest⟩
      rcases List.mem_cons.mp member with rfl | member
      · rw [applyAll_cons, window_applyAll_of_outside fun t later => ahead t later, window_apply]
      · exact ih rest member

end NetPractice.Memory
