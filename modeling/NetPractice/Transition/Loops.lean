import Mathlib.Data.List.Nodup
import Mathlib.Data.Finset.Card
import Mathlib.Order.Monotone.Basic
import Mathlib.Order.Iterate
import Mathlib.Order.WellFounded

/-!
# Loops that count down or move forward

A loop that counts down goes over some items, handles those that it is told about, and stops
early when a counter of them is used up.  Whatever the counter is compared with, the loop
handles every such item if the counter begins at their number, or higher.

A loop that moves forward takes a position to a bound, or behind it.  It ends just when it does
not stand still in front of the bound.
-/

namespace NetPractice.Transition

universe u v w

section Countdown

variable {σ : Type u} {α : Type v} (spent : Int → Prop) [DecidablePred spent]
  (hit : σ → α → Prop) [∀ state, DecidablePred (hit state)] (handle : σ → α → σ)

/-- Handle the items that are hit, until the counter is spent. -/
def countdown : Int → List α → σ → σ
  | _, [], state => state
  | count, item :: items, state =>
      if hit state item then
        if spent (count - 1) then handle state item
        else countdown (count - 1) items (handle state item)
      else countdown count items state

variable {spent hit handle}

/-- Handling one item does not change which of the others are hit. -/
def Separate (hit : σ → α → Prop) (handle : σ → α → σ) : Prop :=
  ∀ state item other, other ≠ item → (hit (handle state item) other ↔ hit state other)

/-- With a counter that is large enough, all items that are hit are handled in order. -/
theorem countdown_eq_foldl (exhausted : ∀ count, spent count → count ≤ 0)
    (separate : Separate hit handle) {items : List α} (nodup : items.Nodup) {count : Int}
    {state : σ} (enough : ((items.filter (hit state ·)).length : Int) ≤ count) :
    countdown spent hit handle count items state =
      (items.filter (hit state ·)).foldl handle state := by
  induction items generalizing count state with
  | nil => rfl
  | cons item items ih =>
      rcases List.nodup_cons.mp nodup with ⟨new, nodup⟩
      rw [countdown]
      by_cases isHit : hit state item
      · have same : items.filter (hit (handle state item) ·) = items.filter (hit state ·) := by
          apply List.filter_congr
          intro other mem
          have ne : other ≠ item := fun equal => new (equal ▸ mem)
          exact decide_eq_decide.mpr (separate state item other ne)
        have filtered : (item :: items).filter (hit state ·) =
            item :: items.filter (hit state ·) :=
          List.filter_cons_of_pos (decide_eq_true isHit)
        rw [filtered, List.length_cons] at enough
        rw [if_pos isHit, filtered, List.foldl_cons]
        by_cases isSpent : spent (count - 1)
        · have none := exhausted _ isSpent
          have empty : items.filter (hit state ·) = [] :=
            List.eq_nil_of_length_eq_zero (by omega)
          rw [if_pos isSpent, empty, List.foldl_nil]
        · rw [if_neg isSpent, ← same]
          apply ih nodup
          rw [same]
          omega
      · have filtered : (item :: items).filter (hit state ·) = items.filter (hit state ·) :=
          List.filter_cons_of_neg (by simpa using isHit)
        rw [filtered] at enough
        rw [if_neg isHit, filtered]
        exact ih nodup enough

end Countdown

/-- Different items with different keys are as many as the keys that they have. -/
theorem length_filter_eq_card {α : Type v} {κ : Type w} [DecidableEq κ] {items : List α}
    {p : α → Prop} [DecidablePred p] {key : α → κ} {keys : Finset κ} (nodup : items.Nodup)
    (injective : ∀ item ∈ items, ∀ other ∈ items, p item → p other → key item = key other →
      item = other)
    (image : ∀ k, k ∈ keys ↔ ∃ item ∈ items, p item ∧ key item = k) :
    (items.filter (p ·)).length = keys.card := by
  have distinct : ((items.filter (p ·)).map key).Nodup := by
    apply List.Nodup.map_on _ (nodup.filter _)
    intro item mem other mem' equal
    rcases List.mem_filter.mp mem with ⟨inItems, holds⟩
    rcases List.mem_filter.mp mem' with ⟨inItems', holds'⟩
    exact injective item inItems other inItems' (of_decide_eq_true holds) (of_decide_eq_true holds')
      equal
  have same : ((items.filter (p ·)).map key).toFinset = keys := by
    ext k
    rw [List.mem_toFinset, List.mem_map, image]
    constructor
    · rintro ⟨item, mem, rfl⟩
      rcases List.mem_filter.mp mem with ⟨inItems, holds⟩
      exact ⟨item, inItems, of_decide_eq_true holds, rfl⟩
    · rintro ⟨item, inItems, holds, rfl⟩
      exact ⟨item, List.mem_filter.mpr ⟨inItems, decide_eq_true holds⟩, rfl⟩
  rw [← same, List.toFinset_card_of_nodup distinct, List.length_map]

section Advance

variable {advance : Nat → Nat} {start bound i j : Nat}

theorem iterate_le_iterate (forward : ∀ x, x ≤ advance x) (le : i ≤ j) :
    advance^[i] start ≤ advance^[j] start := by
  have monotone : Monotone fun i => advance^[i] start := by
    apply monotone_nat_of_le_succ
    intro i
    rw [Function.iterate_succ_apply']
    exact forward _
  exact monotone le

theorem exists_le_iterate_iff (forward : ∀ x, x ≤ advance x) :
    (∃ i, bound ≤ advance^[i] start) ↔
      ∀ i, advance^[i] start < bound → advance^[i] start < advance (advance^[i] start) := by
  constructor
  · rintro ⟨last, reached⟩ i before
    refine lt_of_le_of_ne (forward _) fun still => ?_
    have le : i ≤ last := by
      by_contra behind
      have back : advance^[last] start ≤ advance^[i] start :=
        iterate_le_iterate forward (Nat.le_of_not_le behind)
      omega
    rcases Nat.exists_eq_add_of_le' le with ⟨more, rfl⟩
    rw [Function.iterate_add_apply, Function.iterate_fixed still.symm] at reached
    omega
  · intro moves
    by_contra never
    have before : ∀ i, advance^[i] start < bound := fun i =>
      Nat.lt_of_not_le fun reached => never ⟨i, reached⟩
    have strict : StrictMono fun i => advance^[i] start := by
      apply strictMono_nat_of_lt_succ
      intro i
      rw [Function.iterate_succ_apply']
      exact moves i (before i)
    exact absurd (strict.le_apply (x := bound)) (Nat.not_le_of_lt (before bound))

end Advance

end NetPractice.Transition
