import Mathlib.Data.List.Basic
import Mathlib.Algebra.Ring.Nat

/-!
# Pieces with a separator between them

A printer that puts a separator in front of every piece but the first prints the pieces
joined by it.
-/

namespace NetPractice.Text

universe u

variable {α : Type u} {sep : α} {pieces : List (List α)}

theorem intercalate_append {more : List (List α)} (nonempty : pieces ≠ []) (others : more ≠ []) :
    List.intercalate [sep] (pieces ++ more) =
      List.intercalate [sep] pieces ++ sep :: List.intercalate [sep] more := by
  induction pieces with
  | nil => exact absurd rfl nonempty
  | cons first pieces ih =>
      cases pieces with
      | nil => simp [List.intercalate_cons_of_ne_nil others]
      | cons second pieces =>
          rw [List.cons_append, List.cons_append, List.intercalate_cons_cons, ← List.cons_append,
            ih (List.cons_ne_nil second pieces), List.intercalate_cons_cons]
          simp

/-- A piece that is printed behind others. -/
theorem intercalate_concat (nonempty : pieces ≠ []) (piece : List α) :
    List.intercalate [sep] (pieces ++ [piece]) =
      List.intercalate [sep] pieces ++ sep :: piece := by
  rw [intercalate_append nonempty (List.cons_ne_nil piece []), List.intercalate_singleton]

/-- The last piece, and in front of it the others with a separator behind each of them. -/
theorem intercalate_concat_eq_flatMap (pieces : List (List α)) (piece : List α) :
    List.intercalate [sep] (pieces ++ [piece]) =
      (pieces.flatMap fun front => front ++ [sep]) ++ piece := by
  induction pieces with
  | nil => exact List.intercalate_singleton
  | cons first pieces ih =>
      have nonempty : pieces ++ [piece] ≠ [] :=
        List.append_ne_nil_of_right_ne_nil pieces (List.cons_ne_nil piece [])
      rw [List.cons_append, List.intercalate_cons_of_ne_nil nonempty, ih, List.flatMap_cons,
        List.append_assoc, List.append_assoc, List.append_assoc]

theorem mem_intercalate {ch : α} (mem : ch ∈ List.intercalate [sep] pieces) :
    ch = sep ∨ ∃ piece ∈ pieces, ch ∈ piece := by
  induction pieces with
  | nil => cases mem
  | cons first pieces ih =>
      cases pieces with
      | nil =>
          rw [List.intercalate_singleton] at mem
          exact .inr ⟨first, List.mem_singleton.mpr rfl, mem⟩
      | cons second pieces =>
          rw [List.intercalate_cons_cons, List.mem_append, List.mem_append] at mem
          rcases mem with (here | here) | behind
          · exact .inr ⟨first, List.mem_cons_self, here⟩
          · exact .inl (List.mem_singleton.mp here)
          · rcases ih behind with here | ⟨piece, pieceMem, here⟩
            · exact .inl here
            · exact .inr ⟨piece, List.mem_cons_of_mem first pieceMem, here⟩

/-- Each piece takes its width and a separator, and the first no separator. -/
theorem length_intercalate_le (sep : α) {width : Nat}
    (bounded : ∀ piece ∈ pieces, piece.length ≤ width) :
    (List.intercalate [sep] pieces).length ≤ pieces.length * (width + 1) - 1 := by
  induction pieces with
  | nil => exact Nat.zero_le _
  | cons first pieces ih =>
      have here := bounded first List.mem_cons_self
      cases pieces with
      | nil =>
          rw [List.intercalate_singleton, List.length_singleton]
          omega
      | cons second pieces =>
          have behind := ih fun piece mem => bounded piece (List.mem_cons_of_mem first mem)
          rw [List.intercalate_cons_cons, List.length_append, List.length_append,
            List.length_singleton]
          simp only [List.length_cons] at behind ⊢
          rw [Nat.add_mul (pieces.length + 1) 1]
          have some : (pieces.length + 1) * (width + 1) ≥ 1 :=
            Nat.mul_pos (Nat.succ_pos _) (Nat.succ_pos _)
          omega

end NetPractice.Text
