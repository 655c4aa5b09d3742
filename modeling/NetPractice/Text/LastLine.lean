import Mathlib.Data.List.DropRight
import Mathlib.Algebra.Order.Group.Nat

/-!
# Behind the last mark

What stands behind the last newline of a text, for a text that is read in pieces: up to a
newline, or of a fixed length.
-/

namespace NetPractice.Text

universe u

variable {α : Type u} [DecidableEq α] {mark : α}

/-- The part of a list behind the last mark; the whole list, if there is none. -/
def behindLast (mark : α) (content : List α) : List α :=
  content.rtakeWhile (· ≠ mark)

theorem behindLast_append_cons (text rest : List α) :
    behindLast mark (text ++ mark :: rest) = behindLast mark rest := by
  induction rest using List.reverseRecOn with
  | nil =>
      rw [behindLast, List.rtakeWhile_concat_neg _ _ _ (by simp)]
      rfl
  | append_singleton rest last ih =>
      rw [← List.cons_append, ← List.append_assoc, behindLast, behindLast,
        List.rtakeWhile_concat, List.rtakeWhile_concat]
      rw [behindLast, behindLast] at ih
      rw [ih]

theorem behindLast_of_notMem {content : List α} (none : mark ∉ content) :
    behindLast mark content = content := by
  apply List.rtakeWhile_eq_self_iff.mpr
  intro other mem
  apply decide_eq_true
  rintro rfl
  exact none mem

/-- A piece without a mark is a part of what is behind the last one, or is not. -/
theorem length_behindLast_append {piece : List α} (none : mark ∉ piece) (rest : List α) :
    (behindLast mark (piece ++ rest)).length = (behindLast mark rest).length ∨
      (behindLast mark (piece ++ rest)).length =
        piece.length + (behindLast mark rest).length := by
  by_cases mem : mark ∈ rest
  · left
    rcases List.append_of_mem mem with ⟨front, back, rfl⟩
    rw [← List.append_assoc, behindLast_append_cons, behindLast_append_cons]
  · right
    have absent : mark ∉ piece ++ rest := fun both => (List.mem_append.mp both).elim none mem
    rw [behindLast_of_notMem absent, behindLast_of_notMem mem, List.length_append]

/-- A piece that ends with a mark, or that is as long as the pieces are, leaves the number of
bytes that the last piece lacks. -/
theorem dvd_behindLast_append {piece : List α} {size : Nat}
    (cut : (∃ text, piece = text ++ [mark]) ∨ mark ∉ piece ∧ piece.length = size)
    (rest : List α) :
    size ∣ (behindLast mark (piece ++ rest)).length ↔ size ∣ (behindLast mark rest).length := by
  rcases cut with ⟨text, rfl⟩ | ⟨none, full⟩
  · rw [List.append_assoc, List.singleton_append, behindLast_append_cons]
  · rcases length_behindLast_append none rest with equal | longer
    · rw [equal]
    · rw [longer, full]
      exact Nat.dvd_add_right (Nat.dvd_refl _)

end NetPractice.Text
