import Mathlib.Data.List.Basic
import Mathlib.Data.List.TakeWhile

/-!
# C strings in byte buffers

A C string is read from a buffer up to, and without, its first NUL byte.
-/

namespace NetPractice.Text

/-- A byte of a buffer. -/
abbrev Byte := UInt8

/-- The C string that starts at the first byte of a buffer. -/
def cstr (buffer : List Byte) : List Byte :=
  buffer.takeWhile (· ≠ 0)

@[simp]
theorem cstr_nil : cstr [] = [] :=
  rfl

theorem cstr_cons (byte : Byte) (buffer : List Byte) :
    cstr (byte :: buffer) = if byte = 0 then [] else byte :: cstr buffer := by
  by_cases nul : byte = 0 <;> simp [cstr, nul]

theorem zero_notMem_cstr (buffer : List Byte) : 0 ∉ cstr buffer := by
  intro mem
  simpa using List.mem_takeWhile_imp mem

theorem cstr_of_notMem {text : List Byte} (noNul : 0 ∉ text) : cstr text = text := by
  apply List.takeWhile_eq_self_iff.mpr
  intro byte mem
  apply decide_eq_true
  rintro rfl
  exact noNul mem

/-- A C string ends at a NUL byte, or before. -/
theorem cstr_append_zero (text rest : List Byte) : cstr (text ++ 0 :: rest) = cstr text := by
  induction text with
  | nil => simp [cstr]
  | cons byte text ih => rw [List.cons_append, cstr_cons, cstr_cons, ih]

/-- A C string ends at the NUL byte behind text that holds none. -/
theorem cstr_append_nul {text : List Byte} (noNul : 0 ∉ text) (rest : List Byte) :
    cstr (text ++ 0 :: rest) = text := by
  induction text with
  | nil => simp [cstr]
  | cons byte text ih =>
      have byte_ne : byte ≠ 0 := fun equal => noNul (by simp [equal])
      rw [List.cons_append, cstr_cons, if_neg byte_ne,
        ih fun mem => noNul (List.mem_cons_of_mem _ mem)]

/-- A NUL byte and the text in front of it. -/
theorem exists_cstr_append {line : List Byte} (nul : 0 ∈ line) :
    ∃ rest, line = cstr line ++ 0 :: rest := by
  induction line with
  | nil => cases nul
  | cons byte line ih =>
      rw [cstr_cons]
      by_cases zero : byte = 0
      · rw [if_pos zero, zero]
        exact ⟨line, rfl⟩
      · rw [if_neg zero]
        have further : 0 ∈ line := (List.mem_cons.mp nul).resolve_left (Ne.symm zero)
        obtain ⟨rest, line_eq⟩ := ih further
        refine ⟨rest, ?_⟩
        rw [List.cons_append, ← line_eq]

/-- A pointer into a C string points to the rest of it. -/
theorem cstr_drop {buffer : List Byte} {k : Nat} (le : k ≤ (cstr buffer).length) :
    cstr (buffer.drop k) = (cstr buffer).drop k := by
  induction k generalizing buffer with
  | zero => rfl
  | succ k ih =>
      cases buffer with
      | nil => simp
      | cons byte buffer =>
          rw [cstr_cons] at le ⊢
          by_cases nul : byte = 0
          · simp [nul] at le
          · rw [if_neg nul] at le ⊢
            exact ih (by simpa using le)

/-- A NUL byte that is stored into a C string ends it. -/
theorem cstr_set {buffer : List Byte} {k : Nat} (lt : k < (cstr buffer).length) :
    cstr (buffer.set k 0) = (cstr buffer).take k := by
  induction buffer generalizing k with
  | nil => simp at lt
  | cons byte buffer ih =>
      rw [cstr_cons] at lt ⊢
      by_cases nul : byte = 0
      · simp [nul] at lt
      · rw [if_neg nul] at lt ⊢
        cases k with
        | zero => simp [cstr]
        | succ k =>
            rw [List.set_cons_succ, cstr_cons, if_neg nul, List.take_succ_cons,
              ih (Nat.lt_of_succ_lt_succ lt)]

end NetPractice.Text
