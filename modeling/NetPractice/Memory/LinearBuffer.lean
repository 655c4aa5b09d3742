import Mathlib.Data.List.Basic

/-!
# Linear buffers

An array with an in pointer and an out pointer, which only move forward.  What lies
between them has been stored and not yet taken.  An empty buffer can be rewound, so that
both pointers are at the start again.
-/

namespace NetPractice.Memory

universe u

/-- An array of `size` elements, as offsets of its two pointers. -/
structure LinearBuffer (α : Type u) (size : Nat) where
  mem : List α
  optr : Nat
  iptr : Nat
  allocated : mem.length = size
  order : optr ≤ iptr
  inside : iptr ≤ size
  deriving DecidableEq

namespace LinearBuffer

variable {α : Type u} {size : Nat}

/-- Both pointers at the start of an array. -/
def start (mem : List α) (allocated : mem.length = size) : LinearBuffer α size where
  mem := mem
  optr := 0
  iptr := 0
  allocated := allocated
  order := Nat.le_refl 0
  inside := Nat.zero_le size

/-- What has been stored and not taken. -/
def pending (b : LinearBuffer α size) : List α :=
  (b.mem.take b.iptr).drop b.optr

/-- How much can still be stored. -/
def room (b : LinearBuffer α size) : Nat :=
  size - b.iptr

/-- Store at the in pointer. -/
def put (b : LinearBuffer α size) (new : List α) (fits : new.length ≤ b.room) :
    LinearBuffer α size :=
  have inside := b.inside
  have order := b.order
  have allocated := b.allocated
  { mem := b.mem.take b.iptr ++ new ++ b.mem.drop (b.iptr + new.length)
    optr := b.optr
    iptr := b.iptr + new.length
    allocated := by
      rw [List.length_append, List.length_append, List.length_take, List.length_drop]
      unfold room at fits
      omega
    order := by omega
    inside := by
      unfold room at fits
      omega }

/-- Take `count` elements at the out pointer. -/
def advance (b : LinearBuffer α size) (count : Nat) (stored : count ≤ b.iptr - b.optr) :
    LinearBuffer α size :=
  have order := b.order
  { b with optr := b.optr + count, order := by omega }

/-- Back to the start of the array, if nothing is stored. -/
def rewind (b : LinearBuffer α size) : LinearBuffer α size :=
  if b.optr = b.iptr then start b.mem b.allocated else b

theorem length_pending (b : LinearBuffer α size) : b.pending.length = b.iptr - b.optr := by
  have inside := b.inside
  have allocated := b.allocated
  rw [pending, List.length_drop, List.length_take]
  omega

theorem pending_eq_nil_iff (b : LinearBuffer α size) : b.pending = [] ↔ b.optr = b.iptr := by
  have order := b.order
  rw [← List.length_eq_zero_iff, length_pending]
  omega

@[simp]
theorem pending_start (mem : List α) (allocated : mem.length = size) :
    (start mem allocated).pending = [] :=
  rfl

@[simp]
theorem pending_put (b : LinearBuffer α size) (new : List α) (fits : new.length ≤ b.room) :
    (b.put new fits).pending = b.pending ++ new := by
  have order := b.order
  have inside := b.inside
  have allocated := b.allocated
  have front : (b.mem.take b.iptr).length = b.iptr := by
    rw [List.length_take]
    omega
  have upTo : (b.mem.take b.iptr ++ new).length = b.iptr + new.length := by
    rw [List.length_append, front]
  change ((b.mem.take b.iptr ++ new ++ _).take (b.iptr + new.length)).drop b.optr = _
  rw [← upTo, List.take_left, List.drop_append_of_le_length (by omega)]
  rfl

@[simp]
theorem pending_advance (b : LinearBuffer α size) (count : Nat)
    (stored : count ≤ b.iptr - b.optr) :
    (b.advance count stored).pending = b.pending.drop count := by
  unfold pending
  rw [List.drop_drop]
  rfl

@[simp]
theorem pending_rewind (b : LinearBuffer α size) : b.rewind.pending = b.pending := by
  unfold rewind
  by_cases empty : b.optr = b.iptr
  · rw [if_pos empty, pending_start, (pending_eq_nil_iff b).mpr empty]
  · rw [if_neg empty]

theorem rewind_empty_iff (b : LinearBuffer α size) :
    b.rewind.optr = b.rewind.iptr ↔ b.optr = b.iptr := by
  rw [← pending_eq_nil_iff, pending_rewind, pending_eq_nil_iff]

/-- Taking what is stored moves it from the buffer to what was taken. -/
theorem taken_append (b : LinearBuffer α size) (count : Nat) (stored : count ≤ b.iptr - b.optr)
    (before : List α) :
    (before ++ b.pending.take count) ++ (b.advance count stored).rewind.pending =
      before ++ b.pending := by
  rw [pending_rewind, pending_advance, List.append_assoc, List.take_append_drop]

end LinearBuffer

end NetPractice.Memory
