import NetPractice.Text.CString

/-!
# One direction of a connection

The bytes that were sent and are not yet received are in the buffers of the two hosts, which
have room for some number of bytes.  A sender that has more waits, and goes on when there is
room for a part of it.  It ends the direction with a FIN, behind everything that it has sent.
-/

namespace NetPractice.Socket

open NetPractice.Text

/-- The bytes on their way, and whether the writer has closed its end. -/
structure Pipe where
  bytes : List Byte
  closed : Bool
  deriving DecidableEq, Repr

namespace Pipe

/-- Nothing has been written. -/
def empty : Pipe where
  bytes := []
  closed := false

/-- One `write` of what is left of a buffer, which takes `n` bytes of it. -/
def write (size n : Nat) (buf : List Byte) (p : Pipe) : Option (List Byte × Pipe) :=
  if 0 < n ∧ n ≤ buf.length ∧ p.closed = false ∧ p.bytes.length + n ≤ size then
    some (buf.drop n, { p with bytes := p.bytes ++ buf.take n })
  else none

/-- One `read` that returns `n` bytes, where `n` is not 0. -/
def read (n : Nat) (p : Pipe) : Option (List Byte × Pipe) :=
  if 0 < n ∧ n ≤ p.bytes.length then
    some (p.bytes.take n, { p with bytes := p.bytes.drop n })
  else none

/-- `read` returns 0. -/
def AtEnd (p : Pipe) : Prop :=
  p.bytes = [] ∧ p.closed = true

instance (p : Pipe) : Decidable p.AtEnd :=
  inferInstanceAs (Decidable (_ ∧ _))

/-- `read` does not block. -/
def Readable (p : Pipe) : Prop :=
  p.bytes ≠ [] ∨ p.closed = true

instance (p : Pipe) : Decidable p.Readable :=
  inferInstanceAs (Decidable (_ ∨ _))

/-- `shutdown(sockfd, SHUT_WR)`, or `close`. -/
def shut (p : Pipe) : Pipe :=
  { p with closed := true }

variable {size n : Nat} {buf rest chunk : List Byte} {p q : Pipe}

/-- What one `write` does. -/
structure Wrote (size n : Nat) (buf : List Byte) (p : Pipe) (rest : List Byte) (q : Pipe) :
    Prop where
  bytes : q.bytes ++ rest = p.bytes ++ buf
  pos : 0 < n
  rest_length : rest.length + n = buf.length
  length : q.bytes.length = p.bytes.length + n
  room : q.bytes.length ≤ size
  opened : p.closed = false
  closed : q.closed = p.closed

theorem wrote_of_write (written : p.write size n buf = some (rest, q)) :
    Wrote size n buf p rest q := by
  rcases Option.ite_none_right_eq_some.mp written with ⟨⟨pos, le, opened, room⟩, pair⟩
  cases pair
  have taken : (buf.take n).length = n := List.length_take_of_le le
  refine ⟨?_, pos, ?_, ?_, ?_, opened, rfl⟩
  · rw [List.append_assoc, List.take_append_drop]
  · rw [List.length_drop, Nat.sub_add_cancel le]
  · rw [List.length_append, taken]
  · rw [List.length_append, taken]
    exact room

theorem exists_write (nonempty : buf ≠ []) (opened : p.closed = false)
    (room : p.bytes.length < size) : ∃ out, p.write size 1 buf = some out :=
  ⟨_, if_pos ⟨Nat.one_pos, List.length_pos_iff.mpr nonempty, opened, room⟩⟩

theorem write_eq_none_of_full (full : size ≤ p.bytes.length) : p.write size n buf = none := by
  apply if_neg
  rintro ⟨pos, -, -, room⟩
  omega

/-- What one `read` does. -/
structure Got (n : Nat) (p : Pipe) (chunk : List Byte) (q : Pipe) : Prop where
  bytes : chunk ++ q.bytes = p.bytes
  pos : 0 < n
  chunk_length : chunk.length = n
  length : q.bytes.length + n = p.bytes.length
  closed : q.closed = p.closed

theorem got_of_read (taken : p.read n = some (chunk, q)) : Got n p chunk q := by
  rcases Option.ite_none_right_eq_some.mp taken with ⟨⟨pos, le⟩, pair⟩
  cases pair
  refine ⟨List.take_append_drop n p.bytes, pos, List.length_take_of_le le, ?_, rfl⟩
  rw [List.length_drop, Nat.sub_add_cancel le]

theorem Got.bytes_ne_nil {chunk : List Byte} (got : Got n p chunk q) : p.bytes ≠ [] := by
  have length := got.length
  have pos := got.pos
  exact List.ne_nil_of_length_pos (by omega)

theorem Got.ne_empty {chunk : List Byte} (got : Got n p chunk q) : p ≠ .empty :=
  fun empty => got.bytes_ne_nil (congrArg Pipe.bytes empty)

theorem Got.ne_nil (got : Got n p chunk q) : chunk ≠ [] := by
  rintro rfl
  exact got.pos.ne got.chunk_length

theorem exists_read (nonempty : p.bytes ≠ []) : ∃ out, p.read 1 = some out :=
  ⟨_, if_pos ⟨Nat.one_pos, List.length_pos_iff.mpr nonempty⟩⟩

theorem read_eq_none_of_nil (empty : p.bytes = []) : p.read n = none := by
  apply if_neg
  rintro ⟨pos, le⟩
  rw [empty] at le
  exact absurd pos (Nat.not_lt_of_le le)

end Pipe

end NetPractice.Socket
