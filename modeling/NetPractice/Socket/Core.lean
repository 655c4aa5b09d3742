import NetPractice.Text.CString

/-!
# Answers of socket calls

The programs read from nonblocking sockets.  What a call answers is part of the
event that makes the call.
-/

namespace NetPractice.Socket

open NetPractice.Text

/-- Descriptors; `-1` stands for none. -/
abbrev Fd := Int

/-- Reports are searched for a descriptor. -/
instance : LawfulBEq (Option Fd) :=
  inferInstance

/-- How many descriptors an `fd_set` has room for. -/
def FD_SETSIZE : Nat := 1024

/-- What `recv` returns: at least one byte, end of file, `EAGAIN`, or another
error. -/
inductive Recv where
  | data (bytes : List Byte)
  | eof
  | again
  | fail
  deriving DecidableEq, Repr

namespace Recv

/-- The bytes of a successful `recv`. -/
def bytes : Recv → Option (List Byte)
  | .data bytes => some bytes
  | .eof | .again | .fail => none

/-- A successful `recv` returns at least one byte, and no more than it was asked
for. -/
def AtMost (recv : Recv) (limit : Nat) : Prop :=
  ∀ bytes ∈ recv.bytes, bytes ≠ [] ∧ bytes.length ≤ limit

instance (recv : Recv) (limit : Nat) : Decidable (recv.AtMost limit) :=
  inferInstanceAs (Decidable (∀ bytes ∈ recv.bytes, _))

end Recv

/-- What `send` returns: how many bytes the socket took, `EAGAIN`, or the error
of a connection that the other side has left. -/
inductive Send where
  | taken (count : Nat)
  | again
  | gone
  deriving DecidableEq, Repr

namespace Send

/-- How much a successful `send` has taken. -/
def count : Send → Option Nat
  | .taken count => some count
  | .again | .gone => none

/-- A successful `send` takes no more than it was given. -/
def AtMost (send : Send) (limit : Nat) : Prop :=
  ∀ count ∈ send.count, count ≤ limit

instance (send : Send) (limit : Nat) : Decidable (send.AtMost limit) :=
  inferInstanceAs (Decidable (∀ count ∈ send.count, _))

end Send

end NetPractice.Socket
