import NetPractice.Text.CString
import Mathlib.Data.List.Basic
import Mathlib.Algebra.Group.Nat.Defs

/-!
# Words in memory

A number is stored in some bytes that follow one another, in the byte order of the host.
-/

namespace NetPractice.Memory

open NetPractice.Text

/-! ## The least significant byte first -/

/-- The bytes of a number. -/
def storeWord : Nat → Nat → List Byte
  | 0, _ => []
  | width + 1, value => .ofNat value :: storeWord width (value / 256)

/-- The number in these bytes. -/
def loadWord : List Byte → Nat
  | [] => 0
  | byte :: bytes => byte.toNat + 256 * loadWord bytes

@[simp]
theorem length_storeWord (width value : Nat) : (storeWord width value).length = width := by
  induction width generalizing value with
  | zero => rfl
  | succ width ih => exact congrArg Nat.succ (ih (value / 256))

/-- A number that fits is read back. -/
theorem loadWord_storeWord {width value : Nat} (fits : value < 256 ^ width) :
    loadWord (storeWord width value) = value := by
  induction width generalizing value with
  | zero => exact (Nat.lt_one_iff.mp fits).symm
  | succ width ih =>
      have rest : value / 256 < 256 ^ width := by
        apply Nat.div_lt_of_lt_mul
        rw [← Nat.pow_succ']
        exact fits
      have low : (UInt8.ofNat value).toNat = value % 256 := rfl
      rw [storeWord, loadWord, ih rest, low]
      exact Nat.mod_add_div value 256

/-! ## Byte orders -/

/-- Which byte of a number the host stores first. -/
inductive ByteOrder where
  | little | big
  deriving DecidableEq, Repr

namespace ByteOrder

/-- The number that the host loads. -/
def load : ByteOrder → List Byte → Nat
  | little, bytes => loadWord bytes
  | big, bytes => loadWord bytes.reverse

/-- The bytes that the host stores. -/
def store : ByteOrder → Nat → Nat → List Byte
  | little, width, value => storeWord width value
  | big, width, value => (storeWord width value).reverse

variable {order : ByteOrder}

@[simp]
theorem length_store (width value : Nat) : (order.store width value).length = width := by
  cases order with
  | little => exact length_storeWord width value
  | big => exact List.length_reverse.trans (length_storeWord width value)

theorem load_store {width value : Nat} (fits : value < 256 ^ width) :
    order.load (order.store width value) = value := by
  cases order with
  | little => exact loadWord_storeWord fits
  | big =>
      rw [store, load, List.reverse_reverse]
      exact loadWord_storeWord fits

end ByteOrder

end NetPractice.Memory
