import NetPractice.Memory.ByteOrder
import NetPractice.Memory.Reading

/-!
# Messages of a key management socket

This module embeds `print_sadb_msg` of `key/printsadbmsg.c`, with the two functions that it
calls which contain loops: `supported_print` and `key_print`.  A message is a header of 16
bytes and some extensions; each extension begins with its length, in units of eight bytes,
and its type, in the byte order of the host.

The functions are computations that read the memory in which the message begins at 0.  What
they return stands for what is printed; the lines of the other types of extensions are left
out, with the fields that they show.
-/

namespace NetPractice.KeyMessage

open NetPractice.Memory
open NetPractice.Text

/-- The version of the protocol. -/
def PF_KEY_V2 : Byte := 2

/-- `sizeof(struct sadb_msg)`. -/
def SIZEOF_SADB_MSG : Nat := 16

/-- The extension with the authentication key. -/
def SADB_EXT_KEY_AUTH : Nat := 8

/-- The extension with the encryption key. -/
def SADB_EXT_KEY_ENCRYPT : Nat := 9

/-- The extension with the authentication algorithms. -/
def SADB_EXT_SUPPORTED_AUTH : Nat := 14

/-- The extension with the encryption algorithms. -/
def SADB_EXT_SUPPORTED_ENCRYPT : Nat := 15

/-- `struct sadb_alg`. -/
structure SadbAlg where
  id : Byte
  ivlen : Byte
  minbits : Nat
  maxbits : Nat
  deriving DecidableEq, Repr

/-- What is printed for an extension; `none` for algorithms is the line `None`. -/
inductive Extension where
  | supported (exttype : Nat) (algs : Option (List SadbAlg))
  | key (exttype bits : Nat) (body : List Byte)
  | other (type : Nat)
  deriving DecidableEq, Repr

/-- The fields of `struct sadb_msg` that are printed. -/
structure SadbMsg where
  type : Byte
  errno : Byte
  satype : Byte
  seq : Nat
  pid : Nat
  deriving DecidableEq, Repr

/-- What `print_sadb_msg` prints. -/
inductive Output where
  | lengthDiffers (len msglen : Nat)
  | otherVersion
  | message (msg : SadbMsg) (extensions : List Extension)
  deriving DecidableEq, Repr

variable (order : ByteOrder)

/-- An unsigned number in `width` bytes. -/
def readNumber (width k : Nat) : Reading Nat Byte Nat := do
  let bytes ← Reading.each (fun i => Reading.cell (k + i)) (List.range width)
  return order.load bytes

/-- The loop of `supported_print`; `len` bytes are left. -/
def readAlgs (alg : Nat) (len : Int) : Reading Nat Byte (List SadbAlg) :=
  if 0 < len then do
    let id ← Reading.cell alg
    let ivlen ← Reading.cell (alg + 1)
    let minbits ← readNumber order 2 (alg + 2)
    let maxbits ← readNumber order 2 (alg + 4)
    let rest ← readAlgs (alg + 8) (len - 8)
    return ⟨id, ivlen, minbits, maxbits⟩ :: rest
  else return []
termination_by len.toNat

/-- `supported_print`. -/
def supportedPrint (ext : Nat) : Reading Nat Byte Extension := do
  let exttype ← readNumber order 2 (ext + 2)
  let units ← readNumber order 2 ext
  let len : Int := units * 8 - 8
  if len = 0 then return .supported exttype none
  else
    let algs ← readAlgs order (ext + 8) len
    return .supported exttype (some algs)

/-- The loop of `key_print`; `bits` bits are left. -/
def readKey (p : Nat) (bits : Int) : Reading Nat Byte (List Byte) :=
  if 0 < bits then do
    let byte ← Reading.cell p
    let rest ← readKey (p + 1) (bits - 8)
    return byte :: rest
  else return []
termination_by bits.toNat

/-- `key_print`. -/
def keyPrint (ext : Nat) : Reading Nat Byte Extension := do
  let exttype ← readNumber order 2 (ext + 2)
  let bits ← readNumber order 2 (ext + 4)
  let body ← readKey (ext + 8) bits
  return .key exttype bits body

/-- The `switch` in the loop of `print_sadb_msg`. -/
def extensionPrint (ext : Nat) : Reading Nat Byte Extension := do
  let type ← readNumber order 2 (ext + 2)
  if type = SADB_EXT_KEY_AUTH ∨ type = SADB_EXT_KEY_ENCRYPT then keyPrint order ext
  else if type = SADB_EXT_SUPPORTED_AUTH ∨ type = SADB_EXT_SUPPORTED_ENCRYPT then
    supportedPrint order ext
  else return .other type

/-- The loop of `print_sadb_msg`, for at most `fuel` tests of its condition. -/
def extensionsPrint : Nat → Nat → Int → Reading Nat Byte (Option (List Extension))
  | 0, _, _ => return none
  | fuel + 1, ext, msglen =>
      if 0 < msglen then do
        let printed ← extensionPrint order ext
        let len ← readNumber order 2 ext
        let rest ← extensionsPrint fuel (ext + len * 8) (msglen - len * 8)
        return rest.map (printed :: ·)
      else return some []

/-- `print_sadb_msg`; the result is `none` when its loop has not ended. -/
def printSadbMsg (fuel msglen : Nat) : Reading Nat Byte (Option Output) := do
  let len ← readNumber order 2 4
  if msglen ≠ len * 8 then return some (.lengthDiffers (len * 8) msglen)
  else
    let version ← Reading.cell 0
    if version ≠ PF_KEY_V2 then return some .otherVersion
    else
      let type ← Reading.cell 1
      let errno ← Reading.cell 2
      let satype ← Reading.cell 3
      let seq ← readNumber order 4 8
      let pid ← readNumber order 4 12
      if msglen = SIZEOF_SADB_MSG then
        return some (.message ⟨type, errno, satype, seq, pid⟩ [])
      else
        let extensions ←
          extensionsPrint order fuel SIZEOF_SADB_MSG ((msglen : Int) - SIZEOF_SADB_MSG)
        return extensions.map (.message ⟨type, errno, satype, seq, pid⟩)

end NetPractice.KeyMessage
