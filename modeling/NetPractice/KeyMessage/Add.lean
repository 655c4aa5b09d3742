import NetPractice.KeyMessage.Bounds
import NetPractice.Memory.Stores

/-!
# The request for a static security association

This module embeds the part of `sadb_add` of `key/add.c` that builds its request, field by
field, in a buffer of 4096 bytes: a header, the association, the two addresses and the key.
The sum of the lengths of the extensions becomes the length of the message.  `sa_print` and
`address_print` of `key/printsadbmsg.c` read the fields of two types of extensions, which the
walk over a message leaves out.
-/

namespace NetPractice.KeyMessage

open NetPractice.Memory
open NetPractice.Text

/-- The type of the message. -/
def SADB_ADD : Byte := 3

/-- The extension with the association. -/
def SADB_EXT_SA : Nat := 1

/-- The extension with the source address. -/
def SADB_EXT_ADDRESS_SRC : Nat := 5

/-- The extension with the destination address. -/
def SADB_EXT_ADDRESS_DST : Nat := 6

/-- The state of the association. -/
def SADB_SASTATE_MATURE : Byte := 1

/-- No encryption. -/
def SADB_EALG_NONE : Byte := 0

/-- `sizeof(buf)`. -/
def BUFSIZE : Nat := 4096

/-- `AF_INET`, `AF_INET6`, or another address family. -/
inductive Family where
  | inet | inet6 | other
  deriving DecidableEq, Repr

/-- `salen`, where a `struct sockaddr` does not say its length. -/
def salen : Family → Nat
  | .inet => 16
  | .inet6 => 28
  | .other => 0

/-- `prefix_all`: the length of a prefix that is a whole address. -/
def prefixAll : Family → Byte
  | .inet => 32
  | .inet6 => 128
  | .other => 0

/-- A `struct sockaddr` of one of the families. -/
structure Sockaddr where
  family : Family
  bytes : List Byte
  length_bytes : bytes.length = salen family

/-- The key that `main` has read: a number of bits that is a multiple of 8. -/
structure Key where
  keybits : Nat
  keydata : List Byte
  length_keydata : keydata.length * 8 = keybits

/-- The arguments of `sadb_add`, with the process ID. -/
structure Request where
  src : Sockaddr
  dst : Sockaddr
  type : Byte
  alg : Byte
  spi : UInt32
  key : Key
  pid : UInt32

namespace Request

variable (order : ByteOrder) (r : Request)

/-- `sadb_address_len`, in units of eight bytes. -/
def addressLen (a : Sockaddr) : Nat :=
  (8 + salen a.family + 7) / 8

/-- `sadb_key_len`, as it is read back from its two bytes. -/
def keyLen (keybits : Nat) : Nat :=
  (8 + keybits / 8 + 7) / 8 % 2 ^ 16

/-! The places of the extensions, and the end of the message. -/

/-- Where the association begins. -/
def saPlace : Nat := SIZEOF_SADB_MSG

/-- Where the source address begins. -/
def srcPlace : Nat := saPlace + 2 * 8

/-- Where the destination address begins. -/
def dstPlace : Nat := srcPlace + addressLen r.src * 8

/-- Where the key begins. -/
def keyPlace : Nat := r.dstPlace + addressLen r.dst * 8

/-- The length of the message. -/
def len : Nat := r.keyPlace + keyLen r.key.keybits * 8

/-- The assignments to the header. -/
def msgStores : List (Store Byte) :=
  [⟨0, [PF_KEY_V2]⟩, ⟨1, [SADB_ADD]⟩, ⟨3, [r.type]⟩, ⟨12, order.store 4 r.pid.toNat⟩]

/-- The assignments to the association. -/
def saStores (p : Nat) : List (Store Byte) :=
  [⟨p, order.store 2 2⟩, ⟨p + 2, order.store 2 SADB_EXT_SA⟩,
    ⟨p + 4, ByteOrder.big.store 4 r.spi.toNat⟩, ⟨p + 8, [0]⟩, ⟨p + 9, [SADB_SASTATE_MATURE]⟩,
    ⟨p + 10, [r.alg]⟩, ⟨p + 11, [SADB_EALG_NONE]⟩, ⟨p + 12, order.store 4 0⟩]

/-- The assignments to an address extension. -/
def addressStores (p exttype : Nat) (a : Sockaddr) : List (Store Byte) :=
  [⟨p, order.store 2 (addressLen a)⟩, ⟨p + 2, order.store 2 exttype⟩, ⟨p + 4, [0]⟩,
    ⟨p + 5, [prefixAll a.family]⟩, ⟨p + 6, order.store 2 0⟩, ⟨p + 8, a.bytes⟩]

/-- The assignments to the key extension. -/
def keyStores (p : Nat) (key : Key) : List (Store Byte) :=
  [⟨p, order.store 2 ((8 + key.keybits / 8 + 7) / 8)⟩,
    ⟨p + 2, order.store 2 SADB_EXT_KEY_AUTH⟩, ⟨p + 4, order.store 2 key.keybits⟩,
    ⟨p + 6, order.store 2 0⟩, ⟨p + 8, key.keydata⟩]

/-- The stores into the buffer, in their order. -/
def stores : List (Store Byte) :=
  r.msgStores order ++ r.saStores order saPlace ++
    addressStores order srcPlace SADB_EXT_ADDRESS_SRC r.src ++
    addressStores order r.dstPlace SADB_EXT_ADDRESS_DST r.dst ++
    keyStores order r.keyPlace r.key ++ [⟨4, order.store 2 (r.len / 8)⟩]

/-- The buffer and the length of the request; `none` where a store leaves the buffer. -/
def sadbAdd : Option ((Nat → Byte) × Nat) :=
  if ∀ s ∈ r.stores order, s.stop ≤ BUFSIZE then
    some (Store.applyAll (r.stores order) (fun _ => 0), r.len)
  else none

end Request

/-! ## The lines of two types of extensions -/

/-- The fields that `sa_print` shows, the number of the association as the host loads it. -/
structure SadbSa where
  spi : Nat
  replay : Byte
  state : Byte
  auth : Byte
  encrypt : Byte
  flags : Nat
  deriving DecidableEq, Repr

/-- The fields that `address_print` shows; the address has the rest of the extension.
`family` is what `sock_ntop` reads for `sa_family`, also where there is no address. -/
structure SadbAddress where
  exttype : Nat
  family : Nat
  sockaddr : List Byte
  prefixlen : Byte
  proto : Byte
  deriving DecidableEq, Repr

variable (order : ByteOrder)

/-- `sa_print`. -/
def saPrint (ext : Nat) : Reading Nat Byte SadbSa := do
  let spi ← readNumber order 4 (ext + 4)
  let replay ← Reading.cell (ext + 8)
  let state ← Reading.cell (ext + 9)
  let auth ← Reading.cell (ext + 10)
  let encrypt ← Reading.cell (ext + 11)
  let flags ← readNumber order 4 (ext + 12)
  return ⟨spi, replay, state, auth, encrypt, flags⟩

/-- `address_print`, with the bytes of the extension that `sock_ntop` may read.  Where the
extension holds no address, `sock_ntop` takes the bytes behind it for one. -/
def addressPrint (ext : Nat) : Reading Nat Byte SadbAddress := do
  let exttype ← readNumber order 2 (ext + 2)
  let units ← readNumber order 2 ext
  let family ← readNumber order 2 (ext + 8)
  let sockaddr ← Reading.each (fun i => Reading.cell (ext + 8 + i)) (List.range (units * 8 - 8))
  let prefixlen ← Reading.cell (ext + 5)
  let proto ← Reading.cell (ext + 4)
  return ⟨exttype, family, sockaddr, prefixlen, proto⟩

end NetPractice.KeyMessage
