import NetPractice.Text.Numeral
import NetPractice.Sequence.LongestRun

/-!
# Addresses and their text

`inet_ntop` prints a binary address and `inet_pton` reads one, for AF_INET and for
AF_INET6; `inet_aton` is the older reader of IPv4 addresses.  A buffer that a
function fills from its start on is the list of the bytes in front of its pointer.
-/

namespace NetPractice.Inet

open NetPractice.Text
open NetPractice.Sequence

/-- The bytes of an IPv4 address. -/
def INADDRSZ : Nat := 4

/-- The bytes of an IPv6 address. -/
def IN6ADDRSZ : Nat := 16

/-- The bytes of a group. -/
def INT16SZ : Nat := 2

/-- `:`. -/
def colon : Byte := 58

/-- `.`. -/
def dot : Byte := 46

/-- `AF_INET`, `AF_INET6`, or another address family. -/
inductive Family
  | inet
  | inet6
  | other
  deriving DecidableEq, Repr

/-- `strchr(set, ch) - set` for a character of a string. -/
def strchr (set : List Byte) (ch : Byte) : Option Nat :=
  set.findIdx? (· == ch)

/-- The decimal digits. -/
def digits : List Byte := ascii "0123456789"

/-- The hexadecimal digits, in lower case. -/
def xdigits_l : List Byte := ascii "0123456789abcdef"

/-- The hexadecimal digits, in upper case. -/
def xdigits_u : List Byte := ascii "0123456789ABCDEF"

/-! ## inet_pton -/

/-- The locals of `inet_pton4`: the bytes of `tmp` in front of `tp`, and the byte at
`tp`. -/
structure Scan4 where
  front : List Byte
  last : Byte
  octets : Nat
  sawDigit : Bool
  deriving DecidableEq, Repr

/-- One round of the loop; undefined where `inet_pton4` returns 0. -/
def Scan4.next (s : Scan4) (ch : Byte) : Option Scan4 :=
  match strchr digits ch with
  | some digit =>
      let new := s.last.toNat * 10 + digit
      if 255 < new then none
      else if s.sawDigit then some { s with last := new.toUInt8 }
      else if 4 < s.octets + 1 then none
      else some { s with last := new.toUInt8, octets := s.octets + 1, sawDigit := true }
  | none =>
      if ch = dot ∧ s.sawDigit then
        if s.octets = 4 then none
        else some { s with front := s.front ++ [s.last], last := 0, sawDigit := false }
      else none

/-- `inet_pton4`. -/
def inetPton4 (src : List Byte) : Option (List Byte) := do
  let s ← src.foldlM Scan4.next ⟨[], 0, 0, false⟩
  if s.octets < 4 then none else some (s.front ++ [s.last])

/-- The value of a hexadecimal digit: the lower case is tried first. -/
def xdigit (ch : Byte) : Option Nat :=
  (strchr xdigits_l ch).or (strchr xdigits_u ch)

/-- The locals of `inet_pton6`: the bytes of `tmp` in front of `tp`, the place of `colonp`
and the text behind `curtok`. -/
structure Scan6 where
  front : List Byte
  colonp : Option Nat
  curtok : List Byte
  sawXdigit : Bool
  val : Nat
  deriving DecidableEq, Repr

/-- The two bytes that a group is stored as. -/
def groupBytes (val : Nat) : List Byte :=
  [(val >>> 8).toUInt8, val.toUInt8]

/-- Store the group that was read, when there is room for it in front of `endp`. -/
def Scan6.store (s : Scan6) : Option Scan6 :=
  if IN6ADDRSZ < s.front.length + INT16SZ then none
  else some { s with front := s.front ++ groupBytes s.val, sawXdigit := false, val := 0 }

/-- The loop of `inet_pton6` up to the NUL byte, or to the `break` behind a dotted
quad. -/
def scan6 : List Byte → Scan6 → Option Scan6
  | [], s => some s
  | ch :: src, s =>
      match xdigit ch with
      | some digit =>
          let val := s.val <<< 4 ||| digit
          if 0xffff < val then none
          else scan6 src { s with val := val, sawXdigit := true }
      | none =>
          if ch = colon then
            let s := { s with curtok := src }
            if s.sawXdigit then do
              let s ← s.store
              scan6 src s
            else if s.colonp.isSome then none
            else scan6 src { s with colonp := some s.front.length }
          else if ch = dot ∧ s.front.length + INADDRSZ ≤ IN6ADDRSZ then do
            let quad ← inetPton4 s.curtok
            some { s with front := s.front ++ quad, sawXdigit := false }
          else none

/-- The body of the loop that shifts what stands behind `colonp` to the end of `tmp`. -/
def shiftByte (colonp n : Nat) (tmp : List Byte) (i : Nat) : List Byte :=
  let tmp := tmp.set (IN6ADDRSZ - i) (tmp.getD (colonp + (n - i)) 0)
  tmp.set (colonp + (n - i)) 0

/-- The part of `inet_pton6` behind the loop. -/
def Scan6.finish (s : Scan6) : Option (List Byte) := do
  let s ← if s.sawXdigit then s.store else some s
  match s.colonp with
  | some colonp =>
      let n := s.front.length - colonp
      let tmp := s.front ++ List.replicate (IN6ADDRSZ - s.front.length) 0
      some ((List.range' 1 n).foldl (shiftByte colonp n) tmp)
  | none => if s.front.length = IN6ADDRSZ then some s.front else none

/-- Where the scan begins: a leading colon has to be followed by another one, and is
skipped. -/
def firstToken (src : List Byte) : Option (List Byte) :=
  if src.head? = some colon then
    if src.tail.head? = some colon then some src.tail else none
  else some src

/-- `inet_pton6`. -/
def inetPton6 (src : List Byte) : Option (List Byte) := do
  let curtok ← firstToken src
  let s ← scan6 curtok ⟨[], none, curtok, false, 0⟩
  s.finish

/-- What `inet_pton` returns: 1 and the address, 0, or -1. -/
inductive Pton
  | address (dst : List Byte)
  | invalid
  | noSupport
  deriving DecidableEq, Repr

/-- `inet_pton`. -/
def inetPton (af : Family) (src : List Byte) : Pton :=
  match af with
  | .inet => (inetPton4 src).elim .invalid .address
  | .inet6 => (inetPton6 src).elim .invalid .address
  | .other => .noSupport

/-! ## inet_aton -/

/-- The locals of `inet_aton`; `acc` and `addr` are of the type `u_long`. -/
structure ScanAton where
  dots : Nat
  acc : UInt64
  addr : UInt64
  deriving DecidableEq, Repr

/-- The branch for the end of a number: a dot, or the NUL byte. -/
def ScanAton.number (s : ScanAton) : Option ScanAton :=
  if 255 < s.acc then none
  else some { s with addr := s.addr <<< 8 ||| s.acc, acc := 0 }

/-- One round of the loop for a byte in front of the NUL byte. -/
def ScanAton.next (s : ScanAton) (cc : Byte) : Option ScanAton :=
  if isDigit cc then some { s with acc := s.acc * 10 + (cc - 48).toUInt64 }
  else if cc = dot then
    if 3 < s.dots + 1 then none else { s with dots := s.dots + 1 }.number
  else none

/-- `htonl`: the bytes of `s_addr`, the most significant first. -/
def htonl (addr : UInt64) : List Byte :=
  [(addr >>> 24).toUInt8, (addr >>> 16).toUInt8, (addr >>> 8).toUInt8, addr.toUInt8]

/-- `inet_aton`. -/
def inetAton (cp : List Byte) : Option (List Byte) := do
  let s ← cp.foldlM ScanAton.next ⟨0, 0, 0⟩
  let s ← s.number
  let addr := if s.dots < 3 then s.addr <<< (8 * (3 - s.dots)).toUInt64 else s.addr
  some (htonl addr)

/-! ## inet_ntop -/

/-- The text that `inet_ntop4` prints to `tmp`. -/
def quadText (src : List Byte) : List Byte :=
  List.intercalate [dot] ((src.take INADDRSZ).map fun byte => decimal byte.toNat)

/-- The bytes that `strcpy` stores at `dst`, or NULL. -/
def inetNtop4 (src : List Byte) (size : Nat) : Option (List Byte) :=
  if size < (quadText src).length then none else some (quadText src ++ [0])

/-! ## The versions for IPv4 only -/

namespace Ipv4

/-- `inet_pton` of inet_pton_ipv4.c. -/
def inetPton (family : Family) (strptr : List Byte) : Pton :=
  match family with
  | .inet => (inetAton strptr).elim .invalid .address
  | .inet6 | .other => .noSupport

/-- The size of the text of an IPv4 address. -/
def INET_ADDRSTRLEN : Nat := 16

/-- `inet_ntop` of inet_ntop_ipv4.c. -/
def inetNtop (family : Family) (addrptr : List Byte) (len : Nat) : Option (List Byte) :=
  match family with
  | .inet =>
      let temp := (quadText addrptr).take (INET_ADDRSTRLEN - 1)
      if len ≤ temp.length then none else some (temp ++ [0])
  | .inet6 | .other => none

end Ipv4

/-! ## inet_ntop for IPv6 -/

/-- The element of `words` that the loop over the bytes builds. -/
def word (src : List Byte) (i : Nat) : Nat :=
  (src.getD (2 * i) 0).toNat <<< 8 ||| (src.getD (2 * i + 1) 0).toNat

/-- The run of zero words that is printed as `::`. -/
def bestRun (src : List Byte) : Option Run :=
  (longestRun (fun i => word src i == 0) (IN6ADDRSZ / INT16SZ)).filter (2 ≤ ·.len)

/-- Is the word part of the run? -/
def covers (best : Option Run) (i : Nat) : Bool :=
  best.any fun best => best.base ≤ i && i < best.base + best.len

/-- Is the address an encapsulated IPv4 address? -/
def encapsulated (src : List Byte) (best : Option Run) : Bool :=
  best.any fun best => best.base == 0 &&
    (best.len == 6 || best.len == 5 && word src 5 == 0xffff)

/-- `sizeof "ffff:ffff:ffff:ffff:ffff:ffff:255.255.255.255"`. -/
def TMPSZ : Nat := 46

/-- The loop that formats the words; `tmp` is the text in front of `tp`. -/
def formatWords (src : List Byte) (best : Option Run) : List Nat → List Byte → Option (List Byte)
  | [], tmp => some tmp
  | i :: rest, tmp =>
      if covers best i then
        if best.any (i == ·.base) then formatWords src best rest (tmp ++ [colon])
        else formatWords src best rest tmp
      else
        let tmp := if i ≠ 0 then tmp ++ [colon] else tmp
        if i = 6 ∧ encapsulated src best then do
          let stored ← inetNtop4 (src.drop 12) (TMPSZ - tmp.length)
          some (tmp ++ cstr stored)
        else formatWords src best rest (tmp ++ hexadecimal (word src i))

/-- `inet_ntop6`. -/
def inetNtop6 (src : List Byte) (size : Nat) : Option (List Byte) := do
  let best := bestRun src
  let tmp ← formatWords src best (List.range (IN6ADDRSZ / INT16SZ)) []
  let tmp := if best.any (fun best => best.base + best.len == IN6ADDRSZ / INT16SZ)
    then tmp ++ [colon] else tmp
  let tmp := tmp ++ [0]
  if size < tmp.length then none else some tmp

/-- `inet_ntop`. -/
def inetNtop (af : Family) (src : List Byte) (size : Nat) : Option (List Byte) :=
  match af with
  | .inet => inetNtop4 src size
  | .inet6 => inetNtop6 src size
  | .other => none

end NetPractice.Inet
