import NetPractice.Checksum.Core

/-!
# Writing a UDP datagram over a raw socket

This module embeds `udp_write` of `udpcksum/udpwrite.c`.  The pseudo-header of the checksum
is laid over the place of the IP header: nine zeros, the protocol, the length and the two
addresses.  The fields of the IP header are stored there afterwards, and leave the protocol,
the addresses and the UDP header behind them alone.
-/

namespace NetPractice.UdpChecksum

open NetPractice.Checksum
open NetPractice.Memory
open NetPractice.Text

/-- `struct sockaddr_in`; address and port are stored in network byte order. -/
structure SockaddrIn where
  sinAddr : UInt32
  sinPort : UInt16
  deriving DecidableEq, Repr

/-- The protocol number of UDP. -/
def IPPROTO_UDP : Byte := 17

/-- The time to live of what is sent. -/
def TTL_OUT : Byte := 64

/-- `sizeof(struct udphdr)`. -/
def SIZEOF_UDPHDR : Nat := 8

/-- `sizeof(struct udpiphdr)`. -/
def SIZEOF_UDPIPHDR : Nat := 28

/-- `sin_addr`, as it is stored. -/
def SockaddrIn.addrBytes (a : SockaddrIn) : List Byte :=
  ByteOrder.big.store 4 a.sinAddr.toNat

/-- `sin_port`, as it is stored. -/
def SockaddrIn.portBytes (a : SockaddrIn) : List Byte :=
  ByteOrder.big.store 2 a.sinPort.toNat

/-- `htons`, as it is stored. -/
def htons (value : Nat) : List Byte :=
  ByteOrder.big.store 2 value

/-- Store some bytes at an index of a buffer. -/
def put (k : Nat) (bytes buf : List Byte) : List Byte :=
  buf.take k ++ bytes ++ buf.drop (k + bytes.length)

variable (order : ByteOrder) (localAddr destAddr : SockaddrIn) (userlen : Nat)

/-- The fields that are stored in front of the checksum. -/
def fillHeader (buf : List Byte) : List Byte :=
  let ui := put 0 (List.replicate SIZEOF_UDPIPHDR 0) buf
  let ui := put 10 (htons (SIZEOF_UDPHDR + userlen)) ui
  let ui := put 9 [IPPROTO_UDP] ui
  let ui := put 12 localAddr.addrBytes ui
  let ui := put 16 destAddr.addrBytes ui
  let ui := put 20 localAddr.portBytes ui
  let ui := put 22 destAddr.portBytes ui
  put 24 ((ui.drop 10).take 2) ui

/-- What is stored as `ui_sum`; 0 would say that there is no checksum. -/
def uiSum (bytes : List Byte) : UInt16 :=
  let sum := inCksum order bytes
  if sum = 0 then 0xffff else sum

/-- The fields of the IP header; `swapped` says whether the system wants `ip_len` in network
byte order. -/
def fillIp (swapped : Bool) (total : Nat) (buf : List Byte) : List Byte :=
  let ip := put 0 [0x45] buf
  let ip := put 1 [0] ip
  let ip := put 2 (if swapped then htons total else order.store 2 total) ip
  let ip := put 4 [0, 0] ip
  let ip := put 6 [0, 0] ip
  put 8 [TTL_OUT] ip

/-- `udp_write`: the bytes that are handed to `Sendto`. -/
def udpWrite (zerosum swapped : Bool) (buf : List Byte) : List Byte :=
  let ui := fillHeader localAddr destAddr userlen buf
  let total := userlen + SIZEOF_UDPIPHDR
  let ui :=
    if zerosum then ui
    else put 26 (order.store 2 (uiSum order (ui.take total)).toNat) ui
  (fillIp order swapped total ui).take total

end NetPractice.UdpChecksum
