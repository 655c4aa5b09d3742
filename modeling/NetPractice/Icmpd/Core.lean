import NetPractice.Memory.SlotTable
import NetPractice.Socket.Core
import NetPractice.Transition.Core
import Mathlib.Data.Finset.Card

/-!
# The ICMP daemon

This module embeds `icmpd/`: the main loop of `icmpd.c` and its four handlers.  A client
connects to the Unix domain socket of the daemon and passes its UDP socket over the
connection; the daemon stores family and local port in the slot of the client, and writes the
ICMP errors for that port to the connection.

One event is a call of `Select`, a call of a handler with what its system calls answer, or a
test of the loop that fails.  The daemon quits at an ICMP message that is too short, and the
wrappers exit when their call fails; such an event leads to no state.  The byte that tells a
client whether its descriptor was taken is left out.
-/

namespace NetPractice.Icmpd

open NetPractice.Memory
open NetPractice.Text
open NetPractice.Socket

/-- `ss_family`, as far as the daemon tells families apart. -/
inductive Family where
  | unspec | inet | inet6 | other
  deriving DecidableEq, Repr

/-- `struct client`. -/
structure Client where
  connfd : Fd
  family : Family
  lport : Int
  deriving DecidableEq, Repr

/-- The values of `icmpd_errno`. -/
inductive Errno where
  | hostUnreach | msgSize | connRefused
  deriving DecidableEq, Repr

/-- `struct sockaddr_in` and `struct sockaddr_in6`. -/
structure SockAddr where
  family : Family
  addr : List Byte
  port : Nat
  deriving DecidableEq, Repr

/-- `struct icmpd_err`. -/
structure IcmpdErr where
  errno : Errno
  type : Byte
  code : Byte
  dest : SockAddr
  deriving DecidableEq, Repr

/-! ## ICMP messages -/

/-- What a handler makes of a message. -/
inductive Verdict where
  | quit
  | ignored
  | error (sport : Nat) (err : IcmpdErr)
  deriving DecidableEq, Repr

/-- The destination is unreachable. -/
def ICMP_UNREACH : Byte := 3

/-- A source is to send less. -/
def ICMP_SOURCEQUENCH : Byte := 4

/-- The time to live was exceeded. -/
def ICMP_TIMXCEED : Byte := 11

/-- The code of an unreachable port. -/
def ICMP_UNREACH_PORT : Byte := 3

/-- The code of a datagram that is too long for the way. -/
def ICMP_UNREACH_NEEDFRAG : Byte := 4

/-- The destination is unreachable. -/
def ICMP6_DST_UNREACH : Byte := 1

/-- A packet is too big for the way. -/
def ICMP6_PACKET_TOO_BIG : Byte := 2

/-- The hop limit was exceeded. -/
def ICMP6_TIME_EXCEEDED : Byte := 3

/-- The code of an unreachable port. -/
def ICMP6_DST_UNREACH_NOPORT : Byte := 4

/-- The protocol number of UDP. -/
def IPPROTO_UDP : Byte := 17

/-- `ip_hl << 2` of the header that begins at `ip`. -/
def headerLength (buf : Nat → Byte) (ip : Nat) : Nat :=
  (buf ip).toNat % 16 * 4

/-- A port, in network byte order. -/
def portAt (buf : Nat → Byte) (k : Nat) : Nat :=
  (buf k).toNat * 256 + (buf (k + 1)).toNat

/-- Some bytes that follow one another. -/
def bytesAt (buf : Nat → Byte) (k count : Nat) : List Byte :=
  (List.range count).map fun i => buf (k + i)

/-- A reasonable `errno` for an ICMPv4 error. -/
def errnoV4 (type code : Byte) : Errno :=
  if type = ICMP_UNREACH then
    if code = ICMP_UNREACH_PORT then .connRefused
    else if code = ICMP_UNREACH_NEEDFRAG then .msgSize
    else .hostUnreach
  else .hostUnreach

/-- A reasonable `errno` for an ICMPv6 error. -/
def errnoV6 (type code : Byte) : Errno :=
  if type = ICMP6_PACKET_TOO_BIG then .msgSize
  else if type = ICMP6_DST_UNREACH ∧ code = ICMP6_DST_UNREACH_NOPORT then .connRefused
  else .hostUnreach

/-- The parsing in `readable_v4`: `buf` after `Recvfrom`, which has returned `n`. -/
def parseV4 (buf : Nat → Byte) (n : Nat) : Verdict :=
  let hlen1 := headerLength buf 0
  let icmplen : Int := n - hlen1
  if icmplen < 8 then .quit
  else
    let type := buf hlen1
    let code := buf (hlen1 + 1)
    if type = ICMP_UNREACH ∨ type = ICMP_TIMXCEED ∨ type = ICMP_SOURCEQUENCH then
      if icmplen < 8 + 20 + 8 then .quit
      else
        let hip := hlen1 + 8
        let hlen2 := headerLength buf hip
        if buf (hip + 9) = IPPROTO_UDP then
          let udp := hlen1 + 8 + hlen2
          .error (portAt buf udp)
            { errno := errnoV4 type code
              type := type
              code := code
              dest := ⟨.inet, bytesAt buf (hip + 16) 4, portAt buf (udp + 2)⟩ }
        else .ignored
    else .ignored

/-- The parsing in `readable_v6`; there is no IP header in front of the message. -/
def parseV6 (buf : Nat → Byte) (n : Nat) : Verdict :=
  if n < 8 then .quit
  else
    let type := buf 0
    let code := buf 1
    if type = ICMP6_DST_UNREACH ∨ type = ICMP6_PACKET_TOO_BIG ∨ type = ICMP6_TIME_EXCEEDED then
      if n < 8 + 8 then .quit
      else
        let hip6 := 8
        let hlen2 := 40
        if buf (hip6 + 6) = IPPROTO_UDP then
          let udp := 8 + hlen2
          .error (portAt buf udp)
            { errno := errnoV6 type code
              type := type
              code := code
              dest := ⟨.inet6, bytesAt buf (hip6 + 24) 16, portAt buf (udp + 2)⟩ }
        else .ignored
    else .ignored

/-! ## The handlers -/

/-- `sock_get_port` of a socket with this family and port. -/
def sockGetPort : Family → Nat → Int
  | .inet, port | .inet6, port => port
  | .unspec, _ | .other, _ => -1

/-- `sock_bind_wild`; `bound` is the port that the socket gets, if the calls succeed. -/
def sockBindWild : Family → Option Nat → Int
  | .inet, some bound | .inet6, some bound => bound
  | _, _ => -1

/-- What `Read_fd` of a client answers, and `getsockname` of the descriptor that came; and
the port that `sock_bind_wild` binds it to, if it comes to that. -/
inductive Answer where
  | closed
  | noDescriptor
  | noName
  | descriptor (family : Family) (port : Nat) (bound : Option Nat)
  deriving DecidableEq, Repr

/-- An error that was written to a client; `passed` are the ports of the descriptors that
the client had passed before. -/
structure Report where
  connfd : Fd
  sport : Nat
  err : IcmpdErr
  passed : List Int
  deriving DecidableEq, Repr

/-- Where the main loop is: at a call of `Select`, at the test of a descriptor, or at a
client. -/
inductive Phase where
  | select | listen | icmp4 | icmp6
  | clients (i : Nat)
  deriving DecidableEq, Repr

/-- The variables of the daemon.  History: `passed` lists the ports of the descriptors that
came over the current connection with this descriptor, and `reports` the errors that were
written to clients. -/
structure Daemon where
  phase : Phase
  client : Nat → Client
  fd4 : Fd
  fd6 : Fd
  listenfd : Fd
  maxi : Int
  maxfd : Fd
  nready : Int
  rset : Finset Fd
  allset : Finset Fd
  passed : Fd → List Int
  reports : List Report

namespace Daemon

/-- In front of the first call of `Select`. -/
def initial (fd4 fd6 listenfd : Fd) : Daemon where
  phase := .select
  client := fun _ => ⟨-1, .unspec, 0⟩
  fd4 := fd4
  fd6 := fd6
  listenfd := listenfd
  maxi := -1
  maxfd := max (max fd4 fd6) listenfd
  nready := 0
  rset := ∅
  allset := {fd4, fd6, listenfd}
  passed := fun _ => []
  reports := []

/-- The descriptors in `client`. -/
def slot (s : Daemon) (i : Nat) : Fd :=
  (s.client i).connfd

/-- The indices `0` to `maxi`. -/
def indices (s : Daemon) : List Nat :=
  List.range (s.maxi + 1).toNat

/-- `readable_listen`.  Without an available slot, the new connection is closed. -/
def readableListen (s : Daemon) (connfd : Fd) : Daemon :=
  match firstFree FD_SETSIZE s.slot with
  | none => { s with nready := s.nready - 1 }
  | some i =>
      { s with
        client := Function.update s.client i { s.client i with connfd := connfd }
        allset := insert connfd s.allset
        maxfd := if connfd > s.maxfd then connfd else s.maxfd
        maxi := if i > s.maxi then i else s.maxi
        nready := s.nready - 1
        passed := Function.update s.passed connfd [] }

/-- Both `clienterr` and `clientdone`. -/
def clientDone (s : Daemon) (i : Nat) : Daemon :=
  { s with
    client := Function.update s.client i { s.client i with connfd := -1 }
    allset := s.allset.erase (s.slot i)
    nready := s.nready - 1 }

/-- The entry of a client is set. -/
def setPort (s : Daemon) (i : Nat) (family : Family) (lport : Int) : Daemon :=
  { s with client := Function.update s.client i ⟨s.slot i, family, lport⟩ }

/-- The client is told that all is well. -/
def accepted (s : Daemon) (i : Nat) : Daemon :=
  { s with
    nready := s.nready - 1
    passed := Function.update s.passed (s.slot i) (s.passed (s.slot i) ++ [(s.client i).lport]) }

/-- `readable_conn`. -/
def readableConn (s : Daemon) (i : Nat) : Answer → Daemon
  | .closed | .noDescriptor | .noName => s.clientDone i
  | .descriptor family port bound =>
      if sockGetPort family port = 0 then
        if sockBindWild family bound ≤ 0 then
          (s.setPort i family (sockBindWild family bound)).clientDone i
        else (s.setPort i family (sockBindWild family bound)).accepted i
      else (s.setPort i family (sockGetPort family port)).accepted i

/-- The slots that the loop over the clients finds. -/
def owners (s : Daemon) (family : Family) (sport : Nat) : List Nat :=
  s.indices.filter fun i =>
    (s.client i).connfd ≥ 0 ∧ (s.client i).family = family ∧ (s.client i).lport = sport

/-- The loop over the clients, for an error that is written to each of them. -/
def deliver (s : Daemon) (sport : Nat) (err : IcmpdErr) : Daemon :=
  { s with
    reports := s.reports ++ (s.owners err.dest.family sport).map fun i =>
      ⟨s.slot i, sport, err, s.passed (s.slot i)⟩ }

/-- What follows the parsing of a message. -/
def handleMessage (s : Daemon) : Verdict → Option Daemon
  | .quit => none
  | .ignored => some { s with nready := s.nready - 1 }
  | .error sport err => some { s.deliver sport err with nready := s.nready - 1 }

/-- `readable_v4`, for a message of `n` bytes. -/
def readableV4 (s : Daemon) (buf : Nat → Byte) (n : Nat) : Option Daemon :=
  s.handleMessage (parseV4 buf n)

/-- `readable_v6`, for a message of `n` bytes. -/
def readableV6 (s : Daemon) (buf : Nat → Byte) (n : Nat) : Option Daemon :=
  s.handleMessage (parseV6 buf n)

/-! ## The main loop -/

/-- What `Select` can report. -/
def Reportable (s : Daemon) (ready : Finset Fd) : Prop :=
  (∀ fd ∈ ready, fd ∈ s.allset ∧ fd ≤ s.maxfd) ∧ ready.Nonempty

instance (s : Daemon) (ready : Finset Fd) : Decidable (s.Reportable ready) :=
  inferInstanceAs (Decidable (_ ∧ _))

/-- Behind a handler: no more readable descriptors, or the next test. -/
def proceed (phase : Phase) (s : Daemon) : Daemon :=
  { s with phase := if s.nready ≤ 0 then .select else phase }

end Daemon

/-- What happens next. -/
inductive Event where
  | select (ready : Finset Fd)
  | listen (connfd : Fd)
  | icmp4 (buf : Nat → Byte) (n : Nat)
  | icmp6 (buf : Nat → Byte) (n : Nat)
  | conn (answer : Answer)
  | skip

namespace Daemon

/-- The client is tested next, and has been reported. -/
def ConnReady (s : Daemon) (i : Nat) : Prop :=
  i ≤ s.maxi ∧ 0 ≤ s.slot i ∧ s.slot i ∈ s.rset

instance (s : Daemon) (i : Nat) : Decidable (s.ConnReady i) :=
  inferInstanceAs (Decidable (_ ∧ _ ∧ _))

/-- A test of the main loop that fails. -/
def skip (s : Daemon) : Option Daemon :=
  match s.phase with
  | .select => none
  | .listen => if s.listenfd ∈ s.rset then none else some { s with phase := .icmp4 }
  | .icmp4 => if s.fd4 ∈ s.rset then none else some { s with phase := .icmp6 }
  | .icmp6 => if s.fd6 ∈ s.rset then none else some { s with phase := .clients 0 }
  | .clients i =>
      if s.ConnReady i then none
      else some { s with phase := if i ≤ s.maxi then .clients (i + 1) else .select }

/-- The next handler of the main loop.  `Accept` returns a descriptor that is not open. -/
def next (s : Daemon) : Event → Option Daemon
  | .select ready =>
      if s.phase = .select ∧ s.Reportable ready then
        some { s with phase := .listen, rset := ready, nready := ready.card }
      else none
  | .listen connfd =>
      if s.phase = .listen ∧ s.listenfd ∈ s.rset ∧ 0 ≤ connfd ∧ connfd ∉ s.allset then
        some ((s.readableListen connfd).proceed .icmp4)
      else none
  | .icmp4 buf n =>
      if s.phase = .icmp4 ∧ s.fd4 ∈ s.rset then (s.readableV4 buf n).map (proceed .icmp6)
      else none
  | .icmp6 buf n =>
      if s.phase = .icmp6 ∧ s.fd6 ∈ s.rset then (s.readableV6 buf n).map (proceed (.clients 0))
      else none
  | .conn answer =>
      match s.phase with
      | .clients i =>
          if s.ConnReady i then some ((s.readableConn i answer).proceed (.clients (i + 1)))
          else none
      | _ => none
  | .skip => s.skip

end Daemon

end NetPractice.Icmpd
