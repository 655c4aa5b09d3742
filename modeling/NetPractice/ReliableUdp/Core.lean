import NetPractice.Memory.ByteOrder
import NetPractice.Text.CString

/-!
# Request and reply over UDP with retransmission

This module embeds `dg_send_recv` of `rtt/dg_send_recv.c` and the functions of `lib/rtt.c`
that it uses.  The static variables survive from one call to the next.

The network is part of the events: any datagram can arrive while the function waits.  The
handler of `SIGALRM` jumps back to `sigsetjmp` while the function waits, or between its
last `recvmsg` and `alarm(0)`.  The first timer of a call does not expire in front of
`sigsetjmp`: it runs for at least two seconds.
-/

namespace NetPractice.ReliableUdp

open NetPractice.Memory
open NetPractice.Text

/-! ## `lib/rtt.c` -/

/-- The arithmetic of `float` and `double`; `less` compares, `narrow` rounds to `float`, and
`truncate` converts to `int`. -/
class CFloat (F : Type) extends Add F, Sub F, Mul F, Div F, Neg F, OfScientific F where
  less : F → F → Bool
  ofUInt32 : UInt32 → F
  narrow : F → F
  truncate : F → Int

/-- `struct timeval`. -/
structure Timeval where
  sec : Int
  usec : Int
  deriving DecidableEq, Repr

/-- `struct rtt_info`. -/
structure RttInfo (F : Type) where
  rtt : F
  srtt : F
  rttvar : F
  rto : F
  nrexmt : Nat
  base : UInt32
  deriving DecidableEq, Repr

/-- How often a request is sent again at most. -/
def RTT_MAXNREXMT : Nat := 3

/-- `sizeof(struct hdr)`. -/
def HDR : Nat := 8

section Rtt

variable {F : Type} [CFloat F]

/-- The least timeout, in seconds. -/
def RTT_RXTMIN : F := 2.0

/-- The greatest timeout, in seconds. -/
def RTT_RXTMAX : F := 60.0

/-- `RTT_RTOCALC`. -/
def RttInfo.rtoCalc (ptr : RttInfo F) : F :=
  ptr.srtt + 4.0 * ptr.rttvar

/-- `rtt_minmax`. -/
def rttMinmax (rto : F) : F :=
  if CFloat.less rto RTT_RXTMIN then RTT_RXTMIN
  else if CFloat.less RTT_RXTMAX rto then RTT_RXTMAX
  else rto

namespace RttInfo

/-- `rtt_init`. -/
def init (ptr : RttInfo F) (tv : Timeval) : RttInfo F :=
  let ptr := { ptr with base := .ofInt tv.sec, rtt := 0.0, srtt := 0.0, rttvar := 0.75 }
  { ptr with rto := rttMinmax (CFloat.narrow ptr.rtoCalc) }

/-- `rtt_ts`. -/
def ts (ptr : RttInfo F) (tv : Timeval) : UInt32 :=
  .ofInt ((tv.sec - ptr.base.toNat) * 1000 + tv.usec.tdiv 1000)

/-- `rtt_newpack`. -/
def newpack (ptr : RttInfo F) : RttInfo F :=
  { ptr with nrexmt := 0 }

/-- `rtt_start`. -/
def start (ptr : RttInfo F) : Int :=
  CFloat.truncate (ptr.rto + 0.5)

/-- `rtt_stop`. -/
def stop (ptr : RttInfo F) (ms : UInt32) : RttInfo F :=
  let ptr := { ptr with rtt := CFloat.narrow (CFloat.ofUInt32 ms / 1000.0) }
  let delta := CFloat.narrow (ptr.rtt - ptr.srtt)
  let ptr := { ptr with srtt := CFloat.narrow (ptr.srtt + delta / 8.0) }
  let delta := if CFloat.less delta 0.0 then -delta else delta
  let ptr := { ptr with rttvar := CFloat.narrow (ptr.rttvar + (delta - ptr.rttvar) / 4.0) }
  { ptr with rto := rttMinmax (CFloat.narrow ptr.rtoCalc) }

/-- `rtt_timeout`, with whether it is time to give up. -/
def timeout (ptr : RttInfo F) : RttInfo F × Bool :=
  let ptr := { ptr with rto := CFloat.narrow (ptr.rto * 2.0), nrexmt := ptr.nrexmt + 1 }
  (ptr, decide (RTT_MAXNREXMT < ptr.nrexmt))

end RttInfo

end Rtt

/-! ## `rtt/dg_send_recv.c` -/

/-- `struct hdr`. -/
structure Hdr where
  seq : UInt32
  ts : UInt32
  deriving DecidableEq, Repr

namespace Hdr

/-- The bytes of a header in memory, as they are sent. -/
def bytes (hdr : Hdr) : List Byte :=
  storeWord 4 hdr.seq.toNat ++ storeWord 4 hdr.ts.toNat

/-- The header in the first bytes of a memory or of a datagram. -/
def ofBytes (bytes : List Byte) : Hdr where
  seq := .ofNat (loadWord (bytes.take 4))
  ts := .ofNat (loadWord ((bytes.drop 4).take 4))

/-- `recvmsg` stores the front of a datagram over a header; a short one leaves its rest. -/
def overwrite (hdr : Hdr) (datagram : List Byte) : Hdr :=
  ofBytes (datagram.take HDR ++ hdr.bytes.drop datagram.length)

end Hdr

/-- What `Sendmsg` sends. -/
structure Sent where
  hdr : Hdr
  outbuff : List Byte
  deriving DecidableEq, Repr

/-- What a call returns: -1, or the size of the datagram in `inbuff`; and the datagram as it
has arrived. -/
inductive Result where
  | timedOut
  | received (n : Nat) (inbuff : List Byte) (datagram : List Byte)
  deriving DecidableEq, Repr

/-- What `dg_send_recv` returns. -/
def Result.ret : Result → Int
  | .timedOut => -1
  | .received n _ _ => n - HDR

/-- A call, with its sequence number, the estimators with which it began, and what it has
sent. -/
structure Call (F : Type) where
  outbuff : List Byte
  inbytes : Nat
  seq : UInt32
  rttinfo : RttInfo F
  sent : List Sent
  deriving DecidableEq, Repr

/-- A call that has returned. -/
structure Done (F : Type) where
  call : Call F
  result : Result
  deriving DecidableEq, Repr

/-- Between two calls, in `recvmsg`, or behind the loop with what was received. -/
inductive Phase (F : Type) where
  | idle
  | waiting (call : Call F)
  | arrived (call : Call F) (n : Nat) (inbuff : List Byte) (datagram : List Byte)
  deriving DecidableEq, Repr

/-- The static variables, the seconds of the running timer or 0, and the calls so far.
`quit` is set when a failing `sendmsg` or `recvmsg` has ended the process. -/
structure Client (F : Type) where
  rttinfo : RttInfo F
  rttinit : Bool
  sendhdr : Hdr
  recvhdr : Hdr
  phase : Phase F
  timer : Int
  past : List (Done F)
  quit : Bool
  deriving DecidableEq, Repr

/-- A call with the times that `rtt_init` and `rtt_ts` read, a datagram from anywhere,
`SIGALRM`, the statements behind the receive loop, or an error. -/
inductive Event where
  | call (outbuff : List Byte) (inbytes : Nat) (inittv tv : Timeval)
  | datagram (bytes : List Byte)
  | alarm (tv : Timeval)
  | stop (tv : Timeval)
  | fails
  deriving DecidableEq, Repr

namespace Client

variable {F : Type} [CFloat F]

/-- The program in front of the first call; all static variables are zero. -/
def start : Client F where
  rttinfo := ⟨0.0, 0.0, 0.0, 0.0, 0, 0⟩
  rttinit := false
  sendhdr := ⟨0, 0⟩
  recvhdr := ⟨0, 0⟩
  phase := .idle
  timer := 0
  past := []
  quit := false

/-- From `sendagain` to the receive loop. -/
def sendAgain (c : Client F) (call : Call F) (tv : Timeval) : Client F :=
  let sendhdr := { c.sendhdr with ts := c.rttinfo.ts tv }
  { c with
    sendhdr := sendhdr
    timer := c.rttinfo.start
    phase := .waiting { call with sent := call.sent ++ [⟨sendhdr, call.outbuff⟩] } }

/-- The front of `dg_send_recv`. -/
def enter (c : Client F) (outbuff : List Byte) (inbytes : Nat) (inittv tv : Timeval) : Client F :=
  let rttinfo := (if c.rttinit then c.rttinfo else c.rttinfo.init inittv).newpack
  let sendhdr := { c.sendhdr with seq := c.sendhdr.seq + 1 }
  sendAgain { c with rttinit := true, sendhdr := sendhdr, rttinfo := rttinfo }
    ⟨outbuff, inbytes, sendhdr.seq, rttinfo, []⟩ tv

/-- `recvmsg` and the test of the receive loop. -/
def recvmsg (c : Client F) (call : Call F) (datagram : List Byte) : Client F :=
  let n := min datagram.length (HDR + call.inbytes)
  let recvhdr := c.recvhdr.overwrite datagram
  { c with
    recvhdr := recvhdr
    phase :=
      if n < HDR ∨ recvhdr.seq ≠ c.sendhdr.seq then .waiting call
      else .arrived call n ((datagram.drop HDR).take call.inbytes) datagram }

/-- The return from `sigsetjmp` behind a `SIGALRM`. -/
def timedOut (c : Client F) (call : Call F) (tv : Timeval) : Client F :=
  let (rttinfo, givesUp) := c.rttinfo.timeout
  if givesUp then
    { c with
      rttinfo := rttinfo
      rttinit := false
      timer := 0
      phase := .idle
      past := c.past ++ [⟨call, .timedOut⟩] }
  else sendAgain { c with rttinfo := rttinfo } call tv

/-- The statements behind the receive loop. -/
def leave (c : Client F) (call : Call F) (result : Result) (tv : Timeval) : Client F :=
  { c with
    rttinfo := c.rttinfo.stop (c.rttinfo.ts tv - c.recvhdr.ts)
    timer := 0
    phase := .idle
    past := c.past ++ [⟨call, result⟩] }

/-- The next event of the client. -/
def next (c : Client F) (event : Event) : Option (Client F) :=
  if c.quit then none
  else
    match c.phase, event with
    | .idle, .call outbuff inbytes inittv tv => some (c.enter outbuff inbytes inittv tv)
    | .waiting call, .datagram bytes => some (c.recvmsg call bytes)
    | .waiting call, .alarm tv | .arrived call _ _ _, .alarm tv =>
        if 0 < c.timer then some (c.timedOut call tv) else none
    | .arrived call n inbuff datagram, .stop tv =>
        some (c.leave call (.received n inbuff datagram) tv)
    | .idle, .fails | .waiting _, .fails => some { c with quit := true }
    | _, _ => none

end Client

end NetPractice.ReliableUdp
