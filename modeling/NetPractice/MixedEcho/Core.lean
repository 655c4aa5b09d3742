import Mathlib.Logic.Function.Basic
import NetPractice.Socket.Stream
import NetPractice.Transition.Core

/-!
# The echo server for TCP and UDP

`code_9_8.cpp` serves its connections and a datagram socket in one loop.  All descriptors
are registered with `EPOLLET`; a connection is read until `EAGAIN`, and the datagram socket
once for each report.  The connections have been accepted.
-/

namespace NetPractice.MixedEcho

open NetPractice.Socket
open NetPractice.Text
open NetPractice.Transition

universe u v

/-- The most events that one `epoll_wait` returns. -/
def MAX_EVENT_NUMBER : Nat := 1024

/-- The size of the buffer for connections. -/
def TCP_BUFFER_SIZE : Nat := 512

/-- The size of the buffer for datagrams. -/
def UDP_BUFFER_SIZE : Nat := 1024

/-- A datagram with the address of its sender. -/
structure Datagram (A : Type v) where
  address : A
  data : List Byte
  deriving DecidableEq, Repr

/-- The datagram fits the buffer. -/
def Datagram.Short {A : Type v} (datagram : Datagram A) : Prop :=
  datagram.data.length ≤ UDP_BUFFER_SIZE - 1

instance {A : Type v} (datagram : Datagram A) : Decidable datagram.Short :=
  inferInstanceAs (Decidable (_ ≤ _))

/-- What `epoll_wait` reports: `udpfd`, or a connection. -/
inductive Source (ι : Type u) where
  | udp
  | tcp (sockfd : ι)
  deriving DecidableEq, Repr

/-- `sent` is what the other sides get back; `datagrams` wait on `udpfd`, and `edge` is the
event of `udpfd` that was not yet reported; `answers` has each datagram that was read, with
its reply.  The first report of `batch` is being handled. -/
structure World (ι : Type u) (A : Type v) where
  conn : ι → Stream
  sent : ι → List Byte
  datagrams : List (Datagram A)
  edge : Bool
  answers : List (Datagram A × Option (Datagram A))
  batch : List (Source ι)
  killed : Bool

/-- Bytes arrive, a connection ends, a datagram arrives, `epoll_wait` returns, the server
calls `recv` and, if it gets bytes, `send`, or it calls `recvfrom` and `sendto`. -/
inductive Event (ι : Type u) (A : Type v) where
  | arrive (c : ι) (bytes : List Byte)
  | finish (c : ι) (ending : Ending)
  | datagram (datagram : Datagram A)
  | wait (batch : List (Source ι))
  | recv (count : Nat) (send : Send)
  | recvfrom (sendto : Bool)
  deriving DecidableEq, Repr

/-- The bytes that a call of `send` takes. -/
def sentOf (send : Send) (bytes : List Byte) : List Byte :=
  match send with
  | .taken count => bytes.take count
  | .again | .gone => []

/-- `sendto(udpfd, buf, UDP_BUFFER_SIZE - 1, ...)`: the zeroed buffer behind the bytes of the
datagram is sent with it. -/
def reply {A : Type v} (datagram : Datagram A) : Datagram A :=
  let data := datagram.data.take (UDP_BUFFER_SIZE - 1)
  { datagram with data := data ++ List.replicate (UDP_BUFFER_SIZE - 1 - data.length) 0 }

variable {ι : Type u} {A : Type v}

namespace World

/-- In front of the first `epoll_wait`. -/
def start : World ι A where
  conn := fun _ => .start
  sent := fun _ => []
  datagrams := []
  edge := false
  answers := []
  batch := []
  killed := false

/-- `epoll_wait` has a report. -/
def Pending (w : World ι A) : Source ι → Prop
  | .udp => w.edge = true ∧ w.datagrams ≠ []
  | .tcp c => (w.conn c).isOpen = true ∧ (w.conn c).edge = true ∧ (w.conn c).Readable

instance (w : World ι A) : ∀ source, Decidable (w.Pending source)
  | .udp => inferInstanceAs (Decidable (_ ∧ ¬ _))
  | .tcp _ => inferInstanceAs (Decidable (_ ∧ _ ∧ _))

/-- No event is pending, and none is being handled. -/
def Settled (w : World ι A) : Prop :=
  w.batch = [] ∧ ∀ source, ¬ w.Pending source

variable [DecidableEq ι]

/-- One connection is set, and the others stay. -/
def setConn (w : World ι A) (c : ι) (s : Stream) : World ι A :=
  { w with conn := Function.update w.conn c s }

/-- `epoll_wait(epollfd, events, MAX_EVENT_NUMBER, -1)`. -/
def wait (w : World ι A) (batch : List (Source ι)) : World ι A :=
  { w with
    conn := fun c => if .tcp c ∈ batch then (w.conn c).report else w.conn c
    edge := w.edge && !decide (.udp ∈ batch)
    batch := batch }

/-- The bytes of an answer go to `send`, whose result is not looked at; `SIGPIPE` ends the
program when the other side has left. -/
def echo (w : World ι A) (sockfd : ι) (answer : Recv) (send : Send) : World ι A :=
  match answer with
  | .data bytes =>
      { w with
        sent := Function.update w.sent sockfd (w.sent sockfd ++ sentOf send bytes)
        killed := decide (send = .gone) }
  | .eof | .again | .fail => w

/-- An iteration of the loop for a connection. -/
def recv (w : World ι A) (count : Nat) (send : Send) : Option (World ι A) :=
  match w.batch with
  | .tcp sockfd :: batch =>
      ((w.conn sockfd).recv (TCP_BUFFER_SIZE - 1) count).bind fun (answer, s) =>
        if ∀ bytes ∈ answer.bytes, send.AtMost bytes.length then
          some { (w.setConn sockfd (s.drained answer).1).echo sockfd answer send with
            batch := if (s.drained answer).2 then .tcp sockfd :: batch else batch }
        else none
  | .udp :: _ | [] => none

/-- The branch for `udpfd`. -/
def recvfrom (w : World ι A) (sendto : Bool) : Option (World ι A) :=
  match w.batch with
  | .udp :: batch =>
      match w.datagrams with
      | [] => some { w with batch := batch }
      | datagram :: datagrams =>
          some { w with
            datagrams := datagrams
            answers := w.answers ++
              [(datagram, if datagram.data ≠ [] ∧ sendto then some (reply datagram) else none)]
            batch := batch }
  | .tcp _ :: _ | [] => none

/-- What arrives, or the next call of the server. -/
def next (w : World ι A) : Event ι A → Option (World ι A)
  | .arrive c bytes =>
      if (w.conn c).ending = none then some (w.setConn c ((w.conn c).arrive bytes)) else none
  | .finish c ending =>
      if (w.conn c).ending = none then some (w.setConn c ((w.conn c).finish ending)) else none
  | .datagram datagram =>
      some { w with datagrams := w.datagrams ++ [datagram], edge := true }
  | .wait batch =>
      if w.killed = false ∧ w.batch = [] ∧ batch ≠ [] ∧ batch.Nodup ∧
          batch.length ≤ MAX_EVENT_NUMBER ∧ ∀ source ∈ batch, w.Pending source then
        some (w.wait batch)
      else none
  | .recv count send => if w.killed then none else w.recv count send
  | .recvfrom sendto => if w.killed then none else w.recvfrom sendto

/-- The reports of `udpfd` that come, or that are to be handled. -/
def reports (w : World ι A) : Nat :=
  (if w.edge then 1 else 0) + w.batch.count .udp

/-- The bytes sent back are those received, each descriptor is closed once, and each datagram
that fits the buffer has itself for its reply, or waits for a report of its own. -/
structure Faithful (w : World ι A) : Prop where
  echoed : ∀ c, w.sent c = (w.conn c).received
  closes : ∀ c, (w.conn c).closes ≤ 1
  replies : ∀ answer ∈ w.answers, answer.1.Short → answer.2 = some answer.1
  awaited : ∀ i datagram, w.datagrams[i]? = some datagram → datagram.Short → i < w.reports
  settled : w.Settled → (∀ datagram ∈ w.datagrams, ¬ datagram.Short) ∧
    ∀ c, (w.conn c).received = (w.conn c).arrived ∧
      (w.conn c).closes = if (w.conn c).ending = none then 0 else 1

/-- No datagram that fits the buffer arrives when an earlier one waits for the report; the
loop of a connection does not go on behind an end of file, and `send` takes what it is
given; and a datagram fills the buffer, and its reply is sent. -/
def Proper (w : World ι A) : Event ι A → Prop
  | .arrive .. | .finish .. | .wait _ => True
  | .datagram datagram => datagram.Short → w.datagrams.length ≤ w.batch.count .udp
  | .recv count send => ∀ sockfd, w.batch.head? = some (.tcp sockfd) →
      (w.conn sockfd).isOpen = true ∧
        ∀ bytes s, (w.conn sockfd).recv (TCP_BUFFER_SIZE - 1) count = some (.data bytes, s) →
          send = .taken bytes.length
  | .recvfrom sendto => ∀ datagram ∈ w.datagrams.head?, datagram.Short →
      datagram.data.length = UDP_BUFFER_SIZE - 1 ∧ sendto = true

instance (w : World ι A) : ∀ event, Decidable (w.Proper event)
  | .arrive .. | .finish .. | .wait _ => isTrue trivial
  | .datagram datagram =>
      inferInstanceAs (Decidable (datagram.Short → w.datagrams.length ≤ w.batch.count .udp))
  | .recv count send =>
      match head : w.batch.head? with
      | none | some .udp => isTrue (by simp [Proper, head])
      | some (.tcp sockfd) =>
          match taken : (w.conn sockfd).recv (TCP_BUFFER_SIZE - 1) count with
          | some (.data bytes, s) =>
              decidable_of_iff ((w.conn sockfd).isOpen = true ∧ send = .taken bytes.length)
                (by simp [Proper, head, taken])
          | none | some (.again, _) | some (.eof, _) | some (.fail, _) =>
              decidable_of_iff ((w.conn sockfd).isOpen = true) (by simp [Proper, head, taken])
  | .recvfrom sendto =>
      inferInstanceAs (Decidable (∀ datagram ∈ w.datagrams.head?, datagram.Short →
        datagram.data.length = UDP_BUFFER_SIZE - 1 ∧ sendto = true))

end World

end NetPractice.MixedEcho
