import NetPractice.Memory.SlotTable
import NetPractice.Socket.Core
import NetPractice.Transition.Core
import Mathlib.Data.Finset.Card

/-!
# The echo server with `select`

This module embeds the main loop of `tcpcliserv/tcpservselect01.c`.  One event is one round
of the loop, from a call of `Select` to the next: what `Select` reports, the descriptor that
`Accept` returns, and what `Read` returns from each client.

`Select` looks at the descriptors up to `maxfd` and reports at least one of them.  Descriptors
are below `FD_SETSIZE`, and `Accept` returns one that is not open.  `Read` returns at most
`MAXLINE` bytes.  The wrappers exit when their call fails, so a round in which a call fails
leads to no other.
-/

namespace NetPractice.SelectServer

open NetPractice.Memory
open NetPractice.Text
open NetPractice.Socket

/-- The size of the buffer. -/
def MAXLINE : Nat := 4096

/-- The variables of `main`, and what was done since the last call of `Select`: the
descriptors that were read, and the bytes that were written back to them. -/
structure Server where
  listenfd : Fd
  client : Nat → Fd
  allset : Finset Fd
  rset : Finset Fd
  maxi : Int
  maxfd : Fd
  reads : List Fd
  echoed : List (Fd × List Byte)

/-- What the system calls of a round answer. -/
structure Round where
  ready : Finset Fd
  connfd : Fd
  read : Fd → List Byte

namespace Server

/-- In front of the first call of `Select`. -/
def initial (listenfd : Fd) : Server where
  listenfd := listenfd
  client := fun _ => -1
  allset := {listenfd}
  rset := ∅
  maxi := -1
  maxfd := listenfd
  reads := []
  echoed := []

/-- What the system calls can answer. -/
structure Possible (s : Server) (round : Round) : Prop where
  reported : ∀ fd ∈ round.ready, fd ∈ s.allset ∧ fd ≤ s.maxfd
  nonempty : round.ready.Nonempty
  fresh : s.listenfd ∈ round.ready →
    round.connfd ∉ s.allset ∧ 0 ≤ round.connfd ∧ round.connfd < FD_SETSIZE
  bounded : ∀ fd ∈ round.ready, (round.read fd).length ≤ MAXLINE

instance (s : Server) (round : Round) : Decidable (s.Possible round) :=
  decidable_of_iff
    ((∀ fd ∈ round.ready, fd ∈ s.allset ∧ fd ≤ s.maxfd) ∧ round.ready.Nonempty ∧
      (s.listenfd ∈ round.ready →
        round.connfd ∉ s.allset ∧ 0 ≤ round.connfd ∧ round.connfd < FD_SETSIZE) ∧
      ∀ fd ∈ round.ready, (round.read fd).length ≤ MAXLINE)
    ⟨fun ⟨reported, nonempty, fresh, bounded⟩ => ⟨reported, nonempty, fresh, bounded⟩,
      fun possible => ⟨possible.reported, possible.nonempty, possible.fresh, possible.bounded⟩⟩

/-- A new client connection gets the first available entry; without one, there are too many
clients, and the program quits. -/
def accept (s : Server) (connfd : Fd) : Option Server :=
  (firstFree FD_SETSIZE s.client).map fun i =>
    { s with
      client := Function.update s.client i connfd
      allset := insert connfd s.allset
      maxfd := if connfd > s.maxfd then connfd else s.maxfd
      maxi := if i > s.maxi then i else s.maxi }

/-- `Read` from a reported client, and `Close` or `Writen`. -/
def handle (round : Round) (s : Server) (i : Nat) : Server :=
  let sockfd := s.client i
  let buf := round.read sockfd
  if buf = [] then
    { s with
      reads := s.reads ++ [sockfd]
      allset := s.allset.erase sockfd
      client := Function.update s.client i (-1) }
  else
    { s with
      reads := s.reads ++ [sockfd]
      echoed := s.echoed ++ [(sockfd, buf)] }

/-- The loop over the clients, with `nready`. -/
def checkClients (round : Round) : Int → List Nat → Server → Server
  | _, [], s => s
  | nready, i :: rest, s =>
      let sockfd := s.client i
      if sockfd < 0 then checkClients round nready rest s
      else if sockfd ∈ s.rset then
        if nready - 1 ≤ 0 then s.handle round i
        else checkClients round (nready - 1) rest (s.handle round i)
      else checkClients round nready rest s

/-- The indices `0` to `maxi`. -/
def indices (s : Server) : List Nat :=
  List.range (s.maxi + 1).toNat

/-- The end of a round: all clients are checked for data. -/
def check (round : Round) (nready : Int) (s : Server) : Server :=
  checkClients round nready s.indices s

/-- One round of the main loop. -/
def next (s : Server) (round : Round) : Option Server :=
  if s.Possible round then
    let nready : Int := round.ready.card
    let s := { s with rset := round.ready, reads := [], echoed := [] }
    if s.listenfd ∈ s.rset then
      (s.accept round.connfd).map fun s =>
        if nready - 1 ≤ 0 then s else s.check round (nready - 1)
    else some (s.check round nready)
  else none

end Server

end NetPractice.SelectServer
