import NetPractice.Memory.Ring
import NetPractice.Text.CString
import Mathlib.Logic.Function.Basic

/-!
# The echo server with signal-driven input

This module embeds `sigio/dgecho01.c`: the handler of `SIGIO` reads all waiting datagrams
into a ring of buffers, and the main loop sends them back.  The main loop blocks the signal
while it tests and decrements `nqueue`.

A step is one statement of the main loop, the delivery of `SIGIO` while it is not blocked,
or one iteration of the handler's loop.  The main loop does nothing while the handler runs.
-/

namespace NetPractice.SigioEcho

open NetPractice.Memory
open NetPractice.Text

universe u

/-- The number of slots. -/
def QSIZE : Nat := 8

/-- The most bytes of a datagram. -/
def MAXDG : Nat := 4096

/-- A datagram as `recvfrom` returns it, and as `sendto` is called, with an address. -/
structure Datagram (A : Type u) where
  data : List Byte
  sa : A
  salen : Nat
  deriving DecidableEq, Repr

/-- `DG`; `data` is the memory at `dg_data`. -/
structure DG (A : Type u) where
  data : List Byte
  len : Nat
  sa : A
  salen : Nat
  deriving DecidableEq, Repr

/-- What `recvfrom` answers: a datagram, `EWOULDBLOCK`, or another error. -/
inductive Received (A : Type u) where
  | datagram (datagram : Datagram A)
  | again
  | fail
  deriving DecidableEq, Repr

/-- The main loop, by the statement that comes next: the first `Sigprocmask`, the test of
`nqueue`, `sigsuspend`, `Sendto`, `++iget`, the `Sigprocmask` behind it, and `nqueue--`. -/
inductive Main where
  | setup
  | testing
  | suspended
  | sending
  | advancing
  | blocking
  | decrementing
  deriving DecidableEq, Repr

/-- Is `SIGIO` delivered at this statement? -/
def Main.Unblocked : Main → Prop
  | .setup | .suspended | .sending | .advancing | .blocking => True
  | .testing | .decrementing => False

instance : ∀ main : Main, Decidable main.Unblocked
  | .setup | .suspended | .sending | .advancing | .blocking => isTrue trivial
  | .testing | .decrementing => isFalse id

/-- The server; `dg` and `cntread` are arrays.  `handler` is set while `sig_io` runs, and
holds its `nread`; `quit` is set when an error has ended the process.  `unsent` lists the
slots whose datagrams have not been sent completely, and `read` and `sent` all datagrams. -/
structure Server (A : Type u) where
  clilen : Nat
  dg : Nat → DG A
  cntread : Nat → Nat
  iget : Nat
  iput : Nat
  nqueue : Int
  main : Main
  handler : Option Nat
  quit : Bool
  unsent : List Nat
  read : List (Datagram A)
  sent : List (Datagram A)

/-- A step of the main loop, the delivery of `SIGIO`, an answer of `recvfrom`, another signal
that ends `sigsuspend`, or a failing `sendto`. -/
inductive Event (A : Type u) where
  | main
  | sigio
  | recvfrom (answer : Received A)
  | wake
  | sendFails
  deriving DecidableEq, Repr

namespace Server

variable {A : Type u}

/-- Behind the initialisation of the buffers, when `SIGIO` can be delivered. -/
def start (clilen : Nat) (dg : Nat → DG A) : Server A where
  clilen := clilen
  dg := dg
  cntread := fun _ => 0
  iget := 0
  iput := 0
  nqueue := 0
  main := .setup
  handler := none
  quit := false
  unsent := []
  read := []
  sent := []

/-- What `Sendto` sends from a slot. -/
def message (dg : DG A) : Datagram A :=
  ⟨dg.data.take dg.len, dg.sa, dg.salen⟩

/-- The next statement of the main loop. -/
def mainStep (s : Server A) : Option (Server A) :=
  match s.main with
  | .setup => some { s with main := .testing }
  | .testing => some { s with main := if s.nqueue = 0 then .suspended else .sending }
  | .suspended => none
  | .sending =>
      some { s with
        sent := s.sent ++ [message (s.dg s.iget)]
        unsent := s.unsent.erase s.iget
        main := .advancing }
  | .advancing => some { s with iget := Ring.advance QSIZE s.iget, main := .blocking }
  | .blocking => some { s with main := .decrementing }
  | .decrementing => some { s with nqueue := s.nqueue - 1, main := .testing }

/-- `ptr->dg_salen = clilen`, and what `recvfrom` stores. -/
def store (s : Server A) (received : Datagram A) : Server A :=
  let ptr := s.dg s.iput
  let ptr : DG A :=
    { data := received.data ++ ptr.data.drop received.data.length
      len := received.data.length
      sa := received.sa
      salen := received.salen }
  { s with dg := Function.update s.dg s.iput ptr }

/-- The end of `sig_io`, and of the `sigsuspend` that it has interrupted. -/
def handled (s : Server A) (nread : Nat) : Server A :=
  let ptr := { s.dg s.iput with salen := s.clilen }
  { s with
    dg := Function.update s.dg s.iput ptr
    cntread := Function.update s.cntread nread (s.cntread nread + 1)
    handler := none
    main := if s.main = .suspended then .testing else s.main }

/-- One iteration of the loop of `sig_io`. -/
def handlerStep (s : Server A) (nread : Nat) (answer : Received A) : Option (Server A) :=
  if (QSIZE : Int) ≤ s.nqueue then some { s with quit := true }
  else
    match answer with
    | .datagram received =>
        if received.data.length ≤ MAXDG then
          some { s.store received with
            handler := some (nread + 1)
            nqueue := s.nqueue + 1
            iput := Ring.advance QSIZE s.iput
            unsent := s.unsent ++ [s.iput]
            read := s.read ++ [received] }
        else none
    | .again => some (s.handled nread)
    | .fail => some { s with quit := true }

/-- The next statement of the main loop or of the handler. -/
def next (s : Server A) (event : Event A) : Option (Server A) :=
  if s.quit then none
  else
    match s.handler, event with
    | none, .main => s.mainStep
    | none, .sigio => if s.main.Unblocked then some { s with handler := some 0 } else none
    | none, .wake => if s.main = .suspended then some { s with main := .testing } else none
    | none, .sendFails => if s.main = .sending then some { s with quit := true } else none
    | some nread, .recvfrom answer => s.handlerStep nread answer
    | _, _ => none

end Server

end NetPractice.SigioEcho
