import Mathlib.Logic.Function.Basic
import NetPractice.Socket.Stream
import NetPractice.Transition.Core

/-!
# The two trigger modes

`code_9_3.cpp` serves its connections by `lt`, which calls `recv` once for each report, or
by `et`, which is told about new bytes once and reads until `EAGAIN`.  The connections have
been accepted; between any two calls of `recv` bytes can arrive, and connections can end.
-/

namespace NetPractice.TriggerModes

open NetPractice.Socket
open NetPractice.Text
open NetPractice.Transition

universe u

/-- The most events that one `epoll_wait` returns. -/
def MAX_EVENT_NUMBER : Nat := 1024

/-- The size of the buffer. -/
def BUFFER_SIZE : Nat := 10

/-- `trigger_mode`, which is also how `addfd` registers the connections. -/
inductive Mode where
  | lt
  | et
  deriving DecidableEq, Repr

/-- The accepted connections, and the reports of `epoll_wait` that are not yet handled; the
first one is being handled. -/
structure World (ι : Type u) where
  conn : ι → Stream
  batch : List ι

/-- Bytes arrive, a connection ends, `epoll_wait` returns, or the server calls `recv` and
gets so and so many bytes, if there are some. -/
inductive Event (ι : Type u) where
  | arrive (c : ι) (bytes : List Byte)
  | finish (c : ι) (ending : Ending)
  | wait (batch : List ι)
  | recv (count : Nat)
  deriving DecidableEq, Repr

/-- `epoll_wait` has a report about the connection. -/
def Pending (mode : Mode) (s : Stream) : Prop :=
  s.isOpen = true ∧ s.Readable ∧ (mode = .et → s.edge = true)

instance (mode : Mode) (s : Stream) : Decidable (Pending mode s) :=
  inferInstanceAs (Decidable (_ ∧ _ ∧ (_ → _)))

variable {ι : Type u}

namespace World

/-- `addfd` has registered the connections. -/
def start : World ι where
  conn := fun _ => .start
  batch := []

/-- No event is pending, and none is being handled. -/
def Settled (mode : Mode) (w : World ι) : Prop :=
  w.batch = [] ∧ ∀ c, ¬ Pending mode (w.conn c)

variable [DecidableEq ι]

/-- One connection is set, and the others stay. -/
def setConn (w : World ι) (c : ι) (s : Stream) : World ι :=
  { w with conn := Function.update w.conn c s }

/-- `epoll_wait(epollfd, events, MAX_EVENT_NUMBER, -1)`. -/
def wait (w : World ι) (batch : List ι) : World ι where
  conn := fun c => if c ∈ batch then (w.conn c).report else w.conn c
  batch := batch

/-- The loop of `lt` for one report. -/
def lt (w : World ι) (count : Nat) : Option (World ι) :=
  match w.batch with
  | [] => none
  | sockfd :: batch =>
      ((w.conn sockfd).recv (BUFFER_SIZE - 1) count).map fun (answer, s) =>
        { w.setConn sockfd (s.served answer) with batch := batch }

/-- An iteration of the inner loop of `et`. -/
def et (w : World ι) (count : Nat) : Option (World ι) :=
  match w.batch with
  | [] => none
  | sockfd :: batch =>
      ((w.conn sockfd).recv (BUFFER_SIZE - 1) count).map fun (answer, s) =>
        { w.setConn sockfd (s.drained answer).1 with
          batch := if (s.drained answer).2 then sockfd :: batch else batch }

/-- What arrives, or the next call of the server. -/
def next (mode : Mode) (w : World ι) : Event ι → Option (World ι)
  | .arrive c bytes =>
      if (w.conn c).ending = none then some (w.setConn c ((w.conn c).arrive bytes)) else none
  | .finish c ending =>
      if (w.conn c).ending = none then some (w.setConn c ((w.conn c).finish ending)) else none
  | .wait batch =>
      if w.batch = [] ∧ batch ≠ [] ∧ batch.Nodup ∧ batch.length ≤ MAX_EVENT_NUMBER ∧
          ∀ c ∈ batch, Pending mode (w.conn c) then
        some (w.wait batch)
      else none
  | .recv count =>
      match mode with
      | .lt => w.lt count
      | .et => w.et count

end World

/-- The bytes that arrive on a connection. -/
def arrivals [DecidableEq ι] (c : ι) (events : List (Event ι)) : List Byte :=
  events.flatMap fun
    | .arrive d bytes => if d = c then bytes else []
    | .finish .. | .wait _ | .recv _ => []

/-- How a connection ends. -/
def ending [DecidableEq ι] (c : ι) (events : List (Event ι)) : Option Ending :=
  events.findSome? fun
    | .finish d ending => if d = c then some ending else none
    | .arrive .. | .wait _ | .recv _ => none

/-- Both servers have received what has arrived, and each has called `close` once for each
connection that has ended. -/
structure Agree [DecidableEq ι] (events : List (Event ι)) (level edge : World ι) : Prop where
  received : ∀ c, (level.conn c).received = arrivals c events ∧
    (edge.conn c).received = arrivals c events
  closes : ∀ c, (level.conn c).closes = (if ending c events = none then 0 else 1) ∧
    (edge.conn c).closes = if ending c events = none then 0 else 1

end NetPractice.TriggerModes
