import NetPractice.Transition.Core
import NetPractice.Transition.Reachable

/-!
# The broadcast clients

`dg_cli` sends a line to the broadcast address, sets an alarm, and prints replies until the
alarm expires.  This module embeds the versions of `dgclibcast1.c`, `dgclibcast3.c`,
`dgclibcast4.c`, `dgclibcast5.c` and `dgclibcast6.c`, which differ in how the signal gets
them out of the loop.  A step is one call.  The alarm expires between any two of them, or
while one of them blocks, and its signal is delivered at once, unless it is blocked.
-/

namespace NetPractice.Broadcast

open NetPractice.Transition

/-- The client at the statement `pc`.  `timer` is set while the alarm runs, `masked` while
SIGALRM is blocked, and `pending` when it has been raised and not delivered.  `queue` has the
replies in the receive buffer, `arrived` those that ever were in it, and `printed` those that
were printed. -/
structure Client (Pc : Type) where
  pc : Pc
  timer : Bool
  masked : Bool
  pending : Bool
  queue : List Nat
  arrived : List Nat
  printed : List Nat
  deriving DecidableEq, Repr

/-- `input` is `Fgets` with a line, or at the end of the input.  `client` is the next
statement.  `reply` is a datagram that arrives, and `expire` the end of the alarm.
`interrupt` is a blocking call that a pending signal interrupts. -/
inductive Event
  | input (more : Bool)
  | client
  | reply (r : Nat)
  | expire
  | interrupt
  deriving DecidableEq, Repr

/-- The client in front of its loop. -/
def start {Pc : Type} (fgets : Pc) : Client Pc :=
  { pc := fgets
    timer := false
    masked := false
    pending := false
    queue := []
    arrived := []
    printed := [] }

/-- A datagram arrives. -/
def Client.receive {Pc : Type} (c : Client Pc) (r : Nat) : Client Pc :=
  { c with queue := c.queue ++ [r], arrived := c.arrived ++ [r] }

/-! ## recvfrom is interrupted -/

namespace Interrupted

/-- The statements of `dgclibcast1.c` and `dgclibcast3.c`.  `recvfrom` is about to be called,
and `blocked` waits in it.  `block` has the result of the call: a reply, or EINTR. -/
inductive Pc
  | fgets
  | sendto
  | alarm
  | unblock
  | recvfrom
  | blocked
  | block (n : Option Nat)
  | print (r : Nat)
  | returned
  deriving DecidableEq, Repr

/-- The first statement of the inner loop.  `masks` is set for `dgclibcast3.c`. -/
def Pc.first (masks : Bool) : Pc :=
  if masks then .unblock else .recvfrom

/-- What comes behind `recvfrom`. -/
def Pc.behind (masks : Bool) (n : Option Nat) : Pc :=
  if masks then .block n else n.elim .fgets .print

/-- The next statement of `dg_cli`, with the signal blocked around `recvfrom` or not. -/
def client (masks : Bool) (c : Client Pc) : Option (Client Pc) :=
  match c.pc with
  | .fgets | .returned => none
  | .sendto => some { c with pc := .alarm }
  | .alarm => some { c with timer := true, pc := .first masks }
  | .unblock => some { c with masked := false, pending := false, pc := .recvfrom }
  | .recvfrom =>
      match c.queue with
      | r :: queue => some { c with queue := queue, pc := .behind masks (some r) }
      | [] => some { c with pc := .blocked }
  | .blocked =>
      match c.queue with
      | r :: queue => some { c with queue := queue, pc := .behind masks (some r) }
      | [] => none
  | .block n => some { c with masked := true, pc := n.elim .fgets .print }
  | .print r => some { c with printed := c.printed ++ [r], pc := .first masks }

/-- The signal is raised.  It ends `recvfrom` when that waits. -/
def raise (masks : Bool) (c : Client Pc) : Client Pc :=
  if c.masked then { c with pending := true }
  else if c.pc = .blocked ∧ c.queue = [] then { c with pc := .behind masks none }
  else c

/-- A line of input, a statement of `dg_cli`, a reply, or the alarm. -/
def next (masks : Bool) (c : Client Pc) : Event → Option (Client Pc)
  | .input more =>
      if c.pc = .fgets then some { c with pc := if more then .sendto else .returned } else none
  | .client => client masks c
  | .reply r => some (c.receive r)
  | .expire => if c.timer then some (raise masks { c with timer := false }) else none
  | .interrupt => none

end Interrupted

/-! ## pselect -/

namespace Pselect

/-- The statements of `dgclibcast4.c`. -/
inductive Pc
  | fgets
  | sendto
  | block
  | alarm
  | pselect
  | recvfrom
  | print (r : Nat)
  | returned
  deriving DecidableEq, Repr

/-- `pselect` returns when there is a reply. -/
def client (c : Client Pc) : Option (Client Pc) :=
  match c.pc with
  | .fgets | .returned => none
  | .sendto => some { c with pc := .block }
  | .block => some { c with masked := true, pc := .alarm }
  | .alarm => some { c with timer := true, pc := .pselect }
  | .pselect => if c.queue = [] then none else some { c with pc := .recvfrom }
  | .recvfrom =>
      match c.queue with
      | r :: queue => some { c with queue := queue, pc := .print r }
      | [] => none
  | .print r => some { c with printed := c.printed ++ [r], pc := .pselect }

/-- The signal mask of `pselect` is empty, so that it delivers a pending signal, and is
interrupted by it. -/
def next (c : Client Pc) : Event → Option (Client Pc)
  | .input more =>
      if c.pc = .fgets then some { c with pc := if more then .sendto else .returned } else none
  | .client => client c
  | .reply r => some (c.receive r)
  | .expire =>
      if c.timer then some { c with timer := false, pending := c.masked } else none
  | .interrupt =>
      if c.pc = .pselect ∧ c.pending then some { c with pending := false, pc := .fgets }
      else none

end Pselect

/-! ## siglongjmp -/

namespace Longjmp

/-- The statements of `dgclibcast5.c`.  `undefined` is a jump to a `jmpbuf` that was never
set. -/
inductive Pc
  | fgets
  | sendto
  | alarm
  | sigsetjmp
  | recvfrom
  | print (r : Nat)
  | returned
  | undefined
  deriving DecidableEq, Repr

/-- The client, with whether `jmpbuf` is set. -/
structure Program where
  toClient : Client Pc
  jmpbuf : Bool
  deriving DecidableEq, Repr

/-- The next statement of `dg_cli`. -/
def client (p : Program) : Option Program :=
  let c := p.toClient
  match c.pc with
  | .fgets | .returned | .undefined => none
  | .sendto => some { p with toClient := { c with pc := .alarm } }
  | .alarm => some { p with toClient := { c with timer := true, pc := .sigsetjmp } }
  | .sigsetjmp => some { toClient := { c with pc := .recvfrom }, jmpbuf := true }
  | .recvfrom =>
      match c.queue with
      | r :: queue => some { p with toClient := { c with queue := queue, pc := .print r } }
      | [] => none
  | .print r =>
      some { p with toClient := { c with printed := c.printed ++ [r], pc := .sigsetjmp } }

/-- The signal handler jumps behind `sigsetjmp`, which leaves the loop. -/
def next (p : Program) : Event → Option Program
  | .input more =>
      if p.toClient.pc = .fgets then
        some { p with toClient := { p.toClient with pc := if more then .sendto else .returned } }
      else none
  | .client => client p
  | .reply r => some { p with toClient := p.toClient.receive r }
  | .expire =>
      if p.toClient.timer then
        some { p with toClient :=
          { p.toClient with timer := false, pc := if p.jmpbuf then .fgets else .undefined } }
      else none
  | .interrupt => none

end Longjmp

/-! ## The signal handler writes to a pipe -/

namespace Piped

/-- The statements of `dgclibcast6.c`.  From `select` on the locals say which descriptors are
set in `rset`. -/
inductive Pc
  | fgets
  | sendto
  | alarm
  | select
  | isset (sockfd pipefd : Bool)
  | recvfrom (pipefd : Bool)
  | print (r : Nat) (pipefd : Bool)
  | issetPipe (pipefd : Bool)
  | read
  | returned
  deriving DecidableEq, Repr

/-- The client, with the number of bytes in the pipe. -/
structure Program where
  toClient : Client Pc
  pipe : Nat
  deriving DecidableEq, Repr

/-- The next statement of `dg_cli`. -/
def client (p : Program) : Option Program :=
  let c := p.toClient
  match c.pc with
  | .fgets | .returned => none
  | .sendto => some { p with toClient := { c with pc := .alarm } }
  | .alarm => some { p with toClient := { c with timer := true, pc := .select } }
  | .select =>
      if c.queue = [] ∧ p.pipe = 0 then none
      else some { p with toClient := { c with pc := .isset (c.queue ≠ []) (p.pipe ≠ 0) } }
  | .isset sockfd pipefd =>
      some { p with toClient :=
        { c with pc := if sockfd then .recvfrom pipefd else .issetPipe pipefd } }
  | .recvfrom pipefd =>
      match c.queue with
      | r :: queue => some { p with toClient := { c with queue := queue, pc := .print r pipefd } }
      | [] => none
  | .print r pipefd =>
      some { p with toClient := { c with printed := c.printed ++ [r], pc := .issetPipe pipefd } }
  | .issetPipe pipefd =>
      some { p with toClient := { c with pc := if pipefd then .read else .select } }
  | .read => if p.pipe = 0 then none else some ⟨{ c with pc := .fgets }, p.pipe - 1⟩

/-- A `select` that is interrupted is called again. -/
def next (p : Program) : Event → Option Program
  | .input more =>
      if p.toClient.pc = .fgets then
        some { p with toClient := { p.toClient with pc := if more then .sendto else .returned } }
      else none
  | .client => client p
  | .reply r => some { p with toClient := p.toClient.receive r }
  | .expire =>
      if p.toClient.timer then
        some { toClient := { p.toClient with timer := false }, pipe := p.pipe + 1 }
      else none
  | .interrupt => none

end Piped

end NetPractice.Broadcast
