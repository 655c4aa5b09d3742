import NetPractice.ProcessPool.Construction
import NetPractice.Transition.Core

/-!
# The process pool: parent and children

This module embeds `run_parent` and `run_child` of `processpool.h`.  The parent and
the children take steps in any order; each step is a part of a process up to the
next system call that another process can notice.

The `epoll` registrations are edge-triggered: an arrival makes the instance report
the descriptor once, however many arrivals there have been since the last report.
An arrival in front of the registration counts as one behind it, since nothing is
read before.  The parent keeps its end of a child's pipe open until the child has
been reaped, so that a child's `recv` does not see the end of the stream.
-/

namespace NetPractice.ProcessPool

open NetPractice.Transition

/-! ## Processes -/

/-- A child of the pool as the kernel sees it. -/
inductive Life where
  | running | zombie | reaped
  deriving DecidableEq, Repr

/-- What `epoll_wait` reports to a child: the pipe to the parent, the pipe of the
signal handler, or a client. -/
inductive ChildReport where
  | pipe | signal | client
  deriving DecidableEq, Repr

/-- A child in `run_child`.  `pipe` is the number of notifications in its pipe,
`edge` is set while the pipe has an event that has not been reported, and `accepting`
is set between `recv` and `accept`. -/
structure Child where
  pid : Int
  life : Life
  stop : Bool
  batch : List ChildReport
  accepting : Bool
  pipe : Nat
  edge : Bool
  deriving DecidableEq, Repr

/-- A child in front of its loop. -/
def newChild (pid : Int) : Child where
  pid := pid
  life := .running
  stop := false
  batch := []
  accepting := false
  pipe := 0
  edge := false

/-- A step of a child.  `refused` is an `accept` that fails. -/
inductive ChildEvent where
  | wait (batch : List ChildReport)
  | recv
  | refused
  | signals (terminate : Bool)
  | process
  | exit
  | die
  deriving Repr

/-- The steps of a child that no other process takes part in.  A `recv` that finds no
data is followed by `accept` as well. -/
def Child.next (child : Child) (event : ChildEvent) : Option Child :=
  if child.life ≠ .running then none
  else
    match event with
    | .wait batch =>
        if child.stop = false ∧ child.batch = [] ∧ child.accepting = false ∧
            batch.count .pipe ≤ 1 ∧ (.pipe ∈ batch → child.edge = true) then
          some { child with batch := batch, edge := child.edge && !batch.contains .pipe }
        else none
    | .recv =>
        match child.batch with
        | .pipe :: batch =>
            if child.accepting then none
            else some { child with batch := batch, pipe := child.pipe - 1, accepting := true }
        | _ => none
    | .refused => if child.accepting then some { child with accepting := false } else none
    | .signals terminate =>
        match child.batch with
        | .signal :: batch =>
            if child.accepting then none
            else some { child with batch := batch, stop := child.stop || terminate }
        | _ => none
    | .process =>
        match child.batch with
        | .client :: batch => if child.accepting then none else some { child with batch := batch }
        | _ => none
    | .exit =>
        if child.stop = true ∧ child.batch = [] ∧ child.accepting = false then
          some { child with life := .zombie }
        else none
    | .die => some { child with life := .zombie }

/-- What `epoll_wait` reports to the parent. -/
inductive ParentReport where
  | listen | signal
  deriving DecidableEq, Repr

/-- A signal that the parent's handler has caught, with the results of `waitpid`. -/
inductive Caught where
  | sigchld (pids : List Int)
  | terminate
  | other
  deriving DecidableEq, Repr

/-- The pool in `run_parent`.  `edge` is set while the listening socket has an event
that has not been reported.  Connections are numbered by their arrival: `backlog`
has those that have not been accepted, `announced` the children that were notified,
and `accepted` the connections with the children that accepted them. -/
structure Pool where
  processNumber : Nat
  pids : Nat → Int
  subProcessCounter : Nat
  stop : Bool
  batch : List ParentReport
  edge : Bool
  backlog : List Nat
  children : List Child
  arrivals : Nat
  announced : List Nat
  accepted : List (Nat × Nat)

/-- Successful forks of all children: the numbers of processes that exist at the same
time differ. -/
structure Forks where
  processNumber : Nat
  positive : 0 < processNumber
  bounded : processNumber ≤ MAX_PROCESS_NUMBER
  pid : Nat → {pid : Int // 0 < pid}
  distinct : ∀ i < processNumber, ∀ j < processNumber, (pid i).val = pid j → i = j

/-- What happens next: a connection arrives, or a process takes a step. -/
inductive Event where
  | arrive
  | wait (batch : List ParentReport)
  | dispatch
  | signals (caught : List Caught)
  | child (i : Nat) (event : ChildEvent)
  | accept (i : Nat)
  deriving Repr

namespace Pool

/-- The pool behind the constructor. -/
def start (forks : Forks) : Pool where
  processNumber := forks.processNumber
  pids := (forkLoop (fun i => .created (forks.pid i)) forks.processNumber 0 .initial).caller.pids
  subProcessCounter := 0
  stop := false
  batch := []
  edge := false
  backlog := []
  children := (List.range forks.processNumber).map fun i => newChild (forks.pid i)
  arrivals := 0
  announced := []
  accepted := []

/-! ## The parent -/

/-- The `do` loop that looks for a child, with a bound of the number of its turns. -/
def search (s : Pool) : Nat → Nat → Option Nat
  | 0, _ => none
  | fuel + 1, i =>
      if s.pids i ≠ -1 then some i
      else
        let i := (i + 1) % s.processNumber
        if i ≠ s.subProcessCounter then s.search fuel i else some i

/-- One child is set, and the others stay. -/
def setChild (s : Pool) (i : Nat) (child : Child) : Pool :=
  { s with children := s.children.set i child }

/-- `send` of a notification.  A process that has ended does not get it. -/
def send (s : Pool) (i : Nat) : Pool :=
  match s.children[i]? with
  | some child =>
      if child.life = .running then s.setChild i { child with pipe := child.pipe + 1, edge := true }
      else s
  | none => s

/-- The branch of the listening socket.  Without a child, the loops are left. -/
def announce (s : Pool) : Option Pool :=
  (s.search s.processNumber s.subProcessCounter).map fun i =>
    if s.pids i = -1 then { s with stop := true, batch := [] }
    else
      { s.send i with
        subProcessCounter := (i + 1) % s.processNumber
        announced := s.announced ++ [i] }

/-- `waitpid` has returned a number: the loop over `m_sub_process`. -/
def join (s : Pool) (pid : Int) : Pool :=
  { s with
    pids := fun i => if i < s.processNumber ∧ s.pids i = pid then -1 else s.pids i
    children := s.children.map fun child =>
      if child.life = .zombie ∧ child.pid = pid then { child with life := .reaped } else child }

/-- `waitpid` returns the numbers of all processes that have ended, in any order. -/
def Waitable (s : Pool) (pids : List Int) : Prop :=
  pids.Nodup ∧ (∀ pid ∈ pids, ∃ child ∈ s.children, child.life = .zombie ∧ child.pid = pid) ∧
    ∀ child ∈ s.children, child.life = .zombie → child.pid ∈ pids

instance (s : Pool) (pids : List Int) : Decidable (s.Waitable pids) :=
  inferInstanceAs (Decidable (_ ∧ _ ∧ _))

/-- The `switch` over a signal. -/
def catchSignal (s : Pool) : Caught → Option Pool
  | .sigchld pids =>
      if s.Waitable pids then
        let s := pids.foldl join s
        some { s with stop := (List.range s.processNumber).all fun i => s.pids i = -1 }
      else none
  | .terminate | .other => some s

/-! ## Steps -/

/-- The next step of the parent, of a child, or of the kernel. -/
def next (s : Pool) : Event → Option Pool
  | .arrive =>
      some { s with
        backlog := s.backlog ++ [s.arrivals]
        arrivals := s.arrivals + 1
        edge := true }
  | .wait batch =>
      if s.batch = [] ∧ s.stop = false ∧ batch.Nodup ∧ (.listen ∈ batch → s.edge = true) then
        some { s with batch := batch, edge := s.edge && !batch.contains .listen }
      else none
  | .dispatch =>
      match s.batch with
      | .listen :: batch => { s with batch := batch }.announce
      | _ => none
  | .signals caught =>
      match s.batch with
      | .signal :: batch => caught.foldlM catchSignal { s with batch := batch }
      | _ => none
  | .child i event =>
      s.children[i]?.bind fun child => (child.next event).map (s.setChild i)
  | .accept i =>
      match s.children[i]?, s.backlog with
      | some child, connection :: backlog =>
          if child.life = .running ∧ child.accepting = true then
            some { s.setChild i { child with accepting := false } with
              backlog := backlog
              accepted := s.accepted ++ [(i, connection)] }
          else none
      | _, _ => none

end Pool

end NetPractice.ProcessPool
