import NetPractice.Timer.Core

/-!
# The server that closes inactive connections

This module embeds the event loop of `ch11_timer/code_11_3.cpp`.  A turn of the loop
is a return of `epoll_wait`, one step for each report, and `timer_handler`.  An
undefined result is an access to an object that does not exist.

`cb_func` names the global `epollfd`, which stays 0 since `main` has a variable of its
own with that name.  Its `epoll_ctl` call has no effect on what follows: `close`
removes the registration.  `timeout` is written only, so that `timer_handler` is
called in every turn.
-/

namespace NetPractice.IdleServer

open NetPractice.Timer

/-- The number of entries of `users`. -/
def FD_LIMIT : Nat := 65535

/-- The most events that one `epoll_wait` returns. -/
def MAX_EVENT_NUMBER : Nat := 1024

/-- The seconds between two alarms. -/
def TIMESLOT : Int := 5

/-- `client_data`, as far as it is read. -/
structure ClientData where
  sockfd : Nat
  timer : Option Addr
  deriving DecidableEq, Repr

/-- An element of `events`: the descriptor, and whether `EPOLLIN` is set. -/
structure Report where
  sockfd : Nat
  readable : Bool
  deriving DecidableEq, Repr

/-- The signals that the handler writes into the pipe. -/
inductive Signal where
  | alarm | terminate
  deriving DecidableEq, Repr

/-- A connection that was closed by its timer: when something was received for the
last time, and the time of the closing. -/
structure TimedOut where
  sockfd : Nat
  heard : Int
  closed : Int
  deriving DecidableEq, Repr

/-- The server.  `pending` has the reports that the `for` loop has not come to; it is
`none` in `epoll_wait`.  The kernel's part are `clients`, the open descriptors of
clients, and the clock `now`.  History: `heard` is the time of a client's `accept` or
of its last `recv` that returned data, and `timedOut` has the connections that were
closed by their timers. -/
structure Server where
  listenfd : Nat
  pipefd : Nat
  users : Nat → Option ClientData
  timerLst : SortTimerLst
  stopServer : Bool
  pending : Option (List Report)
  clients : List Nat
  now : Int
  heard : Nat → Int
  timedOut : List TimedOut

/-- What happens next.  `accept` and `recv` carry the results of the system calls and
of `new`; for `recv`, `again` tells whether `errno` is `EAGAIN`.  An interrupted
`epoll_wait` has no reports. -/
inductive Event where
  | wait (reports : List Report)
  | accept (connfd : Nat) (timer : Addr) (now : Int)
  | signals (received : List Signal)
  | recv (ret : Int) (again : Bool) (now : Int)
  | other
  | tick (now : Int)
  deriving Repr

/-- The branches of the `for` loop. -/
inductive Branch where
  | accept | signals | recv | other
  deriving DecidableEq, Repr

/-- The name of the only callback. -/
def cb_func : Nat := 0

namespace Server

/-- The server in front of the event loop. -/
def start (listenfd pipefd : Nat) (now : Int) : Server where
  listenfd := listenfd
  pipefd := pipefd
  users := fun _ => none
  timerLst := .empty
  stopServer := false
  pending := none
  clients := []
  now := now
  heard := fun _ => now
  timedOut := []

/-- `cb_func(user_data)`. -/
def cbFunc (s : Server) (userData : Nat) : Option Server := do
  let user ← s.users userData
  pure { s with clients := s.clients.erase user.sockfd }

/-- `if(timer != NULL) timer_lst.del_timer(timer)`. -/
def delTimer (s : Server) : Option Addr → Option Server
  | none => some s
  | some timer => (s.timerLst.apply (.del timer)).map fun lst => { s with timerLst := lst }

/-- The branch of the listening socket. -/
def accept (s : Server) (connfd : Nat) (timer : Addr) (cur : Int) : Option Server :=
  if connfd < FD_LIMIT then
    (s.timerLst.apply (.add timer ⟨cur + 3 * TIMESLOT, cb_func, connfd⟩)).map fun lst =>
      { s with
        users := Function.update s.users connfd (some ⟨connfd, some timer⟩)
        timerLst := lst
        clients := connfd :: s.clients }
  else none

/-- `case SIGTERM`. -/
def catchSignals (s : Server) (received : List Signal) : Server :=
  { s with stopServer := s.stopServer || received.contains .terminate }

/-- The branch of a client, with the result of `recv`. -/
def receive (s : Server) (sockfd : Nat) (ret : Int) (again : Bool) (cur : Int) :
    Option Server := do
  let user ← s.users sockfd
  if ret < 0 then
    if again then
      pure s
    else
      let s ← s.cbFunc sockfd
      s.delTimer user.timer
  else if ret = 0 then
    let s ← s.cbFunc sockfd
    s.delTimer user.timer
  else
    match user.timer with
    | none => pure s
    | some timer =>
        let lst ← s.timerLst.apply (.adjust timer (cur + 3 * TIMESLOT))
        pure { s with timerLst := lst }

/-- A call that `tick` makes at the time `cur`. -/
def expire (cur : Int) (s : Server) (call : Nat × Nat) : Option Server := do
  let user ← s.users call.2
  let closed ← if call.1 = cb_func then s.cbFunc call.2 else none
  pure { closed with timedOut := s.timedOut ++ [⟨user.sockfd, s.heard user.sockfd, cur⟩] }

/-- `timer_handler()`: the callbacks do not touch the list, and are made here when it
has been walked through. -/
def timerHandler (s : Server) (cur : Int) : Option Server := do
  let lst ← s.timerLst.apply (.tick cur)
  (lst.calls.drop s.timerLst.calls.length).foldlM (expire cur) { s with timerLst := lst }

/-- The branch that is taken for a report. -/
def branch (s : Server) (report : Report) : Branch :=
  if report.sockfd = s.listenfd then .accept
  else if report.sockfd = s.pipefd ∧ report.readable = true then .signals
  else if report.readable then .recv
  else .other

/-- The history behind a `recv` with this result. -/
def heardBehind (s : Server) (sockfd : Nat) (ret : Int) (cur : Int) : Nat → Int :=
  if 0 < ret then Function.update s.heard sockfd cur else s.heard

/-- The step of the event loop.  The history is written from the event. -/
def next (s : Server) : Event → Option Server
  | .wait reports =>
      if s.pending = none ∧ s.stopServer = false then some { s with pending := some reports }
      else none
  | .accept connfd timer now =>
      match s.pending with
      | some (report :: rest) =>
          if s.branch report = .accept then
            { s with
              pending := some rest
              now := now
              heard := Function.update s.heard connfd now }.accept connfd timer now
          else none
      | _ => none
  | .signals received =>
      match s.pending with
      | some (report :: rest) =>
          if s.branch report = .signals then
            some ({ s with pending := some rest }.catchSignals received)
          else none
      | _ => none
  | .recv ret again now =>
      match s.pending with
      | some (report :: rest) =>
          if s.branch report = .recv then
            { s with
              pending := some rest
              now := now
              heard := s.heardBehind report.sockfd ret now }.receive report.sockfd ret again now
          else none
      | _ => none
  | .other =>
      match s.pending with
      | some (report :: rest) =>
          if s.branch report = .other then some { s with pending := some rest } else none
      | _ => none
  | .tick now =>
      if s.pending = some [] then { s with pending := none, now := now }.timerHandler now
      else none

/-! ## The environment -/

/-- The loop has come to a report that takes this branch. -/
def Takes (s : Server) (branch : Branch) : Prop :=
  (s.pending.bind List.head?).map s.branch = some branch

/-- The event belongs to the step of the program that comes next. -/
def Fits (s : Server) : Event → Prop
  | .wait _ => s.pending = none ∧ s.stopServer = false
  | .accept .. => s.Takes .accept
  | .signals _ => s.Takes .signals
  | .recv .. => s.Takes .recv
  | .other => s.Takes .other
  | .tick _ => s.pending = some []

/-- What the kernel answers: each open descriptor is reported at most once, `accept`
returns a fresh descriptor below `FD_LIMIT`, `new` a fresh timer, and the clock does
not go back. -/
def Answers (s : Server) : Event → Prop
  | .wait reports => reports.length ≤ MAX_EVENT_NUMBER ∧ (reports.map Report.sockfd).Nodup ∧
      ∀ report ∈ reports, report.sockfd = s.listenfd ∨ report.sockfd = s.pipefd ∨
        report.sockfd ∈ s.clients
  | .accept connfd timer now => connfd < FD_LIMIT ∧ connfd ∉ s.clients ∧
      connfd ≠ s.listenfd ∧ connfd ≠ s.pipefd ∧ ¬ s.timerLst.Live timer ∧ s.now ≤ now
  | .recv _ _ now | .tick now => s.now ≤ now
  | _ => True

/-- The event is what comes next, with answers that the kernel can give. -/
def Allowed (s : Server) (event : Event) : Prop :=
  s.Fits event ∧ s.Answers event

instance (s : Server) (branch : Branch) : Decidable (s.Takes branch) :=
  inferInstanceAs (Decidable (_ = _))

instance (s : Server) : ∀ event, Decidable (s.Fits event)
  | .wait _ => inferInstanceAs (Decidable (_ ∧ _))
  | .accept .. | .signals _ | .recv .. | .other => inferInstanceAs (Decidable (s.Takes _))
  | .tick _ => inferInstanceAs (Decidable (s.pending = some []))

instance (s : Server) : ∀ event, Decidable (s.Answers event)
  | .wait _ => inferInstanceAs (Decidable (_ ∧ _ ∧ ∀ report ∈ _, _ ∨ _ ∨ _))
  | .accept _ timer _ => inferInstanceAs
      (Decidable (_ ∧ _ ∧ _ ∧ _ ∧ ¬ (s.timerLst.heap timer).isSome ∧ _))
  | .recv .. | .tick _ => inferInstanceAs (Decidable (_ ≤ _))
  | .signals _ | .other => isTrue trivial

instance (s : Server) (event : Event) : Decidable (s.Allowed event) :=
  inferInstanceAs (Decidable (_ ∧ _))

/-- The timers of `timer_lst`, from `head` on. -/
def timers (s : Server) : List Addr :=
  s.timerLst.walk s.timerLst.allocated s.timerLst.head

end Server

end NetPractice.IdleServer
