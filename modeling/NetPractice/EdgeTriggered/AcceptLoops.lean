import NetPractice.Http.Places
import NetPractice.IdleServer.Frames
import NetPractice.ShmChat.Segments
import NetPractice.Socket.Backlog

/-!
# The accept loops of the edge-triggered servers

`web_server.cpp`, `code_13_4.cpp` and `code_11_3.cpp` register their listening
sockets with `EPOLLET`, and call `accept` once for each report.  Two connections
that complete between two calls of `epoll_wait` make one report, and the second one
stays in the queue.
-/

namespace NetPractice.EdgeTriggered

open NetPractice.Socket
open NetPractice.Transition

/-! ## `web_server.cpp` -/

namespace Web

open NetPractice.Http

/-- `accept` returns a descriptor, or fails with `-1`. -/
def op (_ : Server) : ServerEvent → ListenOp
  | .wait batch => .wait (batch.count .listen)
  | .accept connfd => .accept (decide (0 ≤ connfd))
  | _ => .other

variable {s t : Server}

theorem closeConn_batch (s : Server) (request : Fd) : (s.closeConn request).batch = s.batch := by
  unfold Server.closeConn
  dsimp only
  split <;> rfl

theorem modfd_batch (s : Server) (sockfd : Fd) (event : EpollEvent) :
    (s.modfd sockfd event).batch = s.batch := by
  unfold Server.modfd
  split <;> rfl

theorem accept_batch {connfd : Fd} (step : s.accept connfd = some t) : t.batch = s.batch := by
  rcases Server.accept_spec step with ⟨rfl, -⟩ | ⟨-, -, -, -, rfl⟩ <;> rfl

theorem readUser_batch {request : Fd} {answers : List Recv}
    (step : s.readUser request answers = some t) : t.batch = s.batch := by
  rcases Option.map_eq_some_iff.mp step with ⟨⟨more, c⟩, -, rfl⟩
  dsimp only
  split
  · unfold Server.append
    split <;> rfl
  · exact closeConn_batch _ _

theorem writeUser_batch {request : Fd} {answers : List Send}
    (step : s.writeUser request answers = some t) : t.batch = s.batch := by
  rcases Option.map_eq_some_iff.mp step with ⟨written, -, rfl⟩
  have recorded : ((s.setUser request written.conn).recordUnmap request written.munmap).batch =
      s.batch := by
    cases written.munmap <;> rfl
  have rearmed : ∀ (q : Server) (event : Option EpollEvent),
      (q.rearm written.conn.sockfd event).batch = q.batch := by
    intro q event
    cases event with
    | none => rfl
    | some event => exact modfd_batch q _ event
  dsimp only
  split
  · exact (rearmed _ _).trans recorded
  · exact (closeConn_batch _ _).trans ((rearmed _ _).trans recorded)

theorem processUser_batch (s : Server) (worker : Nat) (request : Fd) (fs : FileSystem) :
    (s.processUser worker request fs).batch = s.batch := by
  have recorded : ∀ code c, (s.recordMap request code c).batch = s.batch := by
    intro code c
    unfold Server.recordMap
    split <;> rfl
  unfold Server.processUser
  dsimp only
  split
  · exact recorded _ _
  · split
    · exact recorded _ _
    · exact (closeConn_batch _ _).trans (recorded _ _)

/-- Only `accept` handles a report about the listening socket. -/
theorem moves {event : ServerEvent} (step : s.next event = some t) :
    (op s event).Moves (s.batch.count .listen) (t.batch.count .listen) := by
  cases event with
  | wait batch =>
      simp only [Server.next, Option.ite_none_right_eq_some, Option.some.injEq] at step
      rcases step with ⟨⟨noBatch, -⟩, rfl⟩
      rw [noBatch]
      exact ⟨rfl, rfl⟩
  | accept connfd =>
      simp only [Server.next] at step
      split at step
      · rename_i batch reported
        have kept := accept_batch (Option.ite_none_left_eq_some.mp step).2
        rw [reported, kept]
        exact List.count_cons_self
      · contradiction
  | hangup =>
      simp only [Server.next] at step
      split at step
      · rename_i reported
        simp only [Option.ite_none_left_eq_some, Option.some.injEq] at step
        rcases step with ⟨-, rfl⟩
        rw [reported, closeConn_batch]
        exact (List.count_cons_of_ne Report.noConfusion).symm
      · contradiction
  | read answers =>
      simp only [Server.next] at step
      split at step
      · rename_i reported
        have kept := readUser_batch (Option.ite_none_left_eq_some.mp step).2
        rw [reported, kept]
        exact (List.count_cons_of_ne Report.noConfusion).symm
      · contradiction
  | post =>
      simp only [Server.next, Option.ite_none_right_eq_some, Option.some.injEq] at step
      rcases step with ⟨-, rfl⟩
      rfl
  | write answers =>
      simp only [Server.next] at step
      split at step
      · rename_i reported
        have kept := writeUser_batch (Option.ite_none_left_eq_some.mp step).2
        rw [reported, kept]
        exact (List.count_cons_of_ne Report.noConfusion).symm
      · contradiction
  | wake worker =>
      simp only [Server.next, Option.ite_none_right_eq_some, Option.some.injEq] at step
      rcases step with ⟨-, rfl⟩
      rfl
  | take worker =>
      simp only [Server.next, Option.ite_none_right_eq_some, Option.some.injEq] at step
      rcases step with ⟨-, rfl⟩
      unfold Server.takeRequest
      split <;> rfl
  | process worker fs =>
      simp only [Server.next] at step
      split at step
      · cases step
        rw [processUser_batch]
        rfl
      · contradiction
  | arm worker =>
      simp only [Server.next] at step
      split at step
      · rename_i request interest _
        cases step
        change ((s.modfd (s.users request).sockfd interest).batch.count .listen) = _
        rw [modfd_batch]
      · contradiction

/-- The main thread is blocked when it has handled the batch. -/
def loop : AcceptLoop Server ServerEvent where
  step := Server.next
  op := op
  reports s := s.batch.count .listen
  blocked s := decide (s.batch = []) && !s.posting
  moves := moves
  handled blocked := by
    simp only [Bool.and_eq_true, decide_eq_true_eq] at blocked
    rw [blocked.1]
    rfl

end Web

/-! ## `code_13_4.cpp` -/

namespace Chat

open NetPractice.ShmChat

/-- What an event means for the listening socket. -/
def op (_ : Server) : Event → ListenOp
  | .wait batch => .wait (batch.count .listen)
  | .accept answer => .accept answer.isSome
  | _ => .other

variable {s t : Server}

theorem onAccept_batch {answer : Option Accepted}
    (fresh : ∀ accepted ∈ answer, s.Fresh accepted) : (s.onAccept answer).batch = s.batch := by
  rcases Server.onAccept_spec fresh with ⟨accepted, pid, -, -, letIn⟩ | ⟨-, refused⟩
  · exact letIn.batch_eq
  · exact refused.batch_eq

theorem reap_batch (s : Server) (pid : Pid) : (s.reap pid).batch = s.batch := by
  unfold Server.reap
  dsimp only
  split <;> rfl

theorem onSignal_batch (s : Server) (rest : List Signal) (signal : Signal) :
    (s.onSignal rest signal).batch = s.batch := by
  cases signal with
  | chld | other => rfl
  | term | int =>
      unfold Server.onSignal
      dsimp only
      split <;> rfl

theorem onPipe_batch (s : Server) (sockfd : Fd) : (s.onPipe sockfd).batch = s.batch := by
  unfold Server.onPipe
  split
  · rfl
  · split
    · rfl
    · split <;> rfl

theorem relay_batch (s : Server) (sockfd : Fd) (child j : Nat) (sent : Bool) :
    (s.relay sockfd child j sent).batch = s.batch := by
  unfold Server.relay
  dsimp only
  split
  · rfl
  · split
    · split <;> rfl
    · rfl

theorem moves {event : Event} (step : s.next event = some t) :
    (op s event).Moves (s.batch.count .listen) (t.batch.count .listen) := by
  cases event with
  | wait batch =>
      simp only [Server.next, Option.ite_none_right_eq_some, Option.some.injEq] at step
      rcases step with ⟨⟨-, noBatch, -⟩, rfl⟩
      rw [noBatch]
      exact ⟨rfl, rfl⟩
  | accept answer =>
      rcases Server.next_accept step with ⟨batch, -, reported, fresh, rfl⟩
      rw [reported, onAccept_batch (s := { s with batch := batch }) fresh]
      exact List.count_cons_self
  | signals received =>
      simp only [Server.next] at step
      split at step
      · rename_i reported
        cases step
        rw [reported]
        exact (List.count_cons_of_ne Source.noConfusion).symm
      · contradiction
  | signal =>
      simp only [Server.next] at step
      split at step
      · cases step
        rfl
      · cases step
        rw [onSignal_batch]
        rfl
      · contradiction
  | waitpid pid =>
      simp only [Server.next] at step
      split at step
      · split at step
        · cases step
          rfl
        · simp only [Option.ite_none_right_eq_some, Option.some.injEq] at step
          rcases step with ⟨-, rfl⟩
          rw [reap_batch]
          rfl
      · contradiction
  | pipe =>
      simp only [Server.next] at step
      split at step
      · rename_i reported
        cases step
        rw [reported, onPipe_batch]
        exact (List.count_cons_of_ne Source.noConfusion).symm
      · contradiction
  | relay sent =>
      simp only [Server.next] at step
      split at step
      · split at step
        · cases step
          rw [relay_batch]
          rfl
        · cases step
          rfl
      · contradiction
  | arrive pid =>
      rcases Option.map_eq_some_iff.mp step with ⟨c, -, rfl⟩
      rfl
  | child pid childStep =>
      rcases Option.bind_eq_some_iff.mp step with ⟨c, -, taken⟩
      rcases Option.map_eq_some_iff.mp taken with ⟨after, -, rfl⟩
      rfl

/-- The server as an accept loop. -/
def loop : AcceptLoop Server Event where
  step := Server.next
  op := op
  reports s := s.batch.count .listen
  blocked s := decide (s.task = .loop) && decide (s.batch = []) && !s.stopServer
  moves := moves
  handled blocked := by
    simp only [Bool.and_eq_true, decide_eq_true_eq] at blocked
    rw [blocked.1.2]
    rfl

end Chat

/-! ## `code_11_3.cpp` -/

namespace Idle

open NetPractice.IdleServer

/-- The reports about the listening socket. -/
def listens (listenfd : Nat) (reports : List Report) : Nat :=
  reports.countP fun report => report.sockfd = listenfd

/-- The result of `accept` is not tested, and a failing call has no step. -/
def op (s : Server) : Event → ListenOp
  | .wait reports => .wait (listens s.listenfd reports)
  | .accept .. => .accept true
  | _ => .other

variable {s t : Server}

/-- The reports that are left in the batch. -/
def left (s : Server) : Nat :=
  listens s.listenfd (s.pending.getD [])

theorem left_of_frame (frame : Server.Frame s t) : left t = left s := by
  unfold left
  rw [frame.listenfd_eq, frame.pending_eq]

theorem listens_cons (listenfd : Nat) (report : Report) (reports : List Report) :
    listens listenfd (report :: reports) =
      listens listenfd reports + if report.sockfd = listenfd then 1 else 0 := by
  unfold listens
  rw [List.countP_cons]
  simp only [decide_eq_true_eq]

/-- The batch behind a report whose branch is not that of the listening socket. -/
theorem left_of_branch {report : Report} {rest : List Report} {branch : Branch}
    (pending : s.pending = some (report :: rest)) (taken : s.branch report = branch)
    (notAccept : branch ≠ .accept) : left s = listens s.listenfd rest := by
  have other : report.sockfd ≠ s.listenfd := by
    intro same
    unfold Server.branch at taken
    rw [if_pos same] at taken
    exact notAccept taken.symm
  unfold left
  rw [pending, Option.getD_some, listens_cons, if_neg other, Nat.add_zero]

theorem moves {event : Event} (step : s.next event = some t) :
    (op s event).Moves (left s) (left t) := by
  cases event with
  | wait reports =>
      simp only [Server.next, Option.ite_none_right_eq_some, Option.some.injEq] at step
      rcases step with ⟨⟨waits, -⟩, rfl⟩
      constructor
      · unfold left
        rw [waits]
        rfl
      · rfl
  | accept connfd timer now =>
      rcases Server.next_accept step with ⟨report, rest, pending, taken, accepted⟩
      have listenfd : report.sockfd = s.listenfd := by
        unfold Server.branch at taken
        split at taken
        · assumption
        · split at taken
          · cases taken
          · split at taken <;> cases taken
      rw [left_of_frame (Server.accept_frame accepted)]
      unfold left
      rw [pending, Option.getD_some, listens_cons, if_pos listenfd]
      rfl
  | signals received =>
      rcases Server.next_signals step with ⟨report, rest, pending, taken, caught⟩
      cases caught
      exact (left_of_branch pending taken Branch.noConfusion).symm
  | recv ret again now =>
      rcases Server.next_recv step with ⟨report, rest, pending, taken, received⟩
      rw [left_of_frame (Server.receive_frame received).toFrame]
      exact (left_of_branch pending taken Branch.noConfusion).symm
  | other =>
      rcases Server.next_other step with ⟨report, rest, pending, taken, skipped⟩
      cases skipped
      exact (left_of_branch pending taken Branch.noConfusion).symm
  | tick now =>
      rcases Server.next_tick step with ⟨handled, ticked⟩
      rw [left_of_frame (Server.timerHandler_frame ticked).toFrame]
      unfold left
      rw [handled]
      rfl

/-- The server as an accept loop. -/
def loop : AcceptLoop Server Event where
  step := Server.next
  op := op
  reports := left
  blocked s := decide (s.pending = none) && !s.stopServer
  moves := moves
  handled blocked := by
    simp only [Bool.and_eq_true, decide_eq_true_eq] at blocked
    unfold left
    rw [blocked.1]
    rfl

end Idle

/-! ## The queue in front of a blocked server -/

/-- The servers with an edge-triggered listening socket. -/
inductive Program where
  | webServer | chatServer | idleServer
  deriving DecidableEq, Repr

namespace Program

/-- The states of each of the three servers. -/
def State : Program → Type
  | .webServer => Http.Server
  | .chatServer => ShmChat.Server
  | .idleServer => IdleServer.Server

/-- The events of each of the three servers. -/
def Input : Program → Type
  | .webServer => Http.ServerEvent
  | .chatServer => ShmChat.Event
  | .idleServer => IdleServer.Event

/-- Each of the three servers as an accept loop. -/
def loop : (program : Program) → AcceptLoop program.State program.Input
  | .webServer => Web.loop
  | .chatServer => Chat.loop
  | .idleServer => Idle.loop

/-- The states in front of the event loop. -/
def Starts : (program : Program) → program.State → Prop
  | .webServer, s => ∃ users threadNumber maxRequests,
      s = Http.Server.start users threadNumber maxRequests
  | .chatServer, s => ∃ users, s = ShmChat.Server.initial users
  | .idleServer, s => ∃ listenfd pipefd now, s = IdleServer.Server.start listenfd pipefd now

theorem Starts.reports {program : Program} {start : program.State}
    (starts : program.Starts start) : program.loop.reports start = 0 := by
  cases program with
  | webServer =>
      rcases starts with ⟨users, threadNumber, maxRequests, rfl⟩
      rfl
  | chatServer =>
      rcases starts with ⟨users, rfl⟩
      rfl
  | idleServer =>
      rcases starts with ⟨listenfd, pipefd, now, rfl⟩
      rfl

end Program

/-- When one of the servers blocks in `epoll_wait` and no event is pending on its
listening socket, every completed connection has been accepted exactly if each one
completed behind the report of those before it, and no `accept` has failed. -/
theorem backlog_empty_iff_oneByOne {program : Program} {start : program.State}
    (starts : program.Starts start) {events : List (Arrival program.Input)}
    {world : Listening program.State}
    (finished : run program.loop.next ⟨start, .empty⟩ events = some world)
    (blocked : program.loop.blocked world.program = true)
    (noEvent : world.backlog.edge = false) :
    world.backlog.queue = 0 ↔
      Meets program.loop.next program.loop.OneByOne ⟨start, .empty⟩ events :=
  AcceptLoop.queue_eq_zero_iff starts.reports finished blocked noEvent

/-- A second connection completes while the first one is accepted. -/
def oneByOneRun : List (Arrival ShmChat.Event) :=
  [.arrive, .step (.wait [.listen]), .arrive, .step (.accept (some ⟨7, (8, 9), some 100⟩)),
    .step (.wait [.listen]), .step (.accept (some ⟨7, (9, 10), some 101⟩))]

theorem backlog_empty_oneByOneRun :
    ∃ world, run Program.chatServer.loop.next ⟨ShmChat.Server.initial ShmChat.noUsers, .empty⟩
      oneByOneRun = some world ∧ world.backlog.queue = 0 := by
  have outcome : (run Program.chatServer.loop.next
      ⟨ShmChat.Server.initial ShmChat.noUsers, .empty⟩ oneByOneRun).map (fun world =>
        (Program.chatServer.loop.blocked world.program, world.backlog.edge)) =
      some (true, false) := by
    decide +kernel
  rcases Option.map_eq_some_iff.mp outcome with ⟨world, finished, values⟩
  rw [Prod.mk.injEq] at values
  have starts : Program.chatServer.Starts (ShmChat.Server.initial ShmChat.noUsers) := ⟨_, rfl⟩
  have meets : Meets Chat.loop.next Chat.loop.OneByOne
      ⟨ShmChat.Server.initial ShmChat.noUsers, .empty⟩ oneByOneRun := by
    decide +kernel
  exact ⟨world, finished,
    (backlog_empty_iff_oneByOne starts finished values.1 values.2).mpr meets⟩

/-- Two connections complete in front of a report, and one of them stays in the queue
of each of the servers, which block without an event. -/
theorem twoArrivals_left :
    (run Web.loop.next ⟨Http.Server.start (fun _ => Http.zeroConn) 1 1, .empty⟩
        [.arrive, .arrive, .step (.wait [.listen]), .step (.accept 5)]).map (fun world =>
      (Web.loop.blocked world.program, world.backlog)) = some (true, ⟨1, false⟩) ∧
    (run Chat.loop.next ⟨ShmChat.Server.initial ShmChat.noUsers, .empty⟩
        [.arrive, .arrive, .step (.wait [.listen]),
          .step (.accept (some ⟨7, (8, 9), some 100⟩))]).map (fun world =>
      (Chat.loop.blocked world.program, world.backlog)) = some (true, ⟨1, false⟩) ∧
    (run Idle.loop.next ⟨IdleServer.Server.start 3 4 1000, .empty⟩
        [.arrive, .arrive, .step (.wait [⟨3, true⟩]), .step (.accept 5 0 1000),
          .step (.tick 1000)]).map (fun world =>
      (Idle.loop.blocked world.program, world.backlog)) = some (true, ⟨1, false⟩) := by
  refine ⟨?_, ?_, ?_⟩ <;> decide +kernel

end NetPractice.EdgeTriggered
