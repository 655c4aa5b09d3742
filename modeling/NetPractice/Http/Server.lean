import NetPractice.Http.Response

/-!
# The server: event loop, request queue and workers

This module embeds `web_server.cpp`, `threadpool.h` and the callers of
`process_read`, `process_write` and `write`.  The main thread and the workers
take steps in any order; a step is a part of a thread's code that touches
nothing that another thread touches meanwhile, and it carries what the system
calls in it answer.

The kernel's side is a part of the state: the accepted descriptors, the armed
one-shot registrations, and the file mappings.
-/

namespace NetPractice.Http

open NetPractice.Text
open NetPractice.Socket

/-- The number of objects in `users`. -/
def MAX_FD : Nat := 65536

/-- The most events that one `epoll_wait` returns. -/
def MAX_EVENT_NUMBER : Nat := 10000

/-- The arguments that `main` leaves to the constructor of `threadpool`. -/
def THREAD_NUMBER : Nat := 8

/-- `m_max_requests`. -/
def MAX_REQUESTS : Nat := 10000

/-- An element of `events`: the listening socket, or a connection with whether
`EPOLLRDHUP`, `EPOLLHUP` or `EPOLLERR` is set, and the awaited event if it is
set. -/
inductive Report where
  | listen
  | client (sockfd : Fd) (hangup : Bool) (ready : Option EpollEvent)
  deriving DecidableEq, Repr

/-- The connection that a report is about. -/
def Report.sockfd : Report → Option Fd
  | .listen => none
  | .client sockfd _ _ => some sockfd

/-- A worker thread in `run`: in front of `wait`, behind it, behind the removal
of a request from the queue, and in front of the `modfd` that ends `process`. -/
inductive Worker where
  | idle
  | woken
  | holding (request : Fd)
  | arming (request : Fd) (event : EpollEvent)
  deriving DecidableEq, Repr

/-- The server.  `m_workqueue` holds the descriptors that index `users`.
`posting` is set while the main thread is between its two steps in `append`.
`mapped` has all results of `mmap`, `unmapped` all calls of `munmap`, and
`mappings` what is mapped, with the connection that it was mapped for. -/
structure Server where
  users : Fd → HttpConn
  userCount : Int
  batch : List Report
  posting : Bool
  workqueue : List Fd
  maxRequests : Nat
  queuestat : Nat
  workers : List Worker
  opened : Fd → Bool
  interest : Fd → Option EpollEvent
  mapped : List Munmap
  unmapped : List Munmap
  mappings : List (Fd × Munmap)

/-- What happens next: a step of the main thread, or of a worker. -/
inductive ServerEvent where
  | wait (batch : List Report)
  | accept (connfd : Fd)
  | hangup
  | read (answers : List Recv)
  | post
  | write (answers : List Send)
  | wake (worker : Nat)
  | take (worker : Nat)
  | process (worker : Nat) (fs : FileSystem)
  | arm (worker : Nat)

namespace Server

/-- The state in front of the loop of `main`; `users` is what `new` finds in
memory. -/
def start (users : Fd → HttpConn) (threadNumber maxRequests : Nat) : Server where
  users := users
  userCount := 0
  batch := []
  posting := false
  workqueue := []
  maxRequests := maxRequests
  queuestat := 0
  workers := List.replicate threadNumber .idle
  opened := fun _ => false
  interest := fun _ => none
  mapped := []
  unmapped := []
  mappings := []

/-! ## Registrations and connections -/

/-- `modfd`, which fails for a descriptor that is not open. -/
def modfd (s : Server) (sockfd : Fd) (event : EpollEvent) : Server :=
  if s.opened sockfd then { s with interest := Function.update s.interest sockfd (some event) }
  else s

/-- The call of `modfd` in `write`, if there is one. -/
def rearm (s : Server) (sockfd : Fd) : Option EpollEvent → Server
  | none => s
  | some event => s.modfd sockfd event

/-- One object of `users` is set, and the others stay. -/
def setUser (s : Server) (request : Fd) (c : HttpConn) : Server :=
  { s with users := Function.update s.users request c }

/-- `users[request].close_conn()`. -/
def closeConn (s : Server) (request : Fd) : Server :=
  let c := s.users request
  if c.sockfd ≠ -1 then
    { s with
      interest := Function.update s.interest c.sockfd none
      opened := Function.update s.opened c.sockfd false
      users := Function.update s.users request { c with sockfd := -1 }
      userCount := s.userCount - 1 }
  else s

/-- `users[connfd].init(connfd, client_address)`. -/
def initConn (s : Server) (connfd : Fd) : Server :=
  { s with
    interest := Function.update s.interest connfd (some .epollin)
    opened := Function.update s.opened connfd true
    users := Function.update s.users connfd ((s.users connfd).initSocket connfd)
    userCount := s.userCount + 1 }

/-! ## Mappings -/

/-- The mapping that `do_request` has made for a request. -/
def recordMap (s : Server) (request : Fd) (code : HttpCode) (c : HttpConn) : Server :=
  if code = .fileRequest ∧ c.fileAddress ≠ MAP_FAILED then
    { s with
      mapped := ⟨c.fileAddress, c.fileStat.size⟩ :: s.mapped
      mappings := (request, ⟨c.fileAddress, c.fileStat.size⟩) :: s.mappings }
  else s

/-- The kernel's part of a `munmap`. -/
def recordUnmap (s : Server) (request : Fd) : Option Munmap → Server
  | none => s
  | some munmap =>
      { s with
        unmapped := munmap :: s.unmapped
        mappings := s.mappings.erase (request, munmap) }

/-! ## The main thread -/

/-- A report about a connection that the instance waits for. -/
def Awaited (s : Server) : Report → Prop
  | .listen => True
  | .client sockfd hangup ready =>
      (s.interest sockfd).isSome ∧ (ready.isSome → s.interest sockfd = ready) ∧
        (hangup = true ∨ ready.isSome)

instance (s : Server) : DecidablePred s.Awaited
  | .listen => isTrue trivial
  | .client _ _ _ => inferInstanceAs (Decidable (_ ∧ _ ∧ _))

/-- The results of `epoll_wait`: at most one report about a descriptor. -/
def Reports (s : Server) (batch : List Report) : Prop :=
  (∀ report ∈ batch, s.Awaited report) ∧ (batch.map Report.sockfd).Nodup ∧
    batch.length ≤ MAX_EVENT_NUMBER

instance (s : Server) (batch : List Report) : Decidable (s.Reports batch) :=
  inferInstanceAs (Decidable (_ ∧ _ ∧ _))

/-- `epoll_wait` disarms the one-shot registrations that it reports. -/
def reported (s : Server) (batch : List Report) : Server :=
  { s with
    batch := batch
    interest := fun sockfd =>
      if some sockfd ∈ batch.map Report.sockfd then none else s.interest sockfd }

/-- The branch of the listening socket; `connfd` is the result of `accept`, which is not
open.  `show_error` closes it again; a descriptor that does not index `users` has no step
behind the check of `m_user_count`. -/
def accept (s : Server) (connfd : Fd) : Option Server :=
  if connfd < 0 then some s
  else if s.opened connfd then none
  else if s.userCount ≥ MAX_FD then some s
  else if connfd ≥ MAX_FD then none
  else some (s.initConn connfd)

/-- `pool->append(users + request)`, up to the call of `post`.  The result is
ignored. -/
def append (s : Server) (request : Fd) : Server :=
  if s.workqueue.length > s.maxRequests then s
  else { s with workqueue := s.workqueue ++ [request], posting := true }

/-- The branch of `EPOLLIN`. -/
def readUser (s : Server) (request : Fd) (answers : List Recv) : Option Server :=
  ((s.users request).read answers).map fun (more, c) =>
    if more then (s.setUser request c).append request
    else (s.setUser request c).closeConn request

/-- The branch of `EPOLLOUT`. -/
def writeUser (s : Server) (request : Fd) (answers : List Send) : Option Server :=
  ((s.users request).write answers).map fun written =>
    let s := (s.setUser request written.conn).recordUnmap request written.munmap
    let s := s.rearm written.conn.sockfd written.interest
    if written.result then s else s.closeConn request

/-! ## The workers -/

/-- One worker is set, and the others stay. -/
def setWorker (s : Server) (worker : Nat) (state : Worker) : Server :=
  { s with workers := s.workers.set worker state }

/-- The removal of a request from the queue. -/
def takeRequest (s : Server) (worker : Nat) : Server :=
  match s.workqueue with
  | [] => s.setWorker worker .idle
  | request :: workqueue => { s with workqueue := workqueue }.setWorker worker (.holding request)

/-- `process()`, up to its last call of `modfd`. -/
def processUser (s : Server) (worker : Nat) (request : Fd) (fs : FileSystem) : Server :=
  let (readRet, c) := (s.users request).processRead fs
  let s := s.recordMap request readRet c
  if readRet = .noRequest then (s.setUser request c).setWorker worker (.arming request .epollin)
  else
    let (writeRet, c) := c.processWrite readRet
    let s := s.setUser request c
    let s := if writeRet then s else s.closeConn request
    s.setWorker worker (.arming request .epollout)

/-! ## Steps -/

/-- The next step of the main thread, of a worker, or of the kernel. -/
def next (s : Server) : ServerEvent → Option Server
  | .wait batch =>
      if s.batch = [] ∧ s.posting = false ∧ s.Reports batch then some (s.reported batch) else none
  | .accept connfd =>
      match s.batch with
      | .listen :: batch => if s.posting then none else { s with batch := batch }.accept connfd
      | _ => none
  | .hangup =>
      match s.batch with
      | .client sockfd true _ :: batch =>
          if s.posting then none else some ({ s with batch := batch }.closeConn sockfd)
      | _ => none
  | .read answers =>
      match s.batch with
      | .client sockfd false (some .epollin) :: batch =>
          if s.posting then none else { s with batch := batch }.readUser sockfd answers
      | _ => none
  | .post =>
      if s.posting then some { s with posting := false, queuestat := s.queuestat + 1 } else none
  | .write answers =>
      match s.batch with
      | .client sockfd false (some .epollout) :: batch =>
          if s.posting then none else { s with batch := batch }.writeUser sockfd answers
      | _ => none
  | .wake worker =>
      if s.workers[worker]? = some .idle ∧ 0 < s.queuestat then
        some ({ s with queuestat := s.queuestat - 1 }.setWorker worker .woken)
      else none
  | .take worker =>
      if s.workers[worker]? = some .woken then some (s.takeRequest worker) else none
  | .process worker fs =>
      match s.workers[worker]? with
      | some (.holding request) => some (s.processUser worker request fs)
      | _ => none
  | .arm worker =>
      match s.workers[worker]? with
      | some (.arming request event) =>
          some ((s.modfd (s.users request).sockfd event).setWorker worker .idle)
      | _ => none

end Server

end NetPractice.Http
