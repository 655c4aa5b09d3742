import NetPractice.Http.Server
import NetPractice.Http.Calls
import NetPractice.Transition.Core
import Mathlib.Data.List.Basic

/-!
# The places of connections

An open connection is armed in `epoll`, reported in the batch, queued, or held by
a worker.  `Life` says what a step does to one connection; the invariants of the
server follow from it.
-/

namespace NetPractice.Http

open NetPractice.Text
open NetPractice.Socket
open NetPractice.Transition

/-! ## Places -/

/-- Where a connection is, with the event that it waits for or has had. -/
inductive Place where
  | armed (event : EpollEvent)
  | batch (ready : Option EpollEvent)
  | queue
  | worker (event : EpollEvent)
  deriving DecidableEq, Repr

/-- The event that a connection in a place is ready for, or will be. -/
def Place.event : Place → Option EpollEvent
  | .armed event | .worker event => some event
  | .batch ready => ready
  | .queue => some .epollin

/-- The place of a connection that a report is about. -/
def Report.place (fd : Fd) : Report → Option Place
  | .listen => none
  | .client sockfd _ ready => if sockfd = fd then some (.batch ready) else none

/-- The place of a connection that a worker has. -/
def Worker.place (fd : Fd) : Worker → Option Place
  | .idle | .woken => none
  | .holding request => if request = fd then some (.worker .epollin) else none
  | .arming request event => if request = fd then some (.worker event) else none

namespace Server

/-- All places of a connection. -/
def places (s : Server) (fd : Fd) : List Place :=
  ((s.interest fd).map .armed).toList ++ s.batch.filterMap (Report.place fd) ++
    (s.workqueue.filter (· = fd)).map (fun _ => .queue) ++ s.workers.filterMap (Worker.place fd)

/-- The posts of the semaphore that no worker has used up, with the one that the
main thread is about to make. -/
def posts (s : Server) : Nat :=
  s.queuestat + s.workers.count .woken + if s.posting then 1 else 0

/-- Whether the step reads a request from the reported connection. -/
def receives (s : Server) (answers : List Recv) : Bool :=
  match s.batch with
  | .client sockfd false (some .epollin) :: _ =>
      (((s.users sockfd).read answers).map Prod.fst).getD false
  | _ => false

/-- The invariant of all runs. -/
structure Placed (s : Server) : Prop where
  single : ∀ fd, (s.places fd).length ≤ 1
  opened : ∀ fd, s.places fd ≠ [] → s.opened fd = true
  sockfd : ∀ fd, s.opened fd = true → (s.users fd).sockfd = fd ∧ 0 ≤ fd
  empty : ∀ fd, ∀ place ∈ s.places fd, place.event = some .epollin → (s.users fd).writeBuf = []
  posted : s.workqueue.length = s.posts

/-- The mappings of a connection. -/
def mapsOf (s : Server) (fd : Fd) : List (Fd × Munmap) :=
  s.mappings.filter fun entry => entry.1 = fd

/-- What a step does to one connection. -/
inductive Life (s : Server) (event : ServerEvent) (t : Server) (fd : Fd) : Prop where
  | same (opened : t.opened fd = s.opened fd) (user : t.users fd = s.users fd)
      (places : t.places fd = s.places fd) (maps : t.mapsOf fd = s.mapsOf fd)
  | moved {old new : Place} (opened : t.opened fd = s.opened fd) (user : t.users fd = s.users fd)
      (before : s.places fd = [old]) (after : t.places fd = [new])
      (awaited : ∀ event, new.event = some event → old.event = some event)
      (maps : t.mapsOf fd = s.mapsOf fd)
  | accepted (closed : s.opened fd = false) (opened : t.opened fd = true) (nonneg : 0 ≤ fd)
      (user : t.users fd = (s.users fd).initSocket fd) (after : t.places fd = [.armed .epollin])
      (maps : t.mapsOf fd = s.mapsOf fd)
  | hungUp {batch : List Report} {ready : Option EpollEvent} (step : event = .hangup)
      (reported : s.batch = .client fd true ready :: batch) (closed : t.opened fd = false)
      (user : t.users fd = { s.users fd with sockfd := -1 }) (after : t.places fd = [])
      (maps : t.mapsOf fd = s.mapsOf fd)
  | received {answers : List Recv} {c : HttpConn} (opened : t.opened fd = s.opened fd)
      (before : s.places fd = [.batch (some .epollin)])
      (read : (s.users fd).read answers = some (true, c)) (user : t.users fd = c)
      (after : t.places fd = [.queue]) (maps : t.mapsOf fd = s.mapsOf fd)
  | refused {answers : List Recv} {c : HttpConn} (step : event = .read answers)
      (receives : s.receives answers = true) (full : s.maxRequests < s.workqueue.length)
      (opened : t.opened fd = s.opened fd) (before : s.places fd = [.batch (some .epollin)])
      (read : (s.users fd).read answers = some (true, c)) (user : t.users fd = c)
      (after : t.places fd = []) (maps : t.mapsOf fd = s.mapsOf fd)
  | readFailed {answers : List Recv} {c : HttpConn} (closed : t.opened fd = false)
      (before : s.places fd = [.batch (some .epollin)])
      (read : (s.users fd).read answers = some (false, c))
      (user : t.users fd = { c with sockfd := -1 }) (after : t.places fd = [])
      (maps : t.mapsOf fd = s.mapsOf fd)
  | waits {worker : Nat} {fs : FileSystem} {c : HttpConn} (step : event = .process worker fs)
      (running : s.workers[worker]? = some (.holding fd)) (opened : t.opened fd = s.opened fd)
      (before : s.places fd = [.worker .epollin])
      (parsed : (s.users fd).processRead fs = (.noRequest, c)) (user : t.users fd = c)
      (after : t.places fd = [.worker .epollin]) (maps : t.mapsOf fd = s.mapsOf fd)
  | answered {worker : Nat} {fs : FileSystem} {code : HttpCode} {c d : HttpConn}
      (step : event = .process worker fs) (running : s.workers[worker]? = some (.holding fd))
      (opened : t.opened fd = s.opened fd) (before : s.places fd = [.worker .epollin])
      (parsed : (s.users fd).processRead fs = (code, c)) (hasResult : code ≠ .noRequest)
      (filled : c.processWrite code = (true, d)) (user : t.users fd = d)
      (after : t.places fd = [.worker .epollout])
      (maps : t.mapsOf fd = (s.recordMap fd code c).mapsOf fd)
  | written {answers : List Send} {batch : List Report} {written : Written} {interest : EpollEvent}
      (step : event = .write answers)
      (reported : s.batch = .client fd false (some .epollout) :: batch)
      (opened : t.opened fd = s.opened fd) (before : s.places fd = [.batch (some .epollout)])
      (write : (s.users fd).write answers = some written) (result : written.result = true)
      (interest_eq : written.interest = some interest) (user : t.users fd = written.conn)
      (after : t.places fd = [.armed interest])
      (maps : t.mapsOf fd = (s.recordUnmap fd written.munmap).mapsOf fd)
  | writeClosed {answers : List Send} {batch : List Report} {written : Written}
      (step : event = .write answers)
      (reported : s.batch = .client fd false (some .epollout) :: batch)
      (closed : t.opened fd = false)
      (before : s.places fd = [.batch (some .epollout)])
      (write : (s.users fd).write answers = some written) (result : written.result = false)
      (user : t.users fd = { written.conn with sockfd := -1 }) (after : t.places fd = [])
      (maps : t.mapsOf fd = (s.recordUnmap fd written.munmap).mapsOf fd)

/-! ## How the operations move a connection -/

section Places

variable {s t : Server} {fd other : Fd}

theorem places_eq_nil_iff : s.places fd = [] ↔
    s.interest fd = none ∧ s.batch.filterMap (Report.place fd) = [] ∧
      s.workqueue.filter (· = fd) = [] ∧ s.workers.filterMap (Worker.place fd) = [] := by
  unfold places
  simp only [List.append_eq_nil_iff, List.map_eq_nil_iff, Option.toList_eq_nil_iff,
    Option.map_eq_none_iff, and_assoc]

theorem modfd_places (opened : s.opened fd = true) (vacant : s.places fd = [])
    (event : EpollEvent) : (s.modfd fd event).places fd = [.armed event] := by
  obtain ⟨-, noBatch, noQueue, noWorker⟩ := places_eq_nil_iff.mp vacant
  unfold modfd
  rw [if_pos opened]
  simp [places, noBatch, noQueue, noWorker]

theorem modfd_places_ne (ne : other ≠ fd) (event : EpollEvent) :
    (s.modfd fd event).places other = s.places other := by
  unfold modfd
  split
  · simp [places, Function.update_of_ne ne]
  · rfl

theorem append_places (room : s.workqueue.length ≤ s.maxRequests) (vacant : s.places fd = []) :
    (s.append fd).places fd = [.queue] := by
  obtain ⟨noInterest, noBatch, noQueue, noWorker⟩ := places_eq_nil_iff.mp vacant
  unfold append
  rw [if_neg (by omega)]
  simp [places, noInterest, noBatch, noQueue, noWorker]

theorem append_places_ne (ne : other ≠ fd) : (s.append fd).places other = s.places other := by
  unfold append
  split
  · rfl
  · simp [places, ne.symm]

/-- `close_conn` of a connection that is open. -/
theorem closeConn_eq (sockfd : (s.users fd).sockfd = fd) (nonneg : 0 ≤ fd) :
    s.closeConn fd = { s with
      interest := Function.update s.interest fd none
      opened := Function.update s.opened fd false
      users := Function.update s.users fd { s.users fd with sockfd := -1 }
      userCount := s.userCount - 1 } := by
  have valid : (s.users fd).sockfd ≠ -1 := by
    rw [sockfd]
    exact (lt_of_lt_of_le (by decide) nonneg).ne'
  unfold closeConn
  rw [if_pos valid, sockfd]

theorem closeConn_places (sockfd : (s.users fd).sockfd = fd) (nonneg : 0 ≤ fd)
    (vacant : s.places fd = []) : (s.closeConn fd).places fd = [] := by
  obtain ⟨-, noBatch, noQueue, noWorker⟩ := places_eq_nil_iff.mp vacant
  rw [closeConn_eq sockfd nonneg]
  exact places_eq_nil_iff.mpr ⟨Function.update_self _ _ _, noBatch, noQueue, noWorker⟩

theorem closeConn_places_ne (sockfd : (s.users fd).sockfd = fd) (nonneg : 0 ≤ fd)
    (ne : other ≠ fd) : (s.closeConn fd).places other = s.places other := by
  rw [closeConn_eq sockfd nonneg]
  simp [places, Function.update_of_ne ne]

theorem closeConn_maps (s : Server) (fd other : Fd) :
    (s.closeConn fd).mapsOf other = s.mapsOf other := by
  unfold closeConn
  dsimp only
  split <;> rfl

theorem modfd_maps (s : Server) (fd other : Fd) (event : EpollEvent) :
    (s.modfd fd event).mapsOf other = s.mapsOf other := by
  unfold modfd
  split <;> rfl

theorem append_maps (s : Server) (fd other : Fd) :
    (s.append fd).mapsOf other = s.mapsOf other := by
  unfold append
  split <;> rfl

theorem recordMap_maps_ne {code : HttpCode} {c : HttpConn} (ne : other ≠ fd) :
    (s.recordMap fd code c).mapsOf other = s.mapsOf other := by
  unfold recordMap mapsOf
  split
  · exact List.filter_cons_of_neg (by simpa using ne.symm)
  · rfl

theorem recordUnmap_maps_ne (munmap : Option Munmap) (ne : other ≠ fd) :
    (s.recordUnmap fd munmap).mapsOf other = s.mapsOf other := by
  cases munmap with
  | none => rfl
  | some munmap =>
      change (s.mappings.erase (fd, munmap)).filter _ = s.mappings.filter _
      rw [← List.erase_filter, List.erase_of_not_mem]
      exact fun mem => ne (of_decide_eq_true (List.mem_filter.mp mem).2).symm

theorem initConn_places (vacant : s.places fd = []) :
    (s.initConn fd).places fd = [.armed .epollin] := by
  obtain ⟨-, noBatch, noQueue, noWorker⟩ := places_eq_nil_iff.mp vacant
  simp [initConn, places, noBatch, noQueue, noWorker]

theorem initConn_places_ne (ne : other ≠ fd) : (s.initConn fd).places other = s.places other := by
  simp [initConn, places, Function.update_of_ne ne]

/-- A connection is refused, or it is new and gets the object of its descriptor. -/
theorem accept_spec {connfd : Fd} (step : s.accept connfd = some t) :
    (t = s ∧ (connfd < 0 ∨ s.opened connfd = false ∧ MAX_FD ≤ s.userCount)) ∨
    (0 ≤ connfd ∧ connfd < MAX_FD ∧ s.userCount < MAX_FD ∧ s.opened connfd = false ∧
      t = s.initConn connfd) := by
  unfold accept at step
  split at step
  · rename_i failed
    exact Or.inl ⟨(Option.some.inj step).symm, Or.inl failed⟩
  · rename_i nonneg
    split at step
    · contradiction
    · rename_i closed
      rw [Bool.not_eq_true] at closed
      split at step
      · rename_i full
        exact Or.inl ⟨(Option.some.inj step).symm, Or.inr ⟨closed, full⟩⟩
      · rename_i room
        split at step
        · contradiction
        · rename_i inside
          exact Or.inr ⟨not_lt.mp nonneg, not_le.mp inside, not_le.mp room, closed,
            (Option.some.inj step).symm⟩

/-- The place of a report is given up when the report is handled. -/
theorem handled_places {report : Report} {batch : List Report}
    (reported : s.batch = report :: batch) (fd : Fd) :
    ∃ before after, s.places fd = before ++ (report.place fd).toList ++ after ∧
      { s with batch := batch }.places fd = before ++ after := by
  refine ⟨((s.interest fd).map .armed).toList, batch.filterMap (Report.place fd) ++
    (s.workqueue.filter (· = fd)).map (fun _ => .queue) ++
      s.workers.filterMap (Worker.place fd), ?_, ?_⟩
  · have head : s.batch.filterMap (Report.place fd) =
        (report.place fd).toList ++ batch.filterMap (Report.place fd) := by
      rw [reported, List.filterMap_cons]
      cases report.place fd <;> rfl
    simp [places, head]
  · simp [places]

theorem dequeued_places {request : Fd} {workqueue : List Fd}
    (queued : s.workqueue = request :: workqueue) (fd : Fd) :
    ∃ before after, s.places fd = before ++ (if request = fd then [.queue] else []) ++ after ∧
      { s with workqueue := workqueue }.places fd = before ++ after := by
  refine ⟨((s.interest fd).map .armed).toList ++ s.batch.filterMap (Report.place fd),
    (workqueue.filter (· = fd)).map (fun _ => .queue) ++ s.workers.filterMap (Worker.place fd),
    ?_, ?_⟩
  · by_cases equal : request = fd <;> simp [places, queued, equal]
  · simp [places]

/-- A worker takes its place with it. -/
theorem setWorker_places {worker : Nat} {old : Worker} (running : s.workers[worker]? = some old)
    (fd : Fd) :
    ∃ before after, s.places fd = before ++ (old.place fd).toList ++ after ∧
      ∀ new : Worker, (s.setWorker worker new).places fd =
        before ++ (new.place fd).toList ++ after := by
  obtain ⟨lt, old_eq⟩ := List.getElem?_eq_some_iff.mp running
  refine ⟨((s.interest fd).map .armed).toList ++ s.batch.filterMap (Report.place fd) ++
    (s.workqueue.filter (· = fd)).map (fun _ => .queue) ++
      (s.workers.take worker).filterMap (Worker.place fd),
    (s.workers.drop (worker + 1)).filterMap (Worker.place fd), ?_, fun new => ?_⟩
  · have workers_eq : s.workers = s.workers.take worker ++ old :: s.workers.drop (worker + 1) := by
      rw [← old_eq, ← List.drop_eq_getElem_cons lt, List.take_append_drop]
    have place_eq : s.workers.filterMap (Worker.place fd) =
        (s.workers.take worker).filterMap (Worker.place fd) ++ ((old.place fd).toList ++
          (s.workers.drop (worker + 1)).filterMap (Worker.place fd)) := by
      conv_lhs => rw [workers_eq, List.filterMap_append, List.filterMap_cons]
      cases old.place fd <;> rfl
    simp only [places, place_eq, List.append_assoc]
  · have place_eq : (s.workers.set worker new).filterMap (Worker.place fd) =
        (s.workers.take worker).filterMap (Worker.place fd) ++ ((new.place fd).toList ++
          (s.workers.drop (worker + 1)).filterMap (Worker.place fd)) := by
      rw [List.set_eq_take_append_cons_drop, if_pos lt, List.filterMap_append,
        List.filterMap_cons]
      cases new.place fd <;> rfl
    simp only [places, setWorker, place_eq, List.append_assoc]

theorem modfd_setWorker (s : Server) (worker : Nat) (state : Worker) (event : EpollEvent) :
    (s.modfd fd event).setWorker worker state = (s.setWorker worker state).modfd fd event := by
  unfold modfd
  by_cases opened : s.opened fd = true
  · rw [if_pos opened, if_pos (show (s.setWorker worker state).opened fd = true from opened)]
    rfl
  · rw [if_neg opened, if_neg (show ¬ (s.setWorker worker state).opened fd = true from opened)]

end Places

/-! ## The life of a connection -/

theorem filterMap_place_of_notMem {batch : List Report} {fd : Fd}
    (notMem : some fd ∉ batch.map Report.sockfd) : batch.filterMap (Report.place fd) = [] := by
  rw [List.filterMap_eq_nil_iff]
  intro report mem
  cases report with
  | listen => rfl
  | client sockfd hangup ready =>
      refine if_neg fun equal => notMem ?_
      exact List.mem_map.mpr ⟨_, mem, congrArg some equal⟩

theorem filterMap_place_of_mem {batch : List Report} {fd : Fd}
    (nodup : (batch.map Report.sockfd).Nodup) (mem : some fd ∈ batch.map Report.sockfd) :
    ∃ hangup ready, .client fd hangup ready ∈ batch ∧
      batch.filterMap (Report.place fd) = [.batch ready] := by
  induction batch with
  | nil => cases mem
  | cons report batch ih =>
      rw [List.map_cons, List.nodup_cons] at nodup
      rw [List.map_cons, List.mem_cons] at mem
      by_cases here : report.sockfd = some fd
      · cases report with
        | listen => cases here
        | client sockfd hangup ready =>
            obtain rfl := Option.some.inj here
            refine ⟨hangup, ready, List.mem_cons_self, ?_⟩
            rw [List.filterMap_cons, Report.place, if_pos rfl]
            rw [filterMap_place_of_notMem (here ▸ nodup.1)]
      · obtain ⟨hangup, ready, mem', place_eq⟩ :=
          ih nodup.2 (mem.resolve_left fun equal => here equal.symm)
        refine ⟨hangup, ready, List.mem_cons_of_mem _ mem', ?_⟩
        have none : report.place fd = none := by
          cases report with
          | listen => rfl
          | client sockfd hangup ready =>
              exact if_neg fun equal => here (congrArg some equal)
        rw [List.filterMap_cons, none, place_eq]

theorem sole_of_single {before after : List Place} {place : Place}
    (single : (before ++ [place] ++ after).length ≤ 1) : before = [] ∧ after = [] := by
  simp only [List.length_append, List.length_cons, List.length_nil] at single
  exact ⟨List.eq_nil_of_length_eq_zero (by omega), List.eq_nil_of_length_eq_zero (by omega)⟩

section Life

variable {s t : Server} {fd other : Fd}

theorem reported_places (noBatch : s.batch = []) (batch : List Report) (fd : Fd) :
    ∃ after, s.places fd = ((s.interest fd).map .armed).toList ++ after ∧
      (s.reported batch).places fd =
        ((if some fd ∈ batch.map Report.sockfd then none else s.interest fd).map .armed).toList ++
          batch.filterMap (Report.place fd) ++ after := by
  refine ⟨(s.workqueue.filter (· = fd)).map (fun _ => .queue) ++
    s.workers.filterMap (Worker.place fd), ?_, ?_⟩
  · unfold places
    rw [noBatch, List.filterMap_nil, List.append_nil, List.append_assoc]
  · rw [← List.append_assoc]
    rfl

/-- `epoll_wait` moves the reported connections into the batch. -/
theorem wait_life {batch : List Report} (placed : Placed s) (noBatch : s.batch = [])
    (reports : s.Reports batch) (event : ServerEvent) : Life s event (s.reported batch) fd := by
  obtain ⟨awaited, nodup, -⟩ := reports
  obtain ⟨after, places_eq, places_eq'⟩ := reported_places noBatch batch fd
  by_cases mem : some fd ∈ batch.map Report.sockfd
  · obtain ⟨hangup, ready, mem', place_eq⟩ := filterMap_place_of_mem nodup mem
    obtain ⟨armed, ready_eq, -⟩ := awaited _ mem'
    obtain ⟨interest, interest_eq⟩ := Option.isSome_iff_exists.mp armed
    have single := placed.single fd
    rw [places_eq, interest_eq] at single
    change ([] ++ [.armed interest] ++ after : List Place).length ≤ 1 at single
    obtain ⟨-, rfl⟩ := sole_of_single single
    rw [interest_eq] at places_eq
    rw [if_pos mem, place_eq] at places_eq'
    refine .moved rfl rfl places_eq places_eq' ?_ rfl
    intro event ready_some
    change ready = some event at ready_some
    have same := ready_eq (by rw [ready_some]; rfl)
    rw [interest_eq] at same
    exact same.trans ready_some
  · rw [if_neg mem, filterMap_place_of_notMem mem, List.append_nil, ← places_eq] at places_eq'
    exact .same rfl rfl places_eq' rfl

/-- The connection whose report is handled has no other place. -/
theorem Placed.handled {hangup : Bool} {ready : Option EpollEvent} {batch : List Report}
    (placed : Placed s) (reported : s.batch = .client fd hangup ready :: batch) :
    s.places fd = [.batch ready] ∧ { s with batch := batch }.places fd = [] ∧
      ∀ other, other ≠ fd → { s with batch := batch }.places other = s.places other := by
  obtain ⟨before, after, places_eq, rest_eq⟩ := handled_places reported fd
  have single := placed.single fd
  rw [places_eq, Report.place, if_pos rfl] at single
  obtain ⟨rfl, rfl⟩ := sole_of_single single
  refine ⟨by rw [places_eq, Report.place, if_pos rfl]; rfl, rest_eq, fun other ne => ?_⟩
  obtain ⟨before, after, places_eq, rest_eq⟩ := handled_places reported other
  rw [places_eq, rest_eq, Report.place, if_neg ne.symm]
  simp

theorem accept_life {connfd : Fd} {batch : List Report} (placed : Placed s)
    (reported : s.batch = .listen :: batch) (event : ServerEvent)
    (step : { s with batch := batch }.accept connfd = some t) : Life s event t fd := by
  have places_eq : ∀ fd, { s with batch := batch }.places fd = s.places fd := by
    intro fd
    obtain ⟨before, after, places_eq, rest_eq⟩ := handled_places reported fd
    rw [places_eq, rest_eq]
    simp [Report.place]
  rcases accept_spec step with ⟨rfl, -⟩ | ⟨nonneg, -, -, closed, rfl⟩
  · exact .same rfl rfl (places_eq fd) rfl
  · by_cases equal : fd = connfd
    · subst fd
      have vacant : s.places connfd = [] := by
        by_contra placesSome
        have isOpen := placed.opened connfd placesSome
        change s.opened connfd = false at closed
        rw [isOpen] at closed
        cases closed
      exact .accepted closed (Function.update_self _ _ _) nonneg (Function.update_self _ _ _)
        (initConn_places ((places_eq connfd).trans vacant)) rfl
    · exact .same (Function.update_of_ne equal _ _) (Function.update_of_ne equal _ _)
        ((initConn_places_ne equal).trans (places_eq fd)) rfl

/-- What closing a connection without a place does. -/
theorem closeConn_life (sockfd : (s.users fd).sockfd = fd) (nonneg : 0 ≤ fd)
    (vacant : s.places fd = []) :
    (s.closeConn fd).opened fd = false ∧
      (s.closeConn fd).users fd = { s.users fd with sockfd := -1 } ∧
      (s.closeConn fd).places fd = [] ∧
      ∀ other, other ≠ fd → (s.closeConn fd).opened other = s.opened other ∧
        (s.closeConn fd).users other = s.users other ∧
        (s.closeConn fd).places other = s.places other := by
  refine ⟨?_, ?_, closeConn_places sockfd nonneg vacant, fun other ne =>
    ⟨?_, ?_, closeConn_places_ne sockfd nonneg ne⟩⟩
  · rw [closeConn_eq sockfd nonneg]
    exact Function.update_self _ _ _
  · rw [closeConn_eq sockfd nonneg]
    exact Function.update_self _ _ _
  · rw [closeConn_eq sockfd nonneg]
    exact Function.update_of_ne ne _ _
  · rw [closeConn_eq sockfd nonneg]
    exact Function.update_of_ne ne _ _

theorem hangup_life {sockfd : Fd} {ready : Option EpollEvent} {batch : List Report}
    (placed : Placed s) (reported : s.batch = .client sockfd true ready :: batch) :
    Life s .hangup ({ s with batch := batch }.closeConn sockfd) fd := by
  obtain ⟨before, vacant, others⟩ := placed.handled reported
  have opened := placed.opened sockfd (by rw [before]; simp)
  obtain ⟨sockfd_eq, nonneg⟩ := placed.sockfd sockfd opened
  obtain ⟨closed, user, after, rest⟩ := closeConn_life (s := { s with batch := batch }) sockfd_eq
    nonneg vacant
  by_cases equal : fd = sockfd
  · subst fd
    exact .hungUp rfl reported closed user after (closeConn_maps _ _ _)
  · obtain ⟨opened_eq, user_eq, places_eq⟩ := rest fd equal
    exact .same opened_eq user_eq (places_eq.trans (others fd equal)) (closeConn_maps _ _ _)

theorem read_life {sockfd : Fd} {batch : List Report} {answers : List Recv} (placed : Placed s)
    (reported : s.batch = .client sockfd false (some .epollin) :: batch)
    (step : { s with batch := batch }.readUser sockfd answers = some t) :
    Life s (.read answers) t fd := by
  obtain ⟨before, vacant, others⟩ := placed.handled reported
  have opened := placed.opened sockfd (by rw [before]; simp)
  obtain ⟨sockfd_eq, nonneg⟩ := placed.sockfd sockfd opened
  obtain ⟨⟨more, c⟩, read, rfl⟩ := Option.map_eq_some_iff.mp step
  change (s.users sockfd).read answers = some (more, c) at read
  have user_self : Function.update s.users sockfd c sockfd = c := Function.update_self _ _ _
  cases more with
  | true =>
      change Life s _ (({ s with batch := batch }.setUser sockfd c).append sockfd) fd
      have receives : s.receives answers = true := by
        unfold receives
        rw [reported]
        simp [read]
      by_cases full : s.maxRequests < s.workqueue.length
      · have refused : ({ s with batch := batch }.setUser sockfd c).append sockfd =
            { s with batch := batch }.setUser sockfd c := if_pos full
        rw [refused]
        by_cases equal : fd = sockfd
        · subst fd
          exact .refused rfl receives full rfl before read user_self vacant rfl
        · exact .same rfl (Function.update_of_ne equal _ _) (others fd equal) rfl
      · have queued : ({ s with batch := batch }.setUser sockfd c).append sockfd =
            { { s with batch := batch }.setUser sockfd c with
              workqueue := s.workqueue ++ [sockfd], posting := true } := if_neg full
        by_cases equal : fd = sockfd
        · subst fd
          have after := append_places (s := { s with batch := batch }.setUser sockfd c)
            (Nat.le_of_not_lt full) vacant
          refine .received ?_ before read ?_ after (append_maps _ _ _)
          · rw [queued]
            rfl
          · rw [queued]
            exact user_self
        · have after := append_places_ne (s := { s with batch := batch }.setUser sockfd c) equal
          refine .same ?_ ?_ (after.trans (others fd equal)) (append_maps _ _ _)
          · rw [queued]
            rfl
          · rw [queued]
            exact Function.update_of_ne equal _ _
  | false =>
      change Life s _ (({ s with batch := batch }.setUser sockfd c).closeConn sockfd) fd
      have keeps : c.sockfd = sockfd := by
        rw [HttpConn.read_frame read]
        exact sockfd_eq
      obtain ⟨closed, user, after, rest⟩ :=
        closeConn_life (s := { s with batch := batch }.setUser sockfd c)
          (by rw [← keeps]; exact congrArg HttpConn.sockfd (keeps ▸ user_self)) nonneg vacant
      by_cases equal : fd = sockfd
      · subst fd
        refine .readFailed closed before read ?_ after (closeConn_maps _ _ _)
        rw [user]
        exact congrArg (fun c : HttpConn => { c with sockfd := -1 }) user_self
      · obtain ⟨opened_eq, user_eq, places_eq⟩ := rest fd equal
        exact .same opened_eq (user_eq.trans (Function.update_of_ne equal _ _))
          (places_eq.trans (others fd equal)) (closeConn_maps _ _ _)

/-- A registration does not survive the closing of its descriptor. -/
theorem modfd_closeConn (sockfd : (s.users fd).sockfd = fd) (nonneg : 0 ≤ fd)
    (event : EpollEvent) : (s.modfd fd event).closeConn fd = s.closeConn fd := by
  unfold modfd
  split
  · have armed := closeConn_eq
      (s := { s with interest := Function.update s.interest fd (some event) }) sockfd nonneg
    rw [armed, closeConn_eq sockfd nonneg, Function.update_idem]
  · rfl

theorem recordUnmap_frame (s : Server) (request : Fd) (munmap : Option Munmap) :
    s.recordUnmap request munmap = { s with
      unmapped := (s.recordUnmap request munmap).unmapped
      mappings := (s.recordUnmap request munmap).mappings } := by
  cases munmap <;> rfl

theorem recordUnmap_places (s : Server) (request : Fd) (munmap : Option Munmap) (fd : Fd) :
    (s.recordUnmap request munmap).places fd = s.places fd := by
  rw [recordUnmap_frame]
  rfl

theorem write_life {sockfd : Fd} {batch : List Report} {answers : List Send} (placed : Placed s)
    (reported : s.batch = .client sockfd false (some .epollout) :: batch)
    (step : { s with batch := batch }.writeUser sockfd answers = some t) :
    Life s (.write answers) t fd := by
  obtain ⟨before, vacant, others⟩ := placed.handled reported
  have opened := placed.opened sockfd (by rw [before]; simp)
  obtain ⟨sockfd_eq, nonneg⟩ := placed.sockfd sockfd opened
  obtain ⟨w, write, rfl⟩ := Option.map_eq_some_iff.mp step
  change (s.users sockfd).write answers = some w at write
  obtain ⟨keeps, rearms⟩ := HttpConn.write_keeps write
  rw [sockfd_eq] at keeps
  -- The state in front of the call of `modfd`.
  obtain ⟨q, q_eq⟩ : ∃ q, q = ({ s with batch := batch }.setUser sockfd w.conn).recordUnmap sockfd
    w.munmap := ⟨_, rfl⟩
  have frame : q = { { s with batch := batch }.setUser sockfd w.conn with
      unmapped := q.unmapped, mappings := q.mappings } := by
    rw [q_eq]
    exact recordUnmap_frame _ _ _
  have opened_eq : q.opened = s.opened := by rw [frame]; rfl
  have users_eq : q.users = Function.update s.users sockfd w.conn := by rw [frame]; rfl
  have places_eq : ∀ fd, q.places fd = { s with batch := batch }.places fd := fun fd => by
    rw [q_eq, recordUnmap_places]
    rfl
  have maps_self : q.mapsOf sockfd = (s.recordUnmap sockfd w.munmap).mapsOf sockfd := by
    rw [q_eq]
    cases w.munmap <;> rfl
  have maps_other : ∀ fd, fd ≠ sockfd → q.mapsOf fd = s.mapsOf fd := fun fd ne => by
    rw [q_eq]
    exact recordUnmap_maps_ne _ ne
  have user_self : q.users sockfd = w.conn := by rw [users_eq, Function.update_self]
  have user_other : ∀ fd, fd ≠ sockfd → q.users fd = s.users fd := fun fd ne => by
    rw [users_eq, Function.update_of_ne ne]
  have q_sockfd : (q.users sockfd).sockfd = sockfd := by rw [user_self, keeps]
  have q_vacant := (places_eq sockfd).trans vacant
  dsimp only
  rw [← q_eq, keeps]
  cases result : w.result with
  | true =>
      obtain ⟨interest, interest_eq⟩ := rearms result
      rw [if_pos rfl, interest_eq]
      change Life s _ (q.modfd sockfd interest) fd
      have q_opened : q.opened sockfd = true := by rw [opened_eq, opened]
      have modfd_eq : q.modfd sockfd interest =
          { q with interest := Function.update q.interest sockfd (some interest) } :=
        if_pos q_opened
      by_cases equal : fd = sockfd
      · subst fd
        refine .written rfl reported ?_ before write result interest_eq ?_
          (modfd_places q_opened q_vacant interest) ((modfd_maps _ _ _ _).trans maps_self)
        · rw [modfd_eq, opened_eq]
        · rw [modfd_eq]
          exact user_self
      · refine .same ?_ ?_ ((modfd_places_ne equal interest).trans
          ((places_eq fd).trans (others fd equal)))
          ((modfd_maps _ _ _ _).trans (maps_other fd equal))
        · rw [modfd_eq, opened_eq]
        · rw [modfd_eq]
          exact user_other fd equal
  | false =>
      rw [if_neg Bool.false_ne_true]
      have closes : (q.rearm sockfd w.interest).closeConn sockfd = q.closeConn sockfd := by
        cases w.interest with
        | none => rfl
        | some interest => exact modfd_closeConn q_sockfd nonneg interest
      rw [closes]
      obtain ⟨closed, user, after, rest⟩ := closeConn_life q_sockfd nonneg q_vacant
      by_cases equal : fd = sockfd
      · subst fd
        refine .writeClosed rfl reported closed before write result ?_ after
          ((closeConn_maps _ _ _).trans maps_self)
        rw [user, user_self]
      · obtain ⟨opened_eq', user_eq, places_eq'⟩ := rest fd equal
        exact .same (opened_eq'.trans (congrFun opened_eq fd))
          (user_eq.trans (user_other fd equal))
          (places_eq'.trans ((places_eq fd).trans (others fd equal)))
          ((closeConn_maps _ _ _).trans (maps_other fd equal))

/-- A worker that holds a connection has it alone. -/
theorem Placed.held {worker : Nat} {old : Worker} {sockfd : Fd} {place : Place}
    (placed : Placed s) (running : s.workers[worker]? = some old)
    (place_eq : old.place sockfd = some place)
    (others : ∀ fd, fd ≠ sockfd → old.place fd = none) :
    s.places sockfd = [place] ∧
      ∀ new : Worker, (s.setWorker worker new).places sockfd = (new.place sockfd).toList ∧
        ∀ fd, fd ≠ sockfd → new.place fd = none →
          (s.setWorker worker new).places fd = s.places fd := by
  obtain ⟨before, after, places_eq, set_eq⟩ := setWorker_places running sockfd
  have single := placed.single sockfd
  rw [places_eq, place_eq] at single
  obtain ⟨rfl, rfl⟩ := sole_of_single single
  refine ⟨by rw [places_eq, place_eq]; rfl,
    fun new => ⟨by rw [set_eq]; simp, fun fd ne noPlace => ?_⟩⟩
  obtain ⟨before, after, places_eq, set_eq⟩ := setWorker_places running fd
  rw [places_eq, set_eq, others fd ne, noPlace]

/-- A worker without a connection changes no place. -/
theorem setWorker_places_of_none {worker : Nat} {old new : Worker}
    (running : s.workers[worker]? = some old) (noOld : old.place fd = none)
    (noNew : new.place fd = none) : (s.setWorker worker new).places fd = s.places fd := by
  obtain ⟨before, after, places_eq, set_eq⟩ := setWorker_places running fd
  rw [places_eq, set_eq, noOld, noNew]

theorem holding_place_ne {request : Fd} (ne : fd ≠ request) :
    (Worker.holding request).place fd = none :=
  if_neg ne.symm

theorem arming_place_ne {request : Fd} (ne : fd ≠ request) (event : EpollEvent) :
    (Worker.arming request event).place fd = none :=
  if_neg ne.symm

theorem take_life {worker : Nat} (placed : Placed s) (running : s.workers[worker]? = some .woken)
    (event : ServerEvent) : Life s event (s.takeRequest worker) fd := by
  unfold takeRequest
  split
  · exact .same rfl rfl (setWorker_places_of_none running rfl rfl) rfl
  · rename_i request workqueue queued
    have running' : { s with workqueue := workqueue }.workers[worker]? = some .woken := running
    obtain ⟨before, after, places_eq, rest_eq⟩ := dequeued_places queued fd
    by_cases equal : fd = request
    · subst fd
      have single := placed.single request
      rw [places_eq, if_pos rfl] at single
      obtain ⟨rfl, rfl⟩ := sole_of_single single
      rw [if_pos rfl] at places_eq
      refine .moved rfl rfl places_eq (?_ : _ = [.worker .epollin]) (fun _ => id) rfl
      obtain ⟨before, after, places_eq', set_eq⟩ := setWorker_places running' request
      rw [rest_eq] at places_eq'
      obtain ⟨rfl, noAfter⟩ := List.append_eq_nil_iff.mp
        (List.append_eq_nil_iff.mp places_eq'.symm).1
      rw [set_eq, (List.append_eq_nil_iff.mp places_eq'.symm).2, Worker.place, if_pos rfl]
      rfl
    · rw [if_neg (Ne.symm equal), List.append_nil, ← rest_eq] at places_eq
      exact .same rfl rfl ((setWorker_places_of_none running' rfl (holding_place_ne equal)).trans
        places_eq.symm) rfl

theorem arm_life {worker : Nat} {request : Fd} {interest : EpollEvent} (placed : Placed s)
    (running : s.workers[worker]? = some (.arming request interest)) (event : ServerEvent) :
    Life s event ((s.modfd (s.users request).sockfd interest).setWorker worker .idle) fd := by
  obtain ⟨before, moves⟩ := placed.held running (if_pos rfl) fun fd ne =>
    arming_place_ne ne interest
  have opened := placed.opened request (by rw [before]; simp)
  obtain ⟨sockfd_eq, nonneg⟩ := placed.sockfd request opened
  obtain ⟨vacant, others⟩ := moves .idle
  rw [sockfd_eq, modfd_setWorker]
  have modfd_eq : (s.setWorker worker .idle).modfd request interest =
      { s.setWorker worker .idle with
        interest := Function.update s.interest request (some interest) } :=
    if_pos opened
  by_cases equal : fd = request
  · subst fd
    refine .moved ?_ ?_ before
      (modfd_places (s := s.setWorker worker .idle) opened vacant interest) (fun _ => id)
      (modfd_maps _ _ _ _)
    · rw [modfd_eq]
      rfl
    · rw [modfd_eq]
      rfl
  · refine .same ?_ ?_ ((modfd_places_ne equal interest).trans (others fd equal rfl))
      (modfd_maps _ _ _ _)
    · rw [modfd_eq]
      rfl
    · rw [modfd_eq]
      rfl

theorem recordMap_frame (s : Server) (request : Fd) (code : HttpCode) (c : HttpConn) :
    s.recordMap request code c = { s with
      mapped := (s.recordMap request code c).mapped
      mappings := (s.recordMap request code c).mappings } := by
  unfold recordMap
  split <;> rfl

/-- A worker answers the request that it holds: nothing has been written yet, so
that the answer fits. -/
theorem processUser_eq (worker : Nat) {request : Fd} (fs : FileSystem)
    (empty : (s.users request).writeBuf = []) :
    ∃ code c interest, (s.users request).processRead fs = (code, c) ∧
      ((code = .noRequest ∧ interest = .epollin ∧ s.processUser worker request fs =
        ((s.recordMap request code c).setUser request c).setWorker worker
          (.arming request interest)) ∨
      (code ≠ .noRequest ∧ interest = .epollout ∧ (c.processWrite code).1 = true ∧
        s.processUser worker request fs =
          ((s.recordMap request code c).setUser request (c.processWrite code).2).setWorker worker
            (.arming request interest))) := by
  have parsed := (s.users request).processRead_parsed fs
  cases result : (s.users request).processRead fs with
  | mk code c =>
      rw [result] at parsed
      by_cases waits : code = .noRequest
      · refine ⟨code, c, .epollin, rfl, Or.inl ⟨waits, rfl, ?_⟩⟩
        unfold processUser
        rw [result]
        exact if_pos waits
      · have fits := HttpConn.processWrite_fits (parsed.writeBuf.trans empty) parsed.readCode waits
        refine ⟨code, c, .epollout, rfl, Or.inr ⟨waits, rfl, fits, ?_⟩⟩
        unfold processUser
        rw [result]
        refine (if_neg waits).trans ?_
        dsimp only
        rw [if_pos fits]

theorem process_life {worker : Nat} {request : Fd} (placed : Placed s)
    (running : s.workers[worker]? = some (.holding request)) (fs : FileSystem) :
    Life s (.process worker fs) (s.processUser worker request fs) fd := by
  obtain ⟨before, moves⟩ := placed.held running (if_pos rfl) fun fd ne => holding_place_ne ne
  have empty := placed.empty request (.worker .epollin) (by rw [before]; simp) rfl
  have places_eq : ∀ (c d : HttpConn) (code : HttpCode) (new : Worker) (fd : Fd),
      (((s.recordMap request code c).setUser request d).setWorker worker new).places fd =
        (s.setWorker worker new).places fd := by
    intro c d code new fd
    rw [recordMap_frame]
    rfl
  obtain ⟨code, c, interest, parsed, ⟨waits, rfl, t_eq⟩ | ⟨hasResult, rfl, fits, t_eq⟩⟩ :=
    processUser_eq worker fs empty <;>
    rw [t_eq] <;> by_cases equal : fd = request
  · subst fd
    obtain ⟨after, -⟩ := moves (.arming request .epollin)
    rw [waits] at parsed
    refine .waits rfl running ?_ before parsed (Function.update_self _ _ _) ?_ ?_
    · rw [recordMap_frame]
      rfl
    · rw [places_eq, after, Worker.place, if_pos rfl]
      rfl
    · subst waits
      rfl
  · obtain ⟨-, others⟩ := moves (.arming request .epollin)
    refine .same ?_ ?_ ((places_eq _ _ _ _ _).trans (others fd equal (arming_place_ne equal _)))
      (recordMap_maps_ne equal)
    · rw [recordMap_frame]
      rfl
    · rw [recordMap_frame]
      exact Function.update_of_ne equal _ _
  · subst fd
    obtain ⟨after, -⟩ := moves (.arming request .epollout)
    refine .answered rfl running ?_ before parsed hasResult (Prod.ext fits rfl)
      (Function.update_self _ _ _) ?_ rfl
    · rw [recordMap_frame]
      rfl
    · rw [places_eq, after, Worker.place, if_pos rfl]
      rfl
  · obtain ⟨-, others⟩ := moves (.arming request .epollout)
    refine .same ?_ ?_ ((places_eq _ _ _ _ _).trans (others fd equal (arming_place_ne equal _)))
      (recordMap_maps_ne equal)
    · rw [recordMap_frame]
      rfl
    · rw [recordMap_frame]
      exact Function.update_of_ne equal _ _

/-- What a step does to each connection. -/
theorem next_life {event : ServerEvent} (placed : Placed s) (step : s.next event = some t)
    (fd : Fd) : Life s event t fd := by
  cases event with
  | wait batch =>
      simp only [next, Option.ite_none_right_eq_some, Option.some.injEq] at step
      obtain ⟨⟨noBatch, -, reports⟩, rfl⟩ := step
      exact wait_life placed noBatch reports _
  | accept connfd =>
      simp only [next] at step
      split at step
      · rename_i batch reported
        exact accept_life placed reported _ (Option.ite_none_left_eq_some.mp step).2
      · contradiction
  | hangup =>
      simp only [next] at step
      split at step
      · rename_i sockfd ready batch reported
        simp only [Option.ite_none_left_eq_some, Option.some.injEq] at step
        obtain ⟨-, rfl⟩ := step
        exact hangup_life placed reported
      · contradiction
  | read answers =>
      simp only [next] at step
      split at step
      · rename_i sockfd batch reported
        exact read_life placed reported (Option.ite_none_left_eq_some.mp step).2
      · contradiction
  | post =>
      simp only [next, Option.ite_none_right_eq_some, Option.some.injEq] at step
      obtain ⟨-, rfl⟩ := step
      exact .same rfl rfl rfl rfl
  | write answers =>
      simp only [next] at step
      split at step
      · rename_i sockfd batch reported
        exact write_life placed reported (Option.ite_none_left_eq_some.mp step).2
      · contradiction
  | wake worker =>
      simp only [next, Option.ite_none_right_eq_some, Option.some.injEq] at step
      obtain ⟨⟨running, -⟩, rfl⟩ := step
      exact .same rfl rfl (setWorker_places_of_none
        (s := { s with queuestat := s.queuestat - 1 }) running rfl rfl) rfl
  | take worker =>
      simp only [next, Option.ite_none_right_eq_some, Option.some.injEq] at step
      obtain ⟨running, rfl⟩ := step
      exact take_life placed running _
  | process worker fs =>
      simp only [next] at step
      split at step
      · rename_i request running
        obtain rfl := Option.some.inj step
        exact process_life placed running fs
      · contradiction
  | arm worker =>
      simp only [next] at step
      split at step
      · rename_i request interest running
        obtain rfl := Option.some.inj step
        exact arm_life placed running _
      · contradiction

end Life

end Server

end NetPractice.Http
