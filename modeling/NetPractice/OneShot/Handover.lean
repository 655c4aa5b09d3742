import NetPractice.OneShot.Core
import NetPractice.Transition.Core
import Mathlib.Data.List.Nodup

/-!
# Handing an event over to its worker

The one-shot registration gives every connection at most one place: it is armed, in the
batch, or with one worker.  The descriptor, however, reaches the worker through memory
that the next iteration of the loop writes again.  A run hands every event over to a
worker of its own exactly as long as the memory is not written while a worker has still
to read it, and every worker can be created.
-/

namespace NetPractice.OneShot

open NetPractice.Socket
open NetPractice.Transition

/-- A worker uses what belongs to its event; one that has not read its argument yet finds
it there, whenever it reads. -/
def Worker.Uses (w : Worker) (epollfd : Fd) (argument : Fds) : Prop :=
  match w.doing with
  | .started => argument = ⟨epollfd, w.event⟩
  | .half sockfd => sockfd = w.event ∧ argument.epollfd = epollfd
  | .receiving fds => fds = ⟨epollfd, w.event⟩
  | .ended => True

instance (w : Worker) (epollfd : Fd) (argument : Fds) : Decidable (w.Uses epollfd argument) := by
  unfold Worker.Uses
  split <;> infer_instance

/-- The socket that a worker reads from. -/
def Worker.socket (w : Worker) : Option Fd :=
  match w.doing with
  | .half sockfd => some sockfd
  | .receiving fds => some fds.sockfd
  | .started | .ended => none

/-- Each event is handled by a worker that uses its descriptor, and no two workers read
from one socket. -/
structure HandedOver (s : Server) : Prop where
  created : s.unserved = []
  uses : ∀ w ∈ s.workers, w.Uses s.epollfd s.argument
  alone : ∀ (i j : Nat) (v w : Worker) (sockfd : Fd), s.workers[i]? = some v →
    s.workers[j]? = some w → v.socket = some sockfd → w.socket = some sockfd → i = j

/-- `fds_for_new_worker` is written for a worker that can be created, and not while
another one has to read it; and no other local variable of the loop changes what a worker
has still to read. -/
def ArgumentRead (s : Server) : Event → Prop
  | .dispatch created => created = true ∧ ∀ w ∈ s.workers, w.doing ≠ .started
  | .accept _ overwritten => ∀ fds ∈ overwritten, ∀ w ∈ s.workers, w.Uses s.epollfd fds
  | _ => True

instance (s : Server) : ∀ event, Decidable (ArgumentRead s event)
  | .dispatch _ => inferInstanceAs (Decidable (_ ∧ ∀ w ∈ s.workers, Worker.doing w ≠ .started))
  | .accept _ overwritten => inferInstanceAs
      (Decidable (∀ fds ∈ overwritten, ∀ w ∈ s.workers, Worker.Uses w s.epollfd fds))
  | .wait _ | .other | .readSockfd _ | .readEpollfd _ | .recv _ _ => isTrue trivial

/-! ## The places of a connection -/

/-- A worker that has not ended serves the connection of its event. -/
def Worker.serves (fd : Fd) (w : Worker) : Nat :=
  if w.event = fd ∧ w.doing ≠ .ended then 1 else 0

namespace Server

variable {s t : Server}

/-- In how many places a connection is: armed, in the batch, and with workers. -/
def places (s : Server) (fd : Fd) : Nat :=
  (s.armed fd).toNat + (s.batch.map Report.sockfd).count (some fd) +
    total (Worker.serves fd) s.workers

/-- The invariant behind `HandedOver`. -/
structure Placed (s : Server) : Prop where
  created : s.unserved = []
  uses : ∀ w ∈ s.workers, w.Uses s.epollfd s.argument
  single : ∀ fd, s.places fd ≤ 1
  opened : ∀ fd, s.places fd ≠ 0 → s.opened fd = true

/-- The socket of a worker that uses its own argument is that of its event. -/
theorem serves_of_socket {w : Worker} {sockfd epollfd : Fd} {argument : Fds}
    (uses : w.Uses epollfd argument) (socket : w.socket = some sockfd) :
    Worker.serves sockfd w = 1 := by
  rcases w with ⟨event, doing⟩
  cases doing with
  | started | ended => cases socket
  | half read =>
      obtain rfl := Option.some.inj socket
      obtain rfl : read = event := uses.1
      exact if_pos ⟨rfl, Doing.noConfusion⟩
  | receiving fds =>
      obtain rfl := Option.some.inj socket
      obtain rfl : fds = ⟨epollfd, event⟩ := uses
      exact if_pos ⟨rfl, Doing.noConfusion⟩

theorem Placed.handedOver (placed : Placed s) : HandedOver s where
  created := placed.created
  uses := placed.uses
  alone i j v w sockfd first second vSocket wSocket := by
    by_contra different
    have both := add_le_total (Worker.serves sockfd) first second different
    rw [serves_of_socket (placed.uses v (List.mem_of_getElem? first)) vSocket,
      serves_of_socket (placed.uses w (List.mem_of_getElem? second)) wSocket] at both
    have single := placed.single sockfd
    unfold places at single
    omega

/-! ## Every step keeps the places -/

theorem start_placed (epollfd : Fd) (argument : Fds) : Placed (start epollfd argument) where
  created := rfl
  uses _ mem := absurd mem List.not_mem_nil
  single _ := Nat.zero_le 1
  opened _ somewhere := absurd rfl somewhere

/-- Steps that change at most the places of one connection. -/
theorem Placed.update (placed : Placed s) (fd : Fd) (created : t.unserved = [])
    (uses : ∀ w ∈ t.workers, w.Uses t.epollfd t.argument)
    (others : ∀ other, other ≠ fd → t.places other = s.places other ∧
      t.opened other = s.opened other)
    (single : t.places fd ≤ 1) (opened : t.places fd ≠ 0 → t.opened fd = true) : Placed t where
  created := created
  uses := uses
  single other := by
    by_cases here : other = fd
    · rw [here]
      exact single
    · rw [(others other here).1]
      exact placed.single other
  opened other somewhere := by
    by_cases here : other = fd
    · rw [here] at somewhere ⊢
      exact opened somewhere
    · rw [(others other here).2]
      rw [(others other here).1] at somewhere
      exact placed.opened other somewhere

/-- `epoll_wait` moves the reported connections into the batch. -/
theorem places_reported {batch : List Report} (noBatch : s.batch = [])
    (reports : s.Reports batch) (fd : Fd) : (s.reported batch).places fd = s.places fd := by
  rcases reports with ⟨nodup, -, armed⟩
  change (s.armed fd && !decide (some fd ∈ batch.map Report.sockfd)).toNat +
    (batch.map Report.sockfd).count (some fd) + total (Worker.serves fd) s.workers = _
  unfold places
  rw [noBatch, List.map_nil, List.count_nil]
  by_cases mem : some fd ∈ batch.map Report.sockfd
  · rcases List.mem_map.mp mem with ⟨report, reportMem, sockfd_eq⟩
    have isArmed := armed report reportMem fd sockfd_eq
    rw [List.count_eq_one_of_mem nodup mem, isArmed, decide_eq_true mem]
    rfl
  · rw [List.count_eq_zero_of_not_mem mem, decide_eq_false mem, Bool.not_false, Bool.and_true]

/-- A step of one worker that goes on serving its connection. -/
theorem places_setWorker {worker : Nat} {old new : Worker}
    (running : s.workers[worker]? = some old) (fd : Fd)
    (same : Worker.serves fd new = Worker.serves fd old) :
    (s.setWorker worker new).places fd = s.places fd := by
  have swapped := total_set (Worker.serves fd) running new
  unfold places setWorker
  dsimp only
  omega

/-- A worker reads a member of its argument. -/
theorem Placed.reads {worker : Nat} {old new : Worker} (placed : Placed s)
    (running : s.workers[worker]? = some old)
    (same : ∀ fd, Worker.serves fd new = Worker.serves fd old)
    (uses : new.Uses s.epollfd s.argument) : Placed (s.setWorker worker new) where
  created := placed.created
  uses w mem := by
    rcases List.mem_or_eq_of_mem_set mem with before | rfl
    · exact placed.uses w before
    · exact uses
  single fd := by
    rw [places_setWorker running fd (same fd)]
    exact placed.single fd
  opened fd somewhere := by
    rw [places_setWorker running fd (same fd)] at somewhere
    exact placed.opened fd somewhere

/-- A worker that serves its connection has it alone. -/
theorem Placed.served {worker : Nat} {event : Fd} {doing : Doing} (placed : Placed s)
    (running : s.workers[worker]? = some ⟨event, doing⟩) (busy : doing ≠ .ended) :
    s.armed event = false ∧ (s.batch.map Report.sockfd).count (some event) = 0 ∧
      total (Worker.serves event) s.workers = 1 ∧ s.opened event = true := by
  have counted := weight_le_total (Worker.serves event) (List.mem_of_getElem? running)
  rw [Worker.serves, if_pos ⟨rfl, busy⟩] at counted
  have single := placed.single event
  have opened := placed.opened event
  unfold places at single opened
  refine ⟨?_, by omega, by omega, opened (by omega)⟩
  cases armed : s.armed event with
  | false => rfl
  | true =>
      rw [armed, Bool.toNat_true] at single
      omega

/-- A worker ends: it has closed its connection, or armed it. -/
theorem Placed.ends {worker : Nat} {event : Fd} {fds : Fds} (placed : Placed s)
    (running : s.workers[worker]? = some ⟨event, .receiving fds⟩) {q : Server}
    (workers_eq : q.workers = s.workers) (batch_eq : q.batch = s.batch)
    (argument_eq : q.argument = s.argument) (epollfd_eq : q.epollfd = s.epollfd)
    (unserved_eq : q.unserved = s.unserved)
    (others : ∀ other, other ≠ event → q.armed other = s.armed other ∧
      q.opened other = s.opened other)
    (kept : q.armed event = true → q.opened event = true) :
    Placed (q.setWorker worker ⟨event, .ended⟩) := by
  rcases placed.served running Doing.noConfusion with ⟨-, noReport, alone, -⟩
  have running' : q.workers[worker]? = some ⟨event, .receiving fds⟩ := by rw [workers_eq, running]
  have swapped := total_set (Worker.serves event) running' ⟨event, .ended⟩
  have before : Worker.serves event ⟨event, .receiving fds⟩ = 1 :=
    if_pos ⟨rfl, Doing.noConfusion⟩
  have after : Worker.serves event ⟨event, .ended⟩ = 0 := if_neg fun both => both.2 rfl
  have here : (q.setWorker worker ⟨event, .ended⟩).places event = (q.armed event).toNat := by
    unfold places setWorker
    dsimp only
    rw [batch_eq, noReport]
    rw [workers_eq] at swapped ⊢
    omega
  apply placed.update event
  · exact unserved_eq.trans placed.created
  · intro w mem
    change w.Uses q.epollfd q.argument
    rw [epollfd_eq, argument_eq]
    rcases List.mem_or_eq_of_mem_set mem with old | rfl
    · exact placed.uses w (workers_eq ▸ old)
    · exact trivial
  · intro other different
    constructor
    · rw [places_setWorker running' other]
      · unfold places
        rw [workers_eq, batch_eq, (others other different).1]
      · unfold Worker.serves
        rw [if_neg fun both => different both.1.symm, if_neg fun both => different both.1.symm]
    · exact (others other different).2
  · rw [here]
    exact Bool.toNat_le _
  · intro somewhere
    rw [here] at somewhere
    apply kept
    cases armed : q.armed event with
    | true => rfl
    | false =>
        rw [armed] at somewhere
        exact absurd rfl somewhere

/-- A report that has been handled no longer is a place. -/
theorem places_handled {report : Report} {batch : List Report}
    (reported : s.batch = report :: batch) (fd : Fd) :
    s.places fd = { s with batch := batch }.places fd +
      if report.sockfd = some fd then 1 else 0 := by
  unfold places
  rw [reported, List.map_cons, List.count_cons]
  simp only [beq_iff_eq]
  omega

theorem Placed.handled {report : Report} {batch : List Report} (placed : Placed s)
    (reported : s.batch = report :: batch) : Placed { s with batch := batch } where
  created := placed.created
  uses := placed.uses
  single fd := by
    have single := placed.single fd
    rw [places_handled reported fd] at single
    omega
  opened fd somewhere := by
    apply placed.opened fd
    rw [places_handled reported fd]
    omega

theorem Placed.accept {connfd : Fd} {overwritten : Option Fds} (placed : Placed s)
    (keeps : ∀ fds ∈ overwritten, ∀ w ∈ s.workers, w.Uses s.epollfd fds)
    (step : s.accept connfd overwritten = some t) : Placed t := by
  have uses : ∀ w ∈ s.workers, w.Uses s.epollfd (overwritten.getD s.argument) := by
    cases overwritten with
    | none => exact placed.uses
    | some fds => exact keeps fds rfl
  unfold Server.accept at step
  dsimp only at step
  split at step
  · cases step
    exact ⟨placed.created, uses, placed.single, placed.opened⟩
  · split at step
    · cases step
    · rename_i closed
      cases step
      have nowhere : s.places connfd = 0 := by
        by_contra somewhere
        exact closed (placed.opened connfd somewhere)
      unfold places at nowhere
      apply placed.update connfd
      · exact placed.created
      · exact uses
      · intro other different
        constructor
        · unfold places
          dsimp only
          rw [Function.update_of_ne different]
        · exact Function.update_of_ne different _ _
      · unfold places
        dsimp only
        rw [Function.update_self, Bool.toNat_true]
        omega
      · intro _
        exact Function.update_self _ _ _

/-- The event moves from the batch to its new worker. -/
theorem Placed.dispatch {sockfd : Fd} {batch : List Report} (placed : Placed s)
    (reported : s.batch = .client sockfd true :: batch)
    (read : ∀ w ∈ s.workers, w.doing ≠ .started) :
    Placed ({ s with batch := batch }.dispatch sockfd true) := by
  have places_eq : ∀ fd,
      ({ s with batch := batch }.dispatch sockfd true).places fd = s.places fd := by
    intro fd
    rw [places_handled reported fd]
    unfold places Server.dispatch
    simp only [if_true, total_append, total_cons, total_nil, Nat.add_zero, Report.sockfd,
      Option.some.injEq]
    unfold Worker.serves
    by_cases here : sockfd = fd
    · rw [if_pos here, if_pos ⟨here, Doing.noConfusion⟩]
      omega
    · rw [if_neg here, if_neg fun both => here both.1]
      omega
  refine ⟨placed.created, ?_, ?_, ?_⟩
  · intro w mem
    change w.Uses s.epollfd ⟨s.epollfd, sockfd⟩
    rcases List.mem_append.mp mem with old | new
    · have uses := placed.uses w old
      have hasRead := read w old
      rcases w with ⟨event, doing⟩
      cases doing with
      | started => exact absurd rfl hasRead
      | half half => exact ⟨uses.1, rfl⟩
      | receiving fds => exact uses
      | ended => exact trivial
    · obtain rfl := List.mem_singleton.mp new
      exact rfl
  · intro fd
    rw [places_eq]
    exact placed.single fd
  · intro fd somewhere
    rw [places_eq] at somewhere
    exact placed.opened fd somewhere

theorem Placed.received {worker : Nat} {event : Fd} {fds : Fds} (placed : Placed s)
    (running : s.workers[worker]? = some ⟨event, .receiving fds⟩) (answer : Recv) :
    Placed (s.received worker event fds answer) := by
  have uses : fds = ⟨s.epollfd, event⟩ := placed.uses _ (List.mem_of_getElem? running)
  rcases placed.served running Doing.noConfusion with ⟨-, -, -, isOpen⟩
  cases answer with
  | data | fail => exact placed
  | eof =>
      apply placed.ends running (q := s.close fds.sockfd) rfl rfl rfl rfl rfl
      · intro other different
        rw [uses]
        exact ⟨Function.update_of_ne different _ _, Function.update_of_ne different _ _⟩
      · intro armed
        change Function.update s.armed fds.sockfd false event = true at armed
        rw [uses, Function.update_self] at armed
        cases armed
  | again =>
      have rearmed : s.resetOneshot fds =
          { s with armed := Function.update s.armed event true } := by
        rw [uses]
        exact if_pos ⟨rfl, isOpen⟩
      change Placed ((s.resetOneshot fds).setWorker worker ⟨event, .ended⟩)
      rw [rearmed]
      apply placed.ends running (q := { s with armed := Function.update s.armed event true })
        rfl rfl rfl rfl rfl
      · intro other different
        exact ⟨Function.update_of_ne different _ _, rfl⟩
      · intro _
        exact isOpen

theorem Placed.next {event : Event} (placed : Placed s) (guard : ArgumentRead s event)
    (step : s.next event = some t) : Placed t := by
  cases event with
  | wait batch =>
      simp only [Server.next, Option.ite_none_right_eq_some, Option.some.injEq] at step
      rcases step with ⟨⟨noBatch, reports⟩, rfl⟩
      refine ⟨placed.created, placed.uses, ?_, ?_⟩
      · intro fd
        rw [places_reported noBatch reports]
        exact placed.single fd
      · intro fd somewhere
        rw [places_reported noBatch reports] at somewhere
        exact placed.opened fd somewhere
  | accept connfd overwritten =>
      simp only [Server.next] at step
      split at step
      · rename_i batch reported
        exact (placed.handled reported).accept guard step
      · contradiction
  | dispatch created =>
      simp only [Server.next] at step
      split at step
      · rename_i sockfd batch reported
        rcases guard with ⟨rfl, read⟩
        cases step
        exact placed.dispatch reported read
      · contradiction
  | other =>
      simp only [Server.next] at step
      split at step
      · rename_i reported
        cases step
        exact placed.handled reported
      · contradiction
  | readSockfd worker =>
      simp only [Server.next] at step
      split at step
      · rename_i event running
        cases step
        have uses : s.argument = ⟨s.epollfd, event⟩ :=
          placed.uses _ (List.mem_of_getElem? running)
        apply placed.reads running
        · intro fd
          unfold Worker.serves
          simp only [ne_eq, reduceCtorEq, not_false_eq_true, and_true]
        · rw [uses]
          exact ⟨rfl, rfl⟩
      · contradiction
  | readEpollfd worker =>
      simp only [Server.next] at step
      split at step
      · rename_i event sockfd running
        cases step
        rcases placed.uses _ (List.mem_of_getElem? running) with ⟨sockfd_eq, epollfd_eq⟩
        apply placed.reads running
        · intro fd
          unfold Worker.serves
          simp only [ne_eq, reduceCtorEq, not_false_eq_true, and_true]
        · change (⟨s.argument.epollfd, sockfd⟩ : Fds) = ⟨s.epollfd, event⟩
          rw [epollfd_eq]
          exact congrArg _ sockfd_eq
      · contradiction
  | recv worker answer =>
      simp only [Server.next] at step
      split at step
      · rename_i event fds running
        simp only [Option.ite_none_right_eq_some, Option.some.injEq] at step
        rcases step with ⟨-, rfl⟩
        exact placed.received running answer
      · contradiction

/-- Without its guard, a step leaves an event without a worker, or a worker with an
argument that is not its own. -/
theorem Placed.lost {event : Event} (placed : Placed s) (unguarded : ¬ ArgumentRead s event)
    (step : s.next event = some t) : ¬ HandedOver t := by
  intro handedOver
  cases event with
  | wait | other | readSockfd | readEpollfd | recv => exact unguarded trivial
  | accept connfd overwritten =>
      simp only [Server.next] at step
      split at step
      · rename_i batch reported
        simp only [ArgumentRead, not_forall] at unguarded
        rcases unguarded with ⟨fds, mem, w, worker, wrong⟩
        obtain rfl : overwritten = some fds := mem
        have written : t.workers = s.workers ∧ t.epollfd = s.epollfd ∧ t.argument = fds := by
          unfold Server.accept at step
          dsimp only at step
          split at step
          · cases step
            exact ⟨rfl, rfl, rfl⟩
          · split at step
            · cases step
            · cases step
              exact ⟨rfl, rfl, rfl⟩
        rcases written with ⟨workers_eq, epollfd_eq, argument_eq⟩
        have uses := handedOver.uses w (workers_eq ▸ worker)
        rw [epollfd_eq, argument_eq] at uses
        exact wrong uses
      · contradiction
  | dispatch created =>
      simp only [Server.next] at step
      split at step
      · rename_i sockfd batch reported
        cases step
        cases created with
        | false =>
            have unserved := handedOver.created
            exact absurd unserved (List.append_ne_nil_of_right_ne_nil _ (List.cons_ne_nil _ _))
        | true =>
            simp only [ArgumentRead, true_and, not_forall, not_not] at unguarded
            rcases unguarded with ⟨w, worker, started⟩
            rcases w with ⟨event, doing⟩
            obtain rfl : doing = .started := started
            have uses := handedOver.uses _ (List.mem_append_left _ worker)
            have overwritten : (⟨s.epollfd, sockfd⟩ : Fds) = ⟨s.epollfd, event⟩ := uses
            obtain rfl : sockfd = event := congrArg Fds.sockfd overwritten
            rcases List.mem_iff_getElem?.mp worker with ⟨i, running⟩
            rcases placed.served running Doing.noConfusion with ⟨-, noReport, -, -⟩
            rw [reported, List.map_cons, Report.sockfd, List.count_cons_self] at noReport
            cases noReport
      · contradiction

end Server

/-- For every batch of events and every interleaving of the main thread with the workers:
each event is handled by a worker that uses its descriptor, and no socket is read by two
workers, exactly as long as the argument of a worker is not written before it has been
read, and every worker can be created. -/
theorem handedOver_along_iff_argumentRead (epollfd : Fd) (argument : Fds) (events : List Event)
    (possible : (run Server.next (Server.start epollfd argument) events).isSome) :
    Along Server.next HandedOver (Server.start epollfd argument) events ↔
      Meets Server.next ArgumentRead (Server.start epollfd argument) events :=
  along_iff_meets_of_isSome (fun _ _ _ placed guard step => placed.next guard step)
    (fun _ placed => placed.handedOver)
    (fun _ _ _ placed unguarded step => placed.lost unguarded step)
    (Server.start_placed epollfd argument) possible

/-! ## Two ready sockets -/

/-- Connections 7 and 8 are accepted, and become readable together. -/
def twoReady : List Event :=
  [.wait [.listen], .accept 7 none, .wait [.listen], .accept 8 none,
    .wait [.client 7 true, .client 8 true]]

/-- The first worker reads its argument before the second event is handed over. -/
def promptRun : List Event :=
  twoReady ++ [.dispatch true, .readSockfd 0, .dispatch true, .readSockfd 1, .readEpollfd 0,
    .readEpollfd 1, .recv 0 (.data [104]), .recv 1 .eof, .recv 0 .again,
    .wait [.client 7 true], .dispatch true]

theorem handedOver_along_promptRun :
    Along Server.next HandedOver (Server.start 3 ⟨0, 0⟩) promptRun :=
  (handedOver_along_iff_argumentRead 3 ⟨0, 0⟩ promptRun (by decide +kernel)).mpr
    (by decide +kernel)

/-- The first worker reads its argument behind the second write: both workers read from
the second socket, and nobody serves the first one. -/
def lateRun : List Event :=
  twoReady ++ [.dispatch true, .dispatch true, .readSockfd 0, .readSockfd 1, .readEpollfd 0,
    .readEpollfd 1]

theorem lateRun_shared :
    (run Server.next (Server.start 3 ⟨0, 0⟩) lateRun).map Server.workers =
      some [⟨7, .receiving ⟨3, 8⟩⟩, ⟨8, .receiving ⟨3, 8⟩⟩] ∧
    ¬ Along Server.next HandedOver (Server.start 3 ⟨0, 0⟩) lateRun := by
  have outcome : (run Server.next (Server.start 3 ⟨0, 0⟩) lateRun).map Server.workers =
      some [⟨7, .receiving ⟨3, 8⟩⟩, ⟨8, .receiving ⟨3, 8⟩⟩] := by
    decide +kernel
  constructor
  · exact outcome
  · intro along
    rcases Option.map_eq_some_iff.mp outcome with ⟨t, finished, workers⟩
    have alone := (along.last finished).alone 0 1 ⟨7, .receiving ⟨3, 8⟩⟩ ⟨8, .receiving ⟨3, 8⟩⟩ 8
    rw [workers] at alone
    cases alone rfl rfl rfl rfl

end NetPractice.OneShot
