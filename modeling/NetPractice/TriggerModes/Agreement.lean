import NetPractice.TriggerModes.Core

/-!
# Agreement of the two trigger modes

When nothing is pending any more, both modes have received every byte that has arrived.
They do not call `close` equally often: behind an end of file the loop of `et` goes on, and
calls it for the `EBADF` of the next `recv` once more.
-/

namespace NetPractice.TriggerModes

open NetPractice.Socket
open NetPractice.Text
open NetPractice.Transition

universe u

variable {ι : Type u}

namespace World

/-- Every report of `lt` is about a connection that can be read. -/
structure LtInv (w : World ι) : Prop where
  nodup : w.batch.Nodup
  leveled : ∀ c, (w.conn c).Leveled (c ∈ w.batch)

/-- The loop of `et` runs for the first report. -/
def EtInv (w : World ι) : Prop :=
  Reports id w.conn w.batch

variable {w v : World ι} {event : Event ι} {events : List (Event ι)}

theorem ltInv_start : (start : World ι).LtInv where
  nodup := List.nodup_nil
  leveled _ := Stream.Leveled.start.of_iff (iff_of_false id List.not_mem_nil)

theorem etInv_start : (start : World ι).EtInv :=
  Reports.start

/-- What `lt` has done when nothing is pending. -/
theorem LtInv.settled (inv : w.LtInv) (settled : w.Settled .lt) (c : ι) :
    (w.conn c).received = (w.conn c).arrived ∧
      (w.conn c).closes = if (w.conn c).ending = none then 0 else 1 := by
  have idle := inv.leveled c
  rw [settled.1] at idle
  apply (idle.of_iff (iff_of_false List.not_mem_nil id)).settled
  rintro ⟨isOpen, readable⟩
  exact settled.2 c ⟨isOpen, readable, nofun⟩

/-- What `et` has done. -/
theorem EtInv.settled (inv : w.EtInv) (settled : w.Settled .et) (c : ι) :
    (w.conn c).received = (w.conn c).arrived ∧
      (w.conn c).closes = (w.conn c).ending.elim 0 Stream.drainCloses := by
  have idle : Reports id w.conn [] := settled.1 ▸ inv
  apply (idle.idle c).settled
  rintro ⟨isOpen, edge, readable⟩
  exact settled.2 c ⟨isOpen, readable, fun _ => edge⟩

variable [DecidableEq ι]

theorem lt_spec {count : Nat} (step : w.lt count = some v) :
    ∃ conn sockfd rest answer s, w = ⟨conn, sockfd :: rest⟩ ∧
      (conn sockfd).recv (BUFFER_SIZE - 1) count = some (answer, s) ∧
      v = ⟨Function.update conn sockfd (s.served answer), rest⟩ := by
  rcases w with ⟨conn, batch⟩
  cases batch with
  | nil => cases step
  | cons sockfd rest =>
      rcases Option.map_eq_some_iff.mp step with ⟨⟨answer, s⟩, called, rfl⟩
      exact ⟨conn, sockfd, rest, answer, s, rfl, called, rfl⟩

theorem et_spec {count : Nat} (step : w.et count = some v) :
    ∃ conn sockfd rest answer s, w = ⟨conn, sockfd :: rest⟩ ∧
      (conn sockfd).recv (BUFFER_SIZE - 1) count = some (answer, s) ∧
      v = ⟨Function.update conn sockfd (s.drained answer).1,
        if (s.drained answer).2 then sockfd :: rest else rest⟩ := by
  rcases w with ⟨conn, batch⟩
  cases batch with
  | nil => cases step
  | cons sockfd rest =>
      rcases Option.map_eq_some_iff.mp step with ⟨⟨answer, s⟩, called, rfl⟩
      exact ⟨conn, sockfd, rest, answer, s, rfl, called, rfl⟩

theorem setConn_of_ne {c d : ι} {s : Stream} (other : c ≠ d) :
    (w.setConn d s).conn c = w.conn c :=
  Function.update_of_ne other _ _

theorem wait_conn_of_mem {batch : List ι} {c : ι} (mem : c ∈ batch) :
    (w.wait batch).conn c = (w.conn c).report :=
  if_pos mem

theorem wait_conn_of_notMem {batch : List ι} {c : ι} (notMem : c ∉ batch) :
    (w.wait batch).conn c = w.conn c :=
  if_neg notMem

theorem LtInv.setConn (inv : w.LtInv) {c : ι} {s : Stream} (leveled : s.Leveled (c ∈ w.batch)) :
    (w.setConn c s).LtInv where
  nodup := inv.nodup
  leveled := (Function.forall_update_iff w.conn fun d s => s.Leveled (d ∈ w.batch)).mpr
    ⟨leveled, fun d _ => inv.leveled d⟩

theorem LtInv.wait (inv : w.LtInv) {batch : List ι} (handled : w.batch = []) (nodup : batch.Nodup)
    (pending : ∀ c ∈ batch, Pending .lt (w.conn c)) : (w.wait batch).LtInv where
  nodup := nodup
  leveled c := by
    have before : (w.conn c).Leveled False :=
      (inv.leveled c).of_iff (iff_of_false (by rw [handled]; exact List.not_mem_nil) id)
    by_cases mem : c ∈ batch
    · rcases pending c mem with ⟨isOpen, readable, -⟩
      rw [wait_conn_of_mem mem]
      exact (before.report isOpen readable).of_iff (iff_of_true trivial mem)
    · rw [wait_conn_of_notMem mem]
      exact before.of_iff (iff_of_false id mem)

theorem LtInv.lt (inv : w.LtInv) {count : Nat} (step : w.lt count = some v) : v.LtInv := by
  rcases lt_spec step with ⟨conn, sockfd, rest, answer, s, rfl, called, rfl⟩
  rcases List.nodup_cons.mp inv.nodup with ⟨notMem, restNodup⟩
  refine ⟨restNodup, ?_⟩
  apply (Function.forall_update_iff conn fun d s => s.Leveled (d ∈ rest)).mpr
  constructor
  · have reported := (inv.leveled sockfd).of_iff (iff_true_intro List.mem_cons_self)
    exact (reported.served called).of_iff (iff_of_false id notMem)
  · intro d other
    apply (inv.leveled d).of_iff
    exact ⟨fun mem => (List.mem_cons.mp mem).resolve_left other, List.mem_cons_of_mem _⟩

theorem EtInv.et (inv : w.EtInv) {count : Nat} (step : w.et count = some v) : v.EtInv := by
  rcases et_spec step with ⟨conn, sockfd, rest, answer, s, rfl, called, rfl⟩
  exact Reports.drain inv Function.injective_id called

theorem LtInv.next (inv : w.LtInv) (step : w.next .lt event = some v) : v.LtInv := by
  cases event with
  | arrive c bytes =>
      rcases guarded_eq_some_iff.mp step with ⟨live, rfl⟩
      exact inv.setConn ((inv.leveled c).arrive live bytes)
  | finish c ending =>
      rcases guarded_eq_some_iff.mp step with ⟨live, rfl⟩
      exact inv.setConn ((inv.leveled c).finish live ending)
  | wait batch =>
      rcases guarded_eq_some_iff.mp step with ⟨⟨handled, -, nodup, -, pending⟩, rfl⟩
      exact inv.wait handled nodup pending
  | recv count => exact inv.lt step

theorem EtInv.next (inv : w.EtInv) (step : w.next .et event = some v) : v.EtInv := by
  cases event with
  | arrive c bytes =>
      rcases guarded_eq_some_iff.mp step with ⟨live, rfl⟩
      exact inv.update ((inv.edged c).arrive live bytes)
  | finish c ending =>
      rcases guarded_eq_some_iff.mp step with ⟨live, rfl⟩
      exact inv.update ((inv.edged c).finish live ending)
  | wait batch =>
      rcases guarded_eq_some_iff.mp step with ⟨⟨handled, -, nodup, -, pending⟩, rfl⟩
      have idle : Reports id w.conn [] := handled ▸ inv
      exact idle.wait nodup fun c mem => (pending c mem).1
  | recv count => exact inv.et step

/-! ## What arrives -/

theorem arrivals_cons (c : ι) (event : Event ι) (events : List (Event ι)) :
    arrivals c (event :: events) = arrivals c [event] ++ arrivals c events := by
  rw [arrivals, arrivals, arrivals, ← List.flatMap_append, List.singleton_append]

theorem ending_cons (c : ι) (event : Event ι) (events : List (Event ι)) :
    ending c (event :: events) = (ending c [event]).or (ending c events) := by
  rw [ending, ending, ending, ← List.findSome?_append, List.singleton_append]

/-- Nothing of a connection has changed but what the server does. -/
theorem nothing_arrived {c : ι} {s t : Stream} (same : t.arrived = s.arrived ∧ t.ending = s.ending)
    (noBytes : arrivals c [event] = []) (noEnding : ending c [event] = none) :
    t.arrived = s.arrived ++ arrivals c [event] ∧ t.ending = s.ending.or (ending c [event]) := by
  rw [noBytes, noEnding, List.append_nil, Option.or_none]
  exact same

theorem kept_trans {r s t : Stream} (first : s.arrived = r.arrived ∧ s.ending = r.ending)
    (second : t.arrived = s.arrived ∧ t.ending = s.ending) :
    t.arrived = r.arrived ∧ t.ending = r.ending :=
  ⟨second.1.trans first.1, second.2.trans first.2⟩

theorem update_kept {conn : ι → Stream} {sockfd : ι} {s : Stream}
    (kept : s.arrived = (conn sockfd).arrived ∧ s.ending = (conn sockfd).ending) (c : ι) :
    (Function.update conn sockfd s c).arrived = (conn c).arrived ∧
      (Function.update conn sockfd s c).ending = (conn c).ending := by
  by_cases same : c = sockfd
  · subst same
    rw [Function.update_self]
    exact kept
  · rw [Function.update_of_ne same]
    exact ⟨rfl, rfl⟩

theorem next_arrived {mode : Mode} (step : w.next mode event = some v) (c : ι) :
    (v.conn c).arrived = (w.conn c).arrived ++ arrivals c [event] ∧
      (v.conn c).ending = (w.conn c).ending.or (ending c [event]) := by
  cases event with
  | arrive d bytes =>
      rcases guarded_eq_some_iff.mp step with ⟨-, rfl⟩
      by_cases same : d = c
      · subst same
        simp [setConn, Stream.arrive, arrivals, ending]
      · apply nothing_arrived
        · rw [setConn_of_ne (Ne.symm same)]
          exact ⟨rfl, rfl⟩
        · simp [arrivals, same]
        · rfl
  | finish d ended =>
      rcases guarded_eq_some_iff.mp step with ⟨live, rfl⟩
      by_cases same : d = c
      · subst same
        simp [setConn, Stream.finish, arrivals, ending, live]
      · apply nothing_arrived
        · rw [setConn_of_ne (Ne.symm same)]
          exact ⟨rfl, rfl⟩
        · rfl
        · simp [ending, same]
  | wait batch =>
      rcases guarded_eq_some_iff.mp step with ⟨-, rfl⟩
      apply nothing_arrived _ rfl rfl
      by_cases mem : c ∈ batch
      · rw [wait_conn_of_mem mem]
        exact ⟨rfl, rfl⟩
      · rw [wait_conn_of_notMem mem]
        exact ⟨rfl, rfl⟩
  | recv count =>
      apply nothing_arrived _ rfl rfl
      cases mode with
      | lt =>
          rcases lt_spec step with ⟨conn, sockfd, rest, answer, s, rfl, called, rfl⟩
          exact update_kept (kept_trans (Stream.recv_kept called) (Stream.served_kept answer s)) c
      | et =>
          rcases et_spec step with ⟨conn, sockfd, rest, answer, s, rfl, called, rfl⟩
          exact update_kept (kept_trans (Stream.recv_kept called) (Stream.drained_kept answer s)) c

theorem run_arrived {mode : Mode} (run : Transition.run (next mode) w events = some v) (c : ι) :
    (v.conn c).arrived = (w.conn c).arrived ++ arrivals c events ∧
      (v.conn c).ending = (w.conn c).ending.or (ending c events) := by
  induction events generalizing w with
  | nil =>
      cases run
      rw [arrivals, ending, List.flatMap_nil, List.append_nil, List.findSome?_nil, Option.or_none]
      exact ⟨rfl, rfl⟩
  | cons event events ih =>
      rcases (run_cons_eq_some_iff _ _ _ _ _).mp run with ⟨middle, step, later⟩
      rcases next_arrived step c with ⟨arrived, ended⟩
      rcases ih later with ⟨laterArrived, laterEnded⟩
      rw [laterArrived, laterEnded, arrived, ended, arrivals_cons c event events,
        ending_cons c event events, List.append_assoc, Option.or_assoc]
      exact ⟨rfl, rfl⟩

/-- What arrives in a run. -/
theorem run_start_arrived {mode : Mode} (run : Transition.run (next mode) start events = some v)
    (c : ι) : (v.conn c).arrived = arrivals c events ∧ (v.conn c).ending = ending c events := by
  rcases run_arrived run c with ⟨arrived, ended⟩
  exact ⟨arrived, ended.trans (Option.none_or)⟩

theorem lt_run (run : Transition.run (next .lt) start events = some v) (settled : v.Settled .lt)
    (c : ι) :
    (v.conn c).received = arrivals c events ∧
      (v.conn c).closes = if ending c events = none then 0 else 1 := by
  have inv : v.LtInv := invariant_run (fun _ _ _ inv step => inv.next step) ltInv_start run
  rcases run_start_arrived run c with ⟨arrived, ended⟩
  rw [← arrived, ← ended]
  exact inv.settled settled c

theorem et_run (run : Transition.run (next .et) start events = some v) (settled : v.Settled .et)
    (c : ι) :
    (v.conn c).received = arrivals c events ∧
      (v.conn c).closes = (ending c events).elim 0 Stream.drainCloses := by
  have inv : v.EtInv := invariant_run (fun _ _ _ inv step => inv.next step) etInv_start run
  rcases run_start_arrived run c with ⟨arrived, ended⟩
  rw [← arrived, ← ended]
  exact inv.settled settled c

end World

variable [DecidableEq ι]

/-- When the same has arrived and nothing is pending any more, the two modes agree if and
only if no end of file has arrived. -/
theorem agree_iff_not_finished {levelEvents edgeEvents : List (Event ι)} {w v : World ι}
    (level : run (World.next .lt) World.start levelEvents = some w) (levelSettled : w.Settled .lt)
    (edge : run (World.next .et) World.start edgeEvents = some v) (edgeSettled : v.Settled .et)
    (same : ∀ c, arrivals c edgeEvents = arrivals c levelEvents ∧
      ending c edgeEvents = ending c levelEvents) :
    Agree levelEvents w v ↔ ∀ c, ending c levelEvents ≠ some .finished := by
  have edgeRun : ∀ c, (v.conn c).received = arrivals c levelEvents ∧
      (v.conn c).closes = (ending c levelEvents).elim 0 Stream.drainCloses := by
    intro c
    rw [← (same c).1, ← (same c).2]
    exact World.et_run edge edgeSettled c
  constructor
  · intro agree c
    apply (Stream.drainCloses_once_iff _).mp
    exact (edgeRun c).2.symm.trans (agree.closes c).2
  · intro noneFinished
    constructor
    · exact fun c => ⟨(World.lt_run level levelSettled c).1, (edgeRun c).1⟩
    · intro c
      refine ⟨(World.lt_run level levelSettled c).2, ?_⟩
      exact (edgeRun c).2.trans ((Stream.drainCloses_once_iff _).mpr (noneFinished c))

/-- Twelve bytes on one of two connections, which `lt` reads for two reports, and `et` for
one. -/
def levelChunks : List (Event Bool) :=
  [.arrive true (List.replicate 12 97), .wait [true], .recv 9, .wait [true], .recv 3]

/-- The same bytes, in the other mode. -/
def edgeChunks : List (Event Bool) :=
  [.arrive true (List.replicate 12 97), .wait [true], .recv 9, .recv 3, .recv 0]

theorem agree_iff_chunks :
    ∃ w v, run (World.next .lt) World.start levelChunks = some w ∧
      run (World.next .et) World.start edgeChunks = some v ∧
      Agree levelChunks w v := by
  have level : run (World.next .lt) World.start levelChunks = some _ := rfl
  have edge : run (World.next .et) World.start edgeChunks = some _ := rfl
  refine ⟨_, _, level, edge, ?_⟩
  exact (agree_iff_not_finished level ⟨rfl, by decide⟩ edge ⟨rfl, by decide⟩ (by decide)).mpr
    (by decide)

/-- An end of file, which `et` answers with two calls of `close`. -/
def levelFinish : List (Event Bool) :=
  [.finish true .finished, .wait [true], .recv 0]

/-- The same end of file, in the other mode. -/
def edgeFinish : List (Event Bool) :=
  [.finish true .finished, .wait [true], .recv 0, .recv 0]

theorem finish_closes_twice :
    ∃ w v, run (World.next .lt) World.start levelFinish = some w ∧ w.Settled .lt ∧
      run (World.next .et) World.start edgeFinish = some v ∧ v.Settled .et ∧
      (w.conn true).closes = 1 ∧ (v.conn true).closes = 2 ∧ ¬ Agree levelFinish w v := by
  refine ⟨_, _, rfl, ⟨rfl, by decide⟩, rfl, ⟨rfl, by decide⟩, rfl, rfl, ?_⟩
  intro agree
  exact absurd (agree.closes true).2 (by decide)

end NetPractice.TriggerModes
