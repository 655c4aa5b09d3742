import NetPractice.SigioEcho.Queue

/-!
# The overflow of the ring

The handler tests `nqueue` in front of every `recvfrom`, also in front of the one that
would find the socket empty.  When the last free slot was filled, the next test ends the
program, whether or not a datagram is waiting; and `nqueue` counts a slot that was sent
until the main loop comes to `nqueue--`.

The datagrams that wait in the socket are added to the program here, so that `recvfrom`
answers what has arrived.
-/

namespace NetPractice.SigioEcho

open NetPractice.Memory
open NetPractice.Memory.Ring
open NetPractice.Transition

universe u

variable {A : Type u}

/-- The program and its socket.  `arrived` has all datagrams that came, and `overflow` is
set when the program gives up with "receive overflow". -/
structure World (A : Type u) where
  server : Server A
  waiting : List (Datagram A)
  arrived : List (Datagram A)
  overflow : Bool

/-- A datagram that arrives, a statement of the main loop, the delivery of `SIGIO`, an
iteration of the handler, a `recvfrom` that fails, another signal that ends `sigsuspend`,
or a failing `sendto`. -/
inductive Occurrence (A : Type u) where
  | arrive (datagram : Datagram A)
  | main
  | sigio
  | recvfrom
  | recvFails
  | wake
  | sendFails
  deriving DecidableEq, Repr

/-- What `recvfrom` returns of a datagram. -/
def received (datagram : Datagram A) : Datagram A :=
  { datagram with data := datagram.data.take MAXDG }

/-- The main loop has sent a datagram and not yet decremented `nqueue`. -/
def Main.Lagging (main : Main) : Prop :=
  main = .advancing ∨ main = .blocking ∨ main = .decrementing

instance (main : Main) : Decidable main.Lagging :=
  inferInstanceAs (Decidable (_ ∨ _ ∨ _))

namespace World

/-- In front of the main loop, with an empty socket. -/
def start (clilen : Nat) (dg : Nat → DG A) : World A where
  server := Server.start clilen dg
  waiting := []
  arrived := []
  overflow := false

/-- What the next `recvfrom` answers. -/
def answer (w : World A) : Received A :=
  match w.waiting with
  | [] => .again
  | datagram :: _ => .datagram (received datagram)

/-- A step of the program that takes nothing from the socket. -/
def onServer (w : World A) (event : Event A) : Option (World A) :=
  (w.server.next event).map fun server => { w with server := server }

/-- The server goes on, with the datagrams that wait in the socket. -/
def next (w : World A) : Occurrence A → Option (World A)
  | .arrive datagram =>
      if w.server.quit then none
      else some { w with
        waiting := w.waiting ++ [datagram]
        arrived := w.arrived ++ [datagram] }
  | .main => w.onServer .main
  | .sigio => w.onServer .sigio
  | .recvfrom =>
      (w.server.next (.recvfrom w.answer)).map fun server =>
        if (QSIZE : Int) ≤ w.server.nqueue then { w with server := server, overflow := true }
        else { w with server := server, waiting := w.waiting.tail }
  | .recvFails =>
      if (QSIZE : Int) ≤ w.server.nqueue then none else w.onServer (.recvfrom .fail)
  | .wake => w.onServer .wake
  | .sendFails => w.onServer .sendFails

/-- The program gives up only when a datagram is waiting and no slot is free; all datagrams
that arrived were read or are waiting, and those that were read are echoed. -/
structure Patient (w : World A) : Prop where
  overflow : w.overflow = true → w.waiting ≠ [] ∧ w.server.unsent.length = QSIZE
  queued : w.server.read ++ w.waiting.map received = w.arrived.map received
  echoes : w.server.Echoes

/-- The handler, left to itself, reads everything that is waiting and returns. -/
def Absorbs (w : World A) : Prop :=
  ∃ t, run next w (List.replicate (w.waiting.length + 1) .recvfrom) = some t ∧
    t.server.quit = false ∧ t.server.handler = none ∧ t.waiting = [] ∧
      t.server.read = w.server.read ++ w.waiting.map received

/-- The handler has filled the last slot, and comes back to its test when no datagram is
waiting, or has interrupted the main loop behind `Sendto`. -/
def Premature (w : World A) (occurrence : Occurrence A) : Prop :=
  occurrence = .recvfrom ∧ w.server.nqueue = QSIZE ∧
    (w.waiting = [] ∨ w.server.main.Lagging)

instance [DecidableEq A] (w : World A) (occurrence : Occurrence A) :
    Decidable (w.Premature occurrence) :=
  inferInstanceAs (Decidable (_ ∧ _ ∧ (_ ∨ _)))

section Steps

variable {w v : World A}

/-- The slots that are not sent are those that `nqueue` counts, less the one behind which
it lags. -/
theorem length_unsent {s : Server A} (inv : s.Inv) :
    (s.unsent.length : Int) + (if s.main.Lagging then 1 else 0) = s.nqueue := by
  have agrees := inv.agrees
  have bounds := inv.bounds
  cases main : s.main with
  | setup | testing | suspended | sending =>
      rw [main] at agrees
      have length_eq : s.unsent.length = s.nqueue.toNat :=
        (congrArg List.length agrees.occupied).trans length_slots
      rw [if_neg (by decide)]
      omega
  | advancing =>
      rw [main] at agrees
      have length_eq : (s.iget :: s.unsent).length = s.nqueue.toNat :=
        (congrArg List.length agrees.occupied).trans length_slots
      rw [List.length_cons] at length_eq
      rw [if_pos (by decide)]
      omega
  | blocking | decrementing =>
      rw [main] at agrees
      have positive := agrees.1
      have length_eq : s.unsent.length = (s.nqueue - 1).toNat :=
        (congrArg List.length agrees.2.occupied).trans length_slots
      rw [if_pos (by decide)]
      omega

/-- When `nqueue` says that the ring is full, no slot is free exactly when the main loop
does not lag behind. -/
theorem unsent_full_iff {s : Server A} (inv : s.Inv) (full : s.nqueue = QSIZE) :
    s.unsent.length = QSIZE ↔ ¬ s.main.Lagging := by
  have length_eq := length_unsent inv
  split at length_eq
  · next lagging =>
    refine iff_of_false ?_ (not_not_intro lagging)
    omega
  · next upToDate =>
    refine iff_of_true ?_ upToDate
    omega

/-- The invariant. -/
structure Inv (w : World A) : Prop where
  server : w.server.Inv
  patient : w.Patient
  quit : w.overflow = true → w.server.quit = true

/-- A process that has ended takes no step. -/
theorem running_of_next {s t : Server A} {event : Event A} (step : s.next event = some t) :
    s.quit = false := by
  unfold Server.next at step
  rcases Option.ite_none_left_eq_some.mp step with ⟨runs, -⟩
  exact Bool.eq_false_iff.mpr runs

theorem Inv.not_overflow (inv : w.Inv) (runs : w.server.quit = false) : w.overflow = false := by
  by_contra overflow
  have quit := inv.quit (by simpa using overflow)
  rw [runs] at quit
  cases quit

/-- The main loop reads nothing. -/
theorem mainStep_read {s t : Server A} (step : s.mainStep = some t) : t.read = s.read := by
  unfold Server.mainStep at step
  cases main : s.main with
  | suspended =>
      rw [main] at step
      cases step
  | setup | testing | sending | advancing | blocking | decrementing =>
      rw [main] at step
      cases step
      rfl

theorem next_read {s t : Server A} {event : Event A} (step : s.next event = some t)
    (nothing : ∀ datagram, event ≠ .recvfrom (.datagram datagram)) : t.read = s.read := by
  unfold Server.next at step
  rcases Option.ite_none_left_eq_some.mp step with ⟨-, taken⟩
  split at taken
  next => exact mainStep_read taken
  next =>
    rcases guarded_eq_some_iff.mp taken with ⟨-, rfl⟩
    rfl
  next =>
    rcases guarded_eq_some_iff.mp taken with ⟨-, rfl⟩
    rfl
  next =>
    rcases guarded_eq_some_iff.mp taken with ⟨-, rfl⟩
    rfl
  next nread answer _ =>
    unfold Server.handlerStep at taken
    split at taken
    · cases taken
      rfl
    · cases answer with
      | datagram datagram => exact absurd rfl (nothing datagram)
      | again | fail =>
          cases taken
          rfl
  next => cases taken

/-- A step that takes nothing from the socket. -/
theorem Inv.onServer {event : Event A} (inv : w.Inv) (step : w.onServer event = some v)
    (nothing : ∀ datagram, event ≠ .recvfrom (.datagram datagram)) : v.Inv := by
  rcases Option.map_eq_some_iff.mp step with ⟨server, moved, rfl⟩
  have overflow := inv.not_overflow (running_of_next moved)
  have server_inv := inv.server.next moved
  constructor
  · exact server_inv
  · constructor
    · intro gaveUp
      exact absurd gaveUp (by simp [overflow])
    · change server.read ++ _ = _
      rw [next_read moved nothing]
      exact inv.patient.queued
    · exact server_inv.echoes
  · intro gaveUp
    exact absurd gaveUp (by simp [overflow])

/-- What an iteration of the handler does. -/
theorem recvfrom_cases (step : w.next .recvfrom = some v) :
    ∃ nread, w.server.handler = some nread ∧ w.server.quit = false ∧
      ((QSIZE ≤ w.server.nqueue ∧
          v = { w with server := { w.server with quit := true }, overflow := true }) ∨
        (w.server.nqueue < QSIZE ∧ w.waiting = [] ∧
          v = { w with server := w.server.handled nread }) ∨
        (w.server.nqueue < QSIZE ∧ ∃ datagram rest, w.waiting = datagram :: rest ∧
          v.waiting = rest ∧ v.arrived = w.arrived ∧ v.overflow = w.overflow ∧
          v.server.handler = some (nread + 1) ∧ v.server.quit = false ∧
          v.server.nqueue = w.server.nqueue + 1 ∧
          v.server.read = w.server.read ++ [received datagram] ∧
          w.server.next (.recvfrom (.datagram (received datagram))) = some v.server)) := by
  rcases Option.map_eq_some_iff.mp step with ⟨server, moved, v_eq⟩
  have runs := running_of_next moved
  have taken := moved
  unfold Server.next at taken
  rw [runs] at taken
  cases handler : w.server.handler with
  | none =>
      rw [handler] at taken
      cases taken
  | some nread =>
      rw [handler] at taken
      change w.server.handlerStep nread w.answer = some server at taken
      refine ⟨nread, rfl, runs, ?_⟩
      unfold Server.handlerStep at taken
      by_cases full : (QSIZE : Int) ≤ w.server.nqueue
      · rw [if_pos full] at taken v_eq
        cases taken
        exact .inl ⟨full, v_eq.symm⟩
      · rw [if_neg full] at taken v_eq
        have more : w.server.nqueue < QSIZE := Int.not_le.mp full
        right
        cases waiting : w.waiting with
        | nil =>
            have nothing : w.answer = .again := by rw [answer, waiting]
            rw [nothing] at taken
            cases taken
            left
            refine ⟨more, rfl, ?_⟩
            rw [← v_eq, waiting]
            rcases w with ⟨server, waiting', arrived, overflow⟩
            cases waiting
            rfl
        | cons datagram rest =>
            have first : w.answer = .datagram (received datagram) := by rw [answer, waiting]
            rw [first] at taken moved
            rcases guarded_eq_some_iff.mp taken with ⟨-, rfl⟩
            right
            refine ⟨more, datagram, rest, rfl, ?_⟩
            rw [← v_eq, waiting]
            exact ⟨rfl, rfl, rfl, rfl, runs, rfl, rfl, moved⟩

/-! ## Giving up -/

theorem start_inv (clilen : Nat) (dg : Nat → DG A) : (start clilen dg).Inv where
  server := Server.start_inv clilen dg
  patient := ⟨fun overflow => absurd overflow Bool.false_ne_true, rfl,
    (Server.start_inv clilen dg).echoes⟩
  quit overflow := absurd overflow Bool.false_ne_true

/-- An iteration of the handler gives up too early exactly when it is premature. -/
theorem Inv.recvfrom (inv : w.Inv) (step : w.next .recvfrom = some v) :
    (¬ w.Premature .recvfrom → v.Inv) ∧ (w.Premature .recvfrom → ¬ v.Patient) := by
  have bounds := inv.server.bounds
  rcases recvfrom_cases step with ⟨nread, handling, runs, taken⟩
  have overflow := inv.not_overflow runs
  rcases taken with ⟨full, rfl⟩ | ⟨more, waiting, rfl⟩ |
    ⟨more, datagram, rest, waiting, rest_eq, arrived, overflow_eq, -, -, -, read, moved⟩
  · have equal : w.server.nqueue = QSIZE := by omega
    have unsent := unsent_full_iff inv.server equal
    constructor
    · intro patient
      constructor
      · exact inv.server.quits
      · constructor
        · intro _
          constructor
          · intro none
            exact patient ⟨rfl, equal, .inl none⟩
          · apply unsent.mpr
            intro lagging
            exact patient ⟨rfl, equal, .inr lagging⟩
        · exact inv.patient.queued
        · exact inv.server.quits.echoes
      · intro _
        rfl
    · rintro ⟨-, -, early⟩ patient
      rcases patient.overflow rfl with ⟨waiting, unsentFull⟩
      rcases early with none | lagging
      · exact waiting none
      · exact unsent.mp unsentFull lagging
  · have handled := inv.server.handled (inv.server.kept more) nread
    constructor
    · intro _
      constructor
      · exact handled
      · constructor
        · intro gaveUp
          exact absurd gaveUp (by simp [overflow])
        · exact inv.patient.queued
        · exact handled.echoes
      · intro gaveUp
        exact absurd gaveUp (by simp [overflow])
    · rintro ⟨-, equal, -⟩
      omega
  · have server := inv.server.next moved
    constructor
    · intro _
      constructor
      · exact server
      · constructor
        · intro gaveUp
          rw [overflow_eq, overflow] at gaveUp
          cases gaveUp
        · have queued := inv.patient.queued
          rw [waiting] at queued
          rw [read, rest_eq, arrived, ← queued, List.append_assoc]
          rfl
        · exact server.echoes
      · intro gaveUp
        rw [overflow_eq, overflow] at gaveUp
        cases gaveUp
    · rintro ⟨-, equal, -⟩
      omega

theorem Inv.arrive {datagram : Datagram A} (inv : w.Inv)
    (step : w.next (.arrive datagram) = some v) : v.Inv := by
  rcases refused_eq_some_iff.mp step with ⟨runs, rfl⟩
  have overflow := inv.not_overflow (Bool.eq_false_iff.mpr runs)
  constructor
  · exact inv.server
  · constructor
    · intro gaveUp
      exact absurd gaveUp (by simp [overflow])
    · change w.server.read ++ (w.waiting ++ [datagram]).map received =
        (w.arrived ++ [datagram]).map received
      rw [List.map_append, List.map_append, ← List.append_assoc, inv.patient.queued]
    · exact inv.patient.echoes
  · exact inv.quit

/-- Every step that is not premature keeps the invariant. -/
theorem Inv.next {occurrence : Occurrence A} (inv : w.Inv)
    (patient : ¬ w.Premature occurrence) (step : w.next occurrence = some v) : v.Inv := by
  cases occurrence with
  | arrive datagram => exact inv.arrive step
  | main | sigio | wake | sendFails => exact inv.onServer step nofun
  | recvfrom => exact (inv.recvfrom step).1 patient
  | recvFails =>
      rcases Option.ite_none_left_eq_some.mp step with ⟨-, step⟩
      exact inv.onServer step nofun

/-! ## Datagrams that wait at once -/

theorem recvfrom_exists {nread : Nat} (handling : w.server.handler = some nread)
    (runs : w.server.quit = false) : ∃ v, w.next .recvfrom = some v := by
  have fits : ∀ datagram : Datagram A, (received datagram).data.length ≤ MAXDG := by
    intro datagram
    exact List.length_take_le _ _
  have moved : ∃ server, w.server.handlerStep nread w.answer = some server := by
    unfold Server.handlerStep
    split
    · exact ⟨_, rfl⟩
    · unfold answer
      cases w.waiting with
      | nil => exact ⟨_, rfl⟩
      | cons datagram rest => exact ⟨_, if_pos (fits datagram)⟩
  rcases moved with ⟨server, moved⟩
  refine ⟨_, Option.map_eq_some_iff.mpr ⟨server, ?_, rfl⟩⟩
  unfold Server.next
  rw [runs, handling]
  exact moved

theorem run_recvfrom (step : w.next .recvfrom = some v) (count : Nat) :
    run next w (List.replicate (count + 1) .recvfrom) =
      run next v (List.replicate count .recvfrom) := by
  rw [List.replicate_succ]
  exact run_cons_of_step step _

/-- Reading one datagram leaves the others to be read. -/
theorem absorbs_of_read {datagram : Datagram A} {rest : List (Datagram A)}
    (step : w.next .recvfrom = some v) (waiting : w.waiting = datagram :: rest)
    (rest_eq : v.waiting = rest)
    (read : v.server.read = w.server.read ++ [received datagram]) : w.Absorbs ↔ v.Absorbs := by
  have regroup : v.server.read ++ v.waiting.map received =
      w.server.read ++ w.waiting.map received := by
    rw [read, rest_eq, waiting, List.append_assoc]
    rfl
  unfold Absorbs
  rw [regroup, waiting, List.length_cons, run_recvfrom step, rest_eq]

/-- The handler reads everything that is waiting exactly when a slot is left over behind
it. -/
theorem absorbs_iff {pending : List (Datagram A)} {nread : Nat} (waiting : w.waiting = pending)
    (handling : w.server.handler = some nread) (runs : w.server.quit = false) :
    w.Absorbs ↔ w.server.nqueue + pending.length < QSIZE := by
  induction pending generalizing w nread with
  | nil =>
      rcases recvfrom_exists handling runs with ⟨v, step⟩
      have last : w.Absorbs ↔ v.server.quit = false ∧ v.server.handler = none ∧ v.waiting = [] ∧
          v.server.read = w.server.read := by
        unfold Absorbs
        rw [waiting, run_recvfrom step]
        simp
      rw [last]
      rcases recvfrom_cases step with ⟨nread', -, -, ⟨full, rfl⟩ | ⟨more, -, rfl⟩ |
        ⟨-, datagram, rest, some, -⟩⟩
      · refine iff_of_false (fun absorbed => by cases absorbed.1) ?_
        rw [List.length_nil]
        omega
      · refine iff_of_true ⟨runs, rfl, waiting, rfl⟩ ?_
        rw [List.length_nil]
        omega
      · rw [waiting] at some
        cases some
  | cons datagram rest ih =>
      rcases recvfrom_exists handling runs with ⟨v, step⟩
      rcases recvfrom_cases step with ⟨nread', -, -, ⟨full, rfl⟩ | ⟨-, none, -⟩ |
        ⟨-, first, others, waiting', rest_eq, -, -, handler, goes, nqueue, read, -⟩⟩
      · refine iff_of_false ?_ (by omega)
        rintro ⟨t, finished, running, -⟩
        -- Nothing happens behind the end of the process.
        rw [waiting, List.length_cons, run_recvfrom step, List.replicate_succ] at finished
        rcases (run_cons_eq_some_iff _ _ _ _ _).mp finished with ⟨u, more, -⟩
        rcases recvfrom_cases more with ⟨-, -, stopped, -⟩
        cases stopped
      · rw [waiting] at none
        cases none
      · rw [waiting] at waiting'
        cases waiting'
        rw [absorbs_of_read step waiting rest_eq read, ih rest_eq handler goes, nqueue,
          List.length_cons]
        omega

end Steps

/-! ## Every run -/

/-- For every arrival pattern and every point where `SIGIO` interrupts the main loop: the
program gives up only for want of a slot exactly when no iteration of the handler is
premature; and a handler that runs reads everything that is waiting exactly when a slot is
left over. -/
theorem patient_along_iff {clilen : Nat} {dg : Nat → DG A} {occurrences : List (Occurrence A)}
    {w : World A} (finished : run next (start clilen dg) occurrences = some w) :
    (Along next Patient (start clilen dg) occurrences ↔
        Meets next (fun w occurrence => ¬ w.Premature occurrence) (start clilen dg) occurrences) ∧
      ∀ nread, w.server.handler = some nread → w.server.quit = false →
        (w.Absorbs ↔ w.server.nqueue + w.waiting.length < QSIZE) := by
  constructor
  · apply along_iff_meets (fun _ _ _ inv patient step => inv.next patient step)
      (fun _ inv => inv.patient) _ (start_inv clilen dg) finished
    intro w occurrence v inv premature step
    rcases not_not.mp premature with ⟨rfl, early⟩
    exact (inv.recvfrom step).2 ⟨rfl, early⟩
  · intro nread handling runs
    exact absorbs_iff rfl handling runs

/-- So many datagrams come while the main loop waits, and the handler goes through so many
iterations. -/
def burst (count iterations : Nat) : List (Occurrence Nat) :=
  [.main, .main] ++ List.replicate count (.arrive ⟨[97], 1, 16⟩) ++ [.sigio] ++
    List.replicate iterations .recvfrom

/-- Seven datagrams leave a slot: the handler, which has read three, reads them all. -/
theorem patient_along_burst :
    ∃ w, run next (start 16 fun _ => ⟨[], 0, 0, 16⟩) (burst 7 3) = some w ∧
      Along next Patient (start 16 fun _ => ⟨[], 0, 0, 16⟩) (burst 7 3) ∧ w.Absorbs := by
  have outcome : (run next (start 16 fun _ => ⟨[], 0, 0, 16⟩) (burst 7 3)).map
      (fun w => (w.server.handler, w.server.quit, w.server.nqueue, w.waiting.length)) =
      some (some 3, false, 3, 4) := by
    decide +kernel
  rcases Option.map_eq_some_iff.mp outcome with ⟨w, finished, fields⟩
  simp only [Prod.mk.injEq] at fields
  rcases fields with ⟨handling, runs, nqueue, waiting⟩
  refine ⟨w, finished, (patient_along_iff finished).1.mpr (by decide +kernel), ?_⟩
  apply ((patient_along_iff finished).2 3 handling runs).mpr
  rw [nqueue, waiting]
  decide

/-- Eight datagrams, and no more, fill the ring and end the program. -/
theorem burst_overflows :
    ∃ w, run next (start 16 fun _ => ⟨[], 0, 0, 16⟩) (burst 8 9) = some w ∧
      w.overflow = true ∧ w.waiting = [] ∧ ¬ w.Patient := by
  have outcome : (run next (start 16 fun _ => ⟨[], 0, 0, 16⟩) (burst 8 9)).map
      (fun w => (w.overflow, w.waiting)) = some (true, []) := by
    decide +kernel
  rcases Option.map_eq_some_iff.mp outcome with ⟨w, finished, fields⟩
  rcases Prod.mk.inj fields with ⟨overflow, waiting⟩
  refine ⟨w, finished, overflow, waiting, fun patient => ?_⟩
  exact (patient.overflow overflow).1 waiting

end World

end NetPractice.SigioEcho
