import NetPractice.SigioEcho.Core
import NetPractice.Transition.Core

/-!
# The ring between the handler and the main loop

The handler fills the slot behind the last occupied one, and only while `nqueue` is less
than the size of the ring.  The main loop increments `iget` with the signal unblocked, and
decrements `nqueue` later, so that `nqueue` is one too large in between: it counts a slot
that has been sent, which only makes the handler more careful.
-/

namespace NetPractice.SigioEcho

open NetPractice.Memory
open NetPractice.Memory.Ring
open NetPractice.Transition

universe u

variable {A : Type u}

namespace Server

variable {s t : Server A}

/-- How `iget`, `iput` and `nqueue` describe the slots that are not sent: all `nqueue` slots
from `iget` on; without the first one behind `Sendto`; and one slot less between `++iget` and
`nqueue--`. -/
def Agrees (s : Server A) : Main → Prop
  | .setup | .testing | .suspended | .sending =>
      Occupies QSIZE s.iget s.nqueue.toNat s.iput s.unsent
  | .advancing => Occupies QSIZE s.iget s.nqueue.toNat s.iput (s.iget :: s.unsent)
  | .blocking | .decrementing =>
      1 ≤ s.nqueue ∧ Occupies QSIZE s.iget (s.nqueue - 1).toNat s.iput s.unsent

/-- Every datagram that was read is sent once and in order: those that are not sent are in
their slots, no slot of them is written, and the main loop, left to itself, sends them. -/
structure Echoes (s : Server A) : Prop where
  echoed : s.sent ++ s.unsent.map (fun slot => message (s.dg slot)) = s.read
  kept : s.handler ≠ none → s.nqueue < QSIZE → s.iput ∉ s.unsent
  bounds : 0 ≤ s.nqueue ∧ s.nqueue ≤ QSIZE ∧ s.iget < QSIZE ∧ s.iput < QSIZE
  agrees : s.Agrees s.main
  histogram : ∀ nread ∈ s.handler, nread ≤ QSIZE
  drains : s.quit = false → s.handler = none → ∃ (steps : Nat) (t : Server A),
    run next s (List.replicate steps .main) = some t ∧ t.sent = s.read ∧ t.main = .suspended

/-! ## The invariant -/

/-- The invariant behind `Echoes`. -/
structure Inv (s : Server A) : Prop where
  echoed : s.sent ++ s.unsent.map (fun slot => message (s.dg slot)) = s.read
  agrees : s.Agrees s.main
  inside : s.iget < QSIZE
  bounds : 0 ≤ s.nqueue ∧ s.nqueue ≤ QSIZE
  sending : s.main = .sending → 0 < s.nqueue
  suspended : s.main = .suspended → s.handler = none → s.nqueue = 0
  nread : ∀ nread ∈ s.handler, (nread : Int) ≤ s.nqueue

/-- The first slot that is not sent, and how many there are. -/
theorem Inv.occupies (inv : s.Inv) : ∃ (first count : Nat) (front : List Nat),
    first < QSIZE ∧ (count : Int) ≤ s.nqueue ∧
      Occupies QSIZE first count s.iput (front ++ s.unsent) := by
  have agrees := inv.agrees
  have bounds := inv.bounds
  cases main : s.main with
  | setup | testing | suspended | sending =>
      rw [main] at agrees
      exact ⟨s.iget, s.nqueue.toNat, [], inv.inside, by omega, agrees⟩
  | advancing =>
      rw [main] at agrees
      exact ⟨s.iget, s.nqueue.toNat, [s.iget], inv.inside, by omega, agrees⟩
  | blocking | decrementing =>
      rw [main] at agrees
      exact ⟨s.iget, (s.nqueue - 1).toNat, [], inv.inside, by omega, agrees.2⟩

/-- The slot that the handler writes is free. -/
theorem Inv.kept (inv : s.Inv) (more : s.nqueue < QSIZE) : s.iput ∉ s.unsent := by
  rcases inv.occupies with ⟨first, count, front, -, most, occupies⟩
  intro mem
  have less : count < QSIZE := by omega
  exact occupies.free less (List.mem_append_right front mem)

theorem Inv.iput_lt (inv : s.Inv) : s.iput < QSIZE := by
  rcases inv.occupies with ⟨first, count, front, inside, most, occupies⟩
  have bounds := inv.bounds
  rw [occupies.fill]
  exact slotAt_lt inside (by omega)

theorem start_inv (clilen : Nat) (dg : Nat → DG A) : (start clilen dg).Inv where
  echoed := rfl
  agrees := occupies_empty (Nat.succ_pos 7)
  inside := Nat.succ_pos 7
  bounds := ⟨Int.le_refl 0, Int.natCast_nonneg QSIZE⟩
  sending main := by cases main
  suspended main := by cases main
  nread _ mem := by cases mem

/-! ## The handler -/

/-- What is written to a free slot leaves the other messages alone. -/
theorem messages_update {slot : Nat} (free : slot ∉ s.unsent) (ptr : DG A) :
    s.unsent.map (fun other => message (Function.update s.dg slot ptr other)) =
      s.unsent.map fun other => message (s.dg other) := by
  apply List.map_congr_left
  intro other mem
  have different : other ≠ slot := fun equal => free (equal ▸ mem)
  rw [Function.update_of_ne different]

theorem Agrees.push (agrees : s.Agrees s.main) (inside : s.iget < QSIZE) (lower : 0 ≤ s.nqueue)
    (more : s.nqueue < QSIZE) (same : t.main = s.main) (iget : t.iget = s.iget)
    (nqueue : t.nqueue = s.nqueue + 1) (iput : t.iput = Ring.advance QSIZE s.iput)
    (unsent : t.unsent = s.unsent ++ [s.iput]) : t.Agrees t.main := by
  have counted : (s.nqueue + 1).toNat = s.nqueue.toNat + 1 := by omega
  have less : s.nqueue.toNat < QSIZE := by omega
  rw [same]
  cases main : s.main with
  | setup | testing | suspended | sending =>
      rw [main] at agrees
      unfold Agrees
      rw [iget, nqueue, iput, unsent, counted]
      exact Occupies.push agrees inside less
  | advancing =>
      rw [main] at agrees
      unfold Agrees
      rw [iget, nqueue, iput, unsent, counted]
      exact Occupies.push agrees inside less
  | blocking | decrementing =>
      rw [main] at agrees
      rcases agrees with ⟨positive, occupies⟩
      have lagging : (s.nqueue + 1 - 1).toNat = (s.nqueue - 1).toNat + 1 := by omega
      unfold Agrees
      rw [iget, nqueue, iput, unsent, lagging]
      constructor
      · omega
      · exact occupies.push inside (by omega)

theorem message_store (s : Server A) (received : Datagram A) :
    message ((s.store received).dg s.iput) = received := by
  have stored : (s.store received).dg s.iput = ⟨received.data ++ _, _, _, _⟩ :=
    Function.update_self _ _ _
  rw [stored, message, List.take_left]

/-- The main loop goes to another statement. -/
theorem Inv.moves {main : Main} (inv : s.Inv) (agrees : s.Agrees main)
    (sending : main = .sending → 0 < s.nqueue)
    (suspended : main = .suspended → s.handler = none → s.nqueue = 0) :
    Inv { s with main := main } where
  echoed := inv.echoed
  agrees := agrees
  inside := inv.inside
  bounds := inv.bounds
  sending := sending
  suspended := suspended
  nread := inv.nread

/-- An error ends the process. -/
theorem Inv.quits (inv : s.Inv) : Inv { s with quit := true } :=
  ⟨inv.echoed, inv.agrees, inv.inside, inv.bounds, inv.sending, inv.suspended, inv.nread⟩

theorem Inv.handled (inv : s.Inv) (kept : s.iput ∉ s.unsent) (nread : Nat) :
    (s.handled nread).Inv := by
  have main_eq : (s.handled nread).main = if s.main = .suspended then .testing else s.main := rfl
  constructor
  · change s.sent ++ s.unsent.map (fun slot => message (Function.update s.dg s.iput _ slot)) = _
    rw [messages_update kept]
    exact inv.echoed
  · have agrees := inv.agrees
    rw [main_eq]
    split
    next suspended =>
      rw [suspended] at agrees
      exact agrees
    next => cases main : s.main <;> rw [main] at agrees <;> exact agrees
  · exact inv.inside
  · exact inv.bounds
  · rw [main_eq]
    split
    · nofun
    · exact inv.sending
  · rw [main_eq]
    split
    next => nofun
    next awake => exact fun suspended _ => absurd suspended awake
  · nofun

theorem Inv.handlerStep {nread : Nat} {answer : Received A} (inv : s.Inv)
    (handling : s.handler = some nread) (step : s.handlerStep nread answer = some t) : t.Inv := by
  unfold Server.handlerStep at step
  have most := inv.nread nread handling
  have bounds := inv.bounds
  split at step
  next =>
    cases step
    exact inv.quits
  next notFull =>
    have more : s.nqueue < QSIZE := Int.not_le.mp notFull
    have kept := inv.kept more
    cases answer with
    | datagram received =>
        rcases guarded_eq_some_iff.mp step with ⟨-, rfl⟩
        constructor
        · change s.sent ++ (s.unsent ++ [s.iput]).map (fun slot =>
            message ((s.store received).dg slot)) = s.read ++ [received]
          rw [List.map_append, List.map_singleton, message_store, ← inv.echoed, List.append_assoc]
          congr 2
          exact messages_update kept _
        · exact inv.agrees.push inv.inside bounds.1 more rfl rfl rfl rfl rfl
        · exact inv.inside
        · dsimp only
          omega
        · intro main
          dsimp only
          omega
        · nofun
        · intro count mem
          cases mem
          dsimp only
          omega
    | again =>
        cases step
        exact inv.handled kept nread
    | fail =>
        cases step
        exact inv.quits

/-! ## The main loop -/

/-- `Sendto`: the oldest datagram goes out, and its slot is still counted. -/
theorem Inv.sends (inv : s.Inv) (main : s.main = .sending) :
    Inv { s with
      main := .advancing
      sent := s.sent ++ [message (s.dg s.iget)]
      unsent := s.unsent.erase s.iget } := by
  have bounds := inv.bounds
  have positive := inv.sending main
  have occupies : Occupies QSIZE s.iget s.nqueue.toNat s.iput s.unsent := by
    have agrees := inv.agrees
    rw [main] at agrees
    exact agrees
  have front : s.unsent =
      s.iget :: slots QSIZE (Ring.advance QSIZE s.iget) (s.nqueue.toNat - 1) := by
    have counted : s.nqueue.toNat = (s.nqueue.toNat - 1) + 1 := by omega
    rw [counted] at occupies
    exact occupies.cons inv.inside (by omega)
  have rest : s.iget :: s.unsent.erase s.iget = s.unsent := by
    rw [front, List.erase_cons_head]
  constructor
  · change (s.sent ++ [message (s.dg s.iget)]) ++ (s.unsent.erase s.iget).map _ = s.read
    rw [List.append_assoc, List.singleton_append,
      ← List.map_cons (f := fun slot => message (s.dg slot)), rest]
    exact inv.echoed
  · change Occupies QSIZE s.iget s.nqueue.toNat s.iput (s.iget :: s.unsent.erase s.iget)
    rw [rest]
    exact occupies
  · exact inv.inside
  · exact bounds
  · nofun
  · nofun
  · exact inv.nread

/-- `++iget`: from here on `nqueue` counts one slot too many. -/
theorem Inv.advances (inv : s.Inv) (main : s.main = .advancing) :
    Inv { s with main := .blocking, iget := Ring.advance QSIZE s.iget } := by
  have bounds := inv.bounds
  have occupies : Occupies QSIZE s.iget s.nqueue.toNat s.iput (s.iget :: s.unsent) := by
    have agrees := inv.agrees
    rw [main] at agrees
    exact agrees
  have counted : s.unsent.length + 1 = s.nqueue.toNat := by
    rw [← List.length_cons, occupies.occupied, length_slots]
  have lagging : (s.nqueue - 1).toNat = s.unsent.length := by omega
  rw [← counted] at occupies
  constructor
  · exact inv.echoed
  · refine ⟨by dsimp only; omega, ?_⟩
    dsimp only
    rw [lagging]
    exact occupies.pop inv.inside (by omega)
  · exact advance_lt (Nat.succ_pos 7) s.iget
  · exact bounds
  · nofun
  · nofun
  · exact inv.nread

/-- `nqueue--`, which no handler interrupts: `nqueue` counts the unsent slots again. -/
theorem Inv.decrements (inv : s.Inv) (idle : s.handler = none) (main : s.main = .decrementing) :
    Inv { s with main := .testing, nqueue := s.nqueue - 1 } := by
  have bounds := inv.bounds
  have agrees := inv.agrees
  rw [main] at agrees
  rcases agrees with ⟨positive, occupies⟩
  constructor
  · exact inv.echoed
  · exact occupies
  · exact inv.inside
  · dsimp only
    omega
  · nofun
  · nofun
  · intro nread mem
    rw [idle] at mem
    cases mem

theorem Inv.mainStep (inv : s.Inv) (idle : s.handler = none) (step : s.mainStep = some t) :
    t.Inv := by
  have agrees := inv.agrees
  have bounds := inv.bounds
  unfold Server.mainStep at step
  cases main : s.main with
  | setup =>
      rw [main] at step agrees
      cases step
      exact inv.moves agrees nofun nofun
  | testing =>
      rw [main] at step agrees
      cases step
      by_cases empty : s.nqueue = 0
      · rw [if_pos empty]
        exact inv.moves agrees nofun fun _ _ => empty
      · rw [if_neg empty]
        apply inv.moves
        · exact agrees
        · intro _
          omega
        · nofun
  | suspended =>
      rw [main] at step
      cases step
  | sending =>
      rw [main] at step
      cases step
      exact inv.sends main
  | advancing =>
      rw [main] at step
      cases step
      exact inv.advances main
  | blocking =>
      rw [main] at step agrees
      cases step
      exact inv.moves agrees nofun nofun
  | decrementing =>
      rw [main] at step
      cases step
      exact inv.decrements idle main

theorem Inv.next {event : Event A} (inv : s.Inv) (step : s.next event = some t) : t.Inv := by
  unfold Server.next at step
  rcases Option.ite_none_left_eq_some.mp step with ⟨-, taken⟩
  split at taken
  next idle => exact inv.mainStep idle taken
  next idle =>
    rcases guarded_eq_some_iff.mp taken with ⟨unblocked, rfl⟩
    refine ⟨inv.echoed, inv.agrees, inv.inside, inv.bounds, inv.sending, nofun, ?_⟩
    intro nread mem
    cases mem
    exact inv.bounds.1
  next idle =>
    rcases guarded_eq_some_iff.mp taken with ⟨suspended, rfl⟩
    have agrees := inv.agrees
    rw [suspended] at agrees
    exact inv.moves agrees nofun nofun
  next idle =>
    rcases guarded_eq_some_iff.mp taken with ⟨-, rfl⟩
    exact inv.quits
  next nread answer handling => exact inv.handlerStep handling taken
  next => cases taken

/-! ## The main loop left to itself -/

/-- How far a statement is from the end of its round. -/
def rank : Main → Nat
  | .setup => 6
  | .testing => 5
  | .sending => 4
  | .advancing => 3
  | .blocking => 2
  | .decrementing => 1
  | .suspended => 0

/-- A bound of the number of statements until the main loop waits. -/
def work (s : Server A) : Nat :=
  6 * s.nqueue.toNat + rank s.main

theorem Inv.mainStep_work (inv : s.Inv) (awake : s.main ≠ .suspended) :
    ∃ t, s.mainStep = some t ∧ t.quit = s.quit ∧ t.handler = s.handler ∧ t.read = s.read ∧
      t.work < s.work := by
  have agrees := inv.agrees
  unfold Server.mainStep work
  cases main : s.main with
  | suspended => exact absurd main awake
  | testing =>
      refine ⟨_, rfl, rfl, rfl, rfl, ?_⟩
      dsimp only
      split <;> exact Nat.add_lt_add_left (by decide) _
  | decrementing =>
      rw [main] at agrees
      refine ⟨_, rfl, rfl, rfl, rfl, ?_⟩
      have positive := agrees.1
      change 6 * (s.nqueue - 1).toNat + 5 < 6 * s.nqueue.toNat + 1
      omega
  | setup | sending | advancing | blocking =>
      exact ⟨_, rfl, rfl, rfl, rfl, Nat.lt_succ_self _⟩

/-- When the main loop waits, everything is sent. -/
theorem Inv.sent_eq (inv : s.Inv) (suspended : s.main = .suspended) (idle : s.handler = none) :
    s.sent = s.read := by
  have agrees := inv.agrees
  rw [suspended] at agrees
  have occupies : Occupies QSIZE s.iget s.nqueue.toNat s.iput s.unsent := agrees
  have none : s.unsent = [] := by
    rw [occupies.occupied, inv.suspended suspended idle]
    rfl
  rw [← inv.echoed, none]
  exact (List.append_nil _).symm

theorem Inv.drains (bound : Nat) (inv : s.Inv) (most : s.work ≤ bound) (runs : s.quit = false)
    (idle : s.handler = none) : ∃ (steps : Nat) (t : Server A),
      run Server.next s (List.replicate steps .main) = some t ∧ t.sent = s.read ∧
        t.main = .suspended := by
  induction bound generalizing s with
  | zero =>
      by_cases suspended : s.main = .suspended
      · exact ⟨0, s, rfl, inv.sent_eq suspended idle, suspended⟩
      · rcases inv.mainStep_work suspended with ⟨t, -, -, -, -, less⟩
        omega
  | succ bound ih =>
      by_cases suspended : s.main = .suspended
      · exact ⟨0, s, rfl, inv.sent_eq suspended idle, suspended⟩
      · rcases inv.mainStep_work suspended with ⟨t, moved, quit, handler, read, less⟩
        have step : s.next .main = some t := by
          unfold Server.next
          rw [runs, idle]
          exact moved
        rcases ih (inv.next step) (by omega) (quit.trans runs) (handler.trans idle) with
          ⟨steps, u, rest, sent, waits⟩
        refine ⟨steps + 1, u, ?_, sent.trans read, waits⟩
        rw [List.replicate_succ]
        exact (run_cons_of_step step _).trans rest

theorem Inv.echoes (inv : s.Inv) : Echoes s where
  echoed := inv.echoed
  kept _ more := inv.kept more
  bounds := ⟨inv.bounds.1, inv.bounds.2, inv.inside, inv.iput_lt⟩
  agrees := inv.agrees
  histogram nread mem := by
    have lower := inv.nread nread mem
    have upper := inv.bounds.2
    omega
  drains runs idle := inv.drains s.work (Nat.le_refl _) runs idle

end Server

/-- For every arrival pattern and every point where `SIGIO` interrupts the main loop: every
datagram that was read is sent back once and in order, no slot is written before its
datagram is sent, and `iget`, `iput` and `nqueue` agree on the occupied slots. -/
theorem sigioEcho_echoes {clilen : Nat} {dg : Nat → DG A} {events : List (Event A)}
    {s : Server A} (finished : run Server.next (Server.start clilen dg) events = some s) :
    Server.Echoes s :=
  (invariant_run (fun _ _ _ inv step => inv.next step) (Server.start_inv clilen dg) finished).echoes

/-- The first datagram wakes the server up; two others arrive in front of its `Sendto`, and
another one between `++iget` and `nqueue--`. -/
def interrupted : List (Event Nat) :=
  [.main, .main, .sigio, .recvfrom (.datagram ⟨[97], 1, 16⟩), .recvfrom .again, .main, .sigio,
    .recvfrom (.datagram ⟨[98], 2, 16⟩), .recvfrom (.datagram ⟨[], 1, 16⟩), .recvfrom .again,
    .main, .main, .sigio, .recvfrom (.datagram ⟨[99], 3, 16⟩), .recvfrom .again, .main, .main,
    .main, .main]

theorem sigioEcho_interrupted :
    ∃ s, run Server.next (Server.start 16 fun _ => ⟨[], 0, 0, 16⟩) interrupted = some s ∧
      s.sent = [⟨[97], 1, 16⟩, ⟨[98], 2, 16⟩] ∧ s.unsent = [2, 3] ∧ Server.Echoes s := by
  have outcome : (run Server.next (Server.start 16 fun _ => ⟨[], 0, 0, 16⟩) interrupted).map
      (fun s => (s.sent, s.unsent)) = some ([⟨[97], 1, 16⟩, ⟨[98], 2, 16⟩], [2, 3]) := by
    decide +kernel
  rcases Option.map_eq_some_iff.mp outcome with ⟨s, finished, fields⟩
  rcases Prod.mk.inj fields with ⟨sent, unsent⟩
  exact ⟨s, finished, sent, unsent, sigioEcho_echoes finished⟩

end NetPractice.SigioEcho
