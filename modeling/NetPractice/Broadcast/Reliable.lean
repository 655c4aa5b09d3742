import NetPractice.Broadcast.Core

/-!
# Alarms that are not lost

With `pselect` the signal is blocked until the client waits, and a handler that writes to a
pipe leaves something to be read.  In both versions the client stops waiting when its alarm
is over, no alarm is left for the next line, and no reply is lost.
-/

namespace NetPractice.Broadcast

open NetPractice.Transition

/-! ## pselect -/

namespace Pselect

/-- The reply that has been received and not yet printed. -/
def Pc.hand : Pc → List Nat
  | .print r => [r]
  | .fgets | .sendto | .block | .alarm | .pselect | .recvfrom | .returned => []

/-- The statements that are executed without a reply more, where a reply in the buffer takes
three. -/
def Pc.left : Pc → Nat
  | .sendto => 4
  | .block => 3
  | .alarm | .print _ => 2
  | .pselect => 1
  | .fgets | .recvfrom | .returned => 0

/-- In front of a statement: the alarm runs or its signal is pending in the inner loop only,
and there the signal is blocked. -/
def Pc.Fits (c : Client Pc) : Pc → Prop
  | .fgets | .sendto | .block | .returned => c.timer = false ∧ c.pending = false
  | .alarm => c.timer = false ∧ c.pending = false ∧ c.masked = true
  | .pselect | .print _ => c.timer = !c.pending ∧ c.masked = true
  | .recvfrom => c.timer = !c.pending ∧ c.masked = true ∧ c.queue ≠ []

/-- The invariant. -/
structure Consistent (c : Client Pc) : Prop where
  conserved : c.printed ++ c.pc.hand ++ c.queue = c.arrived
  fits : c.pc.Fits c

/-- The client waits for something else to happen. -/
def Rests (c : Client Pc) : Prop :=
  next c .client = none ∧ next c .interrupt = none

section Steps

variable {c t : Client Pc}

theorem Consistent.client (consistent : Consistent c) (step : client c = some t) :
    Consistent t ∧ 3 * t.queue.length + t.pc.left < 3 * c.queue.length + c.pc.left := by
  rcases consistent with ⟨conserved, fits⟩
  unfold Pselect.client at step
  cases pc : c.pc with
  | fgets | returned =>
      rw [pc] at step
      cases step
  | sendto =>
      rw [pc] at step fits conserved
      cases step
      exact ⟨⟨conserved, fits⟩, Nat.lt_succ_self _⟩
  | block =>
      rw [pc] at step fits conserved
      cases step
      exact ⟨⟨conserved, fits.1, fits.2, rfl⟩, Nat.lt_succ_self _⟩
  | alarm =>
      rw [pc] at step fits conserved
      rcases fits with ⟨-, pending, masked⟩
      cases step
      refine ⟨⟨conserved, ?_, masked⟩, Nat.lt_succ_self _⟩
      change true = !c.pending
      rw [pending]
      rfl
  | pselect =>
      rw [pc] at step fits conserved
      rcases refused_eq_some_iff.mp step with ⟨some, moved⟩
      cases moved
      exact ⟨⟨conserved, fits.1, fits.2, some⟩, Nat.lt_succ_self _⟩
  | recvfrom =>
      rw [pc] at step fits conserved
      rcases fits with ⟨timer, masked, some⟩
      cases queue : c.queue with
      | nil => exact absurd queue some
      | cons r rest =>
          rw [queue] at step conserved
          cases step
          refine ⟨⟨?_, timer, masked⟩, ?_⟩
          · rw [← conserved]
            simp [Pc.hand]
          · change 3 * rest.length + 2 < 3 * (rest.length + 1) + 0
            omega
  | print r =>
      rw [pc] at step fits conserved
      cases step
      refine ⟨⟨?_, fits⟩, Nat.lt_succ_self _⟩
      rw [← conserved]
      simp [Pc.hand]

theorem Consistent.interrupt (consistent : Consistent c) (step : next c .interrupt = some t) :
    Consistent t ∧ 3 * t.queue.length + t.pc.left < 3 * c.queue.length + c.pc.left := by
  rcases guarded_eq_some_iff.mp step with ⟨⟨pc, pending⟩, moved⟩
  rcases consistent with ⟨conserved, fits⟩
  rw [pc] at conserved fits ⊢
  rcases fits with ⟨timer, masked⟩
  rw [pending] at timer
  cases moved
  exact ⟨⟨conserved, timer, rfl⟩, Nat.lt_succ_self _⟩

/-- The alarm that runs is one of the inner loop. -/
theorem Consistent.expire (consistent : Consistent c) (running : c.timer = true) :
    Consistent { c with timer := false, pending := c.masked } := by
  rcases consistent with ⟨conserved, fits⟩
  refine ⟨conserved, ?_⟩
  change c.pc.Fits _
  cases pc : c.pc with
  | fgets | sendto | block | alarm | returned =>
      rw [pc] at fits
      have stopped := fits.1
      rw [running] at stopped
      cases stopped
  | pselect | print r =>
      rw [pc] at fits
      exact ⟨by rw [fits.2]; rfl, fits.2⟩
  | recvfrom =>
      rw [pc] at fits
      exact ⟨by rw [fits.2.1]; rfl, fits.2⟩

theorem Consistent.receive (consistent : Consistent c) (r : Nat) : Consistent (c.receive r) := by
  rcases consistent with ⟨conserved, fits⟩
  constructor
  · change c.printed ++ c.pc.hand ++ (c.queue ++ [r]) = c.arrived ++ [r]
    rw [← List.append_assoc, conserved]
  · change c.pc.Fits _
    cases pc : c.pc with
    | fgets | sendto | block | alarm | returned | pselect | print q =>
        rw [pc] at fits
        exact fits
    | recvfrom =>
        rw [pc] at fits
        exact ⟨fits.1, fits.2.1,
          List.append_ne_nil_of_right_ne_nil c.queue (List.cons_ne_nil r [])⟩

theorem Consistent.next {event : Event} (consistent : Consistent c)
    (step : next c event = some t) : Consistent t := by
  cases event with
  | client => exact (consistent.client step).1
  | interrupt => exact (consistent.interrupt step).1
  | input more =>
      rcases guarded_eq_some_iff.mp step with ⟨pc, moved⟩
      rcases consistent with ⟨conserved, fits⟩
      rw [pc] at conserved fits
      cases moved
      cases more <;> exact ⟨conserved, fits⟩
  | reply r =>
      cases step
      exact consistent.receive r
  | expire =>
      rcases guarded_eq_some_iff.mp step with ⟨running, moved⟩
      cases moved
      exact consistent.expire running

theorem start_consistent : Consistent (start .fgets) :=
  ⟨rfl, rfl, rfl⟩

theorem Consistent.rests (consistent : Consistent c) (rests : Rests c) :
    c.pc = .fgets ∨ c.pc = .returned ∨ c.pc = .pselect ∧ c.timer = true := by
  rcases rests with ⟨noStep, noInterrupt⟩
  have fits := consistent.fits
  change Pselect.client c = none at noStep
  unfold Pselect.client at noStep
  cases pc : c.pc with
  | fgets => exact .inl rfl
  | returned => exact .inr (.inl rfl)
  | sendto | block | alarm | print r =>
      rw [pc] at noStep
      cases noStep
  | recvfrom =>
      rw [pc] at noStep fits
      cases queue : c.queue with
      | nil => exact absurd queue fits.2.2
      | cons r rest =>
          rw [queue] at noStep
          cases noStep
  | pselect =>
      rw [pc] at fits
      refine .inr (.inr ⟨rfl, ?_⟩)
      cases pending : c.pending with
      | true =>
          rw [Pselect.next, if_pos ⟨pc, pending⟩] at noInterrupt
          cases noInterrupt
      | false => rw [fits.1, pending]; rfl

theorem Consistent.own_le (consistent : Consistent c) {own : List Event}
    (ours : ∀ event ∈ own, event = .client ∨ event = .interrupt)
    (finished : run Pselect.next c own = some t) :
    own.length ≤ 3 * c.queue.length + c.pc.left := by
  induction own generalizing c with
  | nil => exact Nat.zero_le _
  | cons event own ih =>
      rcases (run_cons_eq_some_iff _ _ _ _ _).mp finished with ⟨middle, step, rest⟩
      have less : 3 * middle.queue.length + middle.pc.left < 3 * c.queue.length + c.pc.left := by
        rcases ours event List.mem_cons_self with rfl | rfl
        · exact (consistent.client step).2
        · exact (consistent.interrupt step).2
      have bound := ih (consistent.next step)
        (fun other mem => ours other (List.mem_cons_of_mem event mem)) rest
      rw [List.length_cons]
      omega

theorem left_le (pc : Pc) : pc.left ≤ 4 := by
  cases pc <;> exact Nat.le_of_ble_eq_true rfl

/-- The version with `pselect`: every reply is printed, in order, or still in the buffer.
When nothing more arrives the client comes to rest, and then it has returned to `Fgets`, or its
alarm is still running.  No alarm is left for the next line. -/
theorem pselect_reliable {events : List Event}
    (finished : run Pselect.next (start .fgets) events = some c) :
    c.printed ++ c.pc.hand ++ c.queue = c.arrived ∧
      (c.pc = .fgets → c.timer = false ∧ c.pending = false) ∧
      (Rests c → c.pc = .fgets ∨ c.pc = .returned ∨ c.pc = .pselect ∧ c.timer = true) ∧
      ∀ own t, (∀ event ∈ own, event = .client ∨ event = .interrupt) →
        run Pselect.next c own = some t → own.length ≤ 3 * c.queue.length + 4 := by
  have consistent := invariant_run (fun _ _ _ consistent => Consistent.next consistent)
    start_consistent finished
  refine ⟨consistent.conserved, ?_, consistent.rests, ?_⟩
  · intro pc
    have fits := consistent.fits
    rw [pc] at fits
    exact fits
  · intro own t ours ran
    have bound := consistent.own_le ours ran
    have most := left_le c.pc
    omega

/-- The alarm expires while a reply is printed. -/
theorem pselect_reliable_printing :
    let events := [.input true, .client, .client, .client, .reply 7, .client, .client, .expire]
    ∃ c, run Pselect.next (start .fgets) events = some c ∧ c.pc = .print 7 ∧
      ∀ own t, (∀ event ∈ own, event = .client ∨ event = .interrupt) →
        run Pselect.next c own = some t → own.length ≤ 4 := by
  intro events
  have finished : run Pselect.next (start .fgets) events =
      some ⟨.print 7, false, true, true, [], [7], []⟩ := by decide
  exact ⟨_, finished, rfl, (pselect_reliable finished).2.2.2⟩

end Steps

end Pselect

/-! ## The signal handler writes to a pipe -/

namespace Piped

/-- The reply that has been received and not yet printed. -/
def Pc.hand : Pc → List Nat
  | .print r _ => [r]
  | .fgets | .sendto | .alarm | .select | .isset _ _ | .recvfrom _ | .issetPipe _ | .read
  | .returned => []

/-- The statements up to `Fgets`, once there is a byte in the pipe. -/
def Pc.left : Pc → Nat
  | .read => 1
  | .issetPipe true => 2
  | .print _ true | .isset false true => 3
  | .recvfrom true => 4
  | .isset true true => 5
  | .select => 6
  | .issetPipe false => 7
  | .print _ false | .isset false false => 8
  | .recvfrom false => 9
  | .isset true false => 10
  | .fgets | .sendto | .alarm | .returned => 0

/-- There is a byte in the pipe when the alarm is over. -/
def Armed (p : Program) : Prop :=
  p.pipe = if p.toClient.timer then 0 else 1

/-- In front of a statement: outside the inner loop there is no alarm, and `rset` is true of
what can be read. -/
def Pc.Fits (p : Program) : Pc → Prop
  | .fgets | .sendto | .alarm | .returned => p.toClient.timer = false ∧ p.pipe = 0
  | .select => Armed p
  | .isset sockfd pipefd =>
      Armed p ∧ (pipefd = true → p.pipe = 1) ∧ (sockfd = true → p.toClient.queue ≠ [])
  | .recvfrom pipefd => Armed p ∧ (pipefd = true → p.pipe = 1) ∧ p.toClient.queue ≠ []
  | .print _ pipefd | .issetPipe pipefd => Armed p ∧ (pipefd = true → p.pipe = 1)
  | .read => Armed p ∧ p.pipe = 1

/-- The invariant. -/
structure Consistent (p : Program) : Prop where
  conserved : p.toClient.printed ++ p.toClient.pc.hand ++ p.toClient.queue = p.toClient.arrived
  fits : p.toClient.pc.Fits p

section Steps

variable {p t : Program}

theorem Armed.of_pipe (armed : Armed p) (some : p.pipe ≠ 0) :
    p.toClient.timer = false ∧ p.pipe = 1 := by
  unfold Armed at armed
  cases timer : p.toClient.timer with
  | true =>
      rw [timer] at armed
      exact absurd armed some
  | false =>
      rw [timer] at armed
      exact ⟨rfl, armed⟩

/-- A statement of the client.  With a byte in the pipe it is one less to come. -/
theorem Consistent.client (consistent : Consistent p) (step : client p = some t) :
    Consistent t ∧
      (p.pipe ≠ 0 → t.toClient.pc = .fgets ∨
        t.pipe = p.pipe ∧ t.toClient.pc.left < p.toClient.pc.left) := by
  rcases consistent with ⟨conserved, fits⟩
  unfold Piped.client at step
  dsimp only at step
  cases pc : p.toClient.pc with
  | fgets | returned =>
      rw [pc] at step
      cases step
  | sendto =>
      rw [pc] at step fits conserved
      cases step
      exact ⟨⟨conserved, fits⟩, fun some => absurd fits.2 some⟩
  | alarm =>
      rw [pc] at step fits conserved
      cases step
      exact ⟨⟨conserved, fits.2⟩, fun some => absurd fits.2 some⟩
  | select =>
      rw [pc] at step fits conserved
      rcases refused_eq_some_iff.mp step with ⟨-, moved⟩
      cases moved
      refine ⟨⟨conserved, fits, ?_, of_decide_eq_true⟩, ?_⟩
      · intro some
        exact (fits.of_pipe (of_decide_eq_true some)).2
      · intro some
        refine .inr ⟨rfl, ?_⟩
        change (Pc.isset _ (decide (p.pipe ≠ 0))).left < 6
        rw [decide_eq_true some]
        cases decide (p.toClient.queue ≠ []) <;> decide
  | isset sockfd pipefd =>
      rw [pc] at step fits conserved
      rcases fits with ⟨armed, piped, ready⟩
      cases step
      cases sockfd with
      | true =>
          refine ⟨⟨conserved, armed, piped, ready rfl⟩, fun _ => .inr ⟨rfl, ?_⟩⟩
          cases pipefd <;> exact Nat.lt_succ_self _
      | false =>
          refine ⟨⟨conserved, armed, piped⟩, fun _ => .inr ⟨rfl, ?_⟩⟩
          cases pipefd <;> exact Nat.lt_succ_self _
  | recvfrom pipefd =>
      rw [pc] at step fits conserved
      rcases fits with ⟨armed, piped, some⟩
      cases queue : p.toClient.queue with
      | nil => exact absurd queue some
      | cons r rest =>
          rw [queue] at step conserved
          cases step
          refine ⟨⟨?_, armed, piped⟩, fun _ => .inr ⟨rfl, ?_⟩⟩
          · rw [← conserved]
            simp [Pc.hand]
          · cases pipefd <;> exact Nat.lt_succ_self _
  | print r pipefd =>
      rw [pc] at step fits conserved
      cases step
      refine ⟨⟨?_, fits⟩, fun _ => .inr ⟨rfl, ?_⟩⟩
      · rw [← conserved]
        simp [Pc.hand]
      · cases pipefd <;> exact Nat.lt_succ_self _
  | issetPipe pipefd =>
      rw [pc] at step fits conserved
      rcases fits with ⟨armed, piped⟩
      cases step
      cases pipefd with
      | true => exact ⟨⟨conserved, armed, piped rfl⟩, fun _ => .inr ⟨rfl, Nat.lt_succ_self _⟩⟩
      | false => exact ⟨⟨conserved, armed⟩, fun _ => .inr ⟨rfl, Nat.lt_succ_self _⟩⟩
  | read =>
      rw [pc] at step fits conserved
      rcases fits with ⟨armed, one⟩
      rw [one, if_neg Nat.one_ne_zero] at step
      cases step
      have some : p.pipe ≠ 0 := by omega
      exact ⟨⟨conserved, (armed.of_pipe some).1, rfl⟩, fun _ => .inl rfl⟩

/-- The signal handler writes one byte. -/
theorem Consistent.expire (consistent : Consistent p) (running : p.toClient.timer = true) :
    Consistent ⟨{ p.toClient with timer := false }, p.pipe + 1⟩ := by
  rcases consistent with ⟨conserved, fits⟩
  have fires : Armed p → Armed ⟨{ p.toClient with timer := false }, p.pipe + 1⟩ := by
    intro armed
    rw [Armed, running] at armed
    rw [Armed, armed]
    rfl
  have unread : ∀ pipefd : Bool, Armed p → (pipefd = true → p.pipe = 1) →
      (pipefd = true → p.pipe + 1 = 1) := by
    intro pipefd armed piped equal
    have one := piped equal
    rw [Armed, running, one] at armed
    cases armed
  refine ⟨conserved, ?_⟩
  change p.toClient.pc.Fits _
  cases pc : p.toClient.pc with
  | fgets | sendto | alarm | returned =>
      rw [pc] at fits
      have stopped := fits.1
      rw [running] at stopped
      cases stopped
  | select =>
      rw [pc] at fits
      exact fires fits
  | isset sockfd pipefd =>
      rw [pc] at fits
      exact ⟨fires fits.1, unread pipefd fits.1 fits.2.1, fits.2.2⟩
  | recvfrom pipefd =>
      rw [pc] at fits
      exact ⟨fires fits.1, unread pipefd fits.1 fits.2.1, fits.2.2⟩
  | print r pipefd | issetPipe pipefd =>
      rw [pc] at fits
      exact ⟨fires fits.1, unread pipefd fits.1 fits.2⟩
  | read =>
      rw [pc] at fits
      exact ⟨fires fits.1, unread true fits.1 (fun _ => fits.2) rfl⟩

theorem Consistent.receive (consistent : Consistent p) (r : Nat) :
    Consistent { p with toClient := p.toClient.receive r } := by
  rcases consistent with ⟨conserved, fits⟩
  have some : p.toClient.queue ++ [r] ≠ [] :=
    List.append_ne_nil_of_right_ne_nil _ (List.cons_ne_nil r [])
  constructor
  · change p.toClient.printed ++ p.toClient.pc.hand ++ (p.toClient.queue ++ [r]) =
      p.toClient.arrived ++ [r]
    rw [← List.append_assoc, conserved]
  · change p.toClient.pc.Fits _
    cases pc : p.toClient.pc with
    | isset sockfd pipefd =>
        rw [pc] at fits
        exact ⟨fits.1, fits.2.1, fun _ => some⟩
    | recvfrom pipefd =>
        rw [pc] at fits
        exact ⟨fits.1, fits.2.1, some⟩
    | fgets | sendto | alarm | returned | select | print q pipefd | issetPipe pipefd | read =>
        rw [pc] at fits
        exact fits

theorem Consistent.next {event : Event} (consistent : Consistent p)
    (step : next p event = some t) : Consistent t := by
  cases event with
  | client => exact (consistent.client step).1
  | interrupt => cases step
  | input more =>
      rcases guarded_eq_some_iff.mp step with ⟨pc, moved⟩
      rcases consistent with ⟨conserved, fits⟩
      rw [pc] at conserved fits
      cases moved
      cases more <;> exact ⟨conserved, fits⟩
  | reply r =>
      cases step
      exact consistent.receive r
  | expire =>
      rcases guarded_eq_some_iff.mp step with ⟨running, moved⟩
      cases moved
      exact consistent.expire running

theorem start_consistent : Consistent ⟨start .fgets, 0⟩ :=
  ⟨rfl, rfl, rfl⟩

theorem Consistent.rests (consistent : Consistent p) (rests : Piped.next p .client = none) :
    p.toClient.pc = .fgets ∨ p.toClient.pc = .returned ∨
      p.toClient.pc = .select ∧ p.toClient.timer = true := by
  have fits := consistent.fits
  change Piped.client p = none at rests
  unfold Piped.client at rests
  dsimp only at rests
  cases pc : p.toClient.pc with
  | fgets => exact .inl rfl
  | returned => exact .inr (.inl rfl)
  | sendto | alarm | isset sockfd pipefd | print r pipefd | issetPipe pipefd =>
      rw [pc] at rests
      cases rests
  | recvfrom pipefd =>
      rw [pc] at rests fits
      cases queue : p.toClient.queue with
      | nil => exact absurd queue fits.2.2
      | cons r rest =>
          rw [queue] at rests
          cases rests
  | read =>
      rw [pc] at rests fits
      rw [fits.2, if_neg Nat.one_ne_zero] at rests
      cases rests
  | select =>
      rw [pc] at rests fits
      refine .inr (.inr ⟨rfl, ?_⟩)
      by_contra stopped
      rw [Pc.Fits, Armed, if_neg stopped] at fits
      dsimp only at rests
      rw [if_neg (by omega)] at rests
      cases rests

theorem left_le (pc : Pc) : pc.left ≤ 10 := by
  cases pc with
  | isset sockfd pipefd => cases sockfd <;> cases pipefd <;> exact Nat.le_of_ble_eq_true rfl
  | recvfrom pipefd | issetPipe pipefd | print r pipefd =>
      cases pipefd <;> exact Nat.le_of_ble_eq_true rfl
  | fgets | sendto | alarm | select | read | returned => exact Nat.le_of_ble_eq_true rfl

/-- What another event leaves as it is. -/
theorem other_left {event : Event} (other : event ≠ .client) (inside : p.toClient.pc ≠ .fgets)
    (readable : p.pipe ≠ 0) (step : next p event = some t) :
    t.pipe ≠ 0 ∧ t.toClient.pc.left = p.toClient.pc.left := by
  cases event with
  | client => exact absurd rfl other
  | interrupt => cases step
  | input more => exact absurd (guarded_eq_some_iff.mp step).1 inside
  | reply r =>
      cases step
      exact ⟨readable, rfl⟩
  | expire =>
      rcases guarded_eq_some_iff.mp step with ⟨-, moved⟩
      cases moved
      exact ⟨Nat.succ_ne_zero _, rfl⟩

theorem Consistent.client_le (consistent : Consistent p) (readable : p.pipe ≠ 0)
    {events : List Event} (finished : run Piped.next p events = some t)
    (inside : Along Piped.next (fun q => q.toClient.pc ≠ .fgets) p events) :
    events.count .client ≤ p.toClient.pc.left := by
  induction events generalizing p with
  | nil => exact Nat.zero_le _
  | cons event events ih =>
      rcases (run_cons_eq_some_iff _ _ _ _ _).mp finished with ⟨middle, step, rest⟩
      have behind := inside.2 middle step
      have next := consistent.next step
      by_cases ours : event = .client
      · subst ours
        rcases (consistent.client step).2 readable with fgets | ⟨same, less⟩
        · exact absurd fgets behind.head
        · have bound := ih next (same ▸ readable) rest behind
          rw [List.count_cons_self]
          omega
      · rcases other_left ours inside.1 readable step with ⟨more, same⟩
        rw [List.count_cons_of_ne ours, ← same]
        exact ih next more rest behind

/-- The version with a pipe: every reply is printed, in order, or still in the buffer, and a
client that waits has its alarm still running.  Once the alarm is over the client is back at
`Fgets` after at most ten statements, whatever arrives, and nothing is left in the pipe. -/
theorem piped_reliable {events : List Event}
    (finished : run Piped.next ⟨start .fgets, 0⟩ events = some p) :
    p.toClient.printed ++ p.toClient.pc.hand ++ p.toClient.queue = p.toClient.arrived ∧
      (p.toClient.pc = .fgets → p.toClient.timer = false ∧ p.pipe = 0) ∧
      (next p .client = none → p.toClient.pc = .fgets ∨ p.toClient.pc = .returned ∨
        p.toClient.pc = .select ∧ p.toClient.timer = true) ∧
      ∀ more t, p.pipe ≠ 0 → run Piped.next p more = some t →
        Along Piped.next (fun q => q.toClient.pc ≠ .fgets) p more → more.count .client ≤ 10 := by
  have consistent := invariant_run (fun _ _ _ consistent => Consistent.next consistent)
    start_consistent finished
  refine ⟨consistent.conserved, ?_, consistent.rests, ?_⟩
  · intro pc
    have fits := consistent.fits
    rw [pc] at fits
    exact fits
  · intro more t readable ran inside
    exact Nat.le_trans (consistent.client_le readable ran inside) (left_le _)

/-- The alarm expires behind the `select` that has found a reply. -/
theorem piped_reliable_selected :
    let events := [.input true, .client, .client, .reply 7, .client, .expire]
    ∃ p, run Piped.next ⟨start .fgets, 0⟩ events = some p ∧
      p.toClient.pc = .isset true false ∧
      ∀ more t, run Piped.next p more = some t →
        Along Piped.next (fun q => q.toClient.pc ≠ .fgets) p more → more.count .client ≤ 10 := by
  intro events
  have finished : run Piped.next ⟨start .fgets, 0⟩ events =
      some ⟨⟨.isset true false, false, false, false, [7], [7], []⟩, 1⟩ := by decide
  refine ⟨_, finished, rfl, fun more t => ?_⟩
  exact (piped_reliable finished).2.2.2 more t Nat.one_ne_zero

end Steps

end Piped

end NetPractice.Broadcast
