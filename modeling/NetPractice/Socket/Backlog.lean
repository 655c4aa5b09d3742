import NetPractice.Transition.Core

/-!
# Edge-triggered listening sockets

The kernel completes connections and queues them until `accept` takes them.  With
`EPOLLET` it reports the listening socket once behind the arrivals since the last
report, whatever their number.  An accept loop calls `accept` once for each report;
the connections that it leaves behind are counted exactly: one for every arrival
that finds the socket waiting to be reported, and one for every failing `accept`.
-/

namespace NetPractice.Socket

open NetPractice.Transition

universe u v

/-- What a step of a program does with the listening socket: `epoll_wait` hands out a
number of reports about it, or `accept` returns a connection or fails. -/
inductive ListenOp where
  | wait (reports : Nat)
  | accept (got : Bool)
  | other
  deriving DecidableEq, Repr

/-- How an operation changes the number of reports that are left in the batch. -/
def ListenOp.Moves : ListenOp → Nat → Nat → Prop
  | .wait reports, before, after => before = 0 ∧ after = reports
  | .accept _, before, after => before = after + 1
  | .other, before, after => after = before

/-- A listening socket: the completed connections that wait for `accept`, and whether
one has arrived since the socket was reported. -/
structure Backlog where
  queue : Nat
  edge : Bool
  deriving DecidableEq, Repr

namespace Backlog

/-- Nothing has arrived. -/
def empty : Backlog :=
  ⟨0, false⟩

/-- A connection completes. -/
def arrive (b : Backlog) : Backlog :=
  ⟨b.queue + 1, true⟩

/-- A socket is reported once for an edge, and only while connections wait. -/
def next (b : Backlog) : ListenOp → Option Backlog
  | .wait reports =>
      if reports ≤ b.edge.toNat ∧ (0 < reports → 0 < b.queue) then
        some { b with edge := b.edge && decide (reports = 0) }
      else none
  | .accept true => if 0 < b.queue then some { b with queue := b.queue - 1 } else none
  | .accept false | .other => some b

end Backlog

/-- A program with a listening socket.  `reports` counts the reports about the socket
that the batch still holds, and `blocked` tells whether the program is in
`epoll_wait`. -/
structure AcceptLoop (σ : Type u) (ε : Type v) where
  step : Step σ ε
  op : σ → ε → ListenOp
  reports : σ → Nat
  blocked : σ → Bool
  moves : ∀ {s t e}, step s e = some t → (op s e).Moves (reports s) (reports t)
  handled : ∀ {s}, blocked s = true → reports s = 0

/-- A program and its listening socket. -/
structure Listening (σ : Type u) where
  program : σ
  backlog : Backlog

/-- A connection completes, or the program takes a step. -/
inductive Arrival (ε : Type v) where
  | arrive
  | step (event : ε)

namespace AcceptLoop

variable {σ : Type u} {ε : Type v} (loop : AcceptLoop σ ε)

/-- A connection completes, or the program goes on. -/
def next (world : Listening σ) : Arrival ε → Option (Listening σ)
  | .arrive => some { world with backlog := world.backlog.arrive }
  | .step event =>
      (world.backlog.next (loop.op world.program event)).bind fun backlog =>
        (loop.step world.program event).map fun program => ⟨program, backlog⟩

/-- A connection completes only when those before it have been reported, and `accept`
does not fail. -/
def OneByOne (world : Listening σ) : Arrival ε → Prop
  | .arrive => world.backlog.edge = false
  | .step event => loop.op world.program event ≠ .accept false

instance (world : Listening σ) : ∀ event, Decidable (loop.OneByOne world event)
  | .arrive => inferInstanceAs (Decidable (_ = _))
  | .step _ => inferInstanceAs (Decidable (_ ≠ _))

/-- All but `missed` of the connections in the queue have a report, or will have
one. -/
def Balance (missed : Nat) (world : Listening σ) : Prop :=
  world.backlog.queue = world.backlog.edge.toNat + loop.reports world.program + missed

variable {loop}

/-- An event is with the socket until a report hands it out. -/
theorem handed_event {edge : Bool} {reports : Nat} (once : reports ≤ edge.toNat) :
    (edge && decide (reports = 0)).toNat + reports = edge.toNat := by
  cases edge with
  | false =>
      rw [Nat.le_zero.mp once]
      rfl
  | true =>
      by_cases none : reports = 0
      · rw [none]
        rfl
      · have one : reports = 1 := Nat.le_antisymm once (Nat.pos_of_ne_zero none)
        rw [one]
        rfl

/-- A connection that completes is missed when its event is still with the socket. -/
theorem Balance.arrive {missed : Nat} {world : Listening σ}
    (balance : loop.Balance missed world) :
    (world.backlog.edge = false ∧
        loop.Balance missed { world with backlog := world.backlog.arrive }) ∨
      (world.backlog.edge ≠ false ∧
        loop.Balance (missed + 1) { world with backlog := world.backlog.arrive }) := by
  unfold Balance at balance
  cases edge : world.backlog.edge with
  | false =>
      apply Or.inl
      constructor
      · rfl
      · change world.backlog.queue + 1 = 1 + loop.reports world.program + missed
        rw [balance, edge]
        simp only [Bool.toNat_false]
        omega
  | true =>
      apply Or.inr
      constructor
      · exact Bool.noConfusion
      · change world.backlog.queue + 1 = 1 + loop.reports world.program + (missed + 1)
        rw [balance, edge]
        simp only [Bool.toNat_true]
        omega

/-- A connection is missed exactly in the steps that do not meet the guard. -/
theorem Balance.next {missed : Nat} {world after : Listening σ} {event : Arrival ε}
    (balance : loop.Balance missed world) (step : loop.next world event = some after) :
    (loop.OneByOne world event ∧ loop.Balance missed after) ∨
      (¬ loop.OneByOne world event ∧ loop.Balance (missed + 1) after) := by
  cases event with
  | arrive =>
      obtain rfl := Option.some.inj step
      exact balance.arrive
  | step event =>
      unfold Balance at balance
      rcases Option.bind_eq_some_iff.mp step with ⟨backlog, listens, taken⟩
      rcases Option.map_eq_some_iff.mp taken with ⟨program, takes, rfl⟩
      have moves := loop.moves takes
      change (loop.op world.program event ≠ .accept false ∧ _) ∨
        (¬ loop.op world.program event ≠ .accept false ∧ _)
      cases op : loop.op world.program event with
      | wait reports =>
          rw [op] at moves listens
          rcases moves with ⟨before, after⟩
          simp only [Backlog.next, Option.ite_none_right_eq_some, Option.some.injEq] at listens
          rcases listens with ⟨⟨once, -⟩, rfl⟩
          apply Or.inl
          constructor
          · exact ListenOp.noConfusion
          · change world.backlog.queue = (world.backlog.edge && decide (reports = 0)).toNat +
              loop.reports program + missed
            rw [before] at balance
            rw [after, balance]
            have shared := handed_event once
            omega
      | accept got =>
          rw [op] at moves listens
          change loop.reports world.program = loop.reports program + 1 at moves
          cases got with
          | true =>
              simp only [Backlog.next, Option.ite_none_right_eq_some, Option.some.injEq] at listens
              rcases listens with ⟨-, rfl⟩
              apply Or.inl
              constructor
              · intro fails
                cases fails
              · change world.backlog.queue - 1 =
                  world.backlog.edge.toNat + loop.reports program + missed
                rw [balance, moves]
                omega
          | false =>
              obtain rfl := Option.some.inj listens
              apply Or.inr
              constructor
              · intro succeeds
                exact succeeds rfl
              · change world.backlog.queue =
                  world.backlog.edge.toNat + loop.reports program + (missed + 1)
                rw [balance, moves]
                omega
      | other =>
          rw [op] at moves listens
          obtain rfl := Option.some.inj listens
          change loop.reports program = loop.reports world.program at moves
          apply Or.inl
          constructor
          · exact ListenOp.noConfusion
          · change world.backlog.queue =
              world.backlog.edge.toNat + loop.reports program + missed
            rw [balance, moves]

/-- No missed connection is ever made up for. -/
theorem Balance.run {missed : Nat} {world after : Listening σ} {events : List (Arrival ε)}
    (balance : loop.Balance missed world) (finished : run loop.next world events = some after) :
    ∃ left, missed ≤ left ∧ loop.Balance left after ∧
      (left = missed ↔ Meets loop.next loop.OneByOne world events) := by
  induction events generalizing world missed with
  | nil =>
      obtain rfl := Option.some.inj finished
      exact ⟨missed, Nat.le_refl _, balance, fun _ => trivial, fun _ => rfl⟩
  | cons event events ih =>
      rcases (run_cons_eq_some_iff _ _ _ _ _).mp finished with ⟨middle, step, rest⟩
      rcases balance.next step with ⟨guarded, kept⟩ | ⟨unguarded, lost⟩
      · rcases ih kept rest with ⟨left, most, balanced, exact_iff⟩
        refine ⟨left, most, balanced, ?_⟩
        constructor
        · intro same
          refine ⟨guarded, ?_⟩
          intro other otherStep
          obtain rfl : middle = other := Option.some.inj (step.symm.trans otherStep)
          exact exact_iff.mp same
        · intro meets
          exact exact_iff.mpr (meets.2 middle step)
      · rcases ih lost rest with ⟨left, most, balanced, -⟩
        refine ⟨left, by omega, balanced, ?_⟩
        constructor
        · intro same
          omega
        · intro meets
          exact absurd meets.1 unguarded

/-- When the program blocks and the socket has no event to report, the queue is empty
exactly if every step so far has met the guard. -/
theorem queue_eq_zero_iff {start : σ} (idle : loop.reports start = 0) {events : List (Arrival ε)}
    {world : Listening σ} (finished : run loop.next ⟨start, .empty⟩ events = some world)
    (blocked : loop.blocked world.program = true) (noEvent : world.backlog.edge = false) :
    world.backlog.queue = 0 ↔ Meets loop.next loop.OneByOne ⟨start, .empty⟩ events := by
  have balance : loop.Balance 0 ⟨start, .empty⟩ := by
    change 0 = 0 + loop.reports start + 0
    rw [idle]
  rcases balance.run finished with ⟨left, -, balanced, exact_iff⟩
  unfold Balance at balanced
  rw [noEvent, loop.handled blocked] at balanced
  rw [← exact_iff, balanced]
  simp only [Bool.toNat_false, Nat.zero_add]

end AcceptLoop

end NetPractice.Socket
