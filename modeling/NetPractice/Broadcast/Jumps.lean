import NetPractice.Broadcast.Core

/-!
# An alarm that jumps out of the loop

A signal handler that jumps leaves the loop wherever the alarm expires.  What it interrupts
is not taken up again: a reply that was received and is being printed.  In front of the first
`sigsetjmp` there is nothing to jump to.
-/

namespace NetPractice.Broadcast.Longjmp

open NetPractice.Transition

/-- The reply that has been received and not yet printed. -/
def Pc.hand : Pc → List Nat
  | .print r => [r]
  | .fgets | .sendto | .alarm | .sigsetjmp | .recvfrom | .returned | .undefined => []

/-- The statements of the inner loop. -/
def Pc.waits : Pc → Bool
  | .sigsetjmp | .recvfrom | .print _ => true
  | .fgets | .sendto | .alarm | .returned | .undefined => false

/-- Every reply is printed, in order, or still in the buffer, and a client that waits has its
alarm still running. -/
structure Reliable (p : Program) : Prop where
  conserved : p.toClient.printed ++ p.toClient.pc.hand ++ p.toClient.queue = p.toClient.arrived
  timer : p.toClient.timer = p.toClient.pc.waits
  defined : p.toClient.pc ≠ .undefined

/-- The alarm expires behind a `sigsetjmp`, and not while a reply is printed. -/
def Safe (p : Program) : Event → Prop
  | .expire => p.jmpbuf = true ∧ p.toClient.pc.hand = []
  | .input _ | .client | .reply _ | .interrupt => True

instance (p : Program) : ∀ event, Decidable (Safe p event)
  | .expire => inferInstanceAs (Decidable (_ ∧ _))
  | .input _ | .client | .reply _ | .interrupt => isTrue trivial

section Steps

variable {p t : Program}

theorem Reliable.client (reliable : Reliable p) (step : client p = some t) : Reliable t := by
  rcases reliable with ⟨conserved, timer, defined⟩
  unfold Longjmp.client at step
  dsimp only at step
  cases pc : p.toClient.pc with
  | fgets | returned | undefined =>
      rw [pc] at step
      cases step
  | sendto =>
      rw [pc] at step conserved timer
      cases step
      exact ⟨conserved, timer, Pc.noConfusion⟩
  | alarm =>
      rw [pc] at step conserved
      cases step
      exact ⟨conserved, rfl, Pc.noConfusion⟩
  | sigsetjmp =>
      rw [pc] at step conserved timer
      cases step
      exact ⟨conserved, timer, Pc.noConfusion⟩
  | recvfrom =>
      rw [pc] at step conserved timer
      cases queue : p.toClient.queue with
      | nil =>
          rw [queue] at step
          cases step
      | cons r rest =>
          rw [queue] at step conserved
          cases step
          refine ⟨?_, timer, Pc.noConfusion⟩
          rw [← conserved]
          simp [Pc.hand]
  | print r =>
      rw [pc] at step conserved timer
      cases step
      refine ⟨?_, timer, Pc.noConfusion⟩
      rw [← conserved]
      simp [Pc.hand]

theorem reliable_preserved : Preserves next Safe Reliable := by
  intro p event t reliable safe step
  cases event with
  | client => exact reliable.client step
  | interrupt => cases step
  | input more =>
      rcases guarded_eq_some_iff.mp step with ⟨pc, moved⟩
      rcases reliable with ⟨conserved, timer, -⟩
      rw [pc] at conserved timer
      cases moved
      cases more <;> exact ⟨conserved, timer, Pc.noConfusion⟩
  | reply r =>
      cases step
      refine ⟨?_, reliable.timer, reliable.defined⟩
      change p.toClient.printed ++ p.toClient.pc.hand ++ (p.toClient.queue ++ [r]) =
        p.toClient.arrived ++ [r]
      rw [← List.append_assoc, reliable.conserved]
  | expire =>
      rcases safe with ⟨set, empty⟩
      rcases guarded_eq_some_iff.mp step with ⟨-, moved⟩
      have conserved := reliable.conserved
      rw [empty] at conserved
      cases moved
      rw [set]
      exact ⟨conserved, rfl, Pc.noConfusion⟩

/-- The version with `siglongjmp`: the alarm always ends the wait, and no reply is lost, if and only
if no alarm expires in front of the first `sigsetjmp` or while a reply is printed. -/
theorem reliable_along_iff {events : List Event}
    (possible : (run next ⟨start .fgets, false⟩ events).isSome) :
    Along next Reliable ⟨start .fgets, false⟩ events ↔
      Meets next Safe ⟨start .fgets, false⟩ events := by
  refine along_iff_meets_of_isSome reliable_preserved (fun _ reliable => reliable) ?_
    ⟨rfl, rfl, Pc.noConfusion⟩ possible
  intro p event t reliable unsafely step
  cases event with
  | input more | client | reply r | interrupt => exact absurd trivial unsafely
  | expire =>
      rcases guarded_eq_some_iff.mp step with ⟨-, moved⟩
      cases moved
      intro after
      cases set : p.jmpbuf with
      | false =>
          have defined := after.defined
          rw [set] at defined
          exact defined rfl
      | true =>
          have lost := after.conserved
          rw [set] at lost
          change p.toClient.printed ++ [] ++ p.toClient.queue = p.toClient.arrived at lost
          rw [← reliable.conserved, List.append_assoc, List.append_assoc] at lost
          have hand := List.append_cancel_left lost
          have empty : p.toClient.pc.hand = [] :=
            (List.self_eq_append_left.mp hand)
          exact unsafely ⟨set, empty⟩

/-- The alarm expires while a reply is printed. -/
theorem reliable_along_iff_printing :
    let events := [.input true, .client, .client, .client, .reply 7, .client, .expire]
    (run next ⟨start .fgets, false⟩ events).isSome ∧
      ¬ Along next Reliable ⟨start .fgets, false⟩ events := by
  intro events
  have possible : (run next ⟨start .fgets, false⟩ events).isSome := by decide
  exact ⟨possible, mt (reliable_along_iff possible).mp (by decide)⟩

end Steps

end NetPractice.Broadcast.Longjmp
