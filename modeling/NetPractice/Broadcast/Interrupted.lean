import NetPractice.Broadcast.Core

/-!
# An alarm that only interrupts recvfrom

The first versions leave their loop when the signal interrupts `recvfrom`.  Blocking the
signal everywhere else does not help: what was raised before is delivered when it is
unblocked, and that is not in `recvfrom`.  A client whose alarm is over without that waits
for replies for ever.
-/

namespace NetPractice.Broadcast.Interrupted

open NetPractice.Transition

/-- The statements between `alarm` and the end of the wait. -/
def Pc.waits : Pc → Bool
  | .unblock | .recvfrom | .blocked | .block (some _) | .print _ => true
  | .fgets | .sendto | .alarm | .block none | .returned => false

/-- Some run leads to the next line. -/
def Returns (masks : Bool) (c : Client Pc) : Prop :=
  ∃ t, Reaches (next masks) c t ∧ t.pc = .fgets

/-- The client can still come back for the next line, or has returned. -/
def Ends (masks : Bool) (c : Client Pc) : Prop :=
  c.pc = .returned ∨ Returns masks c

/-- The alarm expires while `recvfrom` waits. -/
def Timely (c : Client Pc) : Event → Prop
  | .expire => c.pc = .blocked ∧ c.queue = []
  | .input _ | .client | .reply _ | .interrupt => True

instance (c : Client Pc) : ∀ event, Decidable (Timely c event)
  | .expire => inferInstanceAs (Decidable (_ ∧ _))
  | .input _ | .client | .reply _ | .interrupt => isTrue trivial

/-- When the signal is blocked: never in `recvfrom`, and in the first version nowhere. -/
def Pc.Fits (masks masked : Bool) : Pc → Prop
  | .recvfrom | .blocked => masked = false
  | .unblock | .block _ => masks = true
  | .fgets | .sendto | .alarm | .print _ | .returned => masks = false → masked = false

/-- The invariant: while the client waits, the alarm runs. -/
structure Awaits (masks : Bool) (c : Client Pc) : Prop where
  timer : c.timer = c.pc.waits
  fits : c.pc.Fits masks c.masked

/-- The client waits, and no alarm runs. -/
structure Hangs (c : Client Pc) : Prop where
  timer : c.timer = false
  waits : c.pc.waits = true

section Steps

variable {masks masked : Bool} {c t : Client Pc}

theorem waits_first (masks : Bool) : (Pc.first masks).waits = true := by
  cases masks <;> rfl

theorem waits_behind (masks : Bool) (n : Option Nat) :
    (Pc.behind masks n).waits = n.isSome := by
  cases masks <;> cases n <;> rfl

theorem fits_first (plain : masks = false → masked = false) :
    (Pc.first masks).Fits masks masked := by
  cases masks with
  | false => exact plain rfl
  | true => rfl

theorem fits_behind (n : Option Nat) (plain : masks = false → masked = false) :
    (Pc.behind masks n).Fits masks masked := by
  cases masks with
  | false => cases n <;> exact plain
  | true => rfl

/-! ## What is kept -/

theorem Awaits.client (awaits : Awaits masks c) (step : client masks c = some t) :
    Awaits masks t := by
  rcases awaits with ⟨timer, fits⟩
  unfold Interrupted.client at step
  cases pc : c.pc with
  | fgets | returned =>
      rw [pc] at step
      cases step
  | sendto =>
      rw [pc] at step timer fits
      cases step
      exact ⟨timer, fits⟩
  | alarm =>
      rw [pc] at step fits
      cases step
      exact ⟨(waits_first masks).symm, fits_first fits⟩
  | unblock =>
      rw [pc] at step timer
      cases step
      exact ⟨timer, rfl⟩
  | recvfrom | blocked =>
      rw [pc] at step timer fits
      cases queue : c.queue with
      | nil =>
          rw [queue] at step
          cases step <;> exact ⟨timer, fits⟩
      | cons r rest =>
          rw [queue] at step
          cases step
          exact ⟨timer.trans (waits_behind masks (some r)).symm, fits_behind _ fun _ => fits⟩
  | block n =>
      rw [pc] at step timer fits
      cases step
      cases n with
      | none => exact ⟨timer, fun plain => by rw [fits] at plain; cases plain⟩
      | some r => exact ⟨timer, fun plain => by rw [fits] at plain; cases plain⟩
  | print r =>
      rw [pc] at step timer fits
      cases step
      exact ⟨timer.trans (waits_first masks).symm, fits_first fits⟩

/-- The signal in `recvfrom` ends the wait. -/
theorem Awaits.interrupts (awaits : Awaits masks c) (waits : c.pc = .blocked)
    (empty : c.queue = []) :
    raise masks { c with timer := false } =
      { c with timer := false, pc := .behind masks none } := by
  have fits := awaits.fits
  rw [waits] at fits
  unfold Interrupted.raise
  dsimp only
  rw [fits, if_neg Bool.false_ne_true, if_pos ⟨waits, empty⟩]

theorem awaits_preserved : Preserves (next masks) Timely (Awaits masks) := by
  intro c event t awaits timely step
  cases event with
  | input more =>
      rcases guarded_eq_some_iff.mp step with ⟨pc, moved⟩
      cases moved
      rcases awaits with ⟨timer, fits⟩
      rw [pc] at timer fits
      cases more <;> exact ⟨timer, fits⟩
  | client => exact awaits.client step
  | reply r =>
      cases step
      exact ⟨awaits.timer, awaits.fits⟩
  | expire =>
      rcases timely with ⟨waits, empty⟩
      rcases guarded_eq_some_iff.mp step with ⟨-, moved⟩
      cases moved
      have fits := awaits.fits
      rw [waits] at fits
      rw [awaits.interrupts waits empty]
      exact ⟨(waits_behind masks none).symm, fits_behind _ fun _ => fits⟩
  | interrupt => cases step

/-- Without an alarm nothing ends the wait. -/
theorem Hangs.next {event : Event} (hangs : Hangs c) (step : next masks c event = some t) :
    Hangs t := by
  rcases hangs with ⟨timer, waits⟩
  cases event with
  | input more =>
      rcases guarded_eq_some_iff.mp step with ⟨pc, -⟩
      rw [pc] at waits
      cases waits
  | reply r =>
      cases step
      exact ⟨timer, waits⟩
  | expire =>
      rcases guarded_eq_some_iff.mp step with ⟨running, -⟩
      rw [timer] at running
      cases running
  | interrupt => cases step
  | client =>
      change Interrupted.client masks c = some t at step
      unfold Interrupted.client at step
      cases pc : c.pc with
      | fgets | sendto | alarm | returned =>
          rw [pc] at waits
          cases waits
      | unblock =>
          rw [pc] at step
          cases step
          exact ⟨timer, rfl⟩
      | recvfrom | blocked =>
          rw [pc] at step
          cases queue : c.queue with
          | nil =>
              rw [queue] at step
              cases step <;> exact ⟨timer, rfl⟩
          | cons r rest =>
              rw [queue] at step
              cases step
              exact ⟨timer, waits_behind masks (some r)⟩
      | block n =>
          rw [pc] at step waits
          cases step
          cases n with
          | none => cases waits
          | some r => exact ⟨timer, rfl⟩
      | print r =>
          rw [pc] at step
          cases step
          exact ⟨timer, waits_first masks⟩

theorem Hangs.not_ends (hangs : Hangs c) : ¬ Ends masks c := by
  rintro (returned | ⟨t, reaches, fgets⟩)
  · have waits := hangs.waits
    rw [returned] at waits
    cases waits
  · have waits := (reaches.invariant (fun _ _ _ hangs => Hangs.next hangs) hangs).waits
    rw [fgets] at waits
    cases waits

/-- A signal that does not end `recvfrom` is lost. -/
theorem Awaits.hangs (awaits : Awaits masks c) (late : ¬ (c.pc = .blocked ∧ c.queue = []))
    (running : c.timer = true) : Hangs (raise masks { c with timer := false }) := by
  have waits : c.pc.waits = true := awaits.timer.symm.trans running
  unfold Interrupted.raise
  dsimp only
  by_cases masked : c.masked = true
  · rw [if_pos masked]
    exact ⟨rfl, waits⟩
  · rw [if_neg masked, if_neg late]
    exact ⟨rfl, waits⟩

/-! ## The alarm in recvfrom comes -/

theorem Returns.head {event : Event} (step : next masks c event = some t)
    (returns : Returns masks t) : Returns masks c := by
  rcases returns with ⟨final, reaches, fgets⟩
  exact ⟨final, .head step reaches, fgets⟩

theorem returns_of_fgets (fgets : c.pc = .fgets) : Returns masks c :=
  ⟨c, .refl _ c, fgets⟩

/-- The alarm in `recvfrom`. -/
theorem returns_of_empty (pc : c.pc = .blocked) (unmasked : c.masked = false)
    (running : c.timer = true) (empty : c.queue = []) : Returns masks c := by
  have expire : next masks c .expire =
      some { c with timer := false, pc := .behind masks none } := by
    have awaits : Awaits masks c := ⟨by rw [running, pc]; rfl, by rw [pc]; exact unmasked⟩
    rw [next, if_pos running, awaits.interrupts pc empty]
  cases masks with
  | false => exact .head expire (returns_of_fgets rfl)
  | true =>
      have step : next true { c with timer := false, pc := .behind true none } .client =
          some { c with timer := false, masked := true, pc := .fgets } := rfl
      exact .head expire (.head step (returns_of_fgets rfl))

/-- The inner loop begins again with the same replies. -/
theorem returns_of_first (pc : c.pc = .first masks) (plain : masks = false → c.masked = false)
    (returns : ∀ d : Client Pc, d.pc = .recvfrom → d.masked = false → d.timer = c.timer →
      d.queue = c.queue → Returns masks d) : Returns masks c := by
  cases masks with
  | false => exact returns c pc (plain rfl) rfl rfl
  | true =>
      have step : next true c .client =
          some { c with masked := false, pending := false, pc := .recvfrom } := by
        change client true c = _
        rw [client, pc]
        rfl
      exact .head step (returns _ rfl rfl rfl rfl)

theorem returns_of_print {r : Nat} (pc : c.pc = .print r) (plain : masks = false → c.masked = false)
    (returns : ∀ d : Client Pc, d.pc = .recvfrom → d.masked = false → d.timer = c.timer →
      d.queue = c.queue → Returns masks d) : Returns masks c := by
  have step : next masks c .client =
      some { c with printed := c.printed ++ [r], pc := .first masks } := by
    change client masks c = _
    rw [client, pc]
  exact .head step (returns_of_first rfl plain returns)

theorem returns_of_behind {r : Nat} (pc : c.pc = .behind masks (some r))
    (plain : masks = false → c.masked = false)
    (returns : ∀ d : Client Pc, d.pc = .recvfrom → d.masked = false → d.timer = c.timer →
      d.queue = c.queue → Returns masks d) : Returns masks c := by
  cases masks with
  | false => exact returns_of_print pc plain returns
  | true =>
      have step : next true c .client = some { c with masked := true, pc := .print r } := by
        change client true c = _
        rw [client, pc]
        rfl
      exact .head step (returns_of_print rfl (fun plain => by cases plain) returns)

/-- The replies are printed, and then the alarm finds `recvfrom` waiting. -/
theorem returns_of_recvfrom (pc : c.pc = .recvfrom ∨ c.pc = .blocked) (unmasked : c.masked = false)
    (running : c.timer = true) : Returns masks c := by
  induction queue : c.queue generalizing c with
  | nil =>
      rcases pc with pc | pc
      · have step : next masks c .client = some { c with pc := .blocked } := by
          change client masks c = _
          rw [client, pc, queue]
        exact .head step (returns_of_empty rfl unmasked running queue)
      · exact returns_of_empty pc unmasked running queue
  | cons r rest ih =>
      have step : next masks c .client =
          some { c with queue := rest, pc := .behind masks (some r) } := by
        change client masks c = _
        rw [client]
        rcases pc with pc | pc <;> rw [pc, queue]
      refine .head step (returns_of_behind rfl (fun _ => unmasked) ?_)
      intro d pc unmasked timer queue
      exact ih (.inl pc) unmasked (timer.trans running) queue

theorem Awaits.ends (awaits : Awaits masks c) : Ends masks c := by
  rcases awaits with ⟨timer, fits⟩
  have loops : ∀ d : Client Pc, d.pc = .recvfrom → d.masked = false → d.timer = true →
      Returns masks d := fun d pc unmasked running => returns_of_recvfrom (.inl pc) unmasked running
  have alarm : ∀ d : Client Pc, d.pc = .alarm → (masks = false → d.masked = false) →
      Returns masks d := by
    intro d pc plain
    have step : next masks d .client = some { d with timer := true, pc := .first masks } := by
      change Interrupted.client masks d = _
      rw [Interrupted.client, pc]
    exact .head step (returns_of_first rfl plain
      fun e pc unmasked running _ => loops e pc unmasked running)
  cases pc : c.pc with
  | returned => exact .inl pc
  | fgets => exact .inr (returns_of_fgets pc)
  | sendto =>
      rw [pc] at fits
      have step : next masks c .client = some { c with pc := .alarm } := by
        change Interrupted.client masks c = _
        rw [Interrupted.client, pc]
      exact .inr (.head step (alarm _ rfl fits))
  | alarm =>
      rw [pc] at fits
      exact .inr (alarm c pc fits)
  | unblock =>
      rw [pc] at timer
      have step : next masks c .client =
          some { c with masked := false, pending := false, pc := .recvfrom } := by
        change Interrupted.client masks c = _
        rw [Interrupted.client, pc]
      exact .inr (.head step (loops _ rfl rfl timer))
  | recvfrom =>
      rw [pc] at timer fits
      exact .inr (returns_of_recvfrom (.inl pc) fits timer)
  | blocked =>
      rw [pc] at timer fits
      exact .inr (returns_of_recvfrom (.inr pc) fits timer)
  | block n =>
      rw [pc] at timer fits
      have step : next masks c .client =
          some { c with masked := true, pc := n.elim .fgets .print } := by
        change Interrupted.client masks c = _
        rw [Interrupted.client, pc]
      refine .inr (.head step ?_)
      cases n with
      | none => exact returns_of_fgets rfl
      | some r =>
          exact returns_of_print rfl (fun plain => by rw [fits] at plain; cases plain)
            fun d pc unmasked running _ => loops d pc unmasked (running.trans timer)
  | print r =>
      rw [pc] at timer fits
      exact .inr (returns_of_print pc fits
        fun d pc unmasked running _ => loops d pc unmasked (running.trans timer))

/-- A client of the first versions can always still come back for the next line, if and only
if no alarm expires while it does anything else than to wait in `recvfrom`. -/
theorem ends_along_iff {events : List Event}
    (possible : (run (next masks) (start .fgets) events).isSome) :
    Along (next masks) (Ends masks) (start .fgets) events ↔
      Meets (next masks) Timely (start .fgets) events := by
  refine along_iff_meets_of_isSome awaits_preserved (fun _ awaits => awaits.ends) ?_
    ⟨rfl, fun _ => rfl⟩ possible
  intro c event t awaits late step
  cases event with
  | input more | client | reply r | interrupt => exact absurd trivial late
  | expire =>
      rcases guarded_eq_some_iff.mp step with ⟨running, moved⟩
      cases moved
      exact (awaits.hangs late running).not_ends

/-- The alarm expires while the signal is blocked for the first reply. -/
theorem ends_along_iff_masked :
    let events := [.input true, .client, .client, .client, .client, .reply 7, .client, .client,
      .expire]
    (run (next true) (start .fgets) events).isSome ∧
      ¬ Along (next true) (Ends true) (start .fgets) events := by
  intro events
  have possible : (run (next true) (start .fgets) events).isSome := by decide
  exact ⟨possible, mt (ends_along_iff possible).mp (by decide)⟩

end Steps

end NetPractice.Broadcast.Interrupted
