import NetPractice.EchoSession.ProcessSteps

/-!
# Two processes do not wait for each other

As long as a process is left, it or the server can move, so that a session comes to its end,
with the whole input echoed.  In `threads/strclithread2.c`, the server is blamed if the last
`read` returns before the other thread has assigned to `done`.
-/

namespace NetPractice.EchoSession.Concurrent

open NetPractice.EchoSession.Lines (fgets lines)
open NetPractice.LineReader (newline)
open NetPractice.Socket
open NetPractice.Text
open NetPractice.Transition

variable {client : Client} {toServer toClient n : Nat} {input : List Byte} {s t : Session}

/-! ## One side always moves -/

variable (client toServer toClient) in
/-- Some step other than the assignment to `done` is possible. -/
def Moves (s : Session) : Prop :=
  ∃ event t, next client toServer toClient s event = some t ∧ t.done = s.done

/-- Only the sender assigns to `done`. -/
theorem done_receiverNext (step : receiverNext client n s = some t) : t.done = s.done := by
  unfold receiverNext at step
  split at step
  · split at step
    · dsimp only at step
      split at step <;> cases step <;> rfl
    · split at step
      · split at step <;> cases step <;> rfl
      · split at step
        · rcases Option.map_eq_some_iff.mp step with ⟨_, _, rfl⟩
          rfl
        · cases step
  · cases step
    rfl
  · cases step
    rfl
  · cases step
  · cases step

theorem done_senderNext (ne : s.sender ≠ .setDone)
    (step : senderNext client toServer n s = some t) : t.done = s.done := by
  unfold senderNext at step
  split at step
  · split at step <;> cases step <;> rfl
  · rcases Option.map_eq_some_iff.mp step with ⟨_, _, rfl⟩
    rfl
  · cases step
    rfl
  · cases step
  · next set => exact absurd set ne
  · cases step

theorem moves_of_receiver (n : Nat) (possible : (receiverNext client n s).isSome) :
    Moves client toServer toClient s := by
  rcases Option.isSome_iff_exists.mp possible with ⟨t, step⟩
  exact ⟨.receiver n, t, step, done_receiverNext step⟩

/-- There is something to read, or the server has sent its FIN. -/
theorem moves_of_readable {stored : List Byte} (receiver : s.receiver = .readline stored)
    (readable : s.readBuf ≠ [] ∨ s.peer.down.Readable) : Moves client toServer toClient s := by
  cases filled : s.readBuf with
  | cons c readBuf =>
      apply moves_of_receiver 0
      simp only [receiverNext, receiver, filled]
      split <;> rfl
  | nil =>
      by_cases nothing : s.peer.down.bytes = []
      · have atEnd : s.peer.down.AtEnd := by
          refine ⟨nothing, ?_⟩
          rcases readable with more | more | closed
          · exact absurd filled more
          · exact absurd nothing more
          · exact closed
        apply moves_of_receiver 0
        simp only [receiverNext, receiver, filled, atEnd, and_self, if_true]
        split <;> rfl
      · rcases Pipe.exists_read nothing with ⟨out, taken⟩
        apply moves_of_receiver 1
        simp [receiverNext, receiver, filled, taken, MAXLINE]

/-- The sender never waits for long: the server reads what it has written. -/
theorem moves_of_sender (inv : Inv client input s) (running : ¬ s.receiver.Over)
    (notFinished : ¬ s.sender.Finished) (room : s.peer.up.bytes.length < toServer) :
    Moves client toServer toClient s := by
  have opened : s.peer.up.closed = false := by
    rw [← Bool.not_eq_true, inv.closed_iff]
    exact notFinished
  have ne : s.sender ≠ .setDone := fun eq => notFinished (eq ▸ trivial)
  have go : ∀ n, (senderNext client toServer n s).isSome → Moves client toServer toClient s := by
    intro n possible
    rcases Option.isSome_iff_exists.mp possible with ⟨t, step⟩
    exact ⟨.sender n, t, (if_neg running).trans step, done_senderNext ne step⟩
  cases sender : s.sender with
  | fgets =>
      apply go 0
      simp only [senderNext, sender]
      split <;> rfl
  | writen buf =>
      rcases Pipe.exists_write (inv.hand_ne_nil buf sender) opened room with ⟨out, written⟩
      apply go 1
      simp only [senderNext, sender, written, Option.map_some, Option.isSome_some]
  | shutdown =>
      apply go 0
      simp only [senderNext, sender, Option.isSome_some]
  | pause | setDone | ended =>
      rw [sender] at notFinished
      exact absurd trivial notFinished

/-- As long as the client runs, it is not blocked. -/
theorem moves_of_running (inv : Inv client input s) (up : 0 < toServer) (down : 0 < toClient)
    (running : ¬ s.receiver.Over) : Moves client toServer toClient s := by
  cases receiver : s.receiver with
  | kill | testDone =>
      apply moves_of_receiver 0
      simp only [receiverNext, receiver, Option.isSome_some]
  | ended | quit =>
      rw [receiver] at running
      exact absurd trivial running
  | readline stored =>
      by_cases readable : s.peer.down.Readable
      · exact moves_of_readable receiver (.inr readable)
      by_cases serves : ∀ n, s.peer.next toClient n = none
      · rcases (Peer.next_eq_none_iff inv.sound).mp serves with
          returned | ⟨reading, waits⟩ | ⟨_, full⟩
        · exact absurd (.inr (inv.sound.returned_iff.mp returned)) readable
        · -- the server waits for the client, which has not sent its FIN
          have empty : s.peer.up.bytes = [] := not_not.mp fun more => waits (.inl more)
          apply moves_of_sender inv running
          · rw [← inv.closed_iff]
            exact fun closed => waits (.inr closed)
          · rw [empty]
            exact up
        · have nothing : s.peer.down.bytes = [] := not_not.mp fun more => readable (.inl more)
          rw [nothing, List.length_nil] at full
          exact absurd down (Nat.not_lt_of_le full)
      · rcases not_forall.mp serves with ⟨n, possible⟩
        rcases Option.ne_none_iff_exists'.mp possible with ⟨peer, step⟩
        exact ⟨.server n, { s with peer := peer }, Option.map_eq_some_iff.mpr ⟨peer, step, rfl⟩,
          rfl⟩

theorem over_iff (receiver : Receiver) :
    receiver.Over ↔ receiver = .ended ∨ receiver = .quit := by
  cases receiver <;> simp [Receiver.Over]

theorem ne_readline_of_over {receiver : Receiver} (isOver : receiver.Over) (stored : List Byte) :
    receiver ≠ .readline stored := by
  rintro rfl
  exact isOver

/-- Nothing moves any more just when the client is through. -/
theorem halted_iff (inv : Inv client input s) (up : 0 < toServer) (down : 0 < toClient) :
    Halted (next client toServer toClient) s ↔ s.receiver.Over := by
  constructor
  · intro halted
    by_contra running
    rcases moves_of_running inv up down running with ⟨event, t, step, _⟩
    exact Option.some_ne_none t (step.symm.trans (halted event))
  · intro isOver event
    have returned := inv.sound.returned_iff.mpr (inv.atEnd (ne_readline_of_over isOver)).2.2
    cases event with
    | sender n => exact if_pos isOver
    | receiver n =>
        rcases (over_iff _).mp isOver with receiver | receiver <;>
          simp only [next, receiverNext, receiver]
    | server n =>
        exact Option.map_eq_none_iff.mpr ((Peer.next_eq_none_iff inv.sound).mpr (.inl returned) n)

/-- The client is through: everything is printed. -/
theorem Inv.stdout_eq (inv : Inv client input s) (last : ∀ stored, s.receiver ≠ .readline stored) :
    s.stdout = echo input ∧ s.stdin = [] ∧ s.sender.Finished := by
  have ended := inv.atEnd last
  have returned := inv.sound.returned_iff.mpr ended.2.2
  have drained := inv.sound.drained returned
  have finished := inv.closed_iff.mp drained.2
  have hand : s.receiver.hand = [] := by
    cases receiver : s.receiver with
    | readline stored => exact absurd receiver (last stored)
    | kill | testDone | ended | quit => rfl
  have stdin := inv.drained (.inr finished)
  have all := inv.all
  unfold Session.all Peer.inFlight at all
  rw [hand, ended.1, ended.2.1, returned, drained.1, hand_of_finished finished, stdin,
    echo_nil] at all
  simp only [Server.hand, List.append_nil] at all
  exact ⟨all, stdin, finished⟩

/-- What a session does, in any order of the steps and with any room in the two directions: it
prints what comes back of the input, in order, in a bounded number of steps, and never stops
before it has printed all of it and the client is through.  Only `strclithread2` can end in
`err_quit`. -/
theorem copied {events : List Event} (up : 0 < toServer) (down : 0 < toClient)
    (finished : run (next client toServer toClient) (start input) events = some s) :
    events.length ≤ 12 * input.length + 6 ∧ s.stdout <+: echo input ∧
      (0 ∉ input → echo input = input) ∧
      (Halted (next client toServer toClient) s ↔
        s.receiver = .ended ∨ s.receiver = .quit ∧ client = .strclithread2) ∧
      (Halted (next client toServer toClient) s →
        s.stdout = echo input ∧ s.sender.Finished ∧ s.peer.server = .returned) := by
  have inv : Inv client input s :=
    invariant_run (fun _ _ _ inv step => (lowers client input inv step).1) (inv_start client input)
      finished
  have bound := (lowers client input).length_le (inv_start client input) finished
  refine ⟨?_, ?_, echo_of_notMem, ?_, fun halted => ?_⟩
  · have first : (start input).measure = 12 * input.length + 6 := by
      unfold Session.measure Peer.work Peer.inFlight
      simp only [start, Sender.hand, Sender.rank, Receiver.rank, Peer.start, Pipe.empty,
        Server.hand, List.length_nil, List.append_nil, if_true, if_false, reduceCtorEq]
      omega
    omega
  · rw [← inv.all]
    unfold Session.all
    simp only [List.append_assoc]
    exact List.prefix_append _ _
  · rw [halted_iff inv up down, over_iff]
    refine or_congr_right ⟨fun quit => ⟨quit, ?_⟩, And.left⟩
    have fits := inv.fits
    cases client with
    | strclifork => exact absurd quit fits.2.1
    | strclithread => exact absurd quit fits.2.2.1
    | strclithread2 => rfl
  · have isOver := (halted_iff inv up down).mp halted
    have last := ne_readline_of_over isOver
    have outcome := inv.stdout_eq last
    exact ⟨outcome.1, outcome.2.2, inv.sound.returned_iff.mpr (inv.atEnd last).2.2⟩

/-- Room for one byte in each direction. -/
theorem copied_one :
    ∃ s, run (next .strclifork 1 1) (start [97])
        [.sender 0, .sender 1, .server 1, .sender 0, .server 1, .receiver 1, .receiver 0, .sender 0,
          .server 0, .receiver 0, .receiver 0, .receiver 0] = some s ∧
      s.receiver = .ended ∧ s.stdout <+: echo [97] ∧ Halted (next .strclifork 1 1) s := by
  have through : (run (next .strclifork 1 1) (start [97])
      [.sender 0, .sender 1, .server 1, .sender 0, .server 1, .receiver 1, .receiver 0, .sender 0,
        .server 0, .receiver 0, .receiver 0, .receiver 0]).map Session.receiver =
      some .ended := by decide +kernel
  rcases Option.map_eq_some_iff.mp through with ⟨s, finished, ended⟩
  have facts := copied Nat.one_pos Nat.one_pos finished
  exact ⟨s, finished, ended, facts.2.1, facts.2.2.2.1.mpr (.inl ended)⟩

/-! ## The server is blamed -/

/-- The thread of `main` is faster than the assignment to `done`. -/
theorem exists_quit (up : 0 < toServer) (down : 0 < toClient) (input : List Byte) :
    ∃ s, Reaches (next .strclithread2 toServer toClient) (start input) s ∧
      Inv .strclithread2 input s ∧ s.receiver = .quit := by
  have nearer : ∀ ⦃s⦄, Inv .strclithread2 input s ∧ s.done = false → s.receiver = .quit ∨
      ∃ event t, next .strclithread2 toServer toClient s event = some t ∧
        (Inv .strclithread2 input t ∧ t.done = false) ∧ t.measure < s.measure := by
    rintro s ⟨inv, notDone⟩
    by_cases isOver : s.receiver.Over
    · refine .inl (((over_iff _).mp isOver).resolve_left fun ended => ?_)
      exact absurd (inv.fits.2.2.2.2 ended) (by rw [notDone]; decide)
    · rcases moves_of_running inv up down isOver with ⟨event, t, step, same⟩
      have after := lowers _ _ inv step
      exact .inr ⟨event, t, step, ⟨after.1, same.trans notDone⟩, after.2⟩
  rcases exists_reaches Session.measure nearer ⟨inv_start _ input, rfl⟩ with
    ⟨s, reaches, ⟨inv, _⟩, quit⟩
  exact ⟨s, reaches, inv, quit⟩

theorem receiver_senderNext (step : senderNext client toServer n s = some t) :
    t.receiver = s.receiver := by
  unfold senderNext at step
  split at step
  · split at step <;> cases step <;> rfl
  · rcases Option.map_eq_some_iff.mp step with ⟨_, _, rfl⟩
    rfl
  · cases step
    rfl
  · cases step
  · cases step
    rfl
  · cases step

/-- `err_quit` stands behind the test of `done` only. -/
theorem tests_of_quit {event : Event} (step : next client toServer toClient s event = some t)
    (notQuit : s.receiver ≠ .quit) (quit : t.receiver = .quit) :
    s.receiver = .testDone ∧ s.done = false := by
  cases event with
  | sender n =>
      have same := receiver_senderNext (Option.ite_none_left_eq_some.mp step).2
      exact absurd (same.symm.trans quit) notQuit
  | server n =>
      rcases Option.map_eq_some_iff.mp step with ⟨peer, _, rfl⟩
      exact absurd quit notQuit
  | receiver n =>
      change receiverNext client n s = some t at step
      unfold receiverNext at step
      split at step
      · split at step
        · dsimp only at step
          split at step <;> cases step <;> cases quit
        · split at step
          · split at step
            · cases step
              cases client <;> cases quit
            · cases step
              cases quit
          · split at step
            · rcases Option.map_eq_some_iff.mp step with ⟨_, _, rfl⟩
              exact absurd quit notQuit
            · cases step
      · cases step
        cases quit
      · next tests =>
          cases step
          refine ⟨tests, ?_⟩
          cases done : s.done with
          | false => rfl
          | true =>
              rw [done] at quit
              cases quit
      · cases step
      · cases step

/-- The sender is faster. -/
theorem exists_ended (up : 0 < toServer) (down : 0 < toClient) (input : List Byte) :
    ∃ s, Reaches (next .strclithread2 toServer toClient) (start input) s ∧
      Inv .strclithread2 input s ∧ s.receiver = .ended := by
  have nearer : ∀ ⦃s⦄, Inv .strclithread2 input s ∧ s.receiver ≠ .quit → s.receiver = .ended ∨
      ∃ event t, next .strclithread2 toServer toClient s event = some t ∧
        (Inv .strclithread2 input t ∧ t.receiver ≠ .quit) ∧ t.measure < s.measure := by
    rintro s ⟨inv, notQuit⟩
    by_cases isOver : s.receiver.Over
    · exact .inl (((over_iff _).mp isOver).resolve_right notQuit)
    · right
      by_cases set : s.sender = .setDone
      · have step : next .strclithread2 toServer toClient s (.sender 0) =
            some { s with sender := .ended, done := true } := by
          simp only [next, if_neg isOver, senderNext, set]
        have after := lowers _ _ inv step
        exact ⟨_, _, step, ⟨after.1, notQuit⟩, after.2⟩
      · rcases moves_of_running inv up down isOver with ⟨event, t, step, same⟩
        have after := lowers _ _ inv step
        refine ⟨event, t, step, ⟨after.1, fun quit => ?_⟩, after.2⟩
        have tests := tests_of_quit step notQuit quit
        have finished := (inv.stdout_eq fun stored eq =>
          Receiver.noConfusion (tests.1.symm.trans eq)).2.2
        cases sender : s.sender with
        | pause => exact inv.fits.2.1 sender
        | setDone => exact set sender
        | ended => exact absurd (inv.fits.2.2.1.mpr sender) (by rw [tests.2]; decide)
        | fgets | writen | shutdown =>
            rw [sender] at finished
            exact finished
  rcases exists_reaches Session.measure nearer ⟨inv_start _ input, Receiver.noConfusion⟩ with
    ⟨s, reaches, ⟨inv, _⟩, ended⟩
  exact ⟨s, reaches, inv, ended⟩

/-- `strclithread2` says that the server has terminated prematurely when the assignment to
`done` comes late, and just then.  With every input and any room this can happen, and need not,
although the server has sent everything back. -/
theorem blames_iff (up : 0 < toServer) (down : 0 < toClient) (input : List Byte) :
    (∀ s, Reaches (next .strclithread2 toServer toClient) (start input) s →
      Halted (next .strclithread2 toServer toClient) s →
        s.stdout = echo input ∧ (s.receiver = .quit ↔ s.sender = .setDone)) ∧
      (∃ s, Reaches (next .strclithread2 toServer toClient) (start input) s ∧
        Halted (next .strclithread2 toServer toClient) s ∧ s.receiver = .quit) ∧
      ∃ s, Reaches (next .strclithread2 toServer toClient) (start input) s ∧
        Halted (next .strclithread2 toServer toClient) s ∧ s.receiver = .ended := by
  refine ⟨?_, ?_, ?_⟩
  · intro s reaches halted
    have inv : Inv .strclithread2 input s :=
      reaches.invariant (fun _ _ _ inv step => (lowers _ input inv step).1) (inv_start _ input)
    have isOver := (halted_iff inv up down).mp halted
    have outcome := inv.stdout_eq (ne_readline_of_over isOver)
    refine ⟨outcome.1, ?_⟩
    have finished := outcome.2.2
    rcases inv.fits with ⟨_, notPause, set, quit, ended⟩
    rcases (over_iff _).mp isOver with receiver | receiver
    · rw [receiver, set.mp (ended receiver)]
      exact iff_of_false Receiver.noConfusion Sender.noConfusion
    · have notEnded : s.sender ≠ .ended := set.not.mp (by rw [quit receiver]; decide)
      cases sender : s.sender with
      | setDone => exact iff_of_true receiver rfl
      | pause => exact absurd sender notPause
      | ended => exact absurd sender notEnded
      | fgets | writen | shutdown =>
          rw [sender] at finished
          exact finished.elim
  · rcases exists_quit up down input with ⟨s, reaches, inv, quit⟩
    exact ⟨s, reaches, (halted_iff inv up down).mpr (quit ▸ trivial), quit⟩
  · rcases exists_ended up down input with ⟨s, reaches, inv, ended⟩
    exact ⟨s, reaches, (halted_iff inv up down).mpr (ended ▸ trivial), ended⟩

theorem blames_one :
    ∃ s, Reaches (next .strclithread2 1 1) (start [97]) s ∧
      Halted (next .strclithread2 1 1) s ∧ s.receiver = .quit :=
  (blames_iff Nat.one_pos Nat.one_pos [97]).2.1

end NetPractice.EchoSession.Concurrent
