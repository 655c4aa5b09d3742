import NetPractice.EchoSession.Processes

/-!
# What the steps of the two processes keep

Each step moves bytes one place on: from the input to the socket, through the server, and
from the socket to the output.  None is lost or exchanged, and every step but the assignment
to `done` brings the session nearer to its end.
-/

namespace NetPractice.EchoSession.Concurrent

open NetPractice.EchoSession.Lines (fgets lines)
open NetPractice.LineReader (newline)
open NetPractice.Socket
open NetPractice.Text
open NetPractice.Transition

variable {client : Client} {toServer toClient n : Nat} {input : List Byte} {s t : Session}

/-! ## Steps -/

@[simp]
theorem hand_send (buf : List Byte) : (Sender.send buf).hand = buf := by
  unfold Sender.send
  split
  · next empty => exact empty.symm
  · rfl

@[simp]
theorem rank_send (buf : List Byte) : (Sender.send buf).rank = 3 := by
  unfold Sender.send
  split <;> rfl

theorem ne_nil_of_send {buf rest : List Byte} (eq : Sender.send rest = .writen buf) :
    buf ≠ [] := by
  unfold Sender.send at eq
  split at eq
  · cases eq
  · next nonempty =>
      cases eq
      exact nonempty

theorem not_finished_send (buf : List Byte) : ¬ (Sender.send buf).Finished := by
  unfold Sender.send
  split <;> exact not_false

theorem send_ne_shutdown (buf : List Byte) : Sender.send buf ≠ .shutdown := by
  unfold Sender.send
  split <;> exact Sender.noConfusion

theorem finished_behindShutdown (client : Client) : client.behindShutdown.Finished := by
  cases client <;> exact trivial

theorem hand_of_finished {sender : Sender} (finished : sender.Finished) : sender.hand = [] := by
  cases sender <;> first | rfl | exact finished.elim

theorem inv_start (client : Client) (input : List Byte) : Inv client input (start input) where
  sound := Peer.sound_start
  all := by
    simp [Session.all, start, Receiver.hand, Sender.hand, Peer.inFlight, Peer.start, Pipe.empty,
      Server.hand]
  hand_ne_nil := nofun
  closed_iff := iff_of_false Bool.false_ne_true not_false
  drained := by
    rintro (shutdown | finished)
    · cases shutdown
    · exact finished.elim
  atEnd other := absurd rfl (other [])
  fits := by cases client <;> simp [Session.Fits, start]

/-- A step of the server leaves the client as it is. -/
theorem Inv.server {peer : Peer} (inv : Inv client input s)
    (moved : Peer.Moved toClient s.peer peer) : Inv client input { s with peer := peer } where
  sound := moved.sound inv.sound
  all := by
    rw [← inv.all]
    unfold Session.all
    rw [moved.inFlight_eq]
  hand_ne_nil := inv.hand_ne_nil
  closed_iff := moved.closed_eq ▸ inv.closed_iff
  drained := inv.drained
  atEnd other := by
    have ended := inv.atEnd other
    have returned := inv.sound.returned_iff.mpr ended.2.2
    refine ⟨ended.1, ?_⟩
    -- the server has returned, and does not move
    cases moved with
    | read reading => exact Server.noConfusion (returned.symm.trans reading)
    | wrote writing => exact Server.noConfusion (returned.symm.trans writing)
    | returned reading => exact Server.noConfusion (returned.symm.trans reading)
  fits := inv.fits

theorem measure_server {peer : Peer} (moved : Peer.Moved toClient s.peer peer) :
    { s with peer := peer : Session }.measure < s.measure := by
  unfold Session.measure
  rw [moved.inFlight_eq]
  rcases moved.work_lt with nearer | ⟨reading, returned, same⟩
  · have alive : (if peer.server = .returned then 0 else 1) ≤ 1 := by
      split <;> omega
    dsimp only
    omega
  · simp only [returned, reading, same, reduceCtorEq, if_true, if_false]
    omega

/-- While the sender copies, its place does not matter. -/
theorem Session.Fits.copying (fits : s.Fits client) (receiver : t.receiver = s.receiver)
    (done : t.done = s.done) (before : ¬ s.sender.Finished) (after : ¬ t.sender.Finished) :
    t.Fits client := by
  have apart : ∀ {sender : Sender}, ¬ sender.Finished →
      sender ≠ .pause ∧ sender ≠ .setDone ∧ sender ≠ .ended := by
    intro sender copying
    refine ⟨?_, ?_, ?_⟩ <;> rintro rfl <;> exact copying trivial
  rcases apart before with ⟨_, _, notEnded⟩
  rcases apart after with ⟨notPause, notSetDone, stillNot⟩
  cases client with
  | strclifork =>
      rcases fits with ⟨notTest, notQuit, -, ended⟩
      rw [← receiver] at notTest notQuit ended
      exact ⟨notTest, notQuit, notSetDone, iff_of_false stillNot (ended.not.mp notEnded)⟩
  | strclithread =>
      rcases fits with ⟨notKill, notTest, notQuit, -, -⟩
      rw [← receiver] at notKill notTest notQuit
      exact ⟨notKill, notTest, notQuit, notPause, notSetDone⟩
  | strclithread2 =>
      rcases fits with ⟨notKill, -, set, quit, ended⟩
      rw [← receiver] at notKill quit ended
      rw [← done] at set quit ended
      exact ⟨notKill, notPause, iff_of_false (set.not.mpr notEnded) stillNot, quit, ended⟩

theorem Inv.step_fgets (inv : Inv client input s) (sender : s.sender = .fgets)
    (step : senderNext client toServer n s = some t) :
    Inv client input t ∧ t.measure < s.measure := by
  have notFinished : ¬ s.sender.Finished := sender ▸ not_false
  have opened : ¬ s.peer.up.closed = true := inv.closed_iff.not.mpr notFinished
  unfold senderNext at step
  rw [sender] at step
  by_cases empty : s.stdin = []
  · rw [if_pos empty] at step
    cases step
    refine ⟨⟨inv.sound, ?_, nofun, iff_of_false opened not_false, fun _ => empty, inv.atEnd,
      inv.fits.copying rfl rfl notFinished not_false⟩, ?_⟩
    · rw [← inv.all]
      unfold Session.all
      rw [sender]
      rfl
    · unfold Session.measure
      rw [sender]
      simp only [Sender.hand, Sender.rank]
      omega
  · rw [if_neg empty] at step
    cases step
    refine ⟨⟨inv.sound, ?_, fun _ => ne_nil_of_send, iff_of_false opened (not_finished_send _), ?_,
      inv.atEnd, inv.fits.copying rfl rfl notFinished (not_finished_send _)⟩, ?_⟩
    · rw [← inv.all]
      unfold Session.all
      rw [sender, echo_of_ne_nil empty, hand_send]
      simp only [Sender.hand, List.append_nil, List.append_assoc]
    · rintro (shutdown | finished)
      · exact absurd shutdown (send_ne_shutdown _)
      · exact absurd finished (not_finished_send _)
    · have shorter := Lines.length_sub_fgets_lt empty
      have cut : (cstr (fgets s.stdin)).length ≤ (fgets s.stdin).length :=
        (List.takeWhile_prefix _).length_le
      have split := congrArg List.length (Lines.fgets_append s.stdin)
      rw [List.length_append, List.length_drop] at split
      unfold Session.measure
      rw [sender]
      dsimp only
      rw [hand_send, rank_send]
      simp only [Sender.hand, Sender.rank, List.length_drop, List.length_nil]
      omega

theorem Inv.step_writen {buf : List Byte} (inv : Inv client input s)
    (sender : s.sender = .writen buf) (step : senderNext client toServer n s = some t) :
    Inv client input t ∧ t.measure < s.measure := by
  have notFinished : ¬ s.sender.Finished := sender ▸ not_false
  have opened : ¬ s.peer.up.closed = true := inv.closed_iff.not.mpr notFinished
  unfold senderNext at step
  rw [sender] at step
  rcases Option.map_eq_some_iff.mp step with ⟨⟨rest, up⟩, written, rfl⟩
  have wrote := Pipe.wrote_of_write written
  refine ⟨⟨⟨inv.sound.hand_ne_nil, inv.sound.returned_iff, fun finished => ?_⟩, ?_,
    fun _ => ne_nil_of_send, ?_, ?_, inv.atEnd,
    inv.fits.copying rfl rfl notFinished (not_finished_send _)⟩, ?_⟩
  · exact absurd (inv.sound.drained finished).2 opened
  · rw [← inv.all]
    unfold Session.all Peer.inFlight
    rw [sender, hand_send]
    have order : up.bytes ++ (rest ++ echo s.stdin) = s.peer.up.bytes ++ (buf ++ echo s.stdin) := by
      rw [← List.append_assoc, wrote.bytes, List.append_assoc]
    simp only [Sender.hand, List.append_assoc, order]
  · rw [wrote.closed]
    exact iff_of_false opened (not_finished_send _)
  · rintro (shutdown | finished)
    · exact absurd shutdown (send_ne_shutdown _)
    · exact absurd finished (not_finished_send _)
  · have lengths := wrote.length
    have more := wrote.rest_length
    have pos := wrote.pos
    unfold Session.measure Peer.work Peer.inFlight
    rw [sender]
    dsimp only
    rw [hand_send, rank_send]
    simp only [Sender.hand, Sender.rank, List.length_append]
    omega

theorem Inv.step_shutdown (inv : Inv client input s) (running : ¬ s.receiver.Over)
    (sender : s.sender = .shutdown) (step : senderNext client toServer n s = some t) :
    Inv client input t ∧ t.measure < s.measure := by
  unfold senderNext at step
  rw [sender] at step
  cases step
  have fin := finished_behindShutdown client
  refine ⟨⟨⟨inv.sound.hand_ne_nil, inv.sound.returned_iff, fun finished =>
    ⟨(inv.sound.drained finished).1, rfl⟩⟩, ?_, ?_, iff_of_true rfl fin,
    fun _ => inv.drained (.inl sender), inv.atEnd, ?_⟩, ?_⟩
  · rw [← inv.all]
    unfold Session.all
    rw [sender, hand_of_finished fin]
    rfl
  · intro buf eq
    dsimp only at eq
    rw [eq] at fin
    exact fin.elim
  · have fits := inv.fits
    have notEnded : s.receiver ≠ .ended := fun eq => running (eq ▸ trivial)
    have notQuit : s.receiver ≠ .quit := fun eq => running (eq ▸ trivial)
    unfold Session.Fits at fits ⊢
    rw [sender] at fits
    cases client <;> simp_all [Client.behindShutdown]
  · have rank : client.behindShutdown.rank < 2 := by
      cases client <;> decide
    have work : Peer.work { s.peer with up := s.peer.up.shut } = s.peer.work := rfl
    have flight : Peer.inFlight { s.peer with up := s.peer.up.shut } = s.peer.inFlight := rfl
    have before : Sender.shutdown.rank = 2 := rfl
    have empty : Sender.shutdown.hand = [] := rfl
    unfold Session.measure
    rw [sender, work, flight, before, empty]
    dsimp only
    rw [hand_of_finished fin]
    omega

theorem Inv.step_setDone (inv : Inv client input s) (running : ¬ s.receiver.Over)
    (sender : s.sender = .setDone) (step : senderNext client toServer n s = some t) :
    Inv client input t ∧ t.measure < s.measure := by
  unfold senderNext at step
  rw [sender] at step
  cases step
  have finished : s.sender.Finished := sender ▸ trivial
  refine ⟨⟨inv.sound, ?_, nofun, iff_of_true (inv.closed_iff.mpr finished) trivial,
    fun _ => inv.drained (.inr finished), inv.atEnd, ?_⟩, ?_⟩
  · rw [← inv.all]
    unfold Session.all
    rw [sender]
    rfl
  · have fits := inv.fits
    have notQuit : s.receiver ≠ .quit := fun eq => running (eq ▸ trivial)
    unfold Session.Fits at fits ⊢
    rw [sender] at fits
    cases client <;> simp_all
  · unfold Session.measure
    rw [sender]
    simp only [Sender.hand, Sender.rank]
    omega

/-- The receiver goes on with the next line, or with more of this one. -/
theorem Session.Fits.reading {stored : List Byte} (fits : s.Fits client)
    (sender : t.sender = s.sender) (done : t.done = s.done)
    (before : s.receiver = .readline stored) {more : List Byte}
    (after : t.receiver = .readline more) : t.Fits client := by
  unfold Session.Fits at fits ⊢
  rw [sender, done, after]
  rw [before] at fits
  cases client <;> simpa using fits

theorem rank_readline_le (stored : List Byte) : (Receiver.readline stored).rank ≤ 3 := by
  change (if stored = [] then 2 else 3) ≤ 3
  split <;> omega

theorem le_rank_readline (stored : List Byte) : 2 ≤ (Receiver.readline stored).rank := by
  change 2 ≤ if stored = [] then 2 else 3
  split <;> omega

/-- What is stored is printed as it is: the server sends no NUL. -/
theorem Inv.cstr_eq {stored back : List Byte} (inv : Inv client input s)
    (all : s.all = s.stdout ++ stored ++ back) : cstr stored = stored := by
  apply cstr_of_notMem
  intro inside
  apply zero_notMem_echo input
  rw [← inv.all, all]
  exact List.mem_append_left _ (List.mem_append_right _ inside)

/-- One byte from the buffer of `my_read`. -/
theorem Inv.step_byte {stored readBuf : List Byte} {c : Byte} (inv : Inv client input s)
    (receiver : s.receiver = .readline stored) (filled : s.readBuf = c :: readBuf)
    (step : receiverNext client n s = some t) :
    Inv client input t ∧ t.measure < s.measure := by
  unfold receiverNext at step
  rw [receiver] at step
  simp only [filled] at step
  have split : s.all = s.stdout ++ (stored ++ [c]) ++
      (readBuf ++ (s.peer.inFlight ++ (s.sender.hand ++ echo s.stdin))) := by
    unfold Session.all
    rw [receiver, filled, Receiver.hand]
    simp only [List.append_assoc, List.cons_append, List.nil_append]
  have lower := le_rank_readline stored
  split at step
  · cases step
    refine ⟨⟨inv.sound, ?_, inv.hand_ne_nil, inv.closed_iff, inv.drained,
      fun other => absurd rfl (other []), inv.fits.reading rfl rfl receiver rfl⟩, ?_⟩
    · rw [← inv.all, split, Session.all]
      simp only [inv.cstr_eq split, Receiver.hand, List.append_assoc, List.nil_append]
    · have upper := rank_readline_le []
      unfold Session.measure
      rw [receiver, filled, List.length_cons]
      dsimp only
      omega
  · cases step
    refine ⟨⟨inv.sound, ?_, inv.hand_ne_nil, inv.closed_iff, inv.drained,
      fun other => absurd rfl (other _), inv.fits.reading rfl rfl receiver rfl⟩, ?_⟩
    · rw [← inv.all, split, Session.all]
      simp only [Receiver.hand, List.append_assoc]
    · have upper := rank_readline_le (stored ++ [c])
      unfold Session.measure
      rw [receiver, filled, List.length_cons]
      dsimp only
      omega

/-- `read` returns, in front of the FIN or behind it. -/
theorem Inv.step_fill {stored : List Byte} (inv : Inv client input s)
    (receiver : s.receiver = .readline stored) (empty : s.readBuf = [])
    (step : receiverNext client n s = some t) :
    Inv client input t ∧ t.measure < s.measure := by
  unfold receiverNext at step
  rw [receiver] at step
  simp only [empty] at step
  split at step
  · next ends =>
      split at step
      · next nothing =>
          cases step
          have fin : s.sender.Finished := by
            rw [← inv.closed_iff]
            exact (inv.sound.drained (inv.sound.returned_iff.mpr ends.1.2)).2
          refine ⟨⟨inv.sound, ?_, inv.hand_ne_nil, inv.closed_iff, inv.drained,
            fun _ => ⟨rfl, ends.1⟩, ?_⟩, ?_⟩
          · rw [← inv.all, Session.all, Session.all, receiver, nothing, empty]
            cases client <;> rfl
          · have fits := inv.fits
            unfold Session.Fits at fits ⊢
            rw [receiver] at fits
            cases client <;> simp_all [Client.behindEof]
          · have rank : client.behindEof.rank < 2 := by
              cases client <;> decide
            have lower := le_rank_readline stored
            unfold Session.measure
            rw [receiver, empty]
            dsimp only
            omega
      · next more =>
          cases step
          have split : s.all = s.stdout ++ stored ++
              (s.peer.inFlight ++ (s.sender.hand ++ echo s.stdin)) := by
            unfold Session.all
            rw [receiver, empty, Receiver.hand]
            simp only [List.append_assoc, List.nil_append]
          refine ⟨⟨inv.sound, ?_, inv.hand_ne_nil, inv.closed_iff, inv.drained,
            fun other => absurd rfl (other []), inv.fits.reading rfl rfl receiver rfl⟩, ?_⟩
          · rw [← inv.all, split, Session.all]
            simp only [inv.cstr_eq split, Receiver.hand, List.append_assoc, List.nil_append]
          · unfold Session.measure
            rw [receiver, empty]
            simp only [Receiver.rank, more, if_true, if_false]
            omega
  · split at step
    · rcases Option.map_eq_some_iff.mp step with ⟨⟨chunk, down⟩, taken, rfl⟩
      have got := Pipe.got_of_read taken
      refine ⟨⟨⟨inv.sound.hand_ne_nil, ?_, inv.sound.drained⟩, ?_, inv.hand_ne_nil, inv.closed_iff,
        inv.drained, fun other => absurd rfl (other stored),
        inv.fits.reading rfl rfl receiver rfl⟩, ?_⟩
      · rw [got.closed]
        exact inv.sound.returned_iff
      · rw [← inv.all]
        unfold Session.all Peer.inFlight
        rw [receiver, empty, ← got.bytes]
        simp only [List.append_assoc, List.nil_append]
      · have lengths := got.length
        have chunkLength := got.chunk_length
        have pos := got.pos
        unfold Session.measure Peer.work Peer.inFlight
        rw [receiver, empty]
        simp only [List.length_append, List.length_nil]
        omega
    · cases step

/-- The receiver ends. -/
theorem Inv.step_last (inv : Inv client input s)
    (last : ∀ stored, s.receiver ≠ .readline stored) (step : receiverNext client n s = some t) :
    Inv client input t ∧ t.measure < s.measure := by
  have ended := inv.atEnd last
  have returned := inv.sound.returned_iff.mpr ended.2.2
  have closed := (inv.sound.drained returned).2
  have fits := inv.fits
  unfold receiverNext at step
  cases receiver : s.receiver with
  | readline stored => exact absurd receiver (last stored)
  | kill =>
      rw [receiver] at step
      cases step
      refine ⟨⟨inv.sound, ?_, nofun, iff_of_true closed trivial,
        fun _ => inv.drained (.inr (inv.closed_iff.mp closed)), fun _ => ended, ?_⟩, ?_⟩
      · rw [← inv.all, Session.all, Session.all, receiver,
          hand_of_finished (inv.closed_iff.mp closed)]
        rfl
      · unfold Session.Fits at fits ⊢
        rw [receiver] at fits
        cases client <;> simp_all
      · unfold Session.measure
        rw [receiver, hand_of_finished (inv.closed_iff.mp closed)]
        simp only [Sender.hand, Sender.rank, Receiver.rank]
        omega
  | testDone =>
      rw [receiver] at step
      cases step
      refine ⟨⟨inv.sound, ?_, inv.hand_ne_nil, inv.closed_iff, inv.drained, fun _ => ended, ?_⟩, ?_⟩
      · rw [← inv.all, Session.all, Session.all, receiver]
        cases s.done <;> rfl
      · unfold Session.Fits at fits ⊢
        rw [receiver] at fits
        cases client <;> cases done : s.done <;> simp_all
      · unfold Session.measure
        rw [receiver]
        cases s.done <;> simp only [Receiver.rank, if_true, Bool.false_eq_true, if_false] <;> omega
  | ended =>
      rw [receiver] at step
      cases step
  | quit =>
      rw [receiver] at step
      cases step

/-- Every step keeps the invariant, and leaves less to be done. -/
theorem lowers (client : Client) (input : List Byte) :
    Lowers (next client toServer toClient) (Inv client input) Session.measure := by
  intro s event t inv step
  cases event with
  | sender n =>
      rcases Option.ite_none_left_eq_some.mp step with ⟨running, step⟩
      cases sender : s.sender with
      | fgets => exact inv.step_fgets sender step
      | writen buf => exact inv.step_writen sender step
      | shutdown => exact inv.step_shutdown running sender step
      | setDone => exact inv.step_setDone running sender step
      | pause | ended =>
          simp only [senderNext, sender] at step
          cases step
  | receiver n =>
      cases receiver : s.receiver with
      | readline stored =>
          cases filled : s.readBuf with
          | nil => exact inv.step_fill receiver filled step
          | cons c readBuf => exact inv.step_byte receiver filled step
      | kill | testDone | ended | quit =>
          exact inv.step_last (fun stored eq => Receiver.noConfusion (receiver.symm.trans eq)) step
  | server n =>
      rcases Option.map_eq_some_iff.mp step with ⟨peer, moves, rfl⟩
      have moved := Peer.moved_of_next moves
      exact ⟨inv.server moved, measure_server moved⟩

end NetPractice.EchoSession.Concurrent
