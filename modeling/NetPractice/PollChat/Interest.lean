import NetPractice.PollChat.Delivery

/-!
# The interest masks

A broadcast means to register the other clients for `POLLOUT` instead of `POLLIN`, and
a write to undo this.  Both assign `events |= ~POLLIN`, which adds flags and removes
none, so that a client that has once been sent a message stays registered for both
conditions.
-/

namespace NetPractice.PollChat

open NetPractice.Text
open NetPractice.Socket
open NetPractice.Transition

/-- The program next to what its clients have been told: `told` is set for a client
whose `write_buf` was assigned by a broadcast and has not been written since. -/
structure Observed where
  world : World
  told : Fd → Bool

namespace Server

/-- A broadcast from `connfd` assigns this client's `write_buf`. -/
def addressed (s : Server) (connfd fd : Fd) : Bool :=
  (List.range' 1 s.userCounter).any fun j => (s.fds j).fd == fd && fd != connfd

theorem addressed_iff (s : Server) (connfd fd : Fd) :
    s.addressed connfd fd = true ↔
      ∃ j, 1 ≤ j ∧ j ≤ s.userCounter ∧ (s.fds j).fd = fd ∧ fd ≠ connfd := by
  simp only [addressed, List.any_eq_true, List.mem_range'_1, Bool.and_eq_true, beq_iff_eq,
    bne_iff_ne]
  constructor
  · rintro ⟨j, range, equal, different⟩
    exact ⟨j, range.1, by omega, equal, different⟩
  · rintro ⟨j, pos, le, equal, different⟩
    exact ⟨j, by omega, equal, different⟩

end Server

namespace Observed

/-- In front of the first `poll`. -/
def initial (listenfd : Fd) (users : Fd → ClientData) : Observed where
  world := World.initial listenfd users
  told := fun _ => false

/-- What an event tells the clients.  A new client has not been told anything. -/
def tell (o : Observed) : Event → Fd → Bool
  | .poll _ => o.told
  | .entry sys =>
      let s := o.world.server
      let connfd := (s.fds s.i).fd
      match s.branch with
      | .accept =>
          match sys.accept with
          | some connfd =>
              if s.userCounter ≥ USER_LIMIT then o.told
              else Function.update o.told connfd false
          | none => o.told
      | .readable =>
          match sys.recv with
          | .data _ => fun fd => o.told fd || s.addressed connfd fd
          | .eof | .again | .fail => o.told
      | .writable =>
          if (s.writeText connfd).isSome then Function.update o.told connfd false else o.told
      | .error | .hangup | .idle => o.told

/-- The world goes on, with what has been told. -/
def next (o : Observed) (event : Event) : Option Observed :=
  (o.world.next event).map fun world => ⟨world, o.tell event⟩

end Observed

/-- A client with a pending message is registered for `POLLOUT` and not for `POLLIN`, a
client without one the other way round, and a client that is reported writable, and not
yet handled, has a pending message. -/
structure Masked (o : Observed) : Prop where
  pending : ∀ k, 1 ≤ k → k ≤ o.world.server.userCounter →
    o.told (o.world.server.fds k).fd = true →
      has (o.world.server.fds k).events POLLOUT ∧ ¬ has (o.world.server.fds k).events POLLIN
  waiting : ∀ k, 1 ≤ k → k ≤ o.world.server.userCounter →
    o.told (o.world.server.fds k).fd = false →
      has (o.world.server.fds k).events POLLIN ∧ ¬ has (o.world.server.fds k).events POLLOUT
  reported : ∀ k, 1 ≤ k → o.world.server.i ≤ k → k ≤ o.world.server.userCounter →
    has (o.world.server.fds k).revents POLLOUT → o.told (o.world.server.fds k).fd = true

/-- A client that says something is alone in the room. -/
def SpeaksAlone (o : Observed) : Event → Prop
  | .poll _ => True
  | .entry sys =>
      let s := o.world.server
      s.branch = .readable → sys.recv.bytes.isSome →
        ∀ k < s.userCounter + 1, 1 ≤ k → (s.fds k).fd = (s.fds s.i).fd

instance (o : Observed) : ∀ event, Decidable (SpeaksAlone o event)
  | .poll _ => isTrue trivial
  | .entry _ => inferInstanceAs (Decidable (_ → _ → ∀ k < _, _ → _))

/-! ## Without a broadcast -/

/-- Nobody has been told anything, and the clients are registered as they were when they
came. -/
structure Silent (o : Observed) : Prop where
  told : ∀ fd, o.told fd = false
  events : ∀ k, 1 ≤ k → k ≤ o.world.server.userCounter →
    (o.world.server.fds k).events = POLLIN ||| POLLRDHUP ||| POLLERR
  revents : ∀ k, 1 ≤ k → k ≤ o.world.server.userCounter →
    ¬ has (o.world.server.fds k).revents POLLOUT

theorem Silent.masked {o : Observed} (silent : Silent o) : Masked o where
  pending k _ _ told := by
    rw [silent.told] at told
    cases told
  waiting k pos le _ := by
    rw [silent.events k pos le]
    decide
  reported k pos _ le out := absurd out (silent.revents k pos le)

theorem initial_silent (listenfd : Fd) (users : Fd → ClientData) :
    Silent (Observed.initial listenfd users) := by
  have none : ∀ k, 1 ≤ k → k ≤ 0 → False := fun k pos le => by omega
  constructor
  · exact fun _ => rfl
  · exact fun k pos le => (none k pos le).elim
  · exact fun k pos le => (none k pos le).elim

/-- The entries of the table come from entries of the table before. -/
theorem Silent.of_entries {o p : Observed} (silent : Silent o)
    (told : ∀ fd, p.told fd = true → o.told fd = true)
    (entries : ∀ k, 1 ≤ k → k ≤ p.world.server.userCounter →
      ∃ j, 1 ≤ j ∧ j ≤ o.world.server.userCounter ∧
        p.world.server.fds k = o.world.server.fds j) : Silent p where
  told fd := by
    cases known : p.told fd with
    | false => rfl
    | true =>
        have before := told fd known
        rw [silent.told] at before
        cases before
  events k pos le := by
    rcases entries k pos le with ⟨j, jPos, jLe, equal⟩
    rw [equal]
    exact silent.events j jPos jLe
  revents k pos le := by
    rcases entries k pos le with ⟨j, jPos, jLe, equal⟩
    rw [equal]
    exact silent.revents j jPos jLe

namespace Server

/-- A broadcast of a client that is alone does nothing. -/
theorem broadcast_alone {s : Server} {connfd : Fd}
    (alone : ∀ k, 1 ≤ k → k ≤ s.userCounter → (s.fds k).fd = connfd) :
    s.broadcast connfd = s := by
  have entries : ∀ j ∈ List.range' 1 s.userCounter, (s.fds j).fd = connfd := by
    intro j mem
    have range := List.mem_range'_1.mp mem
    exact alone j range.1 (by omega)
  rw [broadcast]
  generalize List.range' 1 s.userCounter = list at entries
  induction list with
  | nil => rfl
  | cons j list ih =>
      have here : broadcastStep connfd s j = s := if_pos (entries j List.mem_cons_self)
      rw [List.foldl_cons, here]
      exact ih fun k mem => entries k (List.mem_cons_of_mem j mem)

/-- Behind the removal of an entry, the entries come from entries of the table before. -/
theorem entries_moveLast {s : Server} {k : Nat} (pos : 1 ≤ k)
    (le : k ≤ s.moveLast.dropLast.userCounter) :
    ∃ j, 1 ≤ j ∧ j ≤ s.userCounter ∧ s.moveLast.dropLast.fds k = s.fds j := by
  change k ≤ s.userCounter - 1 at le
  by_cases here : k = s.i
  · subst k
    exact ⟨s.userCounter, by omega, Nat.le_refl _, Function.update_self _ _ _⟩
  · exact ⟨k, pos, by omega, Function.update_of_ne here _ _⟩

end Server
namespace Server

theorem poll_fds (s : Server) (revents : Nat → Mask) {k : Nat} (le : k ≤ s.userCounter) :
    (s.poll revents).fds k = { s.fds k with revents := revents k } :=
  if_pos le

/-- The entry of a new client, and the entries that stay. -/
theorem letIn_fds (s : Server) (connfd : Fd) {k : Nat} (le : k ≤ s.userCounter + 1) :
    k = s.userCounter + 1 ∧
        (s.letIn connfd).fds k = ⟨connfd, POLLIN ||| POLLRDHUP ||| POLLERR, 0⟩ ∨
      k ≤ s.userCounter ∧ (s.letIn connfd).fds k = s.fds k := by
  by_cases last : k = s.userCounter + 1
  · left
    rw [last]
    exact ⟨rfl, Function.update_self _ _ _⟩
  · right
    exact ⟨by omega, Function.update_of_ne last _ _⟩

end Server

theorem Silent.poll {o : Observed} (silent : Silent o) {revents : Nat → Mask}
    (reports : o.world.server.Reports revents) :
    Silent ⟨{ o.world with server := o.world.server.poll revents }, o.told⟩ where
  told := silent.told
  events k pos le := by
    change ((o.world.server.poll revents).fds k).events = _
    rw [o.world.server.poll_fds revents le]
    exact silent.events k pos le
  revents k pos le := by
    have report := reports k (Nat.lt_succ_of_le le)
    rw [silent.events k pos le] at report
    change ¬ has ((o.world.server.poll revents).fds k).revents POLLOUT
    rw [o.world.server.poll_fds revents le]
    exact not_has_of_within report (by decide)

/-- Clearing an entry tells nobody anything. -/
theorem told_of_cleared {told : Fd → Bool} {connfd fd : Fd}
    (known : Function.update told connfd false fd = true) : told fd = true := by
  by_cases here : fd = connfd
  · rw [here, Function.update_self] at known
    cases known
  · rwa [Function.update_of_ne here] at known

/-- A new client is registered for `POLLIN`. -/
theorem Silent.letIn {o : Observed} (silent : Silent o) (connfd : Fd) (room : Room) :
    Silent ⟨⟨(o.world.server.letIn connfd).advance, room⟩,
      Function.update o.told connfd false⟩ where
  told fd := by
    cases known : Function.update o.told connfd false fd with
    | false => exact known
    | true =>
        have before := told_of_cleared known
        rw [silent.told] at before
        cases before
  events k pos le := by
    change ((o.world.server.letIn connfd).fds k).events = _
    rcases o.world.server.letIn_fds connfd le with ⟨-, new⟩ | ⟨old, same⟩
    · rw [new]
    · rw [same]
      exact silent.events k pos old
  revents k pos le := by
    change ¬ has ((o.world.server.letIn connfd).fds k).revents POLLOUT
    rcases o.world.server.letIn_fds connfd le with ⟨-, new⟩ | ⟨old, same⟩
    · have unreported : ¬ has (0 : Mask) POLLOUT := by decide
      rwa [new]
    · rw [same]
      exact silent.revents k pos old

/-- Only the listening socket's entry, which is no client, can be found writable. -/
theorem Silent.zero_of_writable {o : Observed} (silent : Silent o)
    (le : o.world.server.i ≤ o.world.server.userCounter)
    (writable : o.world.server.branch = .writable) : o.world.server.i = 0 := by
  by_contra nonzero
  have out : has (o.world.server.fds o.world.server.i).revents POLLOUT := by
    simp only [Server.branch] at writable
    split_ifs at writable
    assumption
  exact silent.revents _ (Nat.pos_of_ne_zero nonzero) le out

theorem onWritable_zero {s : Server} (zero : s.i = 0) (send : Option Nat) {k : Nat}
    (pos : 1 ≤ k) : (s.onWritable send).fds k = s.fds k ∧
      (s.onWritable send).userCounter = s.userCounter := by
  have other : k ≠ s.i := by omega
  simp only [Server.onWritable]
  cases s.writeText (s.fds s.i).fd with
  | none => exact ⟨rfl, rfl⟩
  | some text =>
      cases send with
      | none => exact ⟨Function.update_of_ne other _ _, rfl⟩
      | some count => exact ⟨Function.update_of_ne other _ _, rfl⟩

theorem silent_preserves : Preserves Observed.next SpeaksAlone Silent := by
  intro o event p silent guarded step
  rcases Option.map_eq_some_iff.mp step with ⟨world, worldStep, rfl⟩
  cases event with
  | poll revents =>
      rcases guarded_eq_some_iff.mp worldStep with ⟨⟨-, reports⟩, rfl⟩
      exact silent.poll reports
  | entry sys =>
      rcases guarded_eq_some_iff.mp worldStep with ⟨⟨le, -⟩, rfl⟩
      have kept : ∀ k, 1 ≤ k → k ≤ o.world.server.userCounter →
          ∃ j, 1 ≤ j ∧ j ≤ o.world.server.userCounter ∧
            o.world.server.fds k = o.world.server.fds j :=
        fun k pos le => ⟨k, pos, le, rfl⟩
      cases branch_eq : o.world.server.branch with
      | accept =>
          simp only [Server.handle, Observed.tell, branch_eq]
          cases sys.accept with
          | none => exact silent.of_entries (fun _ => id) kept
          | some connfd =>
              by_cases full : o.world.server.userCounter ≥ USER_LIMIT
              · simp only [Server.onAccept, if_pos full]
                exact silent.of_entries (fun _ => id) kept
              · simp only [Server.onAccept, if_neg full]
                exact silent.letIn connfd _
      | hangup =>
          simp only [Server.handle, Observed.tell, branch_eq]
          exact silent.of_entries (fun _ => id) fun k pos le =>
            Server.entries_moveLast pos le
      | readable =>
          simp only [Server.handle, Observed.tell, branch_eq]
          cases received : sys.recv with
          | data bytes =>
              have alone := guarded branch_eq (by rw [received]; rfl)
              have nobody : ∀ k, 1 ≤ k → k ≤ o.world.server.userCounter →
                  (o.world.server.fds k).fd = (o.world.server.fds o.world.server.i).fd :=
                fun k pos le => alone k (Nat.lt_succ_of_le le) pos
              have same : (o.world.server.fillBuf (o.world.server.fds o.world.server.i).fd
                  bytes).broadcast (o.world.server.fds o.world.server.i).fd =
                    o.world.server.fillBuf (o.world.server.fds o.world.server.i).fd bytes :=
                Server.broadcast_alone nobody
              simp only [Server.onReadable, same]
              refine silent.of_entries (fun fd told => ?_) kept
              rcases (Bool.or_eq_true _ _).mp told with told | addressed
              · exact told
              · rcases (Server.addressed_iff _ _ _).mp addressed with
                  ⟨j, pos, le, equal, different⟩
                exact absurd (equal.symm.trans (nobody j pos le)) different
          | eof | again => exact silent.of_entries (fun _ => id) kept
          | fail =>
              exact silent.of_entries (fun _ => id) fun k pos le =>
                Server.entries_moveLast pos le
      | writable =>
          have zero := silent.zero_of_writable le branch_eq
          simp only [Server.handle, Observed.tell, branch_eq]
          apply silent.of_entries
          · intro fd told
            split at told
            · exact told_of_cleared told
            · exact told
          · intro k pos le
            rcases onWritable_zero zero sys.send pos with ⟨same, counter⟩
            exact ⟨k, pos, counter ▸ le, same⟩
      | error | idle =>
          simp only [Server.handle, Observed.tell, branch_eq]
          exact silent.of_entries (fun _ => id) kept

/-- A client that hears a message stays registered for `POLLIN`. -/
theorem Silent.loses {o p : Observed} {event : Event} (silent : Silent o)
    (unguarded : ¬ SpeaksAlone o event) (step : o.next event = some p) : ¬ Masked p := by
  rcases Option.map_eq_some_iff.mp step with ⟨world, worldStep, rfl⟩
  intro masked
  cases event with
  | poll revents => exact unguarded trivial
  | entry sys =>
      rcases guarded_eq_some_iff.mp worldStep with ⟨⟨le, -⟩, rfl⟩
      simp only [SpeaksAlone, Classical.not_imp, not_forall] at unguarded
      rcases unguarded with ⟨readable, data, k, lt, pos, different⟩
      cases received : sys.recv with
      | eof | again | fail =>
          rw [received] at data
          cases data
      | data bytes =>
          have frame := (o.world.server.fillBuf (o.world.server.fds o.world.server.i).fd
            bytes).broadcastFrame_broadcast (o.world.server.fds o.world.server.i).fd
          have kLe : k ≤ o.world.server.userCounter := Nat.le_of_lt_succ lt
          have handled : o.world.server.handle sys = ((o.world.server.fillBuf
              (o.world.server.fds o.world.server.i).fd bytes).broadcast
                (o.world.server.fds o.world.server.i).fd).advance := by
            simp only [Server.handle, readable, Server.onReadable, received]
          have told : o.tell (.entry sys) (o.world.server.fds k).fd = true := by
            simp only [Observed.tell, readable, received]
            apply (Bool.or_eq_true _ _).mpr
            right
            exact (Server.addressed_iff _ _ _).mpr ⟨k, pos, kLe, rfl, different⟩
          have input : has (o.world.server.fds k).events POLLIN := by
            rw [silent.events k pos kLe]
            decide
          have masks := masked.pending k pos
          simp only [handled] at masks
          apply (masks (frame.same.userCounter_eq.symm ▸ kLe) _).2
          · exact frame.armed k POLLIN input
          · have fd_eq := frame.same.fd_eq k
            change o.tell (.entry sys) (((o.world.server.fillBuf
              (o.world.server.fds o.world.server.i).fd bytes).broadcast
                (o.world.server.fds o.world.server.i).fd).fds k).fd = true
            rw [fd_eq]
            exact told

/-- In every run, the masks are those of clients with and without a pending message
exactly as long as only clients that are alone in the room say something. -/
theorem masked_along_iff_speaksAlone (listenfd : Fd) (users : Fd → ClientData)
    (events : List Event)
    (possible : (run Observed.next (Observed.initial listenfd users) events).isSome) :
    Along Observed.next Masked (Observed.initial listenfd users) events ↔
      Meets Observed.next SpeaksAlone (Observed.initial listenfd users) events :=
  along_iff_meets_of_isSome silent_preserves (fun _ silent => silent.masked)
    (fun _ _ _ silent unguarded step => silent.loses unguarded step)
    (initial_silent listenfd users) possible

/-- A client speaks while it is alone, and another one joins. -/
theorem masked_along_speaksFirst :
    Along Observed.next Masked (Observed.initial 3 zeroUsers)
      (joinRound 4 0 ++ sayRound [97] 1 ++ joinRound 5 1) :=
  (masked_along_iff_speaksAlone 3 zeroUsers _ (by decide)).mpr (by decide)

/-- One of two clients speaks, and the other is sent the message: it is registered for both
conditions before and behind the write, and is reported writable once more with nothing to
send. -/
theorem spokenTo_keeps_flags :
    ¬ Along Observed.next Masked (Observed.initial 3 zeroUsers)
        (joinRound 4 0 ++ joinRound 5 1 ++ sayRound [97] 2) ∧
      ¬ Along Observed.next Masked (Observed.initial 3 zeroUsers)
        (joinRound 4 0 ++ joinRound 5 1 ++ sayRound [97] 2 ++ writeRound 1 ++
          [.poll (reportAt 2 POLLOUT)]) := by
  constructor
  · intro along
    have outcome : (run Observed.next (Observed.initial 3 zeroUsers)
        (joinRound 4 0 ++ joinRound 5 1 ++ sayRound [97] 2)).map (fun o =>
          (o.world.server.userCounter, o.told (o.world.server.fds 2).fd,
            decide (has (o.world.server.fds 2).events POLLIN))) = some (2, true, true) := by
      decide
    rcases Option.map_eq_some_iff.mp outcome with ⟨o, finished, values⟩
    simp only [Prod.mk.injEq, decide_eq_true_eq] at values
    have masks := (along.last finished).pending 2 (by decide) values.1.ge values.2.1
    exact masks.2 values.2.2
  · intro along
    have outcome : (run Observed.next (Observed.initial 3 zeroUsers)
        (joinRound 4 0 ++ joinRound 5 1 ++ sayRound [97] 2 ++ writeRound 1 ++
          [.poll (reportAt 2 POLLOUT)])).map (fun o =>
            (o.world.server.userCounter, o.world.server.i, o.told (o.world.server.fds 2).fd,
              decide (has (o.world.server.fds 2).revents POLLOUT))) =
                some (2, 0, false, true) := by
      decide
    rcases Option.map_eq_some_iff.mp outcome with ⟨o, finished, values⟩
    simp only [Prod.mk.injEq, decide_eq_true_eq] at values
    rcases values with ⟨counter, index, told, reported⟩
    have known := (along.last finished).reported 2 (by decide) (by omega) counter.ge reported
    rw [told] at known
    cases known

end NetPractice.PollChat
