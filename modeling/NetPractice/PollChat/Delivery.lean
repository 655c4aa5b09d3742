import NetPractice.PollChat.Table

/-!
# Delivery in the poll-based chat room

A client's pending output is a pointer into the sender's receive buffer.  The
ledger compares what a member is owed since it joined with what its socket
accepted since then and with the text behind the pointer.  `DeliverySafe` names
the steps that keep the ledger: nobody waits for a text in the buffer that is
about to be overwritten, nobody's pending text is replaced, texts hold no NUL,
and `send` takes the whole text.
-/

namespace NetPractice.PollChat

open NetPractice.Text
open NetPractice.Socket
open NetPractice.Transition

namespace Server

/-- The text that entry `k` is about to be sent.  A pointer that a new client
inherits with the `users` element of its descriptor is not pending: the entry is
not polled for writing before a broadcast has replaced the pointer. -/
def pending (s : Server) (k : Nat) : Option (List Byte) :=
  if has (s.fds k).events POLLOUT then s.writeText (s.fds k).fd else none

/-- Entry `k` is about to be sent a text from this client's receive buffer. -/
def WaitsFor (s : Server) (k : Nat) (owner : Fd) : Prop :=
  has (s.fds k).events POLLOUT ∧ (s.users (s.fds k).fd).writeBuf = some owner

instance (s : Server) (k : Nat) (owner : Fd) : Decidable (s.WaitsFor k owner) :=
  inferInstanceAs (Decidable (_ ∧ _))

end Server

/-- Every member was sent what it is owed since it joined, once and in order, up
to the text it is about to be sent. -/
def Delivered (w : World) : Prop :=
  ∀ k, 1 ≤ k → k ≤ w.server.userCounter →
    w.room.owed (w.server.fds k).fd =
      w.server.wire (w.server.fds k).fd ++ (w.server.pending k).toList

/-- The steps that keep the ledger.  A hang-up is the last entry's.  When a
client is read, no client waits for a text in its buffer; when it says
something, no other client has anything pending, and the text holds no NUL.
`send` takes the whole text. -/
def DeliverySafe (w : World) : Event → Prop
  | .poll _ => True
  | .entry sys =>
      let s := w.server
      match s.branch with
      | .hangup => s.i = s.userCounter
      | .readable =>
          (∀ k, k < s.userCounter + 1 → 1 ≤ k → ¬ s.WaitsFor k (s.fds s.i).fd) ∧
          ∀ bytes ∈ sys.recv.bytes, ∀ k, k < s.userCounter + 1 → 1 ≤ k →
            k ≠ s.i → s.pending k = none ∧ 0 ∉ bytes
      | .writable => ∀ text ∈ s.pending s.i, ∃ count ∈ sys.send, text.length ≤ count
      | .accept | .error | .idle => True

instance (w : World) : ∀ event, Decidable (DeliverySafe w event)
  | .poll _ => isTrue trivial
  | .entry sys =>
      match branch_eq : w.server.branch with
      | .hangup => decidable_of_iff (w.server.i = w.server.userCounter)
          (by simp only [DeliverySafe, branch_eq])
      | .readable => decidable_of_iff
          ((∀ k, k < w.server.userCounter + 1 → 1 ≤ k →
              ¬ w.server.WaitsFor k (w.server.fds w.server.i).fd) ∧
            ∀ bytes ∈ sys.recv.bytes, ∀ k, k < w.server.userCounter + 1 → 1 ≤ k →
              k ≠ w.server.i → w.server.pending k = none ∧ 0 ∉ bytes)
          (by simp only [DeliverySafe, branch_eq])
      | .writable => decidable_of_iff
          (∀ text ∈ w.server.pending w.server.i, ∃ count ∈ sys.send, text.length ≤ count)
          (by simp only [DeliverySafe, branch_eq])
      | .accept | .error | .idle => isTrue (by simp only [DeliverySafe, branch_eq])

theorem DeliverySafe.hangsUpLast {w : World} {event : Event}
    (safe : DeliverySafe w event) : HangsUpLast w event := by
  cases event with
  | poll revents => trivial
  | entry sys =>
      intro hangup
      simpa [DeliverySafe, hangup] using safe

/-! ## What the steps do to the pending texts -/

namespace Server

/-- A pending text depends on the entry's mask, on its client's pointer, and on
the buffer behind the pointer. -/
theorem pending_congr {s t : Server} {j k : Nat}
    (events_eq : (t.fds k).events = (s.fds j).events)
    (pointer_eq : (t.users (t.fds k).fd).writeBuf = (s.users (s.fds j).fd).writeBuf)
    (buf_eq : ∀ owner, s.WaitsFor j owner → (t.users owner).buf = (s.users owner).buf) :
    t.pending k = s.pending j := by
  unfold pending
  rw [events_eq]
  split
  · rename_i armed
    unfold writeText
    rw [pointer_eq]
    cases found : (s.users (s.fds j).fd).writeBuf with
    | none => rfl
    | some owner => simp [buf_eq owner ⟨armed, found⟩]
  · rfl

/-- An entry with a pointer to a buffer, and polled for writing, is about to be
sent the text in the buffer. -/
theorem WaitsFor.pending_eq {s : Server} {k : Nat} {owner : Fd} (waits : s.WaitsFor k owner) :
    s.pending k = some (cstr (s.users owner).buf) := by
  rw [pending, if_pos waits.1, writeText, waits.2, Option.map_some]

theorem broadcastStep_wire (connfd : Fd) (s : Server) (j : Nat) :
    (broadcastStep connfd s j).wire = s.wire := by
  unfold broadcastStep
  split <;> rfl

theorem broadcastStep_buf (connfd : Fd) (s : Server) (j : Nat) (fd : Fd) :
    ((broadcastStep connfd s j).users fd).buf = (s.users fd).buf := by
  unfold broadcastStep
  split
  · rfl
  · by_cases fd_eq : fd = (s.fds j).fd
    · simp [fd_eq]
    · simp [Function.update_of_ne fd_eq]

/-- The sender's own pointer and mask stay. -/
theorem broadcastStep_sender (connfd : Fd) (s : Server) (j : Nat) :
    ((broadcastStep connfd s j).users connfd).writeBuf = (s.users connfd).writeBuf ∧
      ∀ k, (s.fds k).fd = connfd → (broadcastStep connfd s j).fds k = s.fds k := by
  unfold broadcastStep
  split
  · exact ⟨rfl, fun _ _ => rfl⟩
  · rename_i different
    refine ⟨by simp [Function.update_of_ne (Ne.symm different)], fun k sender => ?_⟩
    exact Function.update_of_ne (by rintro rfl; exact different sender) _ _

/-- The assignments to a mask add flags and remove none. -/
theorem broadcastStep_entry (connfd : Fd) (s : Server) (j k : Nat) :
    ((broadcastStep connfd s j).fds k).revents = (s.fds k).revents ∧
      ∀ flag, has (s.fds k).events flag →
        has ((broadcastStep connfd s j).fds k).events flag := by
  unfold broadcastStep
  split
  · exact ⟨rfl, fun _ => id⟩
  · by_cases k_eq : k = j
    · subst k_eq
      simp only [Function.update_self]
      exact ⟨trivial, fun flag holds => has_or_of_has (has_or_of_has holds _) _⟩
    · simp [Function.update_of_ne k_eq]

/-- The step of entry `j` makes it wait for the sender's text. -/
theorem broadcastStep_target {connfd : Fd} (s : Server) (j : Nat)
    (different : (s.fds j).fd ≠ connfd) : (broadcastStep connfd s j).WaitsFor j connfd := by
  constructor
  · simp only [broadcastStep, if_neg different, Function.update_self]
    exact has_or_self _ (by decide)
  · simp [broadcastStep, different]

/-- The step of any entry leaves those waiting that already wait for the
sender's text. -/
theorem broadcastStep_waiting {connfd : Fd} (s : Server) (j k : Nat)
    (waits : s.WaitsFor k connfd) (different : (s.fds k).fd ≠ connfd) :
    (broadcastStep connfd s j).WaitsFor k connfd := by
  by_cases k_eq : k = j
  · subst k_eq
    exact broadcastStep_target s k different
  · unfold broadcastStep
    split
    · exact waits
    · refine ⟨by simpa [Function.update_of_ne k_eq] using waits.1, ?_⟩
      by_cases fd_eq : (s.fds k).fd = (s.fds j).fd
      · simp [Function.update_of_ne k_eq, fd_eq]
      · simpa [Function.update_of_ne k_eq, Function.update_of_ne fd_eq] using waits.2

/-- A broadcast touches neither buffers, nor sockets, nor the sender, and disarms
no entry. -/
structure BroadcastFrame (connfd : Fd) (s t : Server) : Prop where
  same : SameTable s t
  wire_eq : t.wire = s.wire
  buf_eq : ∀ fd, (t.users fd).buf = (s.users fd).buf
  sender_pointer : (t.users connfd).writeBuf = (s.users connfd).writeBuf
  sender_entry : ∀ k, (s.fds k).fd = connfd → t.fds k = s.fds k
  revents_eq : ∀ k, (t.fds k).revents = (s.fds k).revents
  armed : ∀ k flag, has (s.fds k).events flag → has (t.fds k).events flag

theorem broadcastFrame_foldl (connfd : Fd) (entries : List Nat) (s : Server)
    (positive : ∀ j ∈ entries, 1 ≤ j) :
    BroadcastFrame connfd s (entries.foldl (broadcastStep connfd) s) := by
  induction entries generalizing s with
  | nil =>
      exact ⟨SameTable.refl s, rfl, fun _ => rfl, rfl, fun _ _ => rfl, fun _ => rfl, fun _ _ => id⟩
  | cons j entries ih =>
      have same := sameTable_broadcastStep connfd s (positive j List.mem_cons_self)
      have rest := ih (broadcastStep connfd s j)
        fun k mem => positive k (List.mem_cons_of_mem j mem)
      obtain ⟨pointer_eq, entry_eq⟩ := broadcastStep_sender connfd s j
      exact ⟨same.trans rest.same, rest.wire_eq.trans (broadcastStep_wire connfd s j),
        fun fd => (rest.buf_eq fd).trans (broadcastStep_buf connfd s j fd),
        rest.sender_pointer.trans pointer_eq, fun k sender =>
          (rest.sender_entry k ((same.fd_eq k).trans sender)).trans (entry_eq k sender),
        fun k => (rest.revents_eq k).trans (broadcastStep_entry connfd s j k).1,
        fun k flag armed => rest.armed k flag ((broadcastStep_entry connfd s j k).2 flag armed)⟩

/-- The loop makes every entry wait that it passes or that waits already. -/
theorem waitsFor_foldl (connfd : Fd) (entries : List Nat) (s : Server)
    (positive : ∀ j ∈ entries, 1 ≤ j) {k : Nat} (different : (s.fds k).fd ≠ connfd)
    (reached : k ∈ entries ∨ s.WaitsFor k connfd) :
    (entries.foldl (broadcastStep connfd) s).WaitsFor k connfd := by
  induction entries generalizing s with
  | nil => exact reached.resolve_left List.not_mem_nil
  | cons j entries ih =>
      have same := sameTable_broadcastStep connfd s (positive j List.mem_cons_self)
      refine ih _ (fun k mem => positive k (List.mem_cons_of_mem j mem))
        ((same.fd_eq k).symm ▸ different) ?_
      rcases reached with mem | waits
      · rcases List.mem_cons.mp mem with rfl | mem
        · exact Or.inr (broadcastStep_target s k different)
        · exact Or.inl mem
      · exact Or.inr (broadcastStep_waiting s j k waits different)

theorem broadcastFrame_broadcast (s : Server) (connfd : Fd) :
    BroadcastFrame connfd s (s.broadcast connfd) :=
  broadcastFrame_foldl connfd _ s fun _ mem => (List.mem_range'_1.mp mem).1

/-- After a broadcast every other client waits for the sender's text. -/
theorem waitsFor_broadcast (s : Server) {connfd : Fd} {k : Nat} (pos : 1 ≤ k)
    (le : k ≤ s.userCounter) (different : (s.fds k).fd ≠ connfd) :
    (s.broadcast connfd).WaitsFor k connfd :=
  waitsFor_foldl connfd _ s (fun _ mem => (List.mem_range'_1.mp mem).1) different
    (Or.inl (List.mem_range'_1.mpr ⟨pos, by omega⟩))

end Server

/-! ## Every branch keeps the ledger -/

/-- The ledger is kept when each entry takes over the balanced account of an
entry of the state before. -/
theorem Delivered.of_entries {w v : World} (delivered : Delivered w)
    (source : ∀ k, 1 ≤ k → k ≤ v.server.userCounter →
      ∃ j, 1 ≤ j ∧ j ≤ w.server.userCounter ∧
        v.room.owed (v.server.fds k).fd = w.room.owed (w.server.fds j).fd ∧
        v.server.wire (v.server.fds k).fd = w.server.wire (w.server.fds j).fd ∧
        v.server.pending k = w.server.pending j) : Delivered v := by
  intro k pos le
  obtain ⟨j, jPos, jLe, owed_eq, wire_eq, pending_eq⟩ := source k pos le
  rw [owed_eq, wire_eq, pending_eq]
  exact delivered j jPos jLe

/-- The ledger survives the end of an iteration. -/
theorem Delivered.advance {w : World} (delivered : Delivered w) :
    Delivered ⟨w.server.advance, w.room⟩ :=
  delivered

theorem Delivered.poll {w : World} (delivered : Delivered w) (revents : Nat → Mask) :
    Delivered { w with server := w.server.poll revents } := by
  refine delivered.of_entries fun k pos le => ⟨k, pos, le, ?_⟩
  have entry_eq : (w.server.poll revents).fds k =
      { w.server.fds k with revents := revents k } := by
    have le : k ≤ w.server.userCounter := le
    simp [Server.poll, le]
  have pending_eq : (w.server.poll revents).pending k = w.server.pending k :=
    Server.pending_congr (by rw [entry_eq]) (by rw [entry_eq]; rfl) fun _ _ => rfl
  exact ⟨by simp only [entry_eq], by simp only [entry_eq]; rfl, pending_eq⟩

/-- A client joins with an empty account and a mask without `POLLOUT`. -/
theorem Delivered.onAccept {w : World} (delivered : Delivered w) (table : Table w)
    (accepts : w.server.branch = .accept) {sys : Sys} (answers : w.server.Answers sys) :
    Delivered ⟨w.server.onAccept sys.accept, w.room.next (w.server.observe sys)⟩ := by
  cases result : sys.accept with
  | none =>
      simp only [Server.observe, accepts, result, Room.next]
      exact delivered.advance
  | some connfd =>
      by_cases full : w.server.userCounter ≥ USER_LIMIT
      · simp only [Server.observe, accepts, result, Server.onAccept, if_pos full, Room.next]
        exact delivered.advance
      · simp only [Server.observe, accepts, result, Server.onAccept, if_neg full, Room.next]
        intro k pos le
        change k ≤ w.server.userCounter + 1 at le
        change Function.update w.room.owed connfd [] ((w.server.letIn connfd).fds k).fd =
          Function.update w.server.wire connfd [] ((w.server.letIn connfd).fds k).fd ++
            ((w.server.letIn connfd).pending k).toList
        by_cases k_eq : k = w.server.userCounter + 1
        · have entry_eq : (w.server.letIn connfd).fds k =
              ⟨connfd, POLLIN ||| POLLRDHUP ||| POLLERR, 0⟩ := by
            simp [Server.letIn, k_eq]
          have unarmed : ¬ has (POLLIN ||| POLLRDHUP ||| POLLERR) POLLOUT := by decide
          simp [Server.pending, entry_eq, unarmed]
        · have entry_eq : (w.server.letIn connfd).fds k = w.server.fds k := by
            simp [Server.letIn, k_eq]
          have fresh : (w.server.fds k).fd ≠ connfd := by
            intro equal
            have registered := (table.opened_iff connfd).mpr ⟨k, pos, by omega, equal⟩
            rw [(answers.1 connfd result).1] at registered
            contradiction
          have pending_eq : (w.server.letIn connfd).pending k = w.server.pending k :=
            Server.pending_congr (by rw [entry_eq]) (by rw [entry_eq]; rfl) fun _ _ => rfl
          rw [entry_eq, pending_eq, Function.update_of_ne fresh, Function.update_of_ne fresh]
          exact delivered k pos (by omega)

/-- Removing an entry moves the last client's account, unless somebody waits for
a text in the leaver's buffer. -/
theorem Delivered.remove {w : World} (delivered : Delivered w) (table : Table w)
    (pos : 1 ≤ w.server.i) (le : w.server.i ≤ w.server.userCounter) {s : Server}
    (fds_eq : s.fds = Function.update w.server.fds w.server.i
      (w.server.fds w.server.userCounter))
    (userCounter_eq : s.userCounter = w.server.userCounter - 1)
    (wire_eq : s.wire = w.server.wire)
    (users_eq : ∀ fd, fd ≠ (w.server.fds w.server.i).fd → s.users fd = w.server.users fd)
    (unawaited : ∀ k, k < w.server.userCounter + 1 → 1 ≤ k →
      ¬ w.server.WaitsFor k (w.server.fds w.server.i).fd) (fd : Fd) :
    Delivered ⟨s, w.room.next (.leave fd)⟩ := by
  refine delivered.of_entries fun k kPos kLe => ?_
  change k ≤ s.userCounter at kLe
  rw [userCounter_eq] at kLe
  obtain ⟨j, jPos, jLe, different, entry_eq⟩ : ∃ j, 1 ≤ j ∧ j ≤ w.server.userCounter ∧
      j ≠ w.server.i ∧ s.fds k = w.server.fds j := by
    rw [fds_eq]
    by_cases k_eq : k = w.server.i
    · exact ⟨w.server.userCounter, by omega, le_refl _, by omega,
        by rw [k_eq, Function.update_self]⟩
    · exact ⟨k, kPos, by omega, k_eq, by rw [Function.update_of_ne k_eq]⟩
  have other : (w.server.fds j).fd ≠ (w.server.fds w.server.i).fd :=
    fun equal => different (table.distinct j _ jPos jLe pos le equal)
  have pending_eq : s.pending k = w.server.pending j := by
    refine Server.pending_congr (by rw [entry_eq]) ?_ fun owner waits => ?_
    · rw [entry_eq, users_eq _ other]
    · rw [users_eq]
      rintro rfl
      exact unawaited j (by omega) jPos waits
  refine ⟨j, jPos, jLe, ?_, ?_, pending_eq⟩
  · simp only [entry_eq, Room.next]
  · simp only [entry_eq, wire_eq]

theorem Delivered.onHangup {w : World} (delivered : Delivered w)
    (last : w.server.i = w.server.userCounter) (fd : Fd) :
    Delivered ⟨w.server.onHangup, w.room.next (.leave fd)⟩ := by
  -- the last entry is copied onto itself, and so are its `users` element
  have same : w.server.moveLast = w.server := by
    rcases w with ⟨⟨listenfd, fds, users, userCounter, i, opened, wire⟩, room⟩
    obtain rfl : i = userCounter := last
    simp [Server.moveLast]
  refine delivered.of_entries fun k pos le => ⟨k, pos, ?_, ?_⟩
  · simp only [Server.onHangup, same] at le
    exact Nat.le_trans le (Nat.sub_le _ _)
  · simp only [Server.onHangup, same]
    exact ⟨rfl, rfl, rfl⟩

/-- A message that nobody's pending text stands in the way of is owed to every
other client and pending for it. -/
theorem Delivered.onData {w : World} (delivered : Delivered w) (table : Table w)
    (pos : 1 ≤ w.server.i) (le : w.server.i ≤ w.server.userCounter) {bytes : List Byte}
    (short : bytes.length ≤ BUFFER_SIZE - 1)
    (unawaited : ∀ k, k < w.server.userCounter + 1 → 1 ≤ k →
      ¬ w.server.WaitsFor k (w.server.fds w.server.i).fd)
    (settled : ∀ k, k < w.server.userCounter + 1 → 1 ≤ k → k ≠ w.server.i →
      w.server.pending k = none ∧ 0 ∉ bytes) :
    Delivered ⟨w.server.onReadable (.data bytes),
      w.room.next (.say (w.server.fds w.server.i).fd bytes)⟩ := by
  set connfd := (w.server.fds w.server.i).fd with connfd_eq
  set filled := w.server.fillBuf connfd bytes with filled_eq
  have frame := filled.broadcastFrame_broadcast connfd
  have fd_eq : ∀ k, ((filled.broadcast connfd).fds k).fd = (w.server.fds k).fd := frame.same.fd_eq
  intro k kPos kLe
  change (w.room.next (.say connfd bytes)).owed ((filled.broadcast connfd).fds k).fd =
    (filled.broadcast connfd).wire ((filled.broadcast connfd).fds k).fd ++
      ((filled.broadcast connfd).pending k).toList
  replace kLe : k ≤ w.server.userCounter := frame.same.userCounter_eq ▸ kLe
  rw [fd_eq, frame.wire_eq]
  change _ = w.server.wire _ ++ _
  have before := delivered k kPos kLe
  by_cases k_eq : k = w.server.i
  · -- the sender's account stays: it waits for another buffer than its own
    have pending_eq : (filled.broadcast connfd).pending k = w.server.pending k := by
      refine Server.pending_congr ?_ ?_ fun owner waits => ?_
      · rw [frame.sender_entry k (by rw [k_eq]; rfl)]
        rfl
      · rw [fd_eq, k_eq, ← connfd_eq, frame.sender_pointer]
        simp [filled_eq, Server.fillBuf]
      · rw [frame.buf_eq, filled_eq, Server.fillBuf]
        have other : owner ≠ connfd := by
          rintro rfl
          exact unawaited k (by omega) kPos waits
        simp [Function.update_of_ne other]
    rw [pending_eq, ← before, k_eq]
    simp [Room.next, ← connfd_eq]
  · have other : (w.server.fds k).fd ≠ connfd :=
      fun equal => k_eq (table.distinct k _ kPos kLe pos le equal)
    obtain ⟨nothing, nulFree⟩ := settled k (by omega) kPos k_eq
    have member := (table.members_iff _).mpr ⟨k, kPos, kLe, rfl⟩
    have text_eq : cstr ((filled.broadcast connfd).users connfd).buf = bytes := by
      rw [frame.buf_eq, filled_eq, Server.fillBuf]
      simp only [Function.update_self]
      obtain ⟨padding, padding_eq⟩ : ∃ padding, BUFFER_SIZE - bytes.length = padding + 1 :=
        ⟨BUFFER_SIZE - bytes.length - 1, by have : 0 < BUFFER_SIZE := by decide
                                            omega⟩
      rw [padding_eq, List.replicate_succ]
      exact cstr_append_nul nulFree _
    rw [(Server.waitsFor_broadcast filled kPos kLe other).pending_eq, text_eq]
    rw [nothing] at before
    simpa [Room.next, member, other] using before

theorem Delivered.onReadable {w : World} (delivered : Delivered w) (table : Table w)
    (pos : 1 ≤ w.server.i) (le : w.server.i ≤ w.server.userCounter)
    (readable : w.server.branch = .readable) {sys : Sys} (answers : w.server.Answers sys)
    (unawaited : ∀ k, k < w.server.userCounter + 1 → 1 ≤ k →
      ¬ w.server.WaitsFor k (w.server.fds w.server.i).fd)
    (settled : ∀ bytes ∈ sys.recv.bytes, ∀ k, k < w.server.userCounter + 1 → 1 ≤ k →
      k ≠ w.server.i → w.server.pending k = none ∧ 0 ∉ bytes) :
    Delivered ⟨w.server.onReadable sys.recv, w.room.next (w.server.observe sys)⟩ := by
  cases received : sys.recv with
  | data bytes =>
      simp only [Server.observe, readable, received]
      exact delivered.onData table pos le (answers.2 bytes (by rw [received]; rfl)).2 unawaited
        (settled bytes (by rw [received]; rfl))
  | eof | again =>
      simp only [Server.observe, readable, received, Room.next, Server.onReadable]
      refine delivered.of_entries fun k kPos kLe => ⟨k, kPos, kLe, rfl, rfl, ?_⟩
      change k ≤ w.server.userCounter at kLe
      have pointer_eq : ∀ fd, ((w.server.fillBuf (w.server.fds w.server.i).fd []).users fd).writeBuf
          = (w.server.users fd).writeBuf := fun fd => by
        by_cases fd_eq : fd = (w.server.fds w.server.i).fd
        · simp [Server.fillBuf, fd_eq]
        · simp [Server.fillBuf, Function.update_of_ne fd_eq]
      refine Server.pending_congr rfl (pointer_eq _) fun owner waits => ?_
      have other : owner ≠ (w.server.fds w.server.i).fd := by
        rintro rfl
        exact unawaited k (by omega) kPos waits
      simp [Server.advance, Server.fillBuf, Function.update_of_ne other]
  | fail =>
      simp only [Server.observe, readable, received]
      refine delivered.remove (s := w.server.onReadable .fail) table pos le rfl rfl rfl
        (fun fd other => ?_) unawaited _
      simp [Server.onReadable, Server.dropLast, Server.moveLast, Server.close, Server.fillBuf,
        Function.update_of_ne other]

/-- A whole text moves from the pending ones to the sent ones. -/
theorem Delivered.onWritable {w : World} (delivered : Delivered w) (table : Table w)
    (pos : 1 ≤ w.server.i) (le : w.server.i ≤ w.server.userCounter)
    (armed : has (w.server.fds w.server.i).events POLLOUT) {send : Option Nat}
    (whole : ∀ text ∈ w.server.pending w.server.i, ∃ count ∈ send, text.length ≤ count) :
    Delivered ⟨w.server.onWritable send, w.room⟩ ∧
      (w.server.onWritable send).pending w.server.i = none := by
  have pending_eq : w.server.pending w.server.i =
      w.server.writeText (w.server.fds w.server.i).fd := if_pos armed
  cases text_eq : w.server.writeText (w.server.fds w.server.i).fd with
  | none =>
      have same : w.server.onWritable send = w.server.advance := by
        simp only [Server.onWritable, text_eq]
      rw [same]
      exact ⟨delivered.advance, pending_eq.trans text_eq⟩
  | some text =>
      obtain ⟨count, rfl, enough⟩ := whole text (pending_eq.trans text_eq)
      set t := w.server.onWritable (some count) with t_eq
      have fd_eq : ∀ k, (t.fds k).fd = (w.server.fds k).fd :=
        (Server.sameTable_onWritable pos (some count)).fd_eq
      have wire_eq : t.wire = Function.update w.server.wire (w.server.fds w.server.i).fd
          (w.server.wire (w.server.fds w.server.i).fd ++ [text]) := by
        simp only [t_eq, Server.onWritable, text_eq, List.take_of_length_le enough]
        rfl
      have users_eq : t.users = Function.update w.server.users (w.server.fds w.server.i).fd
          { w.server.users (w.server.fds w.server.i).fd with writeBuf := none } := by
        simp only [t_eq, Server.onWritable, text_eq]
        rfl
      have settled : t.pending w.server.i = none := by
        simp [Server.pending, Server.writeText, fd_eq, users_eq]
      refine ⟨fun k kPos kLe => ?_, settled⟩
      change w.room.owed (t.fds k).fd = t.wire (t.fds k).fd ++ (t.pending k).toList
      replace kLe : k ≤ w.server.userCounter :=
        (Server.sameTable_onWritable pos (some count)).userCounter_eq ▸ kLe
      rw [fd_eq, wire_eq]
      have before := delivered k kPos kLe
      by_cases k_eq : k = w.server.i
      · subst k_eq
        rw [settled, Function.update_self]
        rw [pending_eq, text_eq] at before
        simpa using before
      · have other : (w.server.fds k).fd ≠ (w.server.fds w.server.i).fd :=
          fun equal => k_eq (table.distinct k _ kPos kLe pos le equal)
        rw [Function.update_of_ne other, before]
        congr 2
        refine (Server.pending_congr ?_ ?_ fun owner waits => ?_).symm
        · simp only [t_eq, Server.onWritable, text_eq, Server.advance, Function.update_of_ne k_eq]
        · rw [fd_eq, users_eq, Function.update_of_ne other]
        · rw [users_eq]
          by_cases owner_eq : owner = (w.server.fds w.server.i).fd
          · simp [owner_eq]
          · rw [Function.update_of_ne owner_eq]

/-! ## An entry that is reported writable is armed -/

/-- The entries that `poll` reported writable are polled for writing. -/
def Reported (s : Server) : Prop :=
  ∀ k, 1 ≤ k → k ≤ s.userCounter → has (s.fds k).revents POLLOUT → has (s.fds k).events POLLOUT

theorem Reported.of_entries {s t : Server} (reported : Reported s)
    (source : ∀ k, 1 ≤ k → k ≤ t.userCounter → ∃ j, 1 ≤ j ∧ j ≤ s.userCounter ∧
      (t.fds k).revents = (s.fds j).revents ∧
      (has (s.fds j).events POLLOUT → has (t.fds k).events POLLOUT)) : Reported t := by
  intro k pos le out
  obtain ⟨j, jPos, jLe, revents_eq, armed⟩ := source k pos le
  exact armed (reported j jPos jLe (revents_eq ▸ out))

theorem reported_poll {s : Server} {revents : Nat → Mask} (reports : s.Reports revents) :
    Reported (s.poll revents) := by
  intro k _ le out
  replace le : k ≤ s.userCounter := le
  simp only [Server.poll, le, if_true] at out ⊢
  by_contra disarmed
  have outside : POLLOUT &&& ~~~((s.fds k).events ||| unasked) = POLLOUT := by
    have unrequested : (s.fds k).events &&& POLLOUT = 0#16 := not_not.mp disarmed
    ext bit bound
    have requestBit := congrArg (fun mask : Mask => mask[bit]) unrequested
    have unaskedBit := congrArg (fun mask : Mask => mask[bit])
      (show unasked &&& POLLOUT = 0#16 by decide)
    simp only [BitVec.getElem_and, BitVec.getElem_zero] at requestBit unaskedBit
    simp only [BitVec.getElem_and, BitVec.getElem_not, BitVec.getElem_or]
    revert requestBit unaskedBit
    generalize (s.fds k).events[bit] = a, unasked[bit] = b, POLLOUT[bit] = c
    revert a b c
    decide
  exact not_has_of_within (reports k (by omega)) outside out

/-- Overwriting an entry with the last one moves its mask and its report. -/
theorem Reported.remove {s t : Server} (reported : Reported s) (le : s.i ≤ s.userCounter)
    (fds_eq : t.fds = Function.update s.fds s.i (s.fds s.userCounter))
    (userCounter_eq : t.userCounter = s.userCounter - 1) : Reported t := by
  refine reported.of_entries fun k kPos kLe => ?_
  rw [userCounter_eq] at kLe
  rw [fds_eq]
  by_cases k_eq : k = s.i
  · exact ⟨s.userCounter, by omega, le_refl _, by simp [k_eq], by simp [k_eq]⟩
  · exact ⟨k, kPos, by omega, by simp [Function.update_of_ne k_eq],
      by simp [Function.update_of_ne k_eq]⟩

theorem Reported.handle {s : Server} (reported : Reported s) {sys : Sys}
    (le : s.i ≤ s.userCounter) : Reported (s.handle sys) := by
  cases branch_eq : s.branch with
  | accept =>
      simp only [Server.handle, branch_eq]
      cases sys.accept with
      | none => exact reported
      | some connfd =>
          simp only [Server.onAccept]
          split
          · exact reported
          · intro k pos kLe out
            replace kLe : k ≤ s.userCounter + 1 := kLe
            simp only [Server.advance, Server.letIn] at out ⊢
            by_cases k_eq : k = s.userCounter + 1
            · subst k_eq
              simp [has] at out
            · simp only [Function.update_of_ne k_eq] at out ⊢
              exact reported k pos (by omega) out
  | hangup =>
      simp only [Server.handle, branch_eq]
      exact reported.remove le rfl rfl
  | readable =>
      simp only [Server.handle, branch_eq]
      cases sys.recv with
      | data bytes =>
          have frame := (s.fillBuf (s.fds s.i).fd bytes).broadcastFrame_broadcast (s.fds s.i).fd
          exact reported.of_entries fun k kPos kLe =>
            ⟨k, kPos, frame.same.userCounter_eq ▸ kLe, frame.revents_eq k, frame.armed k POLLOUT⟩
      | eof | again => exact reported
      | fail => exact reported.remove le rfl rfl
  | writable =>
      simp only [Server.handle, branch_eq]
      unfold Server.onWritable
      dsimp only
      cases s.writeText (s.fds s.i).fd with
      | none => exact reported
      | some text =>
          cases sys.send
          all_goals
            refine reported.of_entries fun k kPos kLe => ⟨k, kPos, kLe, ?_, fun armed => ?_⟩
            · by_cases k_eq : k = s.i
              · simp [Server.advance, k_eq]
              · simp [Server.advance, Function.update_of_ne k_eq]
            · by_cases k_eq : k = s.i
              · subst k_eq
                simp only [Server.advance, Function.update_self]
                exact has_or_of_has (has_or_of_has armed _) _
              · simpa [Server.advance, Function.update_of_ne k_eq] using armed
  | error | idle =>
      simp only [Server.handle, branch_eq]
      exact reported

/-! ## Every safe run keeps the ledger -/

/-- The invariant of the safe runs. -/
structure Delivery (w : World) : Prop extends Table w where
  delivered : Delivered w
  reported : Reported w.server

theorem Delivery.initial (listenfd : Fd) (users : Fd → ClientData) :
    Delivery (World.initial listenfd users) where
  toTable := Table.initial listenfd users
  delivered k pos le := by
    change k ≤ 0 at le
    omega
  reported k pos le := by
    change k ≤ 0 at le
    omega

/-- The branch that writes is taken for entries that are polled for writing. -/
theorem Delivery.armed_of_writable {w : World} (delivery : Delivery w)
    (le : w.server.i ≤ w.server.userCounter) (writable : w.server.branch = .writable) :
    has (w.server.fds w.server.i).events POLLOUT := by
  refine delivery.reported _ (delivery.toTable.pos_of_branch (Or.inr (Or.inr writable))) le ?_
  simp only [Server.branch] at writable
  split_ifs at writable
  simp_all

theorem Delivery.entry {w : World} (delivery : Delivery w) {sys : Sys}
    (le : w.server.i ≤ w.server.userCounter) (answers : w.server.Answers sys)
    (safe : DeliverySafe w (.entry sys)) :
    Delivery ⟨w.server.handle sys, w.room.next (w.server.observe sys)⟩ := by
  have table := delivery.toTable
  have delivered := delivery.delivered
  refine ⟨table.entry le answers safe.hangsUpLast, ?_,
    delivery.reported.handle le⟩
  cases branch_eq : w.server.branch with
  | accept =>
      simp only [Server.handle, branch_eq]
      exact delivered.onAccept table branch_eq answers
  | hangup =>
      simp only [Server.handle, Server.observe, branch_eq]
      exact delivered.onHangup (safe.hangsUpLast branch_eq) _
  | readable =>
      have pos := table.pos_of_branch (Or.inr (Or.inl branch_eq))
      simp only [DeliverySafe, branch_eq] at safe
      simp only [Server.handle, branch_eq]
      exact delivered.onReadable table pos le branch_eq answers safe.1 safe.2
  | writable =>
      have pos := table.pos_of_branch (Or.inr (Or.inr branch_eq))
      have armed := delivery.armed_of_writable le branch_eq
      simp only [DeliverySafe, branch_eq] at safe
      simp only [Server.handle, Server.observe, branch_eq]
      exact (delivered.onWritable table pos le armed safe).1
  | error | idle =>
      simp only [Server.handle, Server.observe, branch_eq]
      exact delivered.advance

theorem delivery_preserved : Preserves World.next DeliverySafe Delivery := by
  intro w event v delivery safe step
  cases event with
  | poll revents =>
      simp only [World.next, Option.ite_none_right_eq_some, Option.some.injEq] at step
      obtain ⟨⟨-, reports⟩, rfl⟩ := step
      exact ⟨delivery.toTable.poll reports, delivery.delivered.poll revents,
        reported_poll reports⟩
  | entry sys =>
      simp only [World.next, Option.ite_none_right_eq_some, Option.some.injEq] at step
      obtain ⟨⟨le, answers⟩, rfl⟩ := step
      exact delivery.entry le answers safe

/-- A client that becomes writable has been sent, when its entry has been
handled, everything it is owed. -/
def Settles (w : World) : Prop :=
  ∀ sys v, w.server.branch = .writable → DeliverySafe w (.entry sys) →
    World.next w (.entry sys) = some v →
    v.room.owed (w.server.fds w.server.i).fd = v.server.wire (w.server.fds w.server.i).fd

theorem Delivery.settles {w : World} (delivery : Delivery w) : Settles w := by
  intro sys v writable safe step
  simp only [World.next, Option.ite_none_right_eq_some, Option.some.injEq] at step
  obtain ⟨⟨le, answers⟩, rfl⟩ := step
  have pos := delivery.toTable.pos_of_branch (Or.inr (Or.inr writable))
  have armed := delivery.armed_of_writable le writable
  simp only [DeliverySafe, writable] at safe
  simp only [Server.handle, Server.observe, writable, Room.next]
  obtain ⟨balanced, settled⟩ :=
    delivery.delivered.onWritable delivery.toTable pos le armed safe
  have same := Server.sameTable_onWritable pos sys.send
  have account := balanced w.server.i pos (same.userCounter_eq.symm ▸ le)
  simp only [settled, Option.toList_none, List.append_nil, same.fd_eq] at account
  exact account

/-- In every run whose steps are safe, the table stays sound, every member was
sent what it is owed up to the text it is about to be sent, and a member that
becomes writable is sent that text. -/
theorem delivered_along_of_deliverySafe (listenfd : Fd) (users : Fd → ClientData)
    (events : List Event)
    (safe : Meets World.next DeliverySafe (World.initial listenfd users) events) :
    Along World.next (fun w => Sound w ∧ Delivered w ∧ Settles w)
      (World.initial listenfd users) events :=
  (delivery_preserved.along (Delivery.initial listenfd users) safe).mono
    fun _ delivery => ⟨delivery.toSound, delivery.delivered, delivery.settles⟩

/-! ## A slow receiver -/

/-- The client in entry 1 says something, and the entries behind it are idle. -/
def sayRound (text : List Byte) (clients : Nat) : List Event :=
  .poll (reportAt 1 POLLIN) :: .entry noAnswer :: .entry ⟨none, .data text, none⟩ ::
    List.replicate (clients - 1) (.entry noAnswer)

/-- The client in the last of two entries becomes writable. -/
def writeRound (count : Nat) : List Event :=
  [.poll (reportAt 2 POLLOUT), .entry noAnswer, .entry noAnswer, .entry ⟨none, .again, some count⟩]

/-- Clients 4 and 5 join, and 4 speaks twice; 5 is written to in between only if
it is `prompt`. -/
def speakTwice (prompt : Bool) : List Event :=
  joinRound 4 0 ++ joinRound 5 1 ++ sayRound [97] 2 ++ (if prompt then writeRound 1 else []) ++
    sayRound [98] 2 ++ writeRound 1

/-- A prompt receiver gets both messages. -/
theorem delivered_along_speakTwice_prompt :
    Along World.next (fun w => Sound w ∧ Delivered w ∧ Settles w)
      (World.initial 3 zeroUsers) (speakTwice true) :=
  delivered_along_of_deliverySafe 3 zeroUsers (speakTwice true) (by decide)

/-- A slow receiver is owed both messages and sent the second one only. -/
theorem speakTwice_slow_undelivered :
    (run World.next (World.initial 3 zeroUsers) (speakTwice false)).map (fun w =>
        (w.room.members 5, w.room.owed 5, w.server.wire 5, w.server.pending 2)) =
      some (true, [[97], [98]], [[98]], none) ∧
    ¬ Along World.next (fun w => Sound w ∧ Delivered w ∧ Settles w)
      (World.initial 3 zeroUsers) (speakTwice false) := by
  have outcome : (run World.next (World.initial 3 zeroUsers) (speakTwice false)).map (fun w =>
      (w.room.members 5, w.room.owed 5, w.server.wire 5, w.server.pending 2)) =
      some (true, [[97], [98]], [[98]], none) := by
    decide
  have entry : (run World.next (World.initial 3 zeroUsers) (speakTwice false)).map (fun w =>
      (w.server.userCounter, (w.server.fds 2).fd)) = some (2, 5) := by
    decide
  refine ⟨outcome, fun along => ?_⟩
  obtain ⟨w, finished, values⟩ := Option.map_eq_some_iff.mp outcome
  rw [finished, Option.map_some, Option.some.injEq] at entry
  simp only [Prod.mk.injEq] at values entry
  have account := (along.last finished).2.1 2 (by decide) entry.1.ge
  rw [entry.2, values.2.1, values.2.2.1, values.2.2.2] at account
  exact absurd account (by decide)

end NetPractice.PollChat
