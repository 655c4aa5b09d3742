import NetPractice.PollChat.Core

/-!
# The descriptor table of the poll-based chat room

`Sound` says that the table, the kernel and the abstract room agree about who is
connected.  A hang-up closes the descriptor of the last table entry, and this is
the one that hung up only when it is the last.  Every other step keeps the three
in agreement, so a run keeps them exactly as long as only last entries hang up.
-/

namespace NetPractice.PollChat

open NetPractice.Socket
open NetPractice.Transition

namespace Server

/-- The descriptor occurs in `fds[1 .. user_counter]`. -/
def Registered (s : Server) (fd : Fd) : Prop :=
  ∃ k, 1 ≤ k ∧ k ≤ s.userCounter ∧ (s.fds k).fd = fd

/-- The descriptors in `fds[1 .. user_counter]` are pairwise distinct. -/
def Distinct (s : Server) : Prop :=
  ∀ j k, 1 ≤ j → j ≤ s.userCounter → 1 ≤ k → k ≤ s.userCounter →
    (s.fds j).fd = (s.fds k).fd → j = k

end Server

/-- The table, the open descriptors and the abstract room agree. -/
structure Sound (w : World) : Prop where
  listen : (w.server.fds 0).fd = w.server.listenfd
  limit : w.server.userCounter ≤ USER_LIMIT
  distinct : w.server.Distinct
  opened_iff : ∀ fd, w.server.opened fd = true ↔ w.server.Registered fd
  members_iff : ∀ fd, w.room.members fd = true ↔ w.server.Registered fd

/-- The invariant behind `Sound`: the listening socket is no client, and is
polled for its own conditions. -/
structure Table (w : World) : Prop extends Sound w where
  listenEvents : (w.server.fds 0).events = POLLIN ||| POLLERR
  listenRevents : ¬ has (w.server.fds 0).revents POLLRDHUP ∧
    ¬ has (w.server.fds 0).revents POLLOUT
  listenClosed : w.server.opened w.server.listenfd = false

/-- Only the last entry of the table hangs up. -/
def HangsUpLast (w : World) : Event → Prop
  | .poll _ => True
  | .entry _ => w.server.branch = .hangup → w.server.i = w.server.userCounter

instance (w : World) : ∀ event, Decidable (HangsUpLast w event)
  | .poll _ => isTrue trivial
  | .entry _ => inferInstanceAs (Decidable (_ → _))

/-! ## Which branch handles which entry -/

theorem Table.listenfd_ne {w : World} (table : Table w) {k : Nat} (pos : 1 ≤ k)
    (le : k ≤ w.server.userCounter) : (w.server.fds k).fd ≠ w.server.listenfd := by
  intro equal
  have open_eq := (table.opened_iff (w.server.fds k).fd).mpr ⟨k, pos, le, rfl⟩
  rw [equal, table.listenClosed] at open_eq
  contradiction

/-- The branches of clients handle clients. -/
theorem Table.pos_of_branch {w : World} (table : Table w)
    (client : w.server.branch = .hangup ∨ w.server.branch = .readable ∨
      w.server.branch = .writable) : 1 ≤ w.server.i := by
  by_contra zero
  have zero : w.server.i = 0 := by omega
  obtain ⟨noHangup, noOut⟩ := table.listenRevents
  have listen := table.listen
  simp only [Server.branch, zero, listen, noHangup, noOut, true_and, if_false] at client
  split_ifs at client <;> simp_all

/-! ## Removing an entry -/

namespace Server

/-- Overwriting an entry with the last one and dropping the last one removes
exactly this entry's descriptor. -/
theorem registered_moveLast {s : Server} (distinct : s.Distinct) (pos : 1 ≤ s.i)
    (le : s.i ≤ s.userCounter) (fd : Fd) :
    s.moveLast.dropLast.Registered fd ↔ s.Registered fd ∧ fd ≠ (s.fds s.i).fd := by
  simp only [Registered, moveLast, dropLast]
  constructor
  · rintro ⟨k, kPos, kLe, rfl⟩
    by_cases k_eq : k = s.i
    · subst k_eq
      rw [Function.update_self]
      refine ⟨⟨s.userCounter, by omega, le_refl _, rfl⟩, fun equal => ?_⟩
      have := distinct _ _ (by omega) (le_refl _) pos le equal
      omega
    · rw [Function.update_of_ne k_eq]
      exact ⟨⟨k, kPos, by omega, rfl⟩, fun equal =>
        k_eq (distinct _ _ kPos (by omega) pos le equal)⟩
  · rintro ⟨⟨k, kPos, kLe, rfl⟩, different⟩
    have k_ne : k ≠ s.i := by
      rintro rfl
      exact different rfl
    by_cases last : k = s.userCounter
    · exact ⟨s.i, pos, by omega, by rw [Function.update_self, last]⟩
    · exact ⟨k, kPos, by omega, by rw [Function.update_of_ne k_ne]⟩

theorem distinct_moveLast {s : Server} (distinct : s.Distinct) (pos : 1 ≤ s.i)
    (le : s.i ≤ s.userCounter) : s.moveLast.dropLast.Distinct := by
  intro j k jPos jLe kPos kLe equal
  simp only [moveLast, dropLast] at jLe kLe equal
  by_cases j_eq : j = s.i <;> by_cases k_eq : k = s.i
  · omega
  · subst j_eq
    rw [Function.update_self, Function.update_of_ne k_eq] at equal
    have := distinct _ _ (by omega) (le_refl _) kPos (by omega) equal
    omega
  · subst k_eq
    rw [Function.update_self, Function.update_of_ne j_eq] at equal
    have := distinct _ _ jPos (by omega) (by omega) (le_refl _) equal
    omega
  · rw [Function.update_of_ne j_eq, Function.update_of_ne k_eq] at equal
    exact distinct _ _ jPos (by omega) kPos (by omega) equal

/-! ## Adding an entry -/

theorem registered_letIn (s : Server) (connfd fd : Fd) :
    (s.letIn connfd).Registered fd ↔ s.Registered fd ∨ fd = connfd := by
  simp only [Registered, letIn]
  constructor
  · rintro ⟨k, kPos, kLe, rfl⟩
    by_cases k_eq : k = s.userCounter + 1
    · subst k
      exact Or.inr (by rw [Function.update_self])
    · rw [Function.update_of_ne k_eq]
      exact Or.inl ⟨k, kPos, by omega, rfl⟩
  · rintro (⟨k, kPos, kLe, rfl⟩ | rfl)
    · exact ⟨k, kPos, by omega, by rw [Function.update_of_ne (by omega)]⟩
    · exact ⟨s.userCounter + 1, by omega, le_refl _, by rw [Function.update_self]⟩

theorem distinct_letIn {s : Server} (distinct : s.Distinct) {connfd : Fd}
    (fresh : ¬ s.Registered connfd) : (s.letIn connfd).Distinct := by
  intro j k jPos jLe kPos kLe equal
  simp only [letIn] at jLe kLe equal
  by_cases j_eq : j = s.userCounter + 1 <;> by_cases k_eq : k = s.userCounter + 1
  · omega
  · subst j_eq
    rw [Function.update_self, Function.update_of_ne k_eq] at equal
    exact absurd ⟨k, kPos, by omega, equal.symm⟩ fresh
  · subst k_eq
    rw [Function.update_self, Function.update_of_ne j_eq] at equal
    exact absurd ⟨j, jPos, by omega, equal⟩ fresh
  · rw [Function.update_of_ne j_eq, Function.update_of_ne k_eq] at equal
    exact distinct _ _ jPos (by omega) kPos (by omega) equal

/-! ## Branches that leave the table alone -/

/-- The two states have the same descriptors in the same places, and the same
entry of the listening socket. -/
structure SameTable (s t : Server) : Prop where
  listenfd_eq : t.listenfd = s.listenfd
  userCounter_eq : t.userCounter = s.userCounter
  opened_eq : t.opened = s.opened
  fd_eq : ∀ k, (t.fds k).fd = (s.fds k).fd
  listen_eq : t.fds 0 = s.fds 0

theorem SameTable.refl (s : Server) : SameTable s s :=
  ⟨rfl, rfl, rfl, fun _ => rfl, rfl⟩

theorem SameTable.trans {s t u : Server} (first : SameTable s t) (second : SameTable t u) :
    SameTable s u :=
  ⟨second.listenfd_eq.trans first.listenfd_eq,
    second.userCounter_eq.trans first.userCounter_eq,
    second.opened_eq.trans first.opened_eq,
    fun k => (second.fd_eq k).trans (first.fd_eq k),
    second.listen_eq.trans first.listen_eq⟩

theorem SameTable.registered_iff {s t : Server} (same : SameTable s t) (fd : Fd) :
    t.Registered fd ↔ s.Registered fd := by
  simp only [Registered, same.userCounter_eq, same.fd_eq]

theorem SameTable.distinct_iff {s t : Server} (same : SameTable s t) :
    t.Distinct ↔ s.Distinct := by
  simp only [Distinct, same.userCounter_eq, same.fd_eq]

theorem sameTable_advance (s : Server) : SameTable s s.advance :=
  ⟨rfl, rfl, rfl, fun _ => rfl, rfl⟩

theorem sameTable_fillBuf (s : Server) (connfd : Fd) (bytes : List Text.Byte) :
    SameTable s (s.fillBuf connfd bytes) :=
  ⟨rfl, rfl, rfl, fun _ => rfl, rfl⟩

theorem sameTable_broadcastStep (connfd : Fd) (s : Server) {j : Nat} (pos : 1 ≤ j) :
    SameTable s (broadcastStep connfd s j) := by
  unfold broadcastStep
  split
  · exact SameTable.refl s
  · refine ⟨rfl, rfl, rfl, fun k => ?_, Function.update_of_ne (by omega) _ _⟩
    by_cases k_eq : k = j
    · subst k
      simp
    · simp [Function.update_of_ne k_eq]

theorem sameTable_broadcast (s : Server) (connfd : Fd) :
    SameTable s (s.broadcast connfd) := by
  have general : ∀ (entries : List Nat) (t : Server), (∀ j ∈ entries, 1 ≤ j) →
      SameTable t (entries.foldl (broadcastStep connfd) t) := by
    intro entries
    induction entries with
    | nil => exact fun t _ => SameTable.refl t
    | cons j entries ih =>
        intro t positive
        exact (sameTable_broadcastStep connfd t (positive j List.mem_cons_self)).trans
          (ih _ fun k mem => positive k (List.mem_cons_of_mem j mem))
  exact general _ s fun j mem => (List.mem_range'_1.mp mem).1

theorem sameTable_onWritable {s : Server} (pos : 1 ≤ s.i) (send : Option Nat) :
    SameTable s (s.onWritable send) := by
  unfold onWritable
  dsimp only
  cases s.writeText (s.fds s.i).fd with
  | none => exact sameTable_advance s
  | some text =>
      cases send <;>
      · refine ⟨rfl, rfl, rfl, fun k => ?_, Function.update_of_ne (by simp; omega) _ _⟩
        by_cases k_eq : k = s.i
        · subst k_eq
          simp [advance]
        · simp [advance, Function.update_of_ne k_eq]

end Server

theorem Table.congr {w v : World} (table : Table w)
    (same : w.server.SameTable v.server) (members_eq : v.room.members = w.room.members) :
    Table v where
  listen := by rw [same.fd_eq, same.listenfd_eq, table.listen]
  limit := same.userCounter_eq ▸ table.limit
  distinct := same.distinct_iff.mpr table.distinct
  opened_iff fd := by rw [same.registered_iff, same.opened_eq, table.opened_iff]
  members_iff fd := by rw [same.registered_iff, members_eq, table.members_iff]
  listenEvents := same.listen_eq ▸ table.listenEvents
  listenRevents := same.listen_eq ▸ table.listenRevents
  listenClosed := by rw [same.opened_eq, same.listenfd_eq, table.listenClosed]

/-! ## The other branches -/

theorem Table.initial (listenfd : Fd) (users : Fd → ClientData) :
    Table (World.initial listenfd users) where
  listen := rfl
  limit := Nat.zero_le _
  distinct := fun j k jPos jLe _ _ _ => by
    change j ≤ 0 at jLe
    omega
  opened_iff := fun fd => by
    simp only [World.initial, Server.initial, Bool.false_eq_true, false_iff]
    rintro ⟨k, kPos, kLe, -⟩
    change k ≤ 0 at kLe
    omega
  members_iff := fun fd => by
    simp only [World.initial, Room.empty, Bool.false_eq_true, false_iff]
    rintro ⟨k, kPos, kLe, -⟩
    change k ≤ 0 at kLe
    omega
  listenEvents := rfl
  listenRevents := ⟨by simp [World.initial, Server.initial, has],
    by simp [World.initial, Server.initial, has]⟩
  listenClosed := rfl

/-- `poll` reports no hang-up of the listening socket. -/
theorem Table.poll {w : World} (table : Table w) {revents : Nat → Mask}
    (reports : w.server.Reports revents) :
    Table { w with server := w.server.poll revents } := by
  have fd_eq : ∀ k, ((w.server.poll revents).fds k).fd = (w.server.fds k).fd := fun k => by
    simp only [Server.poll]
    split <;> rfl
  have registered_iff : ∀ fd, (w.server.poll revents).Registered fd ↔
      w.server.Registered fd := fun fd => by
    simp only [Server.Registered, fd_eq]
    rfl
  refine ⟨⟨?_, table.limit, ?_, fun fd => ?_, fun fd => ?_⟩, ?_, ?_, table.listenClosed⟩
  · exact (fd_eq 0).trans table.listen
  · intro j k jPos jLe kPos kLe equal
    rw [fd_eq, fd_eq] at equal
    exact table.distinct j k jPos jLe kPos kLe equal
  · exact (table.opened_iff fd).trans (registered_iff fd).symm
  · exact (table.members_iff fd).trans (registered_iff fd).symm
  · simpa [Server.poll] using table.listenEvents
  · have listenReport := reports 0 (by omega)
    rw [table.listenEvents] at listenReport
    simp only [Server.poll, Nat.zero_le, if_true]
    exact ⟨not_has_of_within listenReport (by decide),
      not_has_of_within listenReport (by decide)⟩

/-- Accepting a client enters it in the table, in the kernel and in the room. -/
theorem Table.onAccept {w : World} (table : Table w)
    (accepts : w.server.branch = .accept) {sys : Sys} (answers : w.server.Answers sys) :
    Table ⟨w.server.onAccept sys.accept, w.room.next (w.server.observe sys)⟩ := by
  cases result : sys.accept with
  | none =>
      have observe_eq : w.server.observe sys = .quiet := by
        simp [Server.observe, accepts, result]
      rw [observe_eq]
      exact table.congr (Server.sameTable_advance _) rfl
  | some connfd =>
      by_cases full : w.server.userCounter ≥ USER_LIMIT
      · have observe_eq : w.server.observe sys = .quiet := by
          simp [Server.observe, accepts, result, full]
        rw [observe_eq]
        simp only [Server.onAccept, if_pos full]
        exact table.congr (Server.sameTable_advance _) rfl
      · have observe_eq : w.server.observe sys = .join connfd := by
          simp [Server.observe, accepts, result, full]
        obtain ⟨fresh, notListen⟩ := answers.1 connfd result
        have unregistered : ¬ w.server.Registered connfd := by
          rw [← table.opened_iff, fresh]
          decide
        rw [observe_eq]
        simp only [Server.onAccept, if_neg full, Room.next]
        have update_iff : ∀ (old : Fd → Bool) (fd : Fd),
            (old fd = true ↔ w.server.Registered fd) →
            (Function.update old connfd true fd = true ↔
              (w.server.letIn connfd).Registered fd) := by
          intro old fd old_iff
          rw [Server.registered_letIn]
          by_cases fd_eq : fd = connfd
          · simp [fd_eq]
          · rw [Function.update_of_ne fd_eq, old_iff]
            simp [fd_eq]
        have listenEntry : (w.server.letIn connfd).fds 0 = w.server.fds 0 := by
          simp [Server.letIn]
        refine ⟨⟨?_, ?_, Server.distinct_letIn table.distinct unregistered,
          fun fd => update_iff _ fd (table.opened_iff fd),
          fun fd => update_iff _ fd (table.members_iff fd)⟩, ?_, ?_, ?_⟩
        · exact (congrArg PollFd.fd listenEntry).trans table.listen
        · exact Nat.lt_of_not_le full
        · exact (congrArg PollFd.events listenEntry).trans table.listenEvents
        · rw [show ((w.server.letIn connfd).advance.fds 0) = w.server.fds 0 from listenEntry]
          exact table.listenRevents
        · exact (Function.update_of_ne (Ne.symm notListen) _ _).trans table.listenClosed

/-- Overwriting an entry with the last one, with its own descriptor closed,
removes one client from the table, from the kernel and from the room. -/
theorem Table.remove {w : World} (table : Table w) (pos : 1 ≤ w.server.i)
    (le : w.server.i ≤ w.server.userCounter) {s : Server}
    (same : (w.server.close (w.server.fds w.server.i).fd).moveLast.dropLast.SameTable s) :
    Table ⟨s, w.room.next (.leave (w.server.fds w.server.i).fd)⟩ := by
  have registered_iff := fun fd =>
    Server.registered_moveLast (s := w.server) table.distinct pos le fd
  have update_iff : ∀ (old : Fd → Bool) (fd : Fd),
      (old fd = true ↔ w.server.Registered fd) →
      (Function.update old (w.server.fds w.server.i).fd false fd = true ↔
        w.server.moveLast.dropLast.Registered fd) := by
    intro old fd old_iff
    rw [registered_iff]
    by_cases fd_eq : fd = (w.server.fds w.server.i).fd
    · simp [fd_eq]
    · rw [Function.update_of_ne fd_eq, old_iff]
      simp [fd_eq]
  have listenEntry : w.server.moveLast.fds 0 = w.server.fds 0 := by
    simp [Server.moveLast, Function.update_of_ne (show 0 ≠ w.server.i by omega)]
  have removed : Table ⟨(w.server.close (w.server.fds w.server.i).fd).moveLast.dropLast,
      w.room.next (.leave (w.server.fds w.server.i).fd)⟩ := by
    refine ⟨⟨?_, ?_, Server.distinct_moveLast table.distinct pos le,
      fun fd => update_iff _ fd (table.opened_iff fd),
      fun fd => update_iff _ fd (table.members_iff fd)⟩, ?_, ?_, ?_⟩
    · exact (congrArg PollFd.fd listenEntry).trans table.listen
    · exact (Nat.sub_le _ _).trans table.limit
    · exact (congrArg PollFd.events listenEntry).trans table.listenEvents
    · exact listenEntry ▸ table.listenRevents
    · exact (Function.update_of_ne (table.listenfd_ne pos le).symm _ _).trans
        table.listenClosed
  exact removed.congr same rfl

/-- A last entry that hangs up has its own descriptor closed. -/
theorem Table.onHangup {w : World} (table : Table w) (pos : 1 ≤ w.server.i)
    (last : w.server.i = w.server.userCounter) :
    Table ⟨w.server.onHangup, w.room.next (.leave (w.server.fds w.server.i).fd)⟩ := by
  have closed : (w.server.moveLast.fds w.server.i).fd = (w.server.fds w.server.i).fd := by
    simp [Server.moveLast, ← last]
  refine table.remove pos last.le ⟨rfl, rfl, ?_, fun _ => rfl, rfl⟩
  change (w.server.moveLast.close (w.server.moveLast.fds w.server.i).fd).opened = _
  rw [closed]
  rfl

/-- Reading from a client keeps the table; a failing read removes the client. -/
theorem Table.onReadable {w : World} (table : Table w) (pos : 1 ≤ w.server.i)
    (le : w.server.i ≤ w.server.userCounter) (readable : w.server.branch = .readable)
    (sys : Sys) :
    Table ⟨w.server.onReadable sys.recv, w.room.next (w.server.observe sys)⟩ := by
  have filled := w.server.sameTable_fillBuf (w.server.fds w.server.i).fd []
  cases received : sys.recv with
  | data bytes =>
      have observe_eq : w.server.observe sys = .say (w.server.fds w.server.i).fd bytes := by
        simp [Server.observe, readable, received]
      rw [observe_eq]
      exact table.congr ((w.server.sameTable_fillBuf _ bytes).trans
        ((Server.sameTable_broadcast _ _).trans (Server.sameTable_advance _))) rfl
  | eof | again =>
      have observe_eq : w.server.observe sys = .quiet := by
        simp [Server.observe, readable, received]
      rw [observe_eq]
      exact table.congr (filled.trans (Server.sameTable_advance _)) rfl
  | fail =>
      have observe_eq : w.server.observe sys = .leave (w.server.fds w.server.i).fd := by
        simp [Server.observe, readable, received]
      rw [observe_eq]
      exact table.remove pos le ⟨rfl, rfl, rfl, fun _ => rfl, rfl⟩

/-- Handling an entry keeps the table, unless another entry than the last one
hangs up. -/
theorem Table.entry {w : World} (table : Table w) {sys : Sys}
    (le : w.server.i ≤ w.server.userCounter) (answers : w.server.Answers sys)
    (guard : w.server.branch = .hangup → w.server.i = w.server.userCounter) :
    Table ⟨w.server.handle sys, w.room.next (w.server.observe sys)⟩ := by
  cases branch_eq : w.server.branch with
  | accept =>
      simp only [Server.handle, branch_eq]
      exact table.onAccept branch_eq answers
  | hangup =>
      have pos := table.pos_of_branch (Or.inl branch_eq)
      simp only [Server.handle, Server.observe, branch_eq]
      exact table.onHangup pos (guard branch_eq)
  | readable =>
      have pos := table.pos_of_branch (Or.inr (Or.inl branch_eq))
      simp only [Server.handle, branch_eq]
      exact table.onReadable pos le branch_eq sys
  | writable =>
      have pos := table.pos_of_branch (Or.inr (Or.inr branch_eq))
      simp only [Server.handle, Server.observe, branch_eq]
      exact table.congr (Server.sameTable_onWritable pos sys.send) rfl
  | error | idle =>
      simp only [Server.handle, Server.observe, branch_eq]
      exact table.congr (Server.sameTable_advance _) rfl

theorem table_preserved : Preserves World.next HangsUpLast Table := by
  intro w event v table guard step
  cases event with
  | poll revents =>
      simp only [World.next, Option.ite_none_right_eq_some, Option.some.injEq] at step
      obtain ⟨⟨-, reports⟩, rfl⟩ := step
      exact table.poll reports
  | entry sys =>
      simp only [World.next, Option.ite_none_right_eq_some, Option.some.injEq] at step
      obtain ⟨⟨le, answers⟩, rfl⟩ := step
      exact table.entry le answers guard

/-- When another entry than the last one hangs up, the last client's descriptor
is closed although this client stays in the room. -/
theorem Table.unsound_hangup {w v : World} (table : Table w) {event : Event}
    (unguarded : ¬ HangsUpLast w event) (step : World.next w event = some v) : ¬ Sound v := by
  cases event with
  | poll revents => exact absurd trivial unguarded
  | entry sys =>
      simp only [World.next, Option.ite_none_right_eq_some, Option.some.injEq] at step
      obtain ⟨⟨le, -⟩, rfl⟩ := step
      obtain ⟨branch_eq, notLast⟩ := Classical.not_imp.mp unguarded
      have pos := table.pos_of_branch (Or.inl branch_eq)
      have different : (w.server.fds w.server.userCounter).fd ≠ (w.server.fds w.server.i).fd :=
        fun equal => notLast (table.distinct _ _ pos le (by omega) (le_refl _) equal.symm)
      have member := (table.members_iff _).mpr
        ⟨w.server.userCounter, by omega, le_refl _, rfl⟩
      intro sound
      have openedLast := (sound.opened_iff (w.server.fds w.server.userCounter).fd).mpr
        ((sound.members_iff _).mp (by
          simp only [Server.observe, branch_eq, Room.next]
          rw [Function.update_of_ne different, member]))
      simp [Server.handle, branch_eq, Server.onHangup, Server.moveLast, Server.close,
        Server.dropLast] at openedLast

/-- Every run keeps the table, the open descriptors and the room in agreement
exactly as long as each hang-up is the last table entry's. -/
theorem sound_along_iff_hangsUpLast (listenfd : Fd) (users : Fd → ClientData)
    (events : List Event)
    (possible : (run World.next (World.initial listenfd users) events).isSome) :
    Along World.next Sound (World.initial listenfd users) events ↔
      Meets World.next HangsUpLast (World.initial listenfd users) events :=
  along_iff_meets_of_isSome table_preserved (fun _ table => table.toSound)
    (fun _ _ _ table unguarded step => table.unsound_hangup unguarded step)
    (Table.initial listenfd users) possible

/-! ## Two clients, one of which hangs up -/

/-- `users` as fresh zero pages. -/
def zeroUsers : Fd → ClientData :=
  fun _ => ⟨none, List.replicate BUFFER_SIZE 0⟩

/-- A report of one condition for one entry. -/
def reportAt (entry : Nat) (flag : Mask) : Nat → Mask :=
  fun k => if k = entry then flag else 0

/-- Handling an entry without any answer that its branch would use. -/
def noAnswer : Sys := ⟨none, .again, none⟩

/-- The listening socket is ready, and `accept` returns `connfd`; the entries
behind it are idle. -/
def joinRound (connfd : Fd) (clients : Nat) : List Event :=
  .poll (reportAt 0 POLLIN) :: .entry ⟨some connfd, .again, none⟩ ::
    List.replicate (clients + 1) (.entry noAnswer)

/-- Clients 4 and 5 join, and the one in entry `leaver` hangs up. -/
def hangupRun (leaver : Nat) : List Event :=
  joinRound 4 0 ++ joinRound 5 1 ++ .poll (reportAt leaver POLLRDHUP) ::
    List.replicate (leaver + 1) (.entry noAnswer)

/-- The last client hangs up, and the table stays sound. -/
theorem sound_along_hangupRun_last :
    Along World.next Sound (World.initial 3 zeroUsers) (hangupRun 2) :=
  (sound_along_iff_hangsUpLast 3 zeroUsers (hangupRun 2) (by decide)).mpr (by decide)

/-- The first of two clients hangs up: the other one's descriptor is closed
although it stays in the room, and the leaver's stays open. -/
theorem hangupRun_first_unsound :
    (run World.next (World.initial 3 zeroUsers) (hangupRun 1)).map (fun w =>
        (w.server.opened 4, w.room.members 4, w.server.opened 5, w.room.members 5)) =
      some (true, false, false, true) ∧
    ¬ Along World.next Sound (World.initial 3 zeroUsers) (hangupRun 1) := by
  have outcome : (run World.next (World.initial 3 zeroUsers) (hangupRun 1)).map (fun w =>
      (w.server.opened 4, w.room.members 4, w.server.opened 5, w.room.members 5)) =
      some (true, false, false, true) := by
    decide
  refine ⟨outcome, fun along => ?_⟩
  obtain ⟨w, finished, values⟩ := Option.map_eq_some_iff.mp outcome
  have sound := along.last finished
  simp only [Prod.mk.injEq] at values
  have := (sound.opened_iff 5).mpr ((sound.members_iff 5).mp values.2.2.2)
  rw [values.2.2.1] at this
  contradiction

end NetPractice.PollChat
