import NetPractice.ShmChat.ChildSteps

/-!
# The steps of the parent and the ledger

The parent reads an index from the pipe of a child and writes it to the pipes of
the others, one at a time; what it has not written yet is in the ledger as
relayed.
-/

namespace NetPractice.ShmChat

open NetPractice.Socket
open NetPractice.Transition

/-! ## The steps of the parent -/

/-- The parent's own steps leave the children and the memory alone. -/
theorem Carries.ofParent {w : World} {t : Server} (delivery : Delivery w)
    (refresh : Refresh w.server t) (children_eq : t.children = w.server.children)
    (shareMem_eq : t.shareMem = w.server.shareMem)
    (relayed_eq : ∀ i, i < w.server.userCount → t.relayed i = w.server.relayed i)
    (hears : ∀ p c, w.server.children p = some c → w.server.Hears c → t.Hears c) :
    Carries w ⟨t, w.room⟩ where
  refresh := refresh
  members _ := id
  running p c member child := delivery.running p c member (children_eq ▸ child)
  unread_eq := rfl
  owed_eq := rfl
  sizes k := by
    rw [shareMem_eq]
    exact delivery.sizes k
  memory k := Or.inl (by rw [shareMem_eq])
  child i c d lt before after := by
    obtain rfl : c = d := by
      rw [children_eq, before, Option.some.injEq] at after
      exact after
    exact .refl i c (relayed_eq i lt) (hears _ c before)

theorem relayed_of_ne {s : Server} (task : ∀ sockfd child j, s.task ≠ .relaying sockfd child j)
    (i : Nat) : s.relayed i = [] := by
  unfold Server.relayed
  split
  · rename_i sockfd child j task_eq
    exact absurd task_eq (task sockfd child j)
  · rfl

/-- Steps between the loops of the parent. -/
theorem Carries.ofTask {w : World} (delivery : Delivery w) {batch : List Source} {task : Task}
    {terminate stopServer : Bool}
    (before : ∀ sockfd child j, w.server.task ≠ .relaying sockfd child j)
    (after : ∀ sockfd child j, task ≠ .relaying sockfd child j)
    (count_eq : ∀ sockfd, batch.count (.pipe sockfd) = w.server.batch.count (.pipe sockfd)) :
    Carries w ⟨{ w.server with
      batch := batch, task := task, terminate := terminate, stopServer := stopServer },
      w.room⟩ := by
  refine .ofParent delivery (.of_eq rfl rfl rfl rfl rfl fun _ => rel_refl _) rfl rfl
    (fun i _ => ?_) fun p c _ hears => ?_
  · rw [relayed_of_ne before, relayed_of_ne after]
  · unfold Server.Hears at hears ⊢
    rw [count_eq]
    exact hears

/-- `epoll_wait` turns flags into events. -/
theorem Carries.ofWait {w : World} (delivery : Delivery w) {batch : List Source}
    (ready : w.server.Ready batch) : Carries w ⟨w.server.wait batch, w.room⟩ where
  refresh := by
    refine .of_eq rfl rfl rfl rfl rfl fun p => ?_
    change Option.Rel Resumes _ (Option.map _ _)
    refine rel_map ?_ _
    exact fun _ => ⟨rfl, rfl, id⟩
  members _ := id
  running p d member child := by
    obtain ⟨c, before, rfl⟩ := Option.map_eq_some_iff.mp child
    exact delivery.running p c member before
  unread_eq := rfl
  owed_eq := rfl
  sizes := delivery.sizes
  memory _ := Or.inl rfl
  child i c d lt before after := by
    obtain ⟨e, again, rfl⟩ := Option.map_eq_some_iff.mp after
    rw [before, Option.some.injEq] at again
    subst again
    refine ⟨rfl, fun hears => ?_, Or.inl, fun _ => ⟨[], by simp, rfl⟩, fun _ => id⟩
    obtain ⟨-, empty, -⟩ := ready
    simp only [Server.Hears, empty, List.count_nil, Server.wait] at hears ⊢
    by_cases handed : .pipe c.pipefd ∈ batch
    · have := List.count_pos_iff.mpr handed
      have := Bool.toNat_le c.parentReady
      omega
    · simpa [handed] using hears.trans (Nat.le_add_right _ _)

/-- A pipe without data only loses its event. -/
theorem Carries.ofEmptyPipe {w : World} (delivery : Delivery w) {sockfd : Fd}
    {batch : List Source}
    (batch_eq : w.server.batch = .pipe sockfd :: batch)
    (empty : ∀ p c, w.server.peer sockfd = some p → w.server.children p = some c →
      c.toParent = []) : Carries w ⟨{ w.server with batch := batch }, w.room⟩ := by
  refine .ofParent delivery (.of_eq rfl rfl rfl rfl rfl fun _ => rel_refl _) rfl rfl
    (fun i _ => rfl) fun p c child hears => ?_
  unfold Server.Hears at hears ⊢
  by_cases fd_eq : c.pipefd = sockfd
  · have peer := delivery.pipes.peer_pipefd delivery.table child
    rw [fd_eq] at peer
    simp [empty p c peer child]
  · rw [batch_eq, List.count_cons_of_ne (by simp [Ne.symm fd_eq])] at hears
    exact hears

/-- The relaying loop is over when it has passed the last entry. -/
theorem Carries.ofRelayEnd {w : World} (delivery : Delivery w) {sockfd : Fd} {child j : Nat}
    (task_eq : w.server.task = .relaying sockfd child j) (finished : ¬ j < w.server.userCount) :
    Carries w ⟨{ w.server with task := .loop }, w.room⟩ := by
  refine .ofParent delivery (.of_eq rfl rfl rfl rfl rfl fun _ => rel_refl _) rfl rfl
    (fun i lt => ?_) fun p c _ hears => hears
  have passed : ¬ (j ≤ i ∧ (w.server.users i).pipefd.1 ≠ sockfd) := by omega
  simp only [Server.relayed, task_eq, if_neg passed]

/-- Handing the relayed index to one entry. -/
theorem Carries.ofRelay {w : World} (delivery : Delivery w) {sockfd : Fd} {child j : Nat}
    {sent : Bool} (task_eq : w.server.task = .relaying sockfd child j)
    (lt : j < w.server.userCount) (safe : DeliverySafe w (.relay sent)) :
    Carries w ⟨w.server.relay sockfd child j sent, w.room⟩ := by
  have relayed_eq : ∀ i, i ≠ j → ∀ t : Server, t.task = .relaying sockfd child (j + 1) →
      t.users = w.server.users → t.relayed i = w.server.relayed i := by
    intro i i_ne t taskAfter users_eq
    have later : j + 1 ≤ i ↔ j ≤ i := by omega
    simp only [Server.relayed, taskAfter, users_eq, task_eq, later]
  have relayed_self : ∀ t : Server, t.task = .relaying sockfd child (j + 1) →
      t.relayed j = [] := by
    intro t taskAfter
    have passed : ¬ (j + 1 ≤ j ∧ (t.users j).pipefd.1 ≠ sockfd) := by omega
    simp only [Server.relayed, taskAfter, if_neg passed]
  unfold Server.relay
  dsimp only
  by_cases own : (w.server.users j).pipefd.1 = sockfd
  · -- the entry of the announcing child itself
    rw [if_pos own]
    refine .ofParent delivery (.of_eq rfl rfl rfl rfl rfl fun _ => rel_refl _) rfl rfl
      (fun i _ => ?_) fun p c _ hears => hears
    by_cases i_eq : i = j
    · subst i_eq
      rw [relayed_self _ rfl]
      simp [Server.relayed, task_eq, own]
    · exact relayed_eq i i_eq _ rfl rfl
  · rw [if_neg own, delivery.pipes.peer j lt]
    simp only [DeliverySafe, task_eq] at safe
    obtain ⟨c, present⟩ := delivery.table.entry j lt
    have relayed_j : w.server.relayed j = [child] := by
      simp [Server.relayed, task_eq, own]
    cases sent with
    | false =>
        refine ⟨.of_eq rfl rfl rfl rfl rfl fun _ => rel_refl _, fun _ => id, delivery.running,
          rfl, rfl, delivery.sizes, fun _ => Or.inl rfl, fun i e f iLt before after => ?_⟩
        simp only [Bool.false_eq_true, if_false] at after ⊢
        rw [before, Option.some.injEq] at after
        subst after
        by_cases i_eq : i = j
        · subst i_eq
          exact ⟨rfl, id, Or.inl, fun member => absurd (safe lt own member).1 (by decide),
            fun _ => id⟩
        · exact .refl i e (relayed_eq i i_eq _ rfl rfl) id
    | true =>
        simp only [if_true, Server.notify, present, Option.map_some]
        refine ⟨.of_eq rfl rfl rfl rfl rfl (rel_update (present ▸ .some ⟨rfl, rfl, id⟩)),
          fun _ => id, fun p e member after => ?_, rfl, rfl, delivery.sizes,
          fun _ => Or.inl rfl, fun i e f iLt before after => ?_⟩
        · by_cases p_eq : p = (w.server.users j).pid
          · subst p_eq
            simp only [Function.update_self, Option.some.injEq] at after
            exact after ▸ delivery.running _ c member present
          · simp only [Function.update_of_ne p_eq] at after
            exact delivery.running p e member after
        · by_cases i_eq : i = j
          · subst i_eq
            rw [present, Option.some.injEq] at before
            simp only [Function.update_self, Option.some.injEq] at after
            subst before after
            refine ⟨rfl, id, Or.inl, fun _ => ⟨[], by simp, ?_⟩, fun member _ => ?_⟩
            · rw [relayed_self _ rfl, relayed_j]
              simp only [Child.queue]
              split <;> simp
            · have room := (safe lt own member).2 c present
              simp only [Child.Awake, List.length_append, List.length_singleton, Bool.toNat_true]
              omega
          · have pid_ne : (w.server.users i).pid ≠ (w.server.users j).pid := fun equal =>
              i_eq (delivery.table.toEnrolled.entry_injective iLt lt equal)
            simp only [Function.update_of_ne pid_ne] at after
            rw [before, Option.some.injEq] at after
            subst after
            exact .refl i e (relayed_eq i i_eq _ rfl rfl) id

section RelayStart

variable {w : World} {sockfd : Fd} {batch : List Source} {pid : Pid} {c : Child} {child : Nat}
  {toParent : List Nat}

/-- Relaying the index of one segment leaves the others quiet. -/
theorem World.Quiet.relayStart {room : Room} {k : Nat} (quiet : w.Quiet k)
    (members_eq : room.members = w.room.members) (present : w.server.children pid = some c)
    (idx_ne : c.idx ≠ k) (child_ne : child ≠ k) :
    World.Quiet ⟨{ w.server with
      batch := batch
      children := Function.update w.server.children pid (some { c with toParent := toParent })
      task := .relaying sockfd child 0 }, room⟩ k := by
  intro i lt f presentAfter
  rw [members_eq]
  have absent : k ∉ Server.relayed { w.server with
      batch := batch
      children := Function.update w.server.children pid (some { c with toParent := toParent })
      task := .relaying sockfd child 0 } i := by
    simp only [Server.relayed]
    split
    · simpa using Ne.symm child_ne
    · exact List.not_mem_nil
  rcases child_cases presentAfter with ⟨pid_eq, rfl⟩ | ⟨-, before⟩
  · refine ⟨fun equal => absurd equal idx_ne, fun member pending => ?_⟩
    refine (List.mem_append.mp pending).elim (fun queued => ?_) absent
    exact (quiet i lt c (pid_eq ▸ present)).2 member (List.mem_append_left _ queued)
  · refine ⟨(quiet i lt f before).1, fun member pending => ?_⟩
    refine (List.mem_append.mp pending).elim (fun queued => ?_) absent
    exact (quiet i lt f before).2 member (List.mem_append_left _ queued)

/-- The event that was handled stands for the announcement that was read. -/
theorem Delivery.heard_relayStart (delivery : Delivery w)
    (batch_eq : w.server.batch = .pipe sockfd :: batch) (peer : w.server.peer sockfd = some pid)
    (present : w.server.children pid = some c) (toParent_eq : c.toParent = child :: toParent)
    {p : Pid} {e : Child}
    (after : Function.update w.server.children pid (some { c with toParent := toParent }) p =
      some e) :
    Server.Hears { w.server with
      batch := batch
      children := Function.update w.server.children pid (some { c with toParent := toParent })
      task := .relaying sockfd child 0 } e := by
  rcases child_cases after with ⟨rfl, rfl⟩ | ⟨p_ne, before⟩
  · have hears := delivery.heard p c present
    have fd_eq := delivery.pipes.pipefd_eq peer present
    simp only [Server.Hears, batch_eq, toParent_eq, fd_eq, List.length_cons,
      List.count_cons_self] at hears ⊢
    omega
  · have hears := delivery.heard p e before
    have fd_ne : e.pipefd ≠ sockfd := fun equal => by
      have other := delivery.pipes.peer_pipefd delivery.table before
      rw [equal, peer, Option.some.injEq] at other
      exact p_ne other.symm
    simp only [Server.Hears, batch_eq] at hears ⊢
    rwa [List.count_cons_of_ne (by simp [Ne.symm fd_ne])] at hears

/-- The parent reads an announcement, and owes its content to the other connected
clients. -/
theorem Delivery.relayStart (delivery : Delivery w)
    (task_eq : w.server.task = .loop) (batch_eq : w.server.batch = .pipe sockfd :: batch)
    (peer : w.server.peer sockfd = some pid) (present : w.server.children pid = some c)
    (toParent_eq : c.toParent = child :: toParent) :
    Delivery ⟨{ w.server with
      batch := batch
      children := Function.update w.server.children pid (some { c with toParent := toParent })
      task := .relaying sockfd child 0 }, w.room.next (.relay pid)⟩ := by
  set d : Child := { c with toParent := toParent } with d_eq
  have child_eq : child = c.idx :=
    delivery.own pid c present child (toParent_eq ▸ List.mem_cons_self)
  have unread_eq : w.room.unread pid =
      w.server.shareMem child :: toParent.map w.server.shareMem := by
    simp [delivery.announced pid, present, toParent_eq]
  have nothingRelayed : ∀ i, w.server.relayed i = [] :=
    relayed_of_ne (by simp [task_eq])
  have room_eq : w.room.next (.relay pid) =
      { w.room with
        unread := Function.update w.room.unread pid (toParent.map w.server.shareMem)
        owed := fun other =>
          if w.room.members other ∧ other ≠ pid then
            w.room.owed other ++ [w.server.shareMem child]
          else w.room.owed other } := by
    simp only [Room.next, unread_eq]
  rw [room_eq]
  have refresh : Refresh w.server { w.server with
      batch := batch
      children := Function.update w.server.children pid (some d)
      task := .relaying sockfd child 0 } :=
    .of_eq rfl rfl rfl rfl rfl (rel_update (present ▸ .some ⟨rfl, rfl, id⟩))
  refine
    { table := delivery.table.refresh refresh
      pipes := delivery.pipes.refresh refresh
      sizes := delivery.sizes
      running := fun p e member after => ?_
      joined := fun p member => ?_
      own := fun p e after k mem => ?_
      quiet := fun p e after runs fills => ?_
      announced := fun p => ?_
      heard := fun p e after =>
        delivery.heard_relayStart batch_eq peer present toParent_eq after
      awake := fun p e after member => ?_
      balanced := fun i lt e after member => ?_ }
  · rcases child_cases after with ⟨rfl, rfl⟩ | ⟨-, before⟩
    · exact delivery.running p c member present
    · exact delivery.running p e member before
  · obtain ⟨e, before⟩ := delivery.joined p member
    exact refresh.kept before
  · rcases child_cases after with ⟨rfl, rfl⟩ | ⟨-, before⟩
    · exact delivery.own p c present k (toParent_eq ▸ List.mem_cons_of_mem _ mem)
    · exact delivery.own p e before k mem
  · -- a child that fills its segment has no announcement in its pipe
    obtain ⟨i₀, lt₀, owner₀⟩ := delivery.table.listed pid c present
    have quiet : w.Quiet e.idx := by
      rcases child_cases after with ⟨rfl, rfl⟩ | ⟨-, before⟩
      · exact delivery.quiet p c present runs fills
      · exact delivery.quiet p e before runs fills
    have idx_ne : c.idx ≠ e.idx := fun equal => by
      have silent := (quiet i₀ lt₀ c (owner₀.symm ▸ present)).1 equal
      rw [silent] at toParent_eq
      contradiction
    exact quiet.relayStart rfl present idx_ne (child_eq ▸ idx_ne)
  · by_cases p_eq : p = pid
    · subst p_eq
      simp [d_eq]
    · simp [Function.update_of_ne p_eq, delivery.announced p]
  · rcases child_cases after with ⟨rfl, rfl⟩ | ⟨-, before⟩
    · exact delivery.awake p c present member
    · exact delivery.awake p e before member
  · -- the entries of the other children are those with another pipe
    have owner_iff := delivery.pipes.owner_iff peer present lt
    have before : ∃ e', w.server.children (w.server.users i).pid = some e' ∧
        e.sent = e'.sent ∧ e.queue = e'.queue := by
      rcases child_cases after with ⟨pid_eq, rfl⟩ | ⟨-, before⟩
      · exact ⟨c, pid_eq ▸ present, rfl, rfl⟩
      · exact ⟨e, before, rfl, rfl⟩
    obtain ⟨e', before, sent_eq, queue_eq⟩ := before
    have account := delivery.balanced i lt e' before member
    change w.room.members (w.server.users i).pid = true at member
    simp only [Balanced, nothingRelayed, List.append_nil] at account
    simp only [Balanced, Server.relayed, member, Nat.zero_le, true_and, sent_eq, queue_eq]
    by_cases owner : (w.server.users i).pid = pid
    · rw [if_neg (fun other => other owner), if_neg (fun other => other (owner_iff.mp owner)),
        List.append_nil, account]
    · rw [if_pos owner, if_pos fun fd_eq => owner (owner_iff.mpr fd_eq), account,
        List.map_append, List.append_assoc]
      rfl

end RelayStart

end NetPractice.ShmChat
