import NetPractice.ShmChat.Relay

/-!
# Delivery in the shared-memory chat room

A new child starts with an empty entry of the ledger, and a reaped one leaves it
with nothing to announce.  So every safe step keeps the ledger, and in every
safe run each client is sent what the others have said.
-/

namespace NetPractice.ShmChat

open NetPractice.Socket
open NetPractice.Transition

/-! ## New and reaped children -/

theorem Pipes.letIn {s t : Server} (pipes : Pipes s) (table : Table s) {answer : Accepted}
    {pid : Pid} (letIn : s.LetIn t answer pid) (fresh : s.Fresh answer)
    (newPid : s.children pid = none) : Pipes t := by
  obtain ⟨connClosed, leftClosed, rightClosed, left_ne, right_ne, ends_ne, -⟩ := fresh
  have open_ne : ∀ fd p fd', s.peer fd = some p → s.opened fd' = false → fd ≠ fd' := by
    rintro fd p fd' peer isClosed rfl
    rw [pipes.opened fd p peer] at isClosed
    contradiction
  have peer_old : ∀ fd p, s.peer fd = some p → t.peer fd = some p := by
    intro fd p peer
    rw [letIn.peer_eq, Function.update_of_ne (open_ne fd p _ peer rightClosed),
      Function.update_of_ne (open_ne fd p _ peer connClosed),
      Function.update_of_ne (open_ne fd p _ peer leftClosed), peer]
  have peer_new : t.peer answer.pipefd.1 = some pid := by
    rw [letIn.peer_eq, Function.update_of_ne ends_ne, Function.update_of_ne left_ne,
      Function.update_self]
  have peer_cases : ∀ fd p, t.peer fd = some p →
      (fd = answer.pipefd.1 ∧ p = pid) ∨ s.peer fd = some p := by
    intro fd p peer
    by_cases fd_eq : fd = answer.pipefd.1
    · rw [fd_eq, peer_new, Option.some.injEq] at peer
      exact Or.inl ⟨fd_eq, peer.symm⟩
    · rw [letIn.peer_eq] at peer
      simp only [Function.update_apply, fd_eq, if_false] at peer
      split_ifs at peer
      exact Or.inr peer
  refine ⟨fun i lt => ?_, fun i lt c child => ?_, fun fd p peer => ?_, fun fd p peer => ?_⟩
  · rw [letIn.userCount_eq] at lt
    rcases Nat.lt_succ_iff_lt_or_eq.mp lt with lt | rfl
    · rw [letIn.entry_eq i lt]
      exact peer_old _ _ (pipes.peer i lt)
    · rw [letIn.last_eq]
      exact peer_new
  · rw [letIn.userCount_eq] at lt
    rw [letIn.children_eq] at child
    rcases Nat.lt_succ_iff_lt_or_eq.mp lt with lt | rfl
    · rw [letIn.entry_eq i lt] at child ⊢
      rw [Function.update_of_ne (table.toEnrolled.other_of_fresh newPid lt)] at child
      exact pipes.pipefd i lt c child
    · rw [letIn.last_eq] at child ⊢
      rw [Function.update_self, Option.some.injEq] at child
      rw [← child]
      rfl
  · rw [letIn.opened_eq]
    rcases peer_cases fd p peer with ⟨rfl, -⟩ | before
    · simp [Function.update_of_ne ends_ne, Function.update_of_ne left_ne]
    · rw [Function.update_of_ne (open_ne fd p _ before rightClosed),
        Function.update_of_ne (open_ne fd p _ before connClosed),
        Function.update_of_ne (open_ne fd p _ before rightClosed),
        Function.update_of_ne (open_ne fd p _ before leftClosed),
        Function.update_of_ne (open_ne fd p _ before connClosed), pipes.opened fd p before]
  · rw [letIn.userCount_eq]
    rcases peer_cases fd p peer with ⟨rfl, rfl⟩ | before
    · exact ⟨s.userCount, Nat.lt_succ_self _, by rw [letIn.last_eq], by rw [letIn.last_eq]⟩
    · obtain ⟨i, lt, owner, fd_eq⟩ := pipes.ends fd p before
      exact ⟨i, Nat.lt_succ_of_lt lt, letIn.entry_eq i lt ▸ owner, letIn.entry_eq i lt ▸ fd_eq⟩

/-- An entry is that of the new client, or it was there before. -/
theorem Server.LetIn.entryCases {s t : Server} {answer : Accepted} {pid : Pid} {i : Nat}
    {c : Child} (letIn : s.LetIn t answer pid) (lt : i < t.userCount)
    (present : t.children (t.users i).pid = some c) :
    ((t.users i).pid = pid ∧ c = Child.start s.userCount answer.pipefd.1) ∨
      (i < s.userCount ∧ t.users i = s.users i ∧ (s.users i).pid ≠ pid ∧
        s.children (s.users i).pid = some c) := by
  rcases letIn.childCases present with ⟨pid_eq, rfl⟩ | ⟨ne, before⟩
  · exact Or.inl ⟨pid_eq, rfl⟩
  · rw [letIn.userCount_eq] at lt
    rcases Nat.lt_succ_iff_lt_or_eq.mp lt with lt | rfl
    · rw [letIn.entry_eq i lt] at ne before
      exact Or.inr ⟨lt, letIn.entry_eq i lt, ne, before⟩
    · exact absurd (by rw [letIn.last_eq]) ne

/-- A client joins with an empty account. -/
theorem Delivery.letIn {w : World} (delivery : Delivery w) {t : Server} {answer : Accepted}
    {pid : Pid} (letIn : w.server.LetIn t answer pid) (fresh : w.server.Fresh answer)
    (newPid : w.server.children pid = none)
    (task : ∀ sockfd child j, w.server.task ≠ .relaying sockfd child j) :
    Delivery ⟨t, w.room.next (.join pid)⟩ := by
  have memberCases : ∀ p, p ≠ pid → (w.room.next (.join pid)).members p = true →
      w.room.members p = true := by
    intro p p_ne member
    simpa [Room.next, Function.update_of_ne p_ne] using member
  have relayedBefore : ∀ i, w.server.relayed i = [] := relayed_of_ne task
  have relayedAfter : ∀ i, t.relayed i = [] :=
    relayed_of_ne fun sockfd child j => letIn.task_eq ▸ task sockfd child j
  refine
    { table := delivery.table.letIn letIn newPid
      pipes := delivery.pipes.letIn delivery.table letIn fresh newPid
      sizes := fun k => letIn.shareMem_eq ▸ delivery.sizes k
      running := fun p e member after => ?_
      joined := fun p member => ?_
      own := fun p e after k mem => ?_
      quiet := fun p e after runs fills i lt f present => ?_
      announced := fun p => ?_
      heard := fun p e after => ?_
      awake := fun p e after member => ?_
      balanced := fun i lt e after member => ?_ }
  · rcases letIn.childCases after with ⟨rfl, rfl⟩ | ⟨p_ne, before⟩
    · rfl
    · exact delivery.running p e (memberCases p p_ne member) before
  · by_cases p_eq : p = pid
    · exact ⟨_, by rw [p_eq, letIn.children_eq, Function.update_self]⟩
    · obtain ⟨e, before⟩ := delivery.joined p (memberCases p p_eq member)
      exact ⟨e, by rw [letIn.children_eq, Function.update_of_ne p_eq, before]⟩
  · rcases letIn.childCases after with ⟨rfl, rfl⟩ | ⟨-, before⟩
    · exact absurd mem List.not_mem_nil
    · exact delivery.own p e before k mem
  · rcases letIn.childCases after with ⟨rfl, rfl⟩ | ⟨-, before⟩
    · rcases fills with fills | fills <;> contradiction
    · have idxLt := (delivery.table.stored p e before runs).1
      rcases letIn.entryCases lt present with ⟨-, rfl⟩ | ⟨lt, entry_eq, f_ne, presentBefore⟩
      · refine ⟨fun idx => absurd idx (Nat.ne_of_gt idxLt), fun _ => ?_⟩
        simp [relayedAfter, Child.queue, Child.start]
      · change _ ∧ ((w.room.next (.join pid)).members (t.users i).pid = true → _)
        rw [entry_eq]
        obtain ⟨silent, absent⟩ := delivery.quiet p e before runs fills i lt f presentBefore
        refine ⟨silent, fun member => ?_⟩
        have absent := absent (memberCases _ f_ne member)
        simpa [relayedAfter, relayedBefore] using absent
  · change w.room.unread p = _
    rw [delivery.announced p, letIn.children_eq, letIn.shareMem_eq]
    by_cases p_eq : p = pid
    · subst p_eq
      rw [newPid, Function.update_self]
      rfl
    · rw [Function.update_of_ne p_eq]
  · rcases letIn.childCases after with ⟨rfl, rfl⟩ | ⟨-, before⟩
    · exact Nat.zero_le _
    · have hears := delivery.heard p e before
      unfold Server.Hears at hears ⊢
      rwa [letIn.batch_eq]
  · rcases letIn.childCases after with ⟨rfl, rfl⟩ | ⟨p_ne, before⟩
    · exact Nat.zero_le _
    · exact delivery.awake p e before (memberCases p p_ne member)
  · rcases letIn.entryCases lt after with ⟨pid_eq, rfl⟩ | ⟨lt, entry_eq, e_ne, before⟩
    · simp [Balanced, pid_eq, relayedAfter, Room.next, Child.start, Child.queue]
    · change (w.room.next (.join pid)).members (t.users i).pid = true at member
      change (w.room.next (.join pid)).owed (t.users i).pid =
        e.sent ++ (e.queue ++ t.relayed i).map t.shareMem
      rw [entry_eq] at member ⊢
      have account := delivery.balanced i lt e before (memberCases _ e_ne member)
      rw [Balanced, relayedBefore] at account
      rw [relayedAfter, letIn.shareMem_eq, ← account]
      exact Function.update_of_ne e_ne _ _

/-- Where the entries are after a child was reaped. -/
theorem Server.Reaped.source {s t : Server} {pid : Pid} {i : Nat} (reaped : s.Reaped t pid i)
    {j : Nat} (lt : j < t.userCount) :
    ∃ k, k < s.userCount ∧ t.users j = s.users k ∧
      (k = j ∧ j ≠ i ∨ k = s.userCount - 1 ∧ j = i) := by
  rw [reaped.userCount_eq] at lt
  rw [reaped.users_eq]
  by_cases gap : j = i
  · exact ⟨s.userCount - 1, by omega, by rw [gap, Function.update_self], Or.inr ⟨rfl, gap⟩⟩
  · exact ⟨j, by omega, by rw [Function.update_of_ne gap], Or.inl ⟨rfl, gap⟩⟩

theorem Pipes.reaped {s t : Server} (pipes : Pipes s) (table : Table s) {pid : Pid} {i : Nat}
    (lt : i < s.userCount) (owner : (s.users i).pid = pid) (reaped : s.Reaped t pid i) :
    Pipes t := by
  have other : ∀ j k, j < t.userCount → k < s.userCount →
      (k = j ∧ j ≠ i ∨ k = s.userCount - 1 ∧ j = i) → k ≠ i := by
    intro j k jLt kLt place
    rw [reaped.userCount_eq] at jLt
    omega
  have peer_cases : ∀ fd p, t.peer fd = some p →
      fd ≠ (s.users i).pipefd.1 ∧ s.peer fd = some p := by
    intro fd p peer
    rw [reaped.peer_eq, Function.update_apply] at peer
    split_ifs at peer with fd_eq
    exact ⟨fd_eq, peer⟩
  refine ⟨fun j jLt => ?_, fun j jLt c child => ?_, fun fd p peer => ?_, fun fd p peer => ?_⟩
  · obtain ⟨k, kLt, users_eq, place⟩ := reaped.source jLt
    have fd_ne : (s.users k).pipefd.1 ≠ (s.users i).pipefd.1 := fun equal =>
      other j k jLt kLt place (pipes.injective table kLt lt equal)
    rw [users_eq, reaped.peer_eq, Function.update_of_ne fd_ne, pipes.peer k kLt]
  · obtain ⟨k, kLt, users_eq, place⟩ := reaped.source jLt
    have pid_ne : (s.users k).pid ≠ pid := fun equal =>
      other j k jLt kLt place (table.toEnrolled.entry_injective kLt lt (equal.trans owner.symm))
    rw [users_eq, reaped.children_eq, Function.update_of_ne pid_ne] at child
    rw [users_eq, pipes.pipefd k kLt c child]
  · obtain ⟨fd_ne, before⟩ := peer_cases fd p peer
    rw [reaped.opened_eq, Function.update_of_ne fd_ne, pipes.opened fd p before]
  · obtain ⟨fd_ne, before⟩ := peer_cases fd p peer
    obtain ⟨k, kLt, kOwner, fd_eq⟩ := pipes.ends fd p before
    have k_ne : k ≠ i := by
      rintro rfl
      exact fd_ne fd_eq.symm
    rw [reaped.userCount_eq, reaped.users_eq]
    by_cases last : k = s.userCount - 1
    · subst last
      exact ⟨i, by omega, by rw [Function.update_self, kOwner],
        by rw [Function.update_self, fd_eq]⟩
    · exact ⟨k, by omega, by rw [Function.update_of_ne k_ne, kOwner],
        by rw [Function.update_of_ne k_ne, fd_eq]⟩

/-- A child whose announcements were read is reaped, and nothing is lost. -/
theorem Delivery.reaped {w : World} (delivery : Delivery w) {t : Server} {pid : Pid} {i : Nat}
    {c : Child} (lt : i < w.server.userCount) (owner : (w.server.users i).pid = pid)
    (reaped : w.server.Reaped t pid i) (present : w.server.children pid = some c)
    (exited : c.exited = true) (silent : c.toParent = [])
    (filler : ∀ e ∈ w.server.children (w.server.users (w.server.userCount - 1)).pid,
      e.exited = true)
    (task : ∀ sockfd child j, w.server.task ≠ .relaying sockfd child j) :
    Delivery ⟨t, w.room⟩ := by
  have survivor : ∀ p e, t.children p = some e → p ≠ pid ∧ w.server.children p = some e := by
    intro p e after
    rw [reaped.children_eq, Function.update_apply] at after
    split_ifs at after with p_eq
    exact ⟨p_eq, after⟩
  have gone : ∀ p, w.room.members p = true → p ≠ pid := by
    rintro p member rfl
    rw [delivery.running p c member present] at exited
    contradiction
  have relayedBefore : ∀ i, w.server.relayed i = [] := relayed_of_ne task
  have relayedAfter : ∀ i, t.relayed i = [] :=
    relayed_of_ne fun sockfd child j => reaped.task_eq ▸ task sockfd child j
  refine
    { table := delivery.table.reaped lt owner reaped filler
      pipes := delivery.pipes.reaped delivery.table lt owner reaped
      sizes := fun k => reaped.shareMem_eq ▸ delivery.sizes k
      running := fun p e member after => delivery.running p e member (survivor p e after).2
      joined := fun p member => ?_
      own := fun p e after => delivery.own p e (survivor p e after).2
      quiet := fun p e after runs fills j jLt f atPlace => ?_
      announced := fun p => ?_
      heard := fun p e after => ?_
      awake := fun p e after member => delivery.awake p e (survivor p e after).2 member
      balanced := fun j jLt e after member => ?_ }
  · obtain ⟨e, before⟩ := delivery.joined p member
    exact ⟨e, by rw [reaped.children_eq, Function.update_of_ne (gone p member), before]⟩
  · obtain ⟨k, kLt, users_eq, -⟩ := reaped.source jLt
    have before := (survivor _ f atPlace).2
    change w.server.children (t.users j).pid = some f at before
    change _ ∧ (w.room.members (t.users j).pid = true → _)
    rw [users_eq] at before ⊢
    obtain ⟨quiet, absent⟩ := delivery.quiet p e (survivor p e after).2 runs fills k kLt f before
    refine ⟨quiet, fun member => ?_⟩
    simpa [relayedAfter, relayedBefore] using absent member
  · rw [delivery.announced p, reaped.children_eq, reaped.shareMem_eq]
    by_cases p_eq : p = pid
    · subst p_eq
      simp [present, silent]
    · rw [Function.update_of_ne p_eq]
  · have hears := delivery.heard p e (survivor p e after).2
    unfold Server.Hears at hears ⊢
    rwa [reaped.batch_eq]
  · obtain ⟨k, kLt, users_eq, -⟩ := reaped.source jLt
    have before := (survivor _ e after).2
    change w.server.children (t.users j).pid = some e at before
    change w.room.members (t.users j).pid = true at member
    change w.room.owed (t.users j).pid = e.sent ++ (e.queue ++ t.relayed j).map t.shareMem
    rw [users_eq] at before member ⊢
    have account := delivery.balanced k kLt e before member
    rw [Balanced, relayedBefore] at account
    rw [relayedAfter, reaped.shareMem_eq, account]

/-! ## Every safe step keeps the ledger -/

theorem Delivery.onAccept {w : World} (delivery : Delivery w) {t : Server}
    {answer : Option Accepted} (step : w.server.next (.accept answer) = some t) :
    Delivery ⟨t, w.room.next (w.server.observe (.accept answer))⟩ := by
  obtain ⟨batch, task_eq, batch_eq, fresh, rfl⟩ := Server.next_accept step
  have idle : ∀ sockfd child j, w.server.task ≠ .relaying sockfd child j := by
    simp [task_eq]
  have start : Delivery ⟨{ w.server with batch := batch }, w.room⟩ :=
    delivery.carry (.ofTask delivery idle idle fun sockfd => by
      rw [batch_eq, List.count_cons_of_ne (by simp)])
  rcases Server.onAccept_spec (s := { w.server with batch := batch }) fresh with
    ⟨accepted, pid, rfl, forked, letIn⟩ | ⟨unforked, refused⟩
  · have observe_eq : w.server.observe (.accept (some accepted)) = .join pid := by
      have below : ¬ w.server.userCount ≥ USER_LIMIT := Nat.not_le.mpr letIn.below
      simp [Server.observe, forked, below]
    rw [observe_eq]
    exact start.letIn letIn (fresh accepted rfl) ((fresh accepted rfl).unborn forked) idle
  · have observe_eq : w.server.observe (.accept answer) = .quiet := by
      cases answer with
      | none => rfl
      | some accepted =>
          rcases unforked accepted rfl with none | full
          · simp [Server.observe, none]
          · have full : USER_LIMIT ≤ w.server.userCount := full
            simp only [Server.observe]
            split <;> simp [full]
    rw [observe_eq]
    refine start.carry (.ofParent start refused.refresh refused.children_eq refused.shareMem_eq
      (fun _ _ => ?_) fun p c child hears => ?_)
    · simp only [Server.relayed, refused.task_eq]
    · unfold Server.Hears at hears ⊢
      rwa [refused.batch_eq]

theorem Delivery.onPipe {w : World} (delivery : Delivery w) {t : Server}
    (step : w.server.next .pipe = some t) :
    Delivery ⟨t, w.room.next (w.server.observe .pipe)⟩ := by
  simp only [Server.next] at step
  split at step
  · rename_i sockfd batch task_eq batch_eq
    obtain rfl := Option.some.inj step
    have unheard : (∀ p c, w.server.peer sockfd = some p → w.server.children p = some c →
        c.toParent = []) →
        Delivery ⟨{ w.server with batch := batch }, w.room⟩ := fun empty =>
      delivery.carry (.ofEmptyPipe delivery batch_eq empty)
    cases peer : w.server.peer sockfd with
    | none =>
        simp only [Server.onPipe, Server.observe, batch_eq, peer]
        exact unheard (by simp [peer])
    | some pid =>
        cases present : w.server.children pid with
        | none =>
            simp only [Server.onPipe, Server.observe, batch_eq, peer, present]
            rw [if_neg (by simp)]
            exact unheard (by rintro p e samePeer child; simp_all)
        | some c =>
            cases toParent_eq : c.toParent with
            | nil =>
                simp only [Server.onPipe, Server.observe, batch_eq, peer, present, toParent_eq]
                rw [if_neg (by simp [toParent_eq])]
                exact unheard (by rintro p e samePeer child; simp_all)
            | cons child toParent =>
                simp only [Server.onPipe, Server.observe, batch_eq, peer, present, toParent_eq]
                rw [if_pos (by simp [toParent_eq])]
                exact delivery.relayStart task_eq batch_eq peer present toParent_eq
  · contradiction

theorem Delivery.onChild {w : World} (delivery : Delivery w) {t : Server} {pid : Pid}
    {action : ChildStep} (safe : DeliverySafe w (.child pid action))
    (step : w.server.next (.child pid action) = some t) :
    Delivery ⟨t, w.room.next (w.server.observe (.child pid action))⟩ := by
  simp only [Server.next, Option.bind_eq_some_iff, Option.map_eq_some_iff] at step
  obtain ⟨c, child, ⟨d, mem⟩, taken, rfl⟩ := step
  simp only [Server.observe, child]
  by_cases announce : action = .announce true
  · subst announce
    have runs := (Child.next_spec taken).1
    simp only [Child.next, runs, Bool.false_eq_true, if_false] at taken
    simp only [Child.announce, if_true, Option.map_eq_some_iff, Option.ite_none_right_eq_some,
      Option.some.injEq, Prod.mk.injEq] at taken
    obtain ⟨_, ⟨doing_eq, rfl⟩, rfl, rfl⟩ := taken
    exact delivery.announce child runs doing_eq
  · exact delivery.carry (delivery.carries_child child safe announce taken)

theorem delivery_preserved : Preserves World.next DeliverySafe Delivery := by
  intro w event v delivery safe step
  obtain ⟨t, taken, rfl⟩ := Option.map_eq_some_iff.mp step
  clear step
  cases event with
  | wait batch =>
      simp only [Server.next, Option.ite_none_right_eq_some, Option.some.injEq] at taken
      obtain ⟨ready, rfl⟩ := taken
      exact delivery.carry (.ofWait delivery ready)
  | accept answer => exact delivery.onAccept taken
  | signals received =>
      simp only [Server.next] at taken
      split at taken
      · rename_i batch task_eq batch_eq
        obtain rfl := Option.some.inj taken
        exact delivery.carry (.ofTask delivery (by simp [task_eq]) (by simp) fun sockfd => by
          rw [batch_eq, List.count_cons_of_ne (by simp)])
      · contradiction
  | signal =>
      simp only [Server.next] at taken
      split at taken
      · rename_i task_eq
        obtain rfl := Option.some.inj taken
        exact delivery.carry (.ofTask delivery (by simp [task_eq]) (by simp) fun _ => rfl)
      · rename_i signal rest task_eq
        obtain rfl := Option.some.inj taken
        have idle : ∀ sockfd child j, w.server.task ≠ .relaying sockfd child j := by
          simp [task_eq]
        cases signal <;> simp only [Server.onSignal]
        case term | int =>
          split <;> exact delivery.carry (.ofTask delivery idle (by simp) fun _ => rfl)
        all_goals exact delivery.carry (.ofTask delivery idle (by simp) fun _ => rfl)
      · contradiction
  | waitpid pid =>
      cases pid with
      | none =>
          simp only [Server.next] at taken
          split at taken
          · rename_i rest task_eq
            obtain rfl := Option.some.inj taken
            exact delivery.carry (.ofTask delivery (by simp [task_eq]) (by simp) fun _ => rfl)
          · contradiction
      | some pid =>
          obtain ⟨rest, c, task_eq, child, exited, rfl⟩ := Server.next_reap taken
          obtain ⟨i, lt, owner, found⟩ := delivery.table.toEnrolled.entry_of_child child
          have limit := delivery.table.limit
          exact delivery.reaped lt owner (Server.reap_spec found (by omega)) child exited
            (safe.2 c child) safe.1 (by simp [task_eq])
  | pipe => exact delivery.onPipe taken
  | relay sent =>
      simp only [Server.next] at taken
      split at taken
      · rename_i sockfd child j task_eq
        split at taken
        · rename_i lt
          obtain rfl := Option.some.inj taken
          exact delivery.carry (.ofRelay delivery task_eq lt safe)
        · rename_i finished
          obtain rfl := Option.some.inj taken
          exact delivery.carry (.ofRelayEnd delivery task_eq finished)
      · contradiction
  | arrive pid =>
      simp only [Server.next, Option.map_eq_some_iff] at taken
      obtain ⟨c, child, rfl⟩ := taken
      exact delivery.carry (.ofChild (d := { c with connReady := true }) delivery child
        ⟨rfl, rfl, id⟩ (fun _ => id) (fun member => delivery.running pid c member child) rfl rfl
        delivery.sizes (fun _ => Or.inl rfl) rfl id Or.inl
        (fun _ => ⟨[], by simp, rfl⟩) fun _ => id)
  | child pid action => exact delivery.onChild safe taken

/-- In every run whose steps are safe, every announced content reaches every
other client that stays connected, once and as it was announced. -/
theorem relayed_along_of_deliverySafe (users : Nat → ClientData) (events : List Event)
    (safe : Meets World.next DeliverySafe (World.initial users) events) :
    Along World.next Delivered (World.initial users) events :=
  (delivery_preserved.along (Delivery.initial users) safe).mono
    fun _ delivery => delivery.delivered

/-! ## Two messages and one receiver -/

/-- The client of child 100 says something, and the child announces it. -/
def sayRound (text : List Text.Byte) : List Event :=
  [.arrive 100, .child 100 (.wait [.conn]), .child 100 .clear, .child 100 (.recv (.data text)),
    .child 100 (.announce true)]

/-- The parent relays the announcement to child 101. -/
def relayRound : List Event :=
  [.wait [.pipe 8], .pipe, .relay true, .relay true, .relay true]

/-- Child 101 sends the announced text to its client. -/
def receiveRound : List Event :=
  [.child 101 (.wait [.pipe]), .child 101 (.notice false),
    .child 101 (.send (.taken BUFFER_SIZE))]

/-- Two clients join, and one of them speaks twice; the second message arrives
after or before the other client was sent the first one. -/
def speakTwice (prompt : Bool) : List Event :=
  joinRound 100 7 8 9 ++ joinRound 101 7 9 10 ++ sayRound [97] ++ relayRound ++
    if prompt then receiveRound ++ sayRound [98] else sayRound [98] ++ receiveRound

/-- A client that is sent a message before the next one arrives gets both. -/
theorem relayed_along_speakTwice_prompt :
    Along World.next Delivered (World.initial noUsers) (speakTwice true) :=
  relayed_along_of_deliverySafe noUsers (speakTwice true) (by decide)

/-- A message that arrives before the previous one was sent replaces it: the
receiver is owed the first one and sent the second one. -/
theorem speakTwice_slow_unrelayed :
    (run World.next (World.initial noUsers) (speakTwice false)).map (fun w =>
        (w.room.members 101, (w.room.owed 101).map List.head?,
          (w.server.children 101).map fun c => c.sent.map List.head?)) =
      some (true, [some 97], some [some 98]) ∧
    ¬ Along World.next Delivered (World.initial noUsers) (speakTwice false) := by
  have outcome : (run World.next (World.initial noUsers) (speakTwice false)).map (fun w =>
      (w.room.members 101, (w.room.owed 101).map List.head?,
        (w.server.children 101).map fun c => c.sent.map List.head?)) =
      some (true, [some 97], some [some 98]) := by
    decide
  have idle : (run World.next (World.initial noUsers) (speakTwice false)).map
      (fun w => (w.server.task, (w.server.children 101).map Child.queue)) =
      some (.loop, some []) := by
    decide
  refine ⟨outcome, fun along => ?_⟩
  obtain ⟨w, finished, values⟩ := Option.map_eq_some_iff.mp outcome
  rw [finished, Option.map_some, Option.some.injEq] at idle
  simp only [Prod.mk.injEq, Option.map_eq_some_iff] at values idle
  obtain ⟨member, owed_eq, c, child, sent_eq⟩ := values
  obtain ⟨i, d, -, -, again, -, account⟩ := (along.last finished).delivered 101 member
  obtain rfl : c = d := Option.some.inj (child.symm.trans again)
  obtain ⟨task_eq, e, same, queue_eq⟩ := idle
  obtain rfl : c = e := Option.some.inj (child.symm.trans same)
  have heads := congrArg (List.map List.head?) account
  rw [owed_eq, queue_eq, relayed_of_ne (by simp [task_eq])] at heads
  simp only [List.append_nil, List.map_nil, sent_eq] at heads
  exact absurd heads (by decide)

end NetPractice.ShmChat
