import NetPractice.ShmChat.Segments
import Mathlib.Data.Bool.Basic

/-!
# The ledger of the shared-memory chat room

An announcement is an index; its content is whatever the segment holds when a
child sends it.  The ledger follows each announced content on its way from the
announcing child over the parent to the other clients, and `DeliverySafe` names
the steps that keep it: a segment is cleared when nobody has an index of it
left to send, a notification is written to a pipe only when a later
`epoll_wait` of the reader will report it, sockets take whole segments, and a
child is reaped when the parent has read its announcements.
-/

namespace NetPractice.ShmChat

open NetPractice.Socket
open NetPractice.Transition

namespace Child

/-- The indices that a child was handed and has not sent. -/
def queue (c : Child) : List Nat :=
  match c.doing with
  | .sending client => client :: c.toChild
  | _ => c.toChild

/-- Every notification in the child's pipe has an event, handed out or not. -/
def Awake (c : Child) : Prop :=
  c.toChild.length ≤ c.pipeReady.toNat + c.batch.count .pipe

/-- The child is about to overwrite its segment, or to announce it. -/
def Fills (c : Child) : Prop :=
  c.doing = .cleared ∨ c.doing = .announcing

end Child

namespace Server

/-- The index that the parent is relaying and has not handed to entry `i`. -/
def relayed (s : Server) (i : Nat) : List Nat :=
  match s.task with
  | .relaying sockfd child j =>
      if j ≤ i ∧ (s.users i).pipefd.1 ≠ sockfd then [child] else []
  | _ => []

/-- Every announcement in the pipe from this child has an event. -/
def Hears (s : Server) (c : Child) : Prop :=
  c.toParent.length ≤ c.parentReady.toNat + s.batch.count (.pipe c.pipefd)

end Server

namespace World

/-- Nobody has an index of segment `k` left to announce, relay or send. -/
def Quiet (w : World) (k : Nat) : Prop :=
  ∀ i, i < w.server.userCount → ∀ c ∈ w.server.children (w.server.users i).pid,
    (c.idx = k → c.toParent = []) ∧
      (w.room.members (w.server.users i).pid = true → k ∉ c.queue ++ w.server.relayed i)

instance (w : World) (k : Nat) : Decidable (w.Quiet k) :=
  inferInstanceAs (Decidable (∀ i, i < _ → ∀ _ ∈ _, _ ∧ _))

end World

/-- The announcements that the parent has not read stand for the announced
contents.  Every connected client was sent what it is owed since it joined, once
and in order, up to the contents of the indices on their way to it; and every
index in a pipe will be read. -/
structure Delivered (w : World) : Prop where
  announced : ∀ p, w.room.unread p =
    (w.server.children p).elim [] fun c => c.toParent.map w.server.shareMem
  heard : ∀ p c, w.server.children p = some c → w.server.Hears c
  delivered : ∀ p, w.room.members p = true → ∃ i c, i < w.server.userCount ∧
    (w.server.users i).pid = p ∧ w.server.children p = some c ∧ c.Awake ∧
    w.room.owed p = c.sent ++ (c.queue ++ w.server.relayed i).map w.server.shareMem

/-- The steps that keep the ledger. -/
def DeliverySafe (w : World) : Event → Prop
  | .waitpid (some pid) =>
      FillsWithExited w.server (.waitpid (some pid)) ∧
        ∀ c ∈ w.server.children pid, c.toParent = []
  | .relay sent =>
      match w.server.task with
      | .relaying sockfd _ j =>
          j < w.server.userCount → (w.server.users j).pipefd.1 ≠ sockfd →
          w.room.members (w.server.users j).pid = true →
          sent = true ∧ ∀ c ∈ w.server.children (w.server.users j).pid,
            c.toChild.length ≤ c.batch.count .pipe
      | _ => True
  | .child pid .clear => ∀ c ∈ w.server.children pid, w.Quiet c.idx
  | .child pid (.send answer) =>
      w.room.members pid = true →
        match answer with
        | .taken count => BUFFER_SIZE ≤ count
        | .again => False
        | .gone => True
  | _ => True

instance (w : World) : ∀ event, Decidable (DeliverySafe w event)
  | .waitpid (some _) => inferInstanceAs (Decidable (_ ∧ ∀ _ ∈ _, _))
  | .relay sent =>
      match task_eq : w.server.task with
      | .relaying sockfd _ j =>
          decidable_of_iff (j < w.server.userCount → (w.server.users j).pipefd.1 ≠ sockfd →
            w.room.members (w.server.users j).pid = true →
            sent = true ∧ ∀ c ∈ w.server.children (w.server.users j).pid,
              c.toChild.length ≤ c.batch.count .pipe) (by simp only [DeliverySafe, task_eq])
      | .loop | .signals _ | .reaping _ => isTrue (by simp only [DeliverySafe, task_eq])
  | .child _ .clear => inferInstanceAs (Decidable (∀ _ ∈ _, _))
  | .child _ (.send (.taken _)) => inferInstanceAs (Decidable (_ → _ ≤ _))
  | .child _ (.send .again) => inferInstanceAs (Decidable (_ → False))
  | .child _ (.send .gone) => isTrue fun _ => trivial
  | .child _ .term | .child _ (.wait _) | .child _ (.recv _) | .child _ (.announce _)
  | .child _ (.notice _) | .child _ .exit | .waitpid none | .wait _ | .accept _ | .signals _
  | .signal | .pipe | .arrive _ => isTrue trivial

/-! ## The invariant -/

/-- The pipes of the parent's entries lead to the entries' children. -/
structure Pipes (s : Server) : Prop where
  peer : ∀ i, i < s.userCount → s.peer (s.users i).pipefd.1 = some (s.users i).pid
  pipefd : ∀ i, i < s.userCount → ∀ c, s.children (s.users i).pid = some c →
    c.pipefd = (s.users i).pipefd.1
  opened : ∀ fd p, s.peer fd = some p → s.opened fd = true
  ends : ∀ fd p, s.peer fd = some p →
    ∃ i, i < s.userCount ∧ (s.users i).pid = p ∧ (s.users i).pipefd.1 = fd

theorem Pipes.refresh {s t : Server} (pipes : Pipes s) (refresh : Refresh s t) : Pipes t where
  peer i lt := by
    rw [refresh.userCount_eq] at lt
    have peer := pipes.peer i lt
    rw [refresh.entry_eq i lt, refresh.peer_eq _ (pipes.opened _ _ peer), peer]
  pipefd i lt d child := by
    rw [refresh.userCount_eq] at lt
    rw [refresh.entry_eq i lt] at child ⊢
    obtain ⟨c, before, -, pipefd_eq, -⟩ := refresh.came child
    rw [pipefd_eq, pipes.pipefd i lt c before]
  opened fd p peer := refresh.opened_of fd (pipes.opened fd p (refresh.peer_of fd p peer))
  ends fd p peer := by
    obtain ⟨i, lt, owner, pipefd_eq⟩ := pipes.ends fd p (refresh.peer_of fd p peer)
    exact ⟨i, refresh.userCount_eq ▸ lt, refresh.entry_eq i lt ▸ owner,
      refresh.entry_eq i lt ▸ pipefd_eq⟩

/-- Different entries have different pipes. -/
theorem Pipes.injective {s : Server} (pipes : Pipes s) (table : Table s) {i j : Nat}
    (iLt : i < s.userCount) (jLt : j < s.userCount)
    (equal : (s.users i).pipefd.1 = (s.users j).pipefd.1) : i = j := by
  have peer := pipes.peer i iLt
  rw [equal, pipes.peer j jLt, Option.some.injEq] at peer
  exact table.toEnrolled.entry_injective iLt jLt peer.symm

/-- The pipe that leads to a child is the child's. -/
theorem Pipes.pipefd_eq {s : Server} (pipes : Pipes s) {fd : Fd} {p : Pid} {c : Child}
    (peer : s.peer fd = some p) (child : s.children p = some c) : c.pipefd = fd := by
  obtain ⟨i, lt, rfl, fd_eq⟩ := pipes.ends fd p peer
  rw [pipes.pipefd i lt c child, fd_eq]

/-- The entry of the child at the other end of a pipe is the one with this pipe. -/
theorem Pipes.owner_iff {s : Server} (pipes : Pipes s) {fd : Fd} {p : Pid} {c : Child}
    (peer : s.peer fd = some p) (child : s.children p = some c) {i : Nat}
    (lt : i < s.userCount) : (s.users i).pid = p ↔ (s.users i).pipefd.1 = fd := by
  constructor
  · intro owner
    rw [← pipes.pipefd i lt c (owner ▸ child), pipes.pipefd_eq peer child]
  · intro fd_eq
    have other := pipes.peer i lt
    rw [fd_eq, peer, Option.some.injEq] at other
    exact other.symm

theorem Pipes.peer_pipefd {s : Server} (pipes : Pipes s) (table : Table s) {p : Pid} {c : Child}
    (child : s.children p = some c) : s.peer c.pipefd = some p := by
  obtain ⟨i, lt, rfl⟩ := table.listed p c child
  rw [pipes.pipefd i lt c child, pipes.peer i lt]

/-- The account of entry `i`, whose client is connected. -/
def Balanced (w : World) (i : Nat) (c : Child) : Prop :=
  w.room.owed (w.server.users i).pid =
    c.sent ++ (c.queue ++ w.server.relayed i).map w.server.shareMem

/-- The invariant of the safe runs. -/
structure Delivery (w : World) : Prop where
  table : Table w.server
  pipes : Pipes w.server
  sizes : ∀ k, (w.server.shareMem k).length = BUFFER_SIZE
  running : ∀ p c, w.room.members p = true → w.server.children p = some c → c.exited = false
  joined : ∀ p, w.room.members p = true → ∃ c, w.server.children p = some c
  own : ∀ p c, w.server.children p = some c → ∀ k ∈ c.toParent, k = c.idx
  quiet : ∀ p c, w.server.children p = some c → c.exited = false → c.Fills → w.Quiet c.idx
  announced : ∀ p, w.room.unread p =
    (w.server.children p).elim [] fun c => c.toParent.map w.server.shareMem
  heard : ∀ p c, w.server.children p = some c → w.server.Hears c
  awake : ∀ p c, w.server.children p = some c → w.room.members p = true → c.Awake
  balanced : ∀ i, i < w.server.userCount → ∀ c, w.server.children (w.server.users i).pid = some c →
    w.room.members (w.server.users i).pid = true → Balanced w i c

theorem Delivery.delivered {w : World} (delivery : Delivery w) : Delivered w where
  announced := delivery.announced
  heard := delivery.heard
  delivered p member := by
    obtain ⟨c, child⟩ := delivery.joined p member
    obtain ⟨i, lt, rfl⟩ := delivery.table.listed p c child
    exact ⟨i, c, lt, rfl, child, delivery.awake _ c child member,
      delivery.balanced i lt c child member⟩

theorem Delivery.initial (users : Nat → ClientData) : Delivery (World.initial users) where
  table := Table.initial users
  pipes := ⟨fun _ lt => absurd lt (Nat.not_lt_zero _), fun _ lt => absurd lt (Nat.not_lt_zero _),
    fun _ _ peer => by contradiction, fun _ _ peer => by contradiction⟩
  sizes _ := List.length_replicate
  running _ _ member := by contradiction
  joined _ member := by contradiction
  own _ _ child := by contradiction
  quiet _ _ child := by contradiction
  announced _ := rfl
  heard _ _ child := by contradiction
  awake _ _ child := by contradiction
  balanced _ lt := absurd lt (Nat.not_lt_zero _)

/-! ## Steps that move indices along -/

/-- What a step may do to the child of entry `i`: it sends some of the indices
that were handed to it, or was handed one that was relayed to it. -/
structure ChildCarries (w v : World) (i : Nat) (c d : Child) : Prop where
  toParent_eq : d.toParent = c.toParent
  hears : w.server.Hears c → v.server.Hears d
  fills : d.Fills → c.Fills ∨ w.Quiet c.idx
  account : v.room.members (w.server.users i).pid = true →
    ∃ done, d.sent = c.sent ++ done.map w.server.shareMem ∧
      done ++ (d.queue ++ v.server.relayed i) = c.queue ++ w.server.relayed i
  awake : v.room.members (w.server.users i).pid = true → c.Awake → d.Awake

/-- Steps that announce nothing, relay nothing new, and overwrite quiet segments
only. -/
structure Carries (w v : World) : Prop where
  refresh : Refresh w.server v.server
  members : ∀ p, v.room.members p = true → w.room.members p = true
  running : ∀ p d, v.room.members p = true → v.server.children p = some d → d.exited = false
  unread_eq : v.room.unread = w.room.unread
  owed_eq : v.room.owed = w.room.owed
  sizes : ∀ k, (v.server.shareMem k).length = BUFFER_SIZE
  memory : ∀ k, v.server.shareMem k = w.server.shareMem k ∨ w.Quiet k
  child : ∀ i c d, i < w.server.userCount → w.server.children (w.server.users i).pid = some c →
    v.server.children (w.server.users i).pid = some d → ChildCarries w v i c d

/-- The child of an entry before and after a step. -/
theorem Carries.came {w v : World} (carries : Carries w v) (delivery : Delivery w) {p : Pid}
    {d : Child} (child : v.server.children p = some d) :
    ∃ i c, i < w.server.userCount ∧ (w.server.users i).pid = p ∧
      w.server.children p = some c ∧ Resumes c d ∧ ChildCarries w v i c d := by
  obtain ⟨c, before, resumes⟩ := carries.refresh.came child
  obtain ⟨i, lt, rfl⟩ := delivery.table.listed p c before
  exact ⟨i, c, lt, rfl, before, resumes, carries.child i c d lt before child⟩

theorem Carries.quiet {w v : World} (carries : Carries w v) {k : Nat} (quiet : w.Quiet k) :
    v.Quiet k := by
  intro i lt d child
  rw [carries.refresh.userCount_eq] at lt
  rw [carries.refresh.entry_eq i lt] at child ⊢
  obtain ⟨c, before, idx_eq, -, -⟩ := carries.refresh.came child
  have step := carries.child i c d lt before child
  obtain ⟨silent, absent⟩ := quiet i lt c before
  refine ⟨fun idx => ?_, fun member pending => ?_⟩
  · rw [step.toParent_eq]
    exact silent (idx_eq ▸ idx)
  · obtain ⟨done, -, pending_eq⟩ := step.account member
    refine absent (carries.members _ member) ?_
    rw [← pending_eq]
    exact List.mem_append_right _ pending

theorem Delivery.carry {w v : World} (delivery : Delivery w) (carries : Carries w v) :
    Delivery v where
  table := delivery.table.refresh carries.refresh
  pipes := delivery.pipes.refresh carries.refresh
  sizes := carries.sizes
  running := carries.running
  joined p member := by
    obtain ⟨c, child⟩ := delivery.joined p (carries.members p member)
    exact carries.refresh.kept child
  own p d child k mem := by
    obtain ⟨i, c, -, -, before, ⟨idx_eq, -⟩, step⟩ := carries.came delivery child
    rw [idx_eq]
    exact delivery.own p c before k (step.toParent_eq ▸ mem)
  quiet p d child runs fills := by
    obtain ⟨i, c, -, -, before, ⟨idx_eq, -, running⟩, step⟩ := carries.came delivery child
    rw [idx_eq]
    exact carries.quiet ((step.fills fills).elim
      (delivery.quiet p c before (running runs)) id)
  announced p := by
    rw [carries.unread_eq, delivery.announced]
    cases child : v.server.children p with
    | none =>
        cases before : w.server.children p with
        | none => rfl
        | some c =>
            obtain ⟨d, after⟩ := carries.refresh.kept before
            rw [child] at after
            contradiction
    | some d =>
        obtain ⟨i, c, lt, rfl, before, -, step⟩ := carries.came delivery child
        rw [before, Option.elim_some, Option.elim_some, step.toParent_eq]
        refine List.map_congr_left fun k mem => ?_
        refine ((carries.memory k).resolve_right fun quiet => ?_).symm
        have none := (quiet i lt c before).1 (delivery.own _ c before k mem).symm
        rw [none] at mem
        contradiction
  heard p d child := by
    obtain ⟨i, c, -, -, before, -, step⟩ := carries.came delivery child
    exact step.hears (delivery.heard p c before)
  awake p d child member := by
    obtain ⟨i, c, -, rfl, before, -, step⟩ := carries.came delivery child
    exact step.awake member (delivery.awake _ c before (carries.members _ member))
  balanced i lt d child member := by
    rw [carries.refresh.userCount_eq] at lt
    rw [carries.refresh.entry_eq i lt] at child member
    obtain ⟨c, before, -⟩ := carries.refresh.came child
    obtain ⟨done, sent_eq, pending_eq⟩ := (carries.child i c d lt before child).account member
    have memberBefore := carries.members _ member
    have account := delivery.balanced i lt c before memberBefore
    have same : (d.queue ++ v.server.relayed i).map v.server.shareMem =
        (d.queue ++ v.server.relayed i).map w.server.shareMem := by
      refine List.map_congr_left fun k mem => ?_
      refine (carries.memory k).resolve_right fun quiet => ?_
      exact (quiet i lt c before).2 memberBefore (pending_eq ▸ List.mem_append_right _ mem)
    unfold Balanced at account ⊢
    rw [carries.owed_eq, carries.refresh.entry_eq i lt, account, sent_eq, same, ← pending_eq]
    simp only [List.map_append, List.append_assoc]

end NetPractice.ShmChat
