import NetPractice.ShmChat.Core
import Mathlib.Tactic.SplitIfs

/-!
# Private segments in the shared-memory chat room

A child works for ever on the segment whose index it was forked with, and the
parent fills the gap of a client that left with the last entry of `users`.
`Private` says that the running children work on different segments, and that
their indices are those of the parent's entries.  A run keeps it exactly as long
as the entry that fills a gap belongs to a child that has exited.
-/

namespace NetPractice.ShmChat

open NetPractice.Socket
open NetPractice.Transition

/-- Running children work on different segments, and each one's index is that of
its client in the parent's array. -/
structure Private (s : Server) : Prop where
  distinct : ∀ p q c d, s.children p = some c → s.children q = some d →
    c.exited = false → d.exited = false → p ≠ q → c.idx ≠ d.idx
  stored : ∀ p c, s.children p = some c → c.exited = false →
    c.idx < s.userCount ∧ (s.users c.idx).pid = p

/-- The parent's entries are those of the children that are not reaped, and
`sub_process` finds them.  Every run keeps this. -/
structure Enrolled (s : Server) : Prop where
  limit : s.userCount ≤ USER_LIMIT
  entry : ∀ i, i < s.userCount → ∃ c, s.children (s.users i).pid = some c
  found : ∀ i, i < s.userCount → s.subProcess (s.users i).pid = i
  listed : ∀ p c, s.children p = some c → ∃ i, i < s.userCount ∧ (s.users i).pid = p

/-- The invariant behind `Private`: the parent's entries are those of the
children that are not reaped, and `sub_process` finds them. -/
structure Table (s : Server) : Prop extends Private s, Enrolled s

/-- When a child is reaped, the child of the last entry, which fills the gap, has
exited. -/
def FillsWithExited (s : Server) : Event → Prop
  | .waitpid (some _) =>
      ∀ c ∈ s.children (s.users (s.userCount - 1)).pid, c.exited = true
  | _ => True

instance (s : Server) : ∀ event, Decidable (FillsWithExited s event)
  | .waitpid (some _) => inferInstanceAs (Decidable (∀ _ ∈ _, _))
  | .waitpid none | .wait _ | .accept _ | .signals _ | .signal | .pipe | .relay _ | .arrive _
  | .child _ _ => isTrue trivial

/-- Entries of the parent's array belong to different children. -/
theorem Enrolled.entry_injective {s : Server} (enrolled : Enrolled s) {i j : Nat}
    (iLt : i < s.userCount) (jLt : j < s.userCount)
    (equal : (s.users i).pid = (s.users j).pid) : i = j := by
  have := enrolled.found i iLt
  rw [equal, enrolled.found j jLt] at this
  omega

/-- The entry of a child that is not reaped. -/
theorem Enrolled.entry_of_child {s : Server} (enrolled : Enrolled s) {pid : Pid} {c : Child}
    (child : s.children pid = some c) :
    ∃ i, i < s.userCount ∧ (s.users i).pid = pid ∧ s.subProcess pid = i := by
  obtain ⟨i, lt, stored⟩ := enrolled.listed pid c child
  exact ⟨i, lt, stored, stored ▸ enrolled.found i lt⟩

/-! ## Steps that leave the table alone -/

/-- The same child, still running if it runs afterwards. -/
def Resumes (c d : Child) : Prop :=
  d.idx = c.idx ∧ d.pipefd = c.pipefd ∧ (d.exited = false → c.exited = false)

theorem Resumes.refl (c : Child) : Resumes c c :=
  ⟨rfl, rfl, id⟩

/-- The parent's entries and open pipes stay, and so do the children and their
indices. -/
structure Refresh (s t : Server) : Prop where
  entry_eq : ∀ i, i < s.userCount → t.users i = s.users i
  userCount_eq : t.userCount = s.userCount
  subProcess_eq : t.subProcess = s.subProcess
  peer_eq : ∀ fd, s.opened fd = true → t.peer fd = s.peer fd
  opened_of : ∀ fd, s.opened fd = true → t.opened fd = true
  peer_of : ∀ fd p, t.peer fd = some p → s.peer fd = some p
  children : ∀ p, Option.Rel Resumes (s.children p) (t.children p)

theorem rel_refl : ∀ child : Option Child, Option.Rel Resumes child child
  | none => .none
  | some c => .some (Resumes.refl c)

/-- The children stay when the record of one of them is updated. -/
theorem rel_update {children : Pid → Option Child} {pid : Pid} {after : Option Child}
    (rel : Option.Rel Resumes (children pid) after) (p : Pid) :
    Option.Rel Resumes (children p) (Function.update children pid after p) := by
  by_cases p_eq : p = pid
  · subst p_eq
    rwa [Function.update_self]
  · rw [Function.update_of_ne p_eq]
    exact rel_refl _

/-- The children when the record of one of them is replaced. -/
theorem child_cases {children : Pid → Option Child} {pid p : Pid} {d e : Child}
    (after : Function.update children pid (some d) p = some e) :
    (p = pid ∧ e = d) ∨ (p ≠ pid ∧ children p = some e) := by
  by_cases p_eq : p = pid
  · rw [p_eq, Function.update_self, Option.some.injEq] at after
    exact Or.inl ⟨p_eq, after.symm⟩
  · rw [Function.update_of_ne p_eq] at after
    exact Or.inr ⟨p_eq, after⟩

theorem rel_map {f : Child → Child} (resumes : ∀ c, Resumes c (f c)) :
    ∀ child : Option Child, Option.Rel Resumes child (child.map f)
  | none => .none
  | some c => .some (resumes c)

/-- Steps that touch neither the parent's entries nor its descriptors. -/
theorem Refresh.of_eq {s t : Server} (users_eq : t.users = s.users)
    (userCount_eq : t.userCount = s.userCount) (subProcess_eq : t.subProcess = s.subProcess)
    (peer_eq : t.peer = s.peer) (opened_eq : t.opened = s.opened)
    (rel : ∀ p, Option.Rel Resumes (s.children p) (t.children p)) : Refresh s t :=
  ⟨fun _ _ => by rw [users_eq], userCount_eq, subProcess_eq, fun _ _ => by rw [peer_eq],
    fun _ isOpen => opened_eq ▸ isOpen, fun _ _ peer => peer_eq ▸ peer, rel⟩

/-- Steps behind which the parent's tables and descriptors are as before. -/
structure Untouched (s t : Server) : Prop where
  users_eq : t.users = s.users
  userCount_eq : t.userCount = s.userCount
  subProcess_eq : t.subProcess = s.subProcess
  peer_eq : t.peer = s.peer
  opened_eq : t.opened = s.opened
  children : ∀ p, Option.Rel Resumes (s.children p) (t.children p)

theorem Untouched.refresh {s t : Server} (untouched : Untouched s t) : Refresh s t :=
  .of_eq untouched.users_eq untouched.userCount_eq untouched.subProcess_eq untouched.peer_eq
    untouched.opened_eq untouched.children

theorem Refresh.kept {s t : Server} (refresh : Refresh s t) {p : Pid} {c : Child}
    (child : s.children p = some c) : ∃ d, t.children p = some d := by
  have rel := refresh.children p
  rw [child] at rel
  cases after : t.children p with
  | none => rw [after] at rel; cases rel
  | some d => exact ⟨d, rfl⟩

theorem Refresh.came {s t : Server} (refresh : Refresh s t) {p : Pid} {d : Child}
    (child : t.children p = some d) : ∃ c, s.children p = some c ∧ Resumes c d := by
  have rel := refresh.children p
  rw [child] at rel
  cases before : s.children p with
  | none => rw [before] at rel; cases rel
  | some c =>
      rw [before] at rel
      cases rel with
      | some resumes => exact ⟨c, rfl, resumes⟩

theorem Enrolled.refresh {s t : Server} (enrolled : Enrolled s) (refresh : Refresh s t) :
    Enrolled t := by
  obtain ⟨entry_eq, userCount_eq, subProcess_eq, -, -, -, -⟩ := id refresh
  refine ⟨userCount_eq ▸ enrolled.limit, ?_, ?_, ?_⟩
  · intro i lt
    rw [userCount_eq] at lt
    obtain ⟨c, child⟩ := enrolled.entry i lt
    rw [entry_eq i lt]
    exact refresh.kept child
  · intro i lt
    rw [userCount_eq] at lt
    rw [entry_eq i lt, subProcess_eq, enrolled.found i lt]
  · intro p d child
    obtain ⟨c, before, -⟩ := refresh.came child
    obtain ⟨i, lt, stored⟩ := enrolled.listed p c before
    exact ⟨i, userCount_eq ▸ lt, entry_eq i lt ▸ stored⟩

theorem Table.refresh {s t : Server} (table : Table s) (refresh : Refresh s t) : Table t := by
  have enrolled := table.toEnrolled.refresh refresh
  refine ⟨⟨?_, ?_⟩, enrolled.limit, enrolled.entry, enrolled.found, enrolled.listed⟩
  · intro p q c d pChild qChild pRuns qRuns different
    obtain ⟨c', pBefore, idx_eq, -, pRunning⟩ := refresh.came pChild
    obtain ⟨d', qBefore, idx_eq', -, qRunning⟩ := refresh.came qChild
    rw [idx_eq, idx_eq']
    exact table.distinct p q c' d' pBefore qBefore (pRunning pRuns) (qRunning qRuns) different
  · intro p c child runs
    obtain ⟨c', before, idx_eq, -, running⟩ := refresh.came child
    obtain ⟨lt, stored⟩ := table.stored p c' before (running runs)
    rw [idx_eq, refresh.userCount_eq, refresh.entry_eq _ lt]
    exact ⟨lt, stored⟩

/-! ## What the steps do to the table -/

namespace Child

/-- Only a running child takes steps, and it keeps its index and its pipe. -/
theorem next_spec {c d : Child} {mem mem' : Memory} {step : ChildStep}
    (taken : c.next mem step = some (d, mem')) :
    c.exited = false ∧ d.idx = c.idx ∧ d.pipefd = c.pipefd := by
  unfold next at taken
  split at taken
  · contradiction
  · rename_i running
    refine ⟨by simpa using running, ?_⟩
    cases step with
    | term =>
        simp only [Option.some.injEq, Prod.mk.injEq] at taken
        obtain ⟨rfl, -⟩ := taken
        exact ⟨rfl, rfl⟩
    | wait batch =>
        simp only [wait, Option.map_eq_some_iff, Option.ite_none_right_eq_some,
          Option.some.injEq, Prod.mk.injEq] at taken
        obtain ⟨_, ⟨-, rfl⟩, rfl, -⟩ := taken
        exact ⟨rfl, rfl⟩
    | clear =>
        simp only [clear] at taken
        split at taken
        · simp only [Option.some.injEq, Prod.mk.injEq] at taken
          obtain ⟨rfl, -⟩ := taken
          exact ⟨rfl, rfl⟩
        · contradiction
    | recv answer =>
        simp only [recv, Option.ite_none_right_eq_some] at taken
        obtain ⟨-, taken⟩ := taken
        cases answer <;>
        · simp only [Option.some.injEq, Prod.mk.injEq] at taken
          obtain ⟨rfl, -⟩ := taken
          exact ⟨rfl, rfl⟩
    | announce sent =>
        simp only [announce, Option.map_eq_some_iff, Option.ite_none_right_eq_some,
          Prod.mk.injEq] at taken
        obtain ⟨_, ⟨-, branch⟩, rfl, -⟩ := taken
        cases sent <;>
        · simp only [Bool.false_eq_true, if_true, if_false, Option.some.injEq] at branch
          subst branch
          exact ⟨rfl, rfl⟩
    | notice closed =>
        simp only [notice, Option.map_eq_some_iff, Prod.mk.injEq] at taken
        obtain ⟨_, branch, rfl, -⟩ := taken
        split at branch
        · split at branch <;>
          · simp only [Option.some.injEq] at branch
            subst branch
            exact ⟨rfl, rfl⟩
        · contradiction
    | send answer =>
        simp only [send, Option.map_eq_some_iff, Prod.mk.injEq] at taken
        obtain ⟨_, branch, rfl, -⟩ := taken
        split at branch
        · cases answer <;>
          · simp only [Option.some.injEq] at branch
            subst branch
            exact ⟨rfl, rfl⟩
        · contradiction
    | exit =>
        simp only [exit, Option.map_eq_some_iff, Option.ite_none_right_eq_some,
          Option.some.injEq, Prod.mk.injEq] at taken
        obtain ⟨_, ⟨-, rfl⟩, rfl, -⟩ := taken
        exact ⟨rfl, rfl⟩

end Child

namespace Server

/-- The event creates a child. -/
def Forks (s : Server) : Event → Prop
  | .accept (some answer) => s.userCount < USER_LIMIT ∧ answer.pid.isSome
  | _ => False

instance (s : Server) : ∀ event, Decidable (s.Forks event)
  | .accept (some _) => inferInstanceAs (Decidable (_ ∧ _))
  | .accept none | .wait _ | .signals _ | .signal | .waitpid _ | .pipe | .relay _ | .arrive _
  | .child _ _ => isFalse id

/-- A client that is let in gets the entry behind the last one. -/
structure LetIn (s t : Server) (answer : Accepted) (pid : Pid) : Prop where
  below : s.userCount < USER_LIMIT
  userCount_eq : t.userCount = s.userCount + 1
  entry_eq : ∀ i, i < s.userCount → t.users i = s.users i
  last_eq : t.users s.userCount = ⟨answer.connfd, pid, answer.pipefd⟩
  subProcess_eq : t.subProcess = Function.update s.subProcess pid s.userCount
  children_eq : t.children =
    Function.update s.children pid (some (Child.start s.userCount answer.pipefd.1))
  peer_eq : t.peer = Function.update (Function.update
    (Function.update s.peer answer.pipefd.1 (some pid)) answer.connfd none) answer.pipefd.2 none
  opened_eq : t.opened = Function.update (Function.update (Function.update
    (Function.update (Function.update s.opened answer.connfd true) answer.pipefd.1 true)
    answer.pipefd.2 true) answer.connfd false) answer.pipefd.2 false
  task_eq : t.task = s.task
  batch_eq : t.batch = s.batch
  shareMem_eq : t.shareMem = s.shareMem

/-- A refused client, a failing `accept` and a failing `fork` leave the entries of
the connected clients, the children and their pipes alone. -/
structure Refused (s t : Server) : Prop where
  entry_eq : ∀ i, i < s.userCount → t.users i = s.users i
  userCount_eq : t.userCount = s.userCount
  subProcess_eq : t.subProcess = s.subProcess
  peer_eq : ∀ fd, s.opened fd = true → t.peer fd = s.peer fd
  opened_of : ∀ fd, s.opened fd = true → t.opened fd = true
  peer_of : ∀ fd p, t.peer fd = some p → s.peer fd = some p
  children_eq : t.children = s.children
  task_eq : t.task = s.task
  batch_eq : t.batch = s.batch
  shareMem_eq : t.shareMem = s.shareMem

theorem Refused.refresh {s t : Server} (refused : Refused s t) : Refresh s t where
  entry_eq := refused.entry_eq
  userCount_eq := refused.userCount_eq
  subProcess_eq := refused.subProcess_eq
  peer_eq := refused.peer_eq
  opened_of := refused.opened_of
  peer_of := refused.peer_of
  children := fun _ => refused.children_eq ▸ rel_refl _

/-- What `accept` and the calls behind it do. -/
theorem onAccept_spec {s : Server} {answer : Option Accepted}
    (fresh : ∀ accepted ∈ answer, s.Fresh accepted) :
    (∃ accepted pid, answer = some accepted ∧ accepted.pid = some pid ∧
      LetIn s (s.onAccept answer) accepted pid) ∨
    ((∀ accepted ∈ answer, accepted.pid = none ∨ USER_LIMIT ≤ s.userCount) ∧
      Refused s (s.onAccept answer)) := by
  cases answer with
  | none =>
      exact Or.inr ⟨by simp, fun _ _ => rfl, rfl, rfl, fun _ _ => rfl, fun _ => id,
        fun _ _ => id, rfl, rfl, rfl, rfl⟩
  | some accepted =>
      obtain ⟨connClosed, leftClosed, rightClosed, left_ne, right_ne, ends_ne, -⟩ :=
        fresh accepted rfl
      have open_ne : ∀ fd fd', s.opened fd = true → s.opened fd' = false → fd ≠ fd' := by
        rintro fd fd' isOpen isClosed rfl
        rw [isOpen] at isClosed
        contradiction
      by_cases full : s.userCount ≥ USER_LIMIT
      · refine Or.inr ⟨fun a _ => Or.inr full, ?_⟩
        have result : s.onAccept (some accepted) =
            (s.openFd accepted.connfd).close accepted.connfd := if_pos full
        rw [result]
        refine ⟨fun _ _ => rfl, rfl, rfl, fun fd isOpen => ?_, fun fd isOpen => ?_,
          fun fd pid peer => ?_, rfl, rfl, rfl, rfl⟩
        · exact Function.update_of_ne (open_ne fd _ isOpen connClosed) _ _
        · simp only [close, openFd, Function.update_of_ne (open_ne fd _ isOpen connClosed), isOpen]
        · simp only [close, openFd, Function.update_apply] at peer
          split_ifs at peer
          exact peer
      · cases forked : accepted.pid with
        | none =>
            refine Or.inr ⟨fun a mem => Or.inl ?_, ?_⟩
            · obtain rfl : accepted = a := Option.some.inj mem
              exact forked
            have result : s.onAccept (some accepted) = ({ (((s.openFd accepted.connfd).openFd
                accepted.pipefd.1).openFd accepted.pipefd.2) with
                  users := Function.update s.users s.userCount
                    { s.users s.userCount with
                      connfd := accepted.connfd, pipefd := accepted.pipefd } } : Server).close
                accepted.connfd := by
              simp only [onAccept, openFd, if_neg full, forked]
            rw [result]
            refine ⟨fun i lt => ?_, rfl, rfl, fun fd isOpen => ?_, fun fd isOpen => ?_,
              fun fd pid peer => ?_, rfl, rfl, rfl, rfl⟩
            · exact Function.update_of_ne (Nat.ne_of_lt lt) _ _
            · exact Function.update_of_ne (open_ne fd _ isOpen connClosed) _ _
            · simp only [close, openFd, Function.update_of_ne (open_ne fd _ isOpen connClosed),
                Function.update_of_ne (open_ne fd _ isOpen leftClosed),
                Function.update_of_ne (open_ne fd _ isOpen rightClosed), isOpen]
            · simp only [close, openFd, Function.update_apply] at peer
              split_ifs at peer
              exact peer
        | some pid =>
            refine Or.inl ⟨accepted, pid, rfl, forked, ?_⟩
            have result : s.onAccept (some accepted) = ((({ (((s.openFd accepted.connfd).openFd
                accepted.pipefd.1).openFd accepted.pipefd.2) with
                  users := Function.update s.users s.userCount
                    { s.users s.userCount with
                      connfd := accepted.connfd, pipefd := accepted.pipefd } } : Server).fork
                pid accepted.pipefd).close accepted.connfd).close accepted.pipefd.2 := by
              simp only [onAccept, openFd, if_neg full, forked]
            rw [result]
            refine ⟨by omega, rfl, fun i lt => ?_, ?_, rfl, rfl, rfl, rfl, rfl, rfl, rfl⟩
            · simp only [close, fork, openFd, Function.update_of_ne (Nat.ne_of_lt lt)]
            · simp only [close, fork, openFd, Function.update_self]

/-- Reaping the child of entry `i` moves the last entry there. -/
structure Reaped (s t : Server) (pid : Pid) (i : Nat) : Prop where
  userCount_eq : t.userCount = s.userCount - 1
  users_eq : t.users = Function.update s.users i (s.users (s.userCount - 1))
  subProcess_eq : t.subProcess = Function.update (Function.update s.subProcess pid (-1))
    (s.users (s.userCount - 1)).pid i
  children_eq : t.children = Function.update s.children pid none
  peer_eq : t.peer = Function.update s.peer (s.users i).pipefd.1 none
  opened_eq : t.opened = Function.update s.opened (s.users i).pipefd.1 false
  task_eq : t.task = s.task
  batch_eq : t.batch = s.batch
  shareMem_eq : t.shareMem = s.shareMem

theorem reap_spec {s : Server} {pid : Pid} {i : Nat} (found : s.subProcess pid = i)
    (inside : i ≤ USER_LIMIT) : Reaped s (s.reap pid) pid i := by
  have valid : ¬ ((i : Int) < 0 ∨ (i : Int) > USER_LIMIT) := by omega
  unfold reap
  simp only [found, if_neg valid, Int.toNat_natCast]
  refine ⟨rfl, rfl, ?_, rfl, rfl, rfl, rfl, rfl, rfl⟩
  simp only [close, Function.update_self]

end Server

/-! ## Every step keeps the entries -/

theorem Enrolled.initial (users : Nat → ClientData) : Enrolled (Server.initial users) where
  limit := Nat.zero_le _
  entry _ lt := absurd lt (Nat.not_lt_zero _)
  found _ lt := absurd lt (Nat.not_lt_zero _)
  listed _ _ child := by contradiction

/-- The children behind `fork`: the new one, and those that were there. -/
theorem Server.LetIn.childCases {s t : Server} {answer : Accepted} {pid : Pid}
    (letIn : s.LetIn t answer pid) {p : Pid} {c : Child} (child : t.children p = some c) :
    (p = pid ∧ c = Child.start s.userCount answer.pipefd.1) ∨
      (p ≠ pid ∧ s.children p = some c) := by
  rw [letIn.children_eq] at child
  exact child_cases child

/-- A new process has no entry yet. -/
theorem Enrolled.other_of_fresh {s : Server} (enrolled : Enrolled s) {pid : Pid}
    (fresh : s.children pid = none) {i : Nat} (lt : i < s.userCount) :
    (s.users i).pid ≠ pid := by
  rintro rfl
  obtain ⟨c, child⟩ := enrolled.entry i lt
  rw [fresh] at child
  contradiction

theorem Enrolled.letIn {s t : Server} (enrolled : Enrolled s) {answer : Accepted} {pid : Pid}
    (letIn : s.LetIn t answer pid) (fresh : s.children pid = none) : Enrolled t := by
  refine ⟨?_, ?_, ?_, ?_⟩
  · rw [letIn.userCount_eq]
    exact letIn.below
  · intro i lt
    rw [letIn.userCount_eq] at lt
    rw [letIn.children_eq]
    rcases Nat.lt_succ_iff_lt_or_eq.mp lt with lt | rfl
    · rw [letIn.entry_eq i lt, Function.update_of_ne (enrolled.other_of_fresh fresh lt)]
      exact enrolled.entry i lt
    · rw [letIn.last_eq, Function.update_self]
      exact ⟨_, rfl⟩
  · intro i lt
    rw [letIn.userCount_eq] at lt
    rw [letIn.subProcess_eq]
    rcases Nat.lt_succ_iff_lt_or_eq.mp lt with lt | rfl
    · rw [letIn.entry_eq i lt, Function.update_of_ne (enrolled.other_of_fresh fresh lt),
        enrolled.found i lt]
    · rw [letIn.last_eq, Function.update_self]
  · intro p c child
    rw [letIn.userCount_eq]
    rcases letIn.childCases child with ⟨rfl, -⟩ | ⟨-, before⟩
    · exact ⟨s.userCount, Nat.lt_succ_self _, by rw [letIn.last_eq]⟩
    · obtain ⟨i, lt, isStored⟩ := enrolled.listed p c before
      exact ⟨i, Nat.lt_succ_of_lt lt, letIn.entry_eq i lt ▸ isStored⟩

namespace Server.Reaped

variable {s t : Server} {pid : Pid} {i : Nat} (reaped : s.Reaped t pid i)

include reaped

theorem filled : t.users i = s.users (s.userCount - 1) := by
  rw [reaped.users_eq, Function.update_self]

theorem kept {j : Nat} (notGap : j ≠ i) : t.users j = s.users j := by
  rw [reaped.users_eq, Function.update_of_ne notGap]

theorem survivor {p : Pid} {c : Child} (child : t.children p = some c) :
    p ≠ pid ∧ s.children p = some c := by
  rw [reaped.children_eq] at child
  by_cases p_eq : p = pid
  · subst p_eq
    rw [Function.update_self] at child
    contradiction
  · rw [Function.update_of_ne p_eq] at child
    exact ⟨p_eq, child⟩

end Server.Reaped

/-- The last entry fills the gap. -/
theorem Enrolled.reaped {s t : Server} (enrolled : Enrolled s) {pid : Pid} {i : Nat}
    (lt : i < s.userCount) (owner : (s.users i).pid = pid) (reaped : s.Reaped t pid i) :
    Enrolled t := by
  have other : ∀ j, j < s.userCount → j ≠ i → (s.users j).pid ≠ pid := by
    intro j jLt j_ne equal
    exact j_ne (enrolled.entry_injective jLt lt (equal.trans owner.symm))
  refine ⟨?_, ?_, ?_, ?_⟩
  · rw [reaped.userCount_eq]
    exact (Nat.sub_le _ _).trans enrolled.limit
  · intro j jLt
    rw [reaped.userCount_eq] at jLt
    rw [reaped.children_eq]
    by_cases gap : j = i
    · subst gap
      rw [reaped.filled, Function.update_of_ne (other _ (by omega) (by omega))]
      exact enrolled.entry _ (by omega)
    · rw [reaped.kept gap, Function.update_of_ne (other j (by omega) gap)]
      exact enrolled.entry j (by omega)
  · intro j jLt
    rw [reaped.userCount_eq] at jLt
    rw [reaped.subProcess_eq]
    by_cases gap : j = i
    · rw [gap, reaped.filled, Function.update_self]
    · have notLast : (s.users j).pid ≠ (s.users (s.userCount - 1)).pid := fun equal => by
        have := enrolled.entry_injective (by omega) (by omega) equal
        omega
      rw [reaped.kept gap, Function.update_of_ne notLast,
        Function.update_of_ne (other j (by omega) gap), enrolled.found j (by omega)]
  · intro p c child
    obtain ⟨p_ne, before⟩ := reaped.survivor child
    obtain ⟨j, jLt, isStored⟩ := enrolled.listed p c before
    have notGap : j ≠ i := by
      rintro rfl
      exact p_ne (isStored.symm.trans owner)
    rw [reaped.userCount_eq]
    by_cases last : j = s.userCount - 1
    · exact ⟨i, by omega, by rw [reaped.filled, ← last, isStored]⟩
    · exact ⟨j, by omega, by rw [reaped.kept notGap, isStored]⟩

/-! ## Every step keeps the table -/

theorem Table.initial (users : Nat → ClientData) : Table (Server.initial users) where
  distinct _ _ _ _ child := by contradiction
  stored _ _ child := by contradiction
  limit := (Enrolled.initial users).limit
  entry := (Enrolled.initial users).entry
  found := (Enrolled.initial users).found
  listed := (Enrolled.initial users).listed

theorem Table.refused {s t : Server} (table : Table s) (refused : s.Refused t) : Table t :=
  table.refresh refused.refresh

/-- A new child works on the segment behind those of the others. -/
theorem Table.letIn {s t : Server} (table : Table s) {answer : Accepted} {pid : Pid}
    (letIn : s.LetIn t answer pid) (fresh : s.children pid = none) : Table t := by
  have enrolled := table.toEnrolled.letIn letIn fresh
  have stored : ∀ p c, t.children p = some c → c.exited = false →
      c.idx < t.userCount ∧ (t.users c.idx).pid = p := by
    intro p c child runs
    rw [letIn.userCount_eq]
    rcases letIn.childCases child with ⟨rfl, rfl⟩ | ⟨-, before⟩
    · change _ < _ ∧ (t.users s.userCount).pid = p
      rw [letIn.last_eq]
      exact ⟨Nat.lt_succ_self _, rfl⟩
    · obtain ⟨lt, isStored⟩ := table.stored p c before runs
      exact ⟨Nat.lt_succ_of_lt lt, letIn.entry_eq _ lt ▸ isStored⟩
  refine ⟨⟨fun p q c d pChild qChild pRuns qRuns different equal => ?_, stored⟩,
    enrolled.limit, enrolled.entry, enrolled.found, enrolled.listed⟩
  have pStored := (stored p c pChild pRuns).2
  rw [equal, (stored q d qChild qRuns).2] at pStored
  exact different pStored.symm

/-- When the child of the entry that fills the gap has exited, no running child
loses its index. -/
theorem Table.reaped {s t : Server} (table : Table s) {pid : Pid} {i : Nat}
    (lt : i < s.userCount) (owner : (s.users i).pid = pid) (reaped : s.Reaped t pid i)
    (filler : ∀ c ∈ s.children (s.users (s.userCount - 1)).pid, c.exited = true) :
    Table t := by
  have enrolled := table.toEnrolled.reaped lt owner reaped
  have stored : ∀ p c, t.children p = some c → c.exited = false →
      c.idx < t.userCount ∧ (t.users c.idx).pid = p := by
    intro p c child runs
    obtain ⟨p_ne, before⟩ := reaped.survivor child
    obtain ⟨idxLt, isStored⟩ := table.stored p c before runs
    have notLast : c.idx ≠ s.userCount - 1 := by
      intro last
      rw [last] at isStored
      have := filler c (isStored ▸ before)
      rw [runs] at this
      contradiction
    have notGap : c.idx ≠ i := by
      intro gap
      exact p_ne (isStored.symm.trans (gap ▸ owner))
    rw [reaped.userCount_eq, reaped.kept notGap]
    exact ⟨by omega, isStored⟩
  refine ⟨⟨fun p q c d pChild qChild pRuns qRuns different equal => ?_, stored⟩,
    enrolled.limit, enrolled.entry, enrolled.found, enrolled.listed⟩
  have pStored := (stored p c pChild pRuns).2
  rw [equal, (stored q d qChild qRuns).2] at pStored
  exact different pStored.symm

namespace Server

theorem onSignal_untouched (s : Server) (rest : List Signal) (signal : Signal) :
    Untouched s (s.onSignal rest signal) := by
  cases signal with
  | chld | other => exact ⟨rfl, rfl, rfl, rfl, rfl, fun _ => rel_refl _⟩
  | term | int =>
      simp only [onSignal]
      split <;> exact ⟨rfl, rfl, rfl, rfl, rfl, fun _ => rel_refl _⟩

/-- A child whose pipe is read keeps its entry. -/
theorem onPipe_untouched (s : Server) (batch : List Source) (sockfd : Fd) :
    Untouched s ({ s with batch := batch }.onPipe sockfd) := by
  simp only [onPipe]
  split
  · exact ⟨rfl, rfl, rfl, rfl, rfl, fun _ => rel_refl _⟩
  · split
    · exact ⟨rfl, rfl, rfl, rfl, rfl, fun _ => rel_refl _⟩
    · rename_i pid _ _ c child
      split
      · exact ⟨rfl, rfl, rfl, rfl, rfl, fun _ => rel_refl _⟩
      · exact ⟨rfl, rfl, rfl, rfl, rfl, rel_update (child ▸ .some ⟨rfl, rfl, id⟩)⟩

/-- So does one that is notified. -/
theorem relay_untouched (s : Server) (sockfd : Fd) (child j : Nat) (sent : Bool) :
    Untouched s (s.relay sockfd child j sent) := by
  simp only [relay]
  split
  · exact ⟨rfl, rfl, rfl, rfl, rfl, fun _ => rel_refl _⟩
  · split
    · split
      · refine ⟨rfl, rfl, rfl, rfl, rfl, rel_update (rel_map ?_ _)⟩
        exact fun _ => ⟨rfl, rfl, id⟩
      · exact ⟨rfl, rfl, rfl, rfl, rfl, fun _ => rel_refl _⟩
    · exact ⟨rfl, rfl, rfl, rfl, rfl, fun _ => rel_refl _⟩

/-- Every step but a new client and a reaped child leaves the tables alone. -/
theorem next_untouched {s t : Server} {event : Event} (step : s.next event = some t)
    (notAccept : ∀ answer, event ≠ .accept answer)
    (notReap : ∀ pid, event ≠ .waitpid (some pid)) : Untouched s t := by
  cases event with
  | wait batch =>
      simp only [next, Option.ite_none_right_eq_some, Option.some.injEq] at step
      obtain ⟨-, rfl⟩ := step
      refine ⟨rfl, rfl, rfl, rfl, rfl, fun p => ?_⟩
      change Option.Rel Resumes _ (Option.map _ _)
      refine rel_map ?_ _
      exact fun _ => ⟨rfl, rfl, id⟩
  | accept answer => exact absurd rfl (notAccept answer)
  | signals received =>
      simp only [next] at step
      split at step
      · obtain rfl := Option.some.inj step
        exact ⟨rfl, rfl, rfl, rfl, rfl, fun _ => rel_refl _⟩
      · contradiction
  | signal =>
      simp only [next] at step
      split at step
      · obtain rfl := Option.some.inj step
        exact ⟨rfl, rfl, rfl, rfl, rfl, fun _ => rel_refl _⟩
      · obtain rfl := Option.some.inj step
        exact onSignal_untouched s _ _
      · contradiction
  | waitpid pid =>
      cases pid with
      | some pid => exact absurd rfl (notReap pid)
      | none =>
          simp only [next] at step
          split at step
          · obtain rfl := Option.some.inj step
            exact ⟨rfl, rfl, rfl, rfl, rfl, fun _ => rel_refl _⟩
          · contradiction
  | pipe =>
      simp only [next] at step
      split at step
      · obtain rfl := Option.some.inj step
        exact onPipe_untouched s _ _
      · contradiction
  | relay sent =>
      simp only [next] at step
      split at step
      · split at step
        · obtain rfl := Option.some.inj step
          exact relay_untouched s _ _ _ sent
        · obtain rfl := Option.some.inj step
          exact ⟨rfl, rfl, rfl, rfl, rfl, fun _ => rel_refl _⟩
      · contradiction
  | arrive pid =>
      simp only [next, Option.map_eq_some_iff] at step
      obtain ⟨c, child, rfl⟩ := step
      exact ⟨rfl, rfl, rfl, rfl, rfl, rel_update (child ▸ .some ⟨rfl, rfl, id⟩)⟩
  | child pid step' =>
      simp only [next, Option.bind_eq_some_iff, Option.map_eq_some_iff] at step
      obtain ⟨c, child, ⟨d, mem⟩, taken, rfl⟩ := step
      obtain ⟨running, idx_eq, pipefd_eq⟩ := Child.next_spec taken
      exact ⟨rfl, rfl, rfl, rfl, rfl,
        rel_update (child ▸ .some ⟨idx_eq, pipefd_eq, fun _ => running⟩)⟩

theorem next_refresh {s t : Server} {event : Event} (step : s.next event = some t)
    (notAccept : ∀ answer, event ≠ .accept answer)
    (notReap : ∀ pid, event ≠ .waitpid (some pid)) : Refresh s t :=
  (next_untouched step notAccept notReap).refresh

/-- A step that accepts. -/
theorem next_accept {s t : Server} {answer : Option Accepted}
    (step : s.next (.accept answer) = some t) :
    ∃ batch, s.task = .loop ∧ s.batch = .listen :: batch ∧
      (∀ accepted ∈ answer, s.Fresh accepted) ∧ t = { s with batch := batch }.onAccept answer := by
  simp only [next] at step
  split at step
  · rename_i batch task_eq batch_eq
    simp only [Option.ite_none_right_eq_some, Option.some.injEq] at step
    exact ⟨batch, task_eq, batch_eq, step.1, step.2.symm⟩
  · contradiction

/-- A step that reaps. -/
theorem next_reap {s t : Server} {pid : Pid} (step : s.next (.waitpid (some pid)) = some t) :
    ∃ rest c, s.task = .reaping rest ∧ s.children pid = some c ∧ c.exited = true ∧
      t = s.reap pid := by
  simp only [next] at step
  split at step
  · rename_i rest task_eq
    simp only [Option.ite_none_right_eq_some, Option.some.injEq] at step
    obtain ⟨⟨c, child, exited⟩, rfl⟩ := step
    exact ⟨rest, c, task_eq, child, exited, rfl⟩
  · contradiction

end Server

theorem Server.Fresh.unborn {s : Server} {accepted : Accepted} (fresh : s.Fresh accepted)
    {pid : Pid} (forked : accepted.pid = some pid) : s.children pid = none :=
  fresh.2.2.2.2.2.2 pid forked

/-- What a step does to the tables: it lets a client in, turns one away, reaps a child, or
leaves them alone.  An `accept` takes the event of the listening socket from the batch. -/
theorem Enrolled.next_cases {s t : Server} (enrolled : Enrolled s) {event : Event}
    (step : s.next event = some t) :
    (∃ accepted pid batch, event = .accept (some accepted) ∧ accepted.pid = some pid ∧
      s.Fresh accepted ∧ Server.LetIn { s with batch := batch } t accepted pid) ∨
    (∃ answer batch, event = .accept answer ∧ ¬ s.Forks event ∧
      (∀ accepted ∈ answer, s.Fresh accepted) ∧ t = { s with batch := batch }.onAccept answer ∧
      Server.Refused { s with batch := batch } t) ∨
    (∃ pid i, event = .waitpid (some pid) ∧ i < s.userCount ∧ (s.users i).pid = pid ∧
      s.Reaped t pid i) ∨
    (∀ answer, event ≠ .accept answer) ∧ (∀ pid, event ≠ .waitpid (some pid)) ∧
      Untouched s t := by
  by_cases accepts : ∃ answer, event = .accept answer
  · rcases accepts with ⟨answer, rfl⟩
    rcases Server.next_accept step with ⟨batch, -, -, fresh, rfl⟩
    rcases Server.onAccept_spec (s := { s with batch := batch }) fresh with
      ⟨accepted, pid, rfl, forked, letIn⟩ | ⟨noChild, refused⟩
    · exact Or.inl ⟨accepted, pid, batch, rfl, forked, fresh accepted rfl, letIn⟩
    · refine Or.inr (Or.inl ⟨answer, batch, rfl, ?_, fresh, rfl, refused⟩)
      cases answer with
      | none => exact id
      | some accepted =>
          rintro ⟨below, forked⟩
          rcases noChild accepted rfl with none | full
          · rw [none] at forked
            contradiction
          · exact Nat.not_le.mpr below full
  right
  right
  by_cases reaps : ∃ pid, event = .waitpid (some pid)
  · rcases reaps with ⟨pid, rfl⟩
    rcases Server.next_reap step with ⟨-, c, -, child, -, rfl⟩
    rcases enrolled.entry_of_child child with ⟨i, below, owner, found⟩
    have limit := enrolled.limit
    exact Or.inl ⟨pid, i, rfl, below, owner, Server.reap_spec found (by omega)⟩
  · have notAccept := not_exists.mp accepts
    have notReap := not_exists.mp reaps
    exact Or.inr ⟨notAccept, notReap, Server.next_untouched step notAccept notReap⟩

/-- Every step keeps the entries. -/
theorem Enrolled.next {s t : Server} (enrolled : Enrolled s) {event : Event}
    (step : s.next event = some t) : Enrolled t := by
  have start : ∀ batch, Enrolled { s with batch := batch } := fun _ => { enrolled with }
  rcases enrolled.next_cases step with ⟨accepted, pid, batch, -, forked, fresh, letIn⟩ |
    ⟨-, batch, -, -, -, -, refused⟩ | ⟨pid, i, -, below, owner, reaped⟩ | ⟨-, -, untouched⟩
  · exact (start batch).letIn letIn (fresh.unborn forked)
  · exact (start batch).refresh refused.refresh
  · exact enrolled.reaped below owner reaped
  · exact enrolled.refresh untouched.refresh

theorem Table.next {s t : Server} (table : Table s) {event : Event}
    (guard : FillsWithExited s event) (step : s.next event = some t) : Table t := by
  have start : ∀ batch, Table { s with batch := batch } := fun _ => { table with }
  rcases table.toEnrolled.next_cases step with ⟨accepted, pid, batch, -, forked, fresh, letIn⟩ |
    ⟨-, batch, -, -, -, -, refused⟩ | ⟨pid, i, rfl, below, owner, reaped⟩ | ⟨-, -, untouched⟩
  · exact (start batch).letIn letIn (fresh.unborn forked)
  · exact (start batch).refused refused
  · exact table.reaped below owner reaped guard
  · exact table.refresh untouched.refresh

theorem table_preserved : Preserves Server.next FillsWithExited Table :=
  fun _ _ _ table guard step => table.next guard step

/-- A running child whose entry fills the gap has another index than its
entry. -/
theorem Table.unprivate_reap {s t : Server} (table : Table s) {event : Event}
    (unguarded : ¬ FillsWithExited s event) (step : s.next event = some t) : ¬ Private t := by
  by_cases reaps : ∃ pid, event = .waitpid (some pid)
  · obtain ⟨pid, rfl⟩ := reaps
    obtain ⟨-, c, -, child, exited, rfl⟩ := Server.next_reap step
    obtain ⟨i, lt, owner, found⟩ := table.toEnrolled.entry_of_child child
    have limit := table.limit
    have reaped := Server.reap_spec found (by omega)
    obtain ⟨d, last, running⟩ : ∃ d, s.children (s.users (s.userCount - 1)).pid = some d ∧
        d.exited = false := by
      simpa [FillsWithExited] using unguarded
    have different : (s.users (s.userCount - 1)).pid ≠ pid := by
      rintro rfl
      rw [child, Option.some.injEq] at last
      rw [← last, exited] at running
      contradiction
    obtain ⟨idxLt, isStored⟩ := table.stored _ d last running
    have idx_eq := table.toEnrolled.entry_injective idxLt (by omega) isStored
    intro privateAfter
    have after := (privateAfter.stored _ d (by
      rw [reaped.children_eq, Function.update_of_ne different, last]) running).1
    rw [reaped.userCount_eq, idx_eq] at after
    omega
  · exact absurd (by
      cases event with
      | waitpid pid =>
          cases pid with
          | none => trivial
          | some pid => exact absurd ⟨pid, rfl⟩ reaps
      | _ => trivial) unguarded

/-- In every run, the running children work on different segments, those of
their entries, exactly as long as the entry that fills a gap is that of a child
that has exited. -/
theorem private_along_iff_fillsWithExited (users : Nat → ClientData) (events : List Event)
    (possible : (run Server.next (Server.initial users) events).isSome) :
    Along Server.next Private (Server.initial users) events ↔
      Meets Server.next FillsWithExited (Server.initial users) events :=
  along_iff_meets_of_isSome table_preserved (fun _ table => table.toPrivate)
    (fun _ _ _ table unguarded step => table.unprivate_reap unguarded step)
    (Table.initial users) possible

/-! ## Two clients, one of which leaves -/

/-- The entries of `users` before they are used. -/
def noUsers : Nat → ClientData :=
  fun _ => ⟨-1, 0, (-1, -1)⟩

/-- A client is let in. -/
def joinRound (pid : Pid) (connfd left right : Fd) : List Event :=
  [.wait [.listen], .accept (some ⟨connfd, (left, right), some pid⟩)]

/-- The client of a child closes its connection, and the child is reaped. -/
def leaveRound (pid : Pid) : List Event :=
  [.arrive pid, .child pid (.wait [.conn]), .child pid .clear, .child pid (.recv .eof),
    .child pid .exit, .wait [.signal], .signals (some [.chld]), .signal, .waitpid (some pid),
    .waitpid none, .signal]

/-- Clients 100 and 101 join, one of them leaves, and client 102 joins. -/
def replaceRun (leaver : Pid) : List Event :=
  joinRound 100 7 8 9 ++ joinRound 101 7 9 10 ++ leaveRound leaver ++ joinRound 102 7 10 11

/-- The newest client leaves, and the segments stay private. -/
theorem private_along_replaceRun_last :
    Along Server.next Private (Server.initial noUsers) (replaceRun 101) :=
  (private_along_iff_fillsWithExited noUsers (replaceRun 101) (by decide)).mpr (by decide)

/-- The older client leaves: the one that stays and the new one share the
segment with index 1. -/
theorem replaceRun_first_shared :
    (run Server.next (Server.initial noUsers) (replaceRun 100)).map (fun s =>
        ((s.children 101).map fun c => (c.idx, c.exited),
          (s.children 102).map fun c => (c.idx, c.exited))) =
      some (some (1, false), some (1, false)) ∧
    ¬ Along Server.next Private (Server.initial noUsers) (replaceRun 100) := by
  have outcome : (run Server.next (Server.initial noUsers) (replaceRun 100)).map (fun s =>
      ((s.children 101).map fun c => (c.idx, c.exited),
        (s.children 102).map fun c => (c.idx, c.exited))) =
      some (some (1, false), some (1, false)) := by
    decide
  refine ⟨outcome, fun along => ?_⟩
  obtain ⟨s, finished, values⟩ := Option.map_eq_some_iff.mp outcome
  simp only [Prod.mk.injEq, Option.map_eq_some_iff] at values
  obtain ⟨⟨c, first, cIdx, cRuns⟩, d, second, dIdx, dRuns⟩ := values
  exact (along.last finished).distinct 101 102 c d first second cRuns dRuns (by decide)
    (cIdx.trans dIdx.symm)

end NetPractice.ShmChat
