import NetPractice.ShmChat.Ledger

/-!
# The steps of a child and the ledger

A child changes its own entry of the ledger only: it takes an index from its
pipe, sends the segment of the index, receives into its own segment, and
announces it when nobody has the index any more.
-/

namespace NetPractice.ShmChat

open NetPractice.Socket
open NetPractice.Transition

/-! ## The steps of a child -/

/-- A step that leaves a child and the parent alone. -/
theorem ChildCarries.refl {w v : World} (i : Nat) (c : Child)
    (relayed_eq : v.server.relayed i = w.server.relayed i)
    (hears : w.server.Hears c → v.server.Hears c) : ChildCarries w v i c c where
  toParent_eq := rfl
  hears := hears
  fills := Or.inl
  account _ := ⟨[], by simp, by simp [relayed_eq]⟩
  awake _ := id

/-- The record of one child and the shared memory are all that a child's step
touches. -/
theorem Carries.ofChild {w : World} {pid : Pid} {c d : Child} {mem : Memory} {room : Room}
    (delivery : Delivery w) (child : w.server.children pid = some c) (resumes : Resumes c d)
    (members : ∀ p, room.members p = true → w.room.members p = true)
    (running : room.members pid = true → d.exited = false)
    (unread_eq : room.unread = w.room.unread) (owed_eq : room.owed = w.room.owed)
    (sizes : ∀ k, (mem k).length = BUFFER_SIZE)
    (memory : ∀ k, mem k = w.server.shareMem k ∨ w.Quiet k)
    (toParent_eq : d.toParent = c.toParent)
    (parentReady : c.parentReady = true → d.parentReady = true)
    (fills : d.Fills → c.Fills ∨ w.Quiet c.idx)
    (account : room.members pid = true → ∃ done, d.sent = c.sent ++ done.map w.server.shareMem ∧
      done ++ d.queue = c.queue)
    (awake : room.members pid = true → c.Awake → d.Awake) :
    Carries w ⟨{ w.server with
      children := Function.update w.server.children pid (some d), shareMem := mem }, room⟩ where
  refresh := .of_eq rfl rfl rfl rfl rfl (rel_update (child ▸ .some resumes))
  members := members
  running p e member after := by
    by_cases p_eq : p = pid
    · subst p_eq
      simp only [Function.update_self, Option.some.injEq] at after
      exact after ▸ running member
    · simp only [Function.update_of_ne p_eq] at after
      exact delivery.running p e (members p member) after
  unread_eq := unread_eq
  owed_eq := owed_eq
  sizes := sizes
  memory := memory
  child i e f lt before after := by
    by_cases p_eq : (w.server.users i).pid = pid
    · rw [p_eq, child, Option.some.injEq] at before
      simp only [p_eq, Function.update_self, Option.some.injEq] at after
      subst before after
      refine ⟨toParent_eq, fun hears => ?_, fills, fun member => ?_, fun member => ?_⟩
      · unfold Server.Hears at hears ⊢
        rw [toParent_eq, resumes.2.1]
        have ready : c.parentReady.toNat ≤ d.parentReady.toNat := by
          cases ready : c.parentReady
          · exact Nat.zero_le _
          · rw [parentReady ready]
        exact hears.trans (Nat.add_le_add_right ready _)
      · obtain ⟨done, sent_eq, queue_eq⟩ := account (p_eq ▸ member)
        exact ⟨done, sent_eq, by rw [← List.append_assoc, queue_eq]; rfl⟩
      · exact awake (p_eq ▸ member)
    · simp only [Function.update_of_ne p_eq] at after
      rw [before, Option.some.injEq] at after
      subst after
      exact .refl i e rfl id

theorem length_overlaid {bytes : List Text.Byte} {segment : Segment}
    (fits : bytes.length ≤ segment.length) :
    (overlaid bytes segment).length = segment.length := by
  rw [overlaid, List.length_append, List.length_drop]
  omega

/-- Overwriting a quiet segment. -/
theorem memory_update {w : World} {k : Nat} (quiet : w.Quiet k) (segment : Segment) (j : Nat) :
    Function.update w.server.shareMem k segment j = w.server.shareMem j ∨ w.Quiet j := by
  by_cases j_eq : j = k
  · exact Or.inr (j_eq ▸ quiet)
  · exact Or.inl (Function.update_of_ne j_eq _ _)

theorem sizes_update {mem : Memory} (sizes : ∀ k, (mem k).length = BUFFER_SIZE) {segment : Segment}
    (size : segment.length = BUFFER_SIZE) (k j : Nat) :
    (Function.update mem k segment j).length = BUFFER_SIZE := by
  by_cases j_eq : j = k
  · rw [j_eq, Function.update_self, size]
  · rw [Function.update_of_ne j_eq, sizes]

theorem not_members_leave (room : Room) (pid : Pid) :
    (room.next (.leave pid)).members pid ≠ true := by
  simp [Room.next]

theorem members_leave {room : Room} {pid p : Pid}
    (member : (room.next (.leave pid)).members p = true) : room.members p = true := by
  by_cases p_eq : p = pid
  · exact absurd (p_eq ▸ member) (not_members_leave room pid)
  · simpa [Room.next, Function.update_of_ne p_eq] using member

/-- A step that sends nothing and leaves the memory and the room alone. -/
theorem Carries.resume {w : World} {pid : Pid} {c d : Child} (delivery : Delivery w)
    (child : w.server.children pid = some c) (resumes : Resumes c d) (runs : d.exited = false)
    (toParent_eq : d.toParent = c.toParent)
    (parentReady : c.parentReady = true → d.parentReady = true)
    (fills : d.Fills → c.Fills ∨ w.Quiet c.idx)
    (sent_eq : d.sent = c.sent) (queue_eq : d.queue = c.queue) (awake : c.Awake → d.Awake) :
    Carries w ⟨{ w.server with
      children := Function.update w.server.children pid (some d) }, w.room⟩ :=
  .ofChild delivery child resumes (fun _ => id) (fun _ => runs) rfl rfl delivery.sizes
    (fun _ => Or.inl rfl) toParent_eq parentReady fills
    (fun _ => ⟨[], by simp [sent_eq], by simp [queue_eq]⟩) fun _ => awake

/-- A step that overwrites the child's own segment, which is quiet. -/
theorem Carries.overwrite {w : World} {pid : Pid} {c d : Child} {segment : Segment}
    (delivery : Delivery w) (child : w.server.children pid = some c) (resumes : Resumes c d)
    (runs : d.exited = false) (quiet : w.Quiet c.idx) (size : segment.length = BUFFER_SIZE)
    (toParent_eq : d.toParent = c.toParent)
    (parentReady : c.parentReady = true → d.parentReady = true)
    (sent_eq : d.sent = c.sent) (queue_eq : d.queue = c.queue) (awake : c.Awake → d.Awake) :
    Carries w ⟨{ w.server with
      children := Function.update w.server.children pid (some d)
      shareMem := Function.update w.server.shareMem c.idx segment }, w.room⟩ :=
  .ofChild delivery child resumes (fun _ => id) (fun _ => runs) rfl rfl
    (sizes_update delivery.sizes size _) (memory_update quiet _) toParent_eq parentReady
    (fun _ => Or.inr quiet) (fun _ => ⟨[], by simp [sent_eq], by simp [queue_eq]⟩) fun _ => awake

/-- A step with which the child's client leaves the room: it is owed nothing more. -/
theorem Carries.leave {w : World} {pid : Pid} {c d : Child} (delivery : Delivery w)
    (child : w.server.children pid = some c) (resumes : Resumes c d)
    (toParent_eq : d.toParent = c.toParent)
    (parentReady : c.parentReady = true → d.parentReady = true)
    (fills : d.Fills → c.Fills ∨ w.Quiet c.idx) :
    Carries w ⟨{ w.server with
      children := Function.update w.server.children pid (some d) }, w.room.next (.leave pid)⟩ :=
  .ofChild delivery child resumes (fun _ => members_leave)
    (fun member => absurd member (not_members_leave _ _)) rfl rfl delivery.sizes
    (fun _ => Or.inl rfl) toParent_eq parentReady fills
    (fun member => absurd member (not_members_leave _ _))
    fun member => absurd member (not_members_leave _ _)

section ChildSteps

variable {w : World} {pid : Pid} {c d : Child}

theorem Carries.childWait {batch : List ChildSource} (delivery : Delivery w)
    (child : w.server.children pid = some c) (resumes : Resumes c d) (runs : c.exited = false)
    (taken : c.wait batch = some d) :
    Carries w ⟨{ w.server with
      children := Function.update w.server.children pid (some d) }, w.room⟩ := by
  simp only [Child.wait, Option.ite_none_right_eq_some, Option.some.injEq] at taken
  obtain ⟨⟨-, empty, -⟩, rfl⟩ := taken
  refine .resume delivery child resumes runs rfl id Or.inl rfl rfl fun awake => ?_
  simp only [Child.Awake, empty, List.count_nil] at awake ⊢
  by_cases handed : .pipe ∈ batch
  · have := List.count_pos_iff.mpr handed
    have := Bool.toNat_le c.pipeReady
    omega
  · simpa [handed] using awake.trans (Nat.le_add_right _ _)

theorem Carries.childClear {mem : Memory} (delivery : Delivery w)
    (child : w.server.children pid = some c) (resumes : Resumes c d) (runs : c.exited = false)
    (quiet : w.Quiet c.idx) (taken : c.clear w.server.shareMem = some (d, mem)) :
    Carries w ⟨{ w.server with
      children := Function.update w.server.children pid (some d), shareMem := mem },
      w.room⟩ := by
  simp only [Child.clear] at taken
  split at taken
  · rename_i batch doing_eq batch_eq
    simp only [Option.some.injEq, Prod.mk.injEq] at taken
    obtain ⟨rfl, rfl⟩ := taken
    refine .overwrite delivery child resumes runs quiet List.length_replicate rfl id
      rfl (by simp [Child.queue, doing_eq]) fun awake => ?_
    simpa [Child.Awake, batch_eq] using awake
  · contradiction

theorem Carries.childRecv {mem : Memory} {answer : Recv} (delivery : Delivery w)
    (child : w.server.children pid = some c) (resumes : Resumes c d) (runs : c.exited = false)
    (taken : c.recv w.server.shareMem answer = some (d, mem)) :
    Carries w ⟨{ w.server with
      children := Function.update w.server.children pid (some d), shareMem := mem },
      w.room.next (c.observe w.server.shareMem pid (.recv answer))⟩ := by
  simp only [Child.recv, Option.ite_none_right_eq_some] at taken
  obtain ⟨⟨doing_eq, fits⟩, taken⟩ := taken
  have quiet := delivery.quiet pid c child runs (Or.inl doing_eq)
  cases answer with
  | data bytes =>
      simp only [Option.some.injEq, Prod.mk.injEq] at taken
      obtain ⟨rfl, rfl⟩ := taken
      have size := delivery.sizes c.idx
      have short : bytes.length ≤ (w.server.shareMem c.idx).length := by
        have atMost := (fits bytes rfl).2
        omega
      exact .overwrite delivery child resumes runs quiet ((length_overlaid short).trans size) rfl
        id rfl (by simp [Child.queue, doing_eq]) id
  | again =>
      simp only [Option.some.injEq, Prod.mk.injEq] at taken
      obtain ⟨rfl, rfl⟩ := taken
      exact .resume delivery child resumes runs rfl id (fun _ => Or.inr quiet) rfl
        (by simp [Child.queue, doing_eq]) id
  | eof | fail =>
      simp only [Option.some.injEq, Prod.mk.injEq] at taken
      obtain ⟨rfl, rfl⟩ := taken
      exact .leave delivery child resumes rfl id fun _ => Or.inr quiet

theorem Carries.childNotice {closed : Bool} (delivery : Delivery w)
    (child : w.server.children pid = some c) (resumes : Resumes c d) (runs : c.exited = false)
    (taken : c.notice closed = some d) :
    Carries w ⟨{ w.server with
      children := Function.update w.server.children pid (some d) }, w.room⟩ := by
  simp only [Child.notice] at taken
  split at taken
  · rename_i batch doing_eq batch_eq
    split at taken
    · rename_i empty
      simp only [Option.some.injEq] at taken
      subst taken
      refine .resume delivery child resumes runs rfl id Or.inl rfl
        (by simp [Child.queue, doing_eq]) fun _ => ?_
      simp [Child.Awake, empty]
    · rename_i client toChild toChild_eq
      simp only [Option.some.injEq] at taken
      subst taken
      refine .resume delivery child resumes runs rfl id (fun fills => ?_) rfl
        (by simp [Child.queue, doing_eq, toChild_eq]) fun awake => ?_
      · rcases fills with fills | fills <;> contradiction
      · simp only [Child.Awake, batch_eq, toChild_eq, List.length_cons,
          List.count_cons_self] at awake ⊢
        omega
  · contradiction

theorem Carries.childSend {answer : Send} (delivery : Delivery w)
    (child : w.server.children pid = some c) (resumes : Resumes c d) (runs : c.exited = false)
    (safe : DeliverySafe w (.child pid (.send answer)))
    (taken : c.send w.server.shareMem answer = some d) :
    Carries w ⟨{ w.server with
      children := Function.update w.server.children pid (some d) },
      w.room.next (c.observe w.server.shareMem pid (.send answer))⟩ := by
  simp only [Child.send] at taken
  split at taken
  · rename_i client doing_eq
    cases answer with
    | taken count =>
        -- the only step that sends: a member's socket takes the whole segment
        simp only [Option.some.injEq] at taken
        subst taken
        refine .ofChild delivery child resumes (fun _ => id) (fun _ => runs) rfl rfl
          delivery.sizes (fun _ => Or.inl rfl) rfl id (fun fills => ?_)
          (fun member => ⟨[client], ?_, by simp [Child.queue, doing_eq]⟩) fun _ => id
        · rcases fills with fills | fills <;> contradiction
        · have whole : BUFFER_SIZE ≤ count := safe member
          rw [List.take_of_length_le ((delivery.sizes client).le.trans whole)]
          rfl
    | again =>
        simp only [Option.some.injEq] at taken
        subst taken
        refine .ofChild delivery child resumes (fun _ => id) (fun _ => runs) rfl rfl
          delivery.sizes (fun _ => Or.inl rfl) rfl id (fun fills => ?_)
          (fun member => (safe member).elim) fun _ => id
        rcases fills with fills | fills <;> contradiction
    | gone =>
        simp only [Option.some.injEq] at taken
        subst taken
        refine .leave delivery child resumes rfl id fun fills => ?_
        rcases fills with fills | fills <;> contradiction
  · contradiction

/-- A child's step other than an announcement moves indices along. -/
theorem Delivery.carries_child {mem : Memory} {step : ChildStep} (delivery : Delivery w)
    (child : w.server.children pid = some c)
    (safe : DeliverySafe w (.child pid step)) (notAnnounce : step ≠ .announce true)
    (taken : c.next w.server.shareMem step = some (d, mem)) :
    Carries w ⟨{ w.server with
      children := Function.update w.server.children pid (some d), shareMem := mem },
      w.room.next (c.observe w.server.shareMem pid step)⟩ := by
  obtain ⟨runs, idx_eq, pipefd_eq⟩ := Child.next_spec taken
  have resumes : Resumes c d := ⟨idx_eq, pipefd_eq, fun _ => runs⟩
  simp only [Child.next, runs, Bool.false_eq_true, if_false] at taken
  cases step with
  | term =>
      simp only [Option.some.injEq, Prod.mk.injEq] at taken
      obtain ⟨rfl, rfl⟩ := taken
      exact .resume delivery child resumes runs rfl id Or.inl rfl rfl id
  | wait batch =>
      simp only [Option.map_eq_some_iff, Prod.mk.injEq] at taken
      obtain ⟨_, branch, rfl, rfl⟩ := taken
      exact .childWait delivery child resumes runs branch
  | clear => exact .childClear delivery child resumes runs (safe c child) taken
  | recv answer => exact .childRecv delivery child resumes runs taken
  | announce sent =>
      cases sent with
      | true => exact absurd rfl notAnnounce
      | false =>
          simp only [Child.announce, Option.map_eq_some_iff, Option.ite_none_right_eq_some,
            Bool.false_eq_true, if_false, Option.some.injEq, Prod.mk.injEq] at taken
          obtain ⟨_, ⟨doing_eq, rfl⟩, rfl, rfl⟩ := taken
          exact .resume delivery child resumes runs rfl id (fun _ => Or.inl (Or.inr doing_eq)) rfl
            (by simp [Child.queue, doing_eq]) id
  | notice closed =>
      simp only [Option.map_eq_some_iff, Prod.mk.injEq] at taken
      obtain ⟨_, branch, rfl, rfl⟩ := taken
      exact .childNotice delivery child resumes runs branch
  | send answer =>
      simp only [Option.map_eq_some_iff, Prod.mk.injEq] at taken
      obtain ⟨_, branch, rfl, rfl⟩ := taken
      exact .childSend delivery child resumes runs safe branch
  | exit =>
      simp only [Child.exit, Option.map_eq_some_iff, Option.ite_none_right_eq_some,
        Option.some.injEq, Prod.mk.injEq] at taken
      obtain ⟨_, ⟨⟨doing_eq, -⟩, rfl⟩, rfl, rfl⟩ := taken
      exact .leave delivery child resumes rfl (fun _ => rfl) Or.inl

end ChildSteps

/-- An announcement enters the pipe to the parent with the content of the
segment. -/
theorem Delivery.announce {w : World} (delivery : Delivery w) {pid : Pid} {c : Child}
    (child : w.server.children pid = some c) (runs : c.exited = false)
    (doing_eq : c.doing = .announcing) :
    Delivery ⟨{ w.server with
      children := Function.update w.server.children pid (some { c with
        doing := .loop, toParent := c.toParent ++ [c.idx], parentReady := true }) },
      w.room.next (.announce pid (w.server.shareMem c.idx))⟩ := by
  set d : Child := { c with
    doing := .loop, toParent := c.toParent ++ [c.idx], parentReady := true } with d_eq
  have quiet := delivery.quiet pid c child runs (Or.inr doing_eq)
  have queue_eq : d.queue = c.queue := by
    simp [Child.queue, doing_eq, d_eq]
  obtain ⟨i₀, lt₀, owner₀⟩ := delivery.table.listed pid c child
  have silent : c.toParent = [] := (quiet i₀ lt₀ c (owner₀.symm ▸ child)).1 rfl
  have refresh : Refresh w.server { w.server with
      children := Function.update w.server.children pid (some d) } :=
    .of_eq rfl rfl rfl rfl rfl (rel_update (child ▸ .some ⟨rfl, rfl, fun _ => runs⟩))
  refine
    { table := delivery.table.refresh refresh
      pipes := delivery.pipes.refresh refresh
      sizes := delivery.sizes
      running := fun p e member after => ?_
      joined := fun p member => ?_
      own := fun p e after k mem => ?_
      quiet := fun p e after eRuns fills i lt f present => ?_
      announced := fun p => ?_
      heard := fun p e after => ?_
      awake := fun p e after member => ?_
      balanced := fun i lt e after member => ?_ }
  · rcases child_cases after with ⟨rfl, rfl⟩ | ⟨-, before⟩
    · exact runs
    · exact delivery.running p e member before
  · obtain ⟨e, before⟩ := delivery.joined p member
    exact refresh.kept before
  · rcases child_cases after with ⟨rfl, rfl⟩ | ⟨-, before⟩
    · rcases List.mem_append.mp mem with mem | mem
      · exact delivery.own p c child k mem
      · exact List.mem_singleton.mp mem
    · exact delivery.own p e before k mem
  · -- another child that fills its segment has another index than the announcing one
    rcases child_cases after with ⟨rfl, rfl⟩ | ⟨p_ne, before⟩
    · rcases fills with fills | fills <;> contradiction
    · have idx_ne : c.idx ≠ e.idx :=
        delivery.table.distinct pid p c e child before runs eRuns (Ne.symm p_ne)
      have quietBefore := delivery.quiet p e before eRuns fills i lt
      rcases child_cases present with ⟨pid_eq, rfl⟩ | ⟨-, presentBefore⟩
      · obtain ⟨-, absent⟩ := quietBefore c (pid_eq ▸ child)
        exact ⟨fun idx => absurd idx idx_ne, fun member => queue_eq ▸ absent member⟩
      · exact quietBefore f presentBefore
  · by_cases p_eq : p = pid
    · subst p_eq
      simp [Room.next, delivery.announced p, child, d_eq]
    · simp [Room.next, Function.update_of_ne p_eq, delivery.announced p]
  · rcases child_cases after with ⟨rfl, rfl⟩ | ⟨-, before⟩
    · simp [Server.Hears, d_eq, silent]
    · exact delivery.heard p e before
  · rcases child_cases after with ⟨rfl, rfl⟩ | ⟨-, before⟩
    · exact delivery.awake p c child member
    · exact delivery.awake p e before member
  · rcases child_cases after with ⟨pid_eq, rfl⟩ | ⟨-, before⟩
    · have account := delivery.balanced i lt c (pid_eq ▸ child) member
      unfold Balanced at account ⊢
      rw [queue_eq]
      exact account
    · exact delivery.balanced i lt e before member

end NetPractice.ShmChat
