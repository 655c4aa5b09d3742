import NetPractice.Http.Places

/-!
# Ownership of connections

Every open connection is in exactly one place as long as no request is appended
to a full queue.  A refused request leaves its connection without a place.
-/

namespace NetPractice.Http

open NetPractice.Text
open NetPractice.Socket
open NetPractice.Transition

namespace Server

/-- Each open connection is in exactly one place, closed ones are in none, and
each queued request is known to the semaphore, to a woken worker, or to the main
thread. -/
structure Owned (s : Server) : Prop where
  sockfd : ∀ fd, s.opened fd = true → (s.users fd).sockfd = fd ∧ fd ≠ -1
  place : ∀ fd, s.opened fd = true → ∃ place, s.places fd = [place]
  closed : ∀ fd, s.opened fd = false → s.places fd = []
  posted : s.workqueue.length = s.posts

/-- A received request finds room in the queue. -/
def QueueRoom (s : Server) : ServerEvent → Prop
  | .read answers => s.receives answers = true → s.workqueue.length ≤ s.maxRequests
  | _ => True

instance (s : Server) : ∀ event, Decidable (s.QueueRoom event)
  | .read _ => inferInstanceAs (Decidable (_ → _))
  | .wait _ | .accept _ | .hangup | .post | .write _ | .wake _ | .take _ | .process _ _ | .arm _ =>
      isTrue trivial

section Life

variable {s t : Server} {fd : Fd}

/-! ## The invariant -/

theorem Life.places_length {event : ServerEvent} (placed : Placed s) (life : Life s event t fd) :
    (t.places fd).length ≤ 1 := by
  cases life with
  | same _ _ places _ => exact places ▸ placed.single fd
  | moved _ _ _ after _ | accepted _ _ _ _ after _ | hungUp _ _ _ _ after _
  | received _ _ _ _ after _ | refused _ _ _ _ _ _ _ after _ | readFailed _ _ _ _ after _
  | waits _ _ _ _ _ _ after _ | answered _ _ _ _ _ _ _ _ after _ | written _ _ _ _ _ _ _ _ after _
  | writeClosed _ _ _ _ _ _ _ after _ =>
      rw [after]
      simp

theorem Life.opened {event : ServerEvent} (placed : Placed s) (life : Life s event t fd)
    (somewhere : t.places fd ≠ []) : t.opened fd = true := by
  cases life with
  | same opened _ places _ =>
      rw [opened]
      exact placed.opened fd (places ▸ somewhere)
  | moved opened _ before _ _ _ | received opened before _ _ _ _ | waits _ _ opened before _ _ _ _
  | answered _ _ opened before _ _ _ _ _ _ | written _ _ opened before _ _ _ _ _ _ =>
      rw [opened]
      exact placed.opened fd (by rw [before]; simp)
  | accepted _ opened _ _ _ _ => exact opened
  | hungUp _ _ _ _ after _ | refused _ _ _ _ _ _ _ after _ | readFailed _ _ _ _ after _
  | writeClosed _ _ _ _ _ _ _ after _ => exact absurd after somewhere

theorem Life.sockfd {event : ServerEvent} (placed : Placed s) (life : Life s event t fd)
    (isOpen : t.opened fd = true) : (t.users fd).sockfd = fd ∧ 0 ≤ fd := by
  cases life with
  | same opened user _ _ | moved opened user _ _ _ _ =>
      rw [user]
      exact placed.sockfd fd (opened ▸ isOpen)
  | accepted _ _ nonneg user _ _ =>
      rw [user]
      exact ⟨rfl, nonneg⟩
  | hungUp _ _ closed _ _ _ | readFailed closed _ _ _ _ _ | writeClosed _ _ closed _ _ _ _ _ _ =>
      rw [closed] at isOpen
      cases isOpen
  | received opened _ read user _ _ | refused _ _ _ opened _ read user _ _ =>
      rw [user, HttpConn.read_frame read]
      exact placed.sockfd fd (opened ▸ isOpen)
  | @waits _ fs c _ _ opened _ parsed user _ _ =>
      have kept := ((s.users fd).processRead_parsed fs).sockfd
      rw [parsed] at kept
      rw [user, kept]
      exact placed.sockfd fd (opened ▸ isOpen)
  | @answered _ fs code c d _ _ opened _ parsed _ filled user _ _ =>
      have kept := ((s.users fd).processRead_parsed fs).sockfd
      have frame := (c.processWrite_filled code).frame
      rw [parsed] at kept
      rw [filled] at frame
      change d = _ at frame
      rw [user, frame]
      change c.sockfd = fd ∧ 0 ≤ fd
      rw [kept]
      exact placed.sockfd fd (opened ▸ isOpen)
  | written _ _ opened _ write _ _ user _ _ =>
      rw [user, (HttpConn.write_keeps write).1]
      exact placed.sockfd fd (opened ▸ isOpen)

/-- In front of a request, nothing has been written. -/
theorem Life.empty {event : ServerEvent} (placed : Placed s) (life : Life s event t fd)
    {place : Place} (mem : place ∈ t.places fd) (input : place.event = some .epollin) :
    (t.users fd).writeBuf = [] := by
  cases life with
  | same _ user places _ =>
      rw [user]
      exact placed.empty fd place (places ▸ mem) input
  | moved _ user before after awaited _ =>
      rw [after, List.mem_singleton] at mem
      subst mem
      rw [user]
      exact placed.empty fd _ (by rw [before]; simp) (awaited _ input)
  | accepted _ _ _ user _ _ =>
      rw [user]
      rfl
  | hungUp _ _ _ _ after _ | refused _ _ _ _ _ _ _ after _ | readFailed _ _ _ _ after _
  | writeClosed _ _ _ _ _ _ _ after _ =>
      rw [after] at mem
      cases mem
  | received _ before read user _ _ =>
      rw [user, HttpConn.read_frame read]
      exact placed.empty fd (.batch (some .epollin)) (by rw [before]; simp) rfl
  | @waits _ fs c _ _ _ before parsed user _ _ =>
      have kept := ((s.users fd).processRead_parsed fs).writeBuf
      rw [parsed] at kept
      rw [user, kept]
      exact placed.empty fd (.worker .epollin) (by rw [before]; simp) rfl
  | answered _ _ _ _ _ _ _ _ after _ =>
      rw [after, List.mem_singleton] at mem
      subst mem
      cases input
  | written _ _ _ _ write result interest_eq user after _ =>
      rw [after, List.mem_singleton] at mem
      subst mem
      obtain rfl := Option.some.inj input
      rw [user]
      exact HttpConn.write_empty write result interest_eq

/-! ## Posts of the semaphore -/

theorem count_setWorker {worker : Nat} {old : Worker} (new : Worker)
    (running : s.workers[worker]? = some old) :
    (s.setWorker worker new).workers.count .woken + (if old = .woken then 1 else 0) =
      s.workers.count .woken + if new = .woken then 1 else 0 := by
  obtain ⟨lt, old_eq⟩ := List.getElem?_eq_some_iff.mp running
  change (s.workers.set worker new).count .woken + _ = _
  rw [List.count_set lt, old_eq]
  by_cases woken : old = .woken
  · have pos : 0 < s.workers.count .woken :=
      List.count_pos_iff.mpr (woken ▸ old_eq ▸ List.getElem_mem lt)
    simp only [woken, beq_self_eq_true, if_true, beq_iff_eq]
    omega
  · simp [woken]

/-- The queue and the semaphore are untouched. -/
structure Quiet (s t : Server) : Prop where
  workqueue : t.workqueue = s.workqueue
  queuestat : t.queuestat = s.queuestat
  workers : t.workers = s.workers
  posting : t.posting = s.posting

theorem Quiet.trans {s t u : Server} (first : Quiet s t) (second : Quiet t u) : Quiet s u :=
  ⟨second.workqueue.trans first.workqueue, second.queuestat.trans first.queuestat,
    second.workers.trans first.workers, second.posting.trans first.posting⟩

theorem Quiet.posted (quiet : Quiet s t) (posted : s.workqueue.length = s.posts) :
    t.workqueue.length = t.posts := by
  unfold posts at posted ⊢
  rw [quiet.workqueue, quiet.queuestat, quiet.workers, quiet.posting]
  exact posted

theorem Quiet.setWorker_posted {worker : Nat} {old new : Worker} (quiet : Quiet s t)
    (running : s.workers[worker]? = some old) (oldNot : old ≠ .woken) (newNot : new ≠ .woken)
    (posted : s.workqueue.length = s.posts) :
    (t.setWorker worker new).workqueue.length = (t.setWorker worker new).posts := by
  have same := quiet.posted posted
  have count := count_setWorker new (quiet.workers ▸ running)
  rw [if_neg oldNot, if_neg newNot] at count
  unfold posts at same ⊢
  change t.workqueue.length = t.queuestat + _ + if t.posting then 1 else 0
  omega

theorem closeConn_quiet (s : Server) (request : Fd) : Quiet s (s.closeConn request) := by
  unfold closeConn
  dsimp only
  split <;> exact ⟨rfl, rfl, rfl, rfl⟩

theorem rearm_quiet (s : Server) (fd : Fd) (event : Option EpollEvent) :
    Quiet s (s.rearm fd event) := by
  cases event with
  | none => exact ⟨rfl, rfl, rfl, rfl⟩
  | some event =>
      unfold rearm modfd
      dsimp only
      split <;> exact ⟨rfl, rfl, rfl, rfl⟩

theorem accept_quiet {connfd : Fd} (step : s.accept connfd = some t) : Quiet s t := by
  rcases accept_spec step with ⟨rfl, -⟩ | ⟨-, -, -, -, rfl⟩ <;> exact ⟨rfl, rfl, rfl, rfl⟩

theorem writeUser_quiet {request : Fd} {answers : List Send}
    (step : s.writeUser request answers = some t) : Quiet s t := by
  obtain ⟨written, -, rfl⟩ := Option.map_eq_some_iff.mp step
  have recorded :
      Quiet s ((s.setUser request written.conn).recordUnmap request written.munmap) := by
    rw [recordUnmap_frame]
    exact ⟨rfl, rfl, rfl, rfl⟩
  have rearmed := recorded.trans (rearm_quiet _ written.conn.sockfd written.interest)
  dsimp only
  split
  · exact rearmed
  · exact rearmed.trans (closeConn_quiet _ _)

theorem readUser_posted {request : Fd} {answers : List Recv} (idle : s.posting = false)
    (posted : s.workqueue.length = s.posts) (step : s.readUser request answers = some t) :
    t.workqueue.length = t.posts := by
  obtain ⟨⟨more, c⟩, -, rfl⟩ := Option.map_eq_some_iff.mp step
  cases more with
  | true =>
      change ((s.setUser request c).append request).workqueue.length =
        ((s.setUser request c).append request).posts
      unfold append
      split
      · exact posted
      · unfold posts at posted ⊢
        rw [idle] at posted
        change (s.workqueue ++ [request]).length = s.queuestat + s.workers.count .woken + 1
        rw [List.length_append, List.length_singleton, posted]
        rfl
  | false => exact (closeConn_quiet (s.setUser request c) request).posted posted

theorem takeRequest_posted {worker : Nat} (posted : s.workqueue.length = s.posts)
    (running : s.workers[worker]? = some .woken) :
    (s.takeRequest worker).workqueue.length = (s.takeRequest worker).posts := by
  have woken : 0 < s.workers.count .woken :=
    List.count_pos_iff.mpr (List.mem_of_getElem? running)
  unfold takeRequest
  split
  · rename_i queue
    unfold posts at posted
    rw [queue, List.length_nil] at posted
    omega
  · rename_i request workqueue queue
    have count := count_setWorker (s := { s with workqueue := workqueue })
      (.holding request) running
    simp only [reduceCtorEq, if_false, if_true, Nat.add_zero] at count
    unfold posts at posted ⊢
    rw [queue, List.length_cons] at posted
    change workqueue.length = s.queuestat + _ + if s.posting then 1 else 0
    change _ = s.workers.count .woken at count
    omega

theorem processUser_posted {worker : Nat} {request : Fd} (fs : FileSystem)
    (running : s.workers[worker]? = some (.holding request))
    (posted : s.workqueue.length = s.posts) :
    (s.processUser worker request fs).workqueue.length =
      (s.processUser worker request fs).posts := by
  have moves {q : Server} (quiet : Quiet s q) (event : EpollEvent) :
      (q.setWorker worker (.arming request event)).workqueue.length =
        (q.setWorker worker (.arming request event)).posts :=
    quiet.setWorker_posted running (by simp) (by simp) posted
  unfold processUser
  cases (s.users request).processRead fs with
  | mk code c =>
      have recorded : Quiet s (s.recordMap request code c) := by
        rw [recordMap_frame]
        exact ⟨rfl, rfl, rfl, rfl⟩
      have stored (d : HttpConn) : Quiet s ((s.recordMap request code c).setUser request d) :=
        recorded.trans ⟨rfl, rfl, rfl, rfl⟩
      dsimp only
      split
      · exact moves (stored c) _
      · split
        · exact moves (stored _) _
        · exact moves ((stored _).trans (closeConn_quiet _ _)) _

/-- The semaphore counts the queued requests, up to the threads that are on their
way. -/
theorem next_posted {event : ServerEvent} (posted : s.workqueue.length = s.posts)
    (step : s.next event = some t) : t.workqueue.length = t.posts := by
  cases event with
  | wait batch =>
      simp only [next, Option.ite_none_right_eq_some, Option.some.injEq] at step
      obtain ⟨-, rfl⟩ := step
      exact posted
  | accept connfd =>
      simp only [next] at step
      split at step
      · exact (accept_quiet (Option.ite_none_left_eq_some.mp step).2).posted posted
      · contradiction
  | hangup =>
      simp only [next] at step
      split at step
      · simp only [Option.ite_none_left_eq_some, Option.some.injEq] at step
        obtain ⟨-, rfl⟩ := step
        exact (closeConn_quiet _ _).posted posted
      · contradiction
  | read answers =>
      simp only [next] at step
      split at step
      · obtain ⟨idle, step⟩ := Option.ite_none_left_eq_some.mp step
        exact readUser_posted (by simpa using idle) (posted : _ = { s with batch := _ }.posts) step
      · contradiction
  | post =>
      simp only [next, Option.ite_none_right_eq_some, Option.some.injEq] at step
      obtain ⟨posting, rfl⟩ := step
      unfold posts at posted ⊢
      rw [posting] at posted
      simp only [if_true, Bool.false_eq_true, if_false] at posted ⊢
      omega
  | write answers =>
      simp only [next] at step
      split at step
      · exact (writeUser_quiet (Option.ite_none_left_eq_some.mp step).2).posted posted
      · contradiction
  | wake worker =>
      simp only [next, Option.ite_none_right_eq_some, Option.some.injEq] at step
      obtain ⟨⟨running, positive⟩, rfl⟩ := step
      have count := count_setWorker (s := { s with queuestat := s.queuestat - 1 })
        .woken running
      simp only [reduceCtorEq, if_false, if_true, Nat.add_zero] at count
      unfold posts at posted ⊢
      rw [count]
      change s.workqueue.length =
        s.queuestat - 1 + (s.workers.count .woken + 1) + if s.posting then 1 else 0
      omega
  | take worker =>
      simp only [next, Option.ite_none_right_eq_some, Option.some.injEq] at step
      obtain ⟨running, rfl⟩ := step
      exact takeRequest_posted posted running
  | process worker fs =>
      simp only [next] at step
      split at step
      · rename_i request running
        obtain rfl := Option.some.inj step
        exact processUser_posted fs running posted
      · contradiction
  | arm worker =>
      simp only [next] at step
      split at step
      · rename_i request interest running
        obtain rfl := Option.some.inj step
        exact (rearm_quiet s _ (some interest)).setWorker_posted running (by simp) (by simp) posted
      · contradiction

/-- No step leaves the invariant. -/
theorem next_placed {event : ServerEvent} (placed : Placed s) (step : s.next event = some t) :
    Placed t where
  single fd := (next_life placed step fd).places_length placed
  opened fd := (next_life placed step fd).opened placed
  sockfd fd := (next_life placed step fd).sockfd placed
  empty fd _ mem := (next_life placed step fd).empty placed mem
  posted := next_posted placed.posted step

theorem start_placed (users : Fd → HttpConn) (threadNumber maxRequests : Nat) :
    Placed (start users threadNumber maxRequests) := by
  have vacant : ∀ fd, (start users threadNumber maxRequests).places fd = [] := by
    intro fd
    refine places_eq_nil_iff.mpr ⟨rfl, rfl, rfl, List.filterMap_eq_nil_iff.mpr ?_⟩
    intro worker mem
    rw [List.eq_of_mem_replicate mem]
    rfl
  exact {
    single := fun fd => by simp [vacant fd]
    opened := fun fd placesSome => absurd (vacant fd) placesSome
    sockfd := fun fd isOpen => by cases isOpen
    empty := fun fd place mem => by simp [vacant fd] at mem
    posted := by simp [start, posts, List.count_replicate] }

/-! ## One owner -/

/-- Each connection has one place, as long as no request is refused. -/
structure Sound (s : Server) : Prop extends Placed s where
  somewhere : ∀ fd, s.opened fd = true → s.places fd ≠ []

theorem Life.somewhere {event : ServerEvent} (sound : Sound s) (room : s.QueueRoom event)
    (life : Life s event t fd) (isOpen : t.opened fd = true) : t.places fd ≠ [] := by
  cases life with
  | same opened _ places _ =>
      rw [places]
      exact sound.somewhere fd (opened ▸ isOpen)
  | moved _ _ _ after _ | accepted _ _ _ _ after _ | received _ _ _ _ after _
  | waits _ _ _ _ _ _ after _ | answered _ _ _ _ _ _ _ _ after _
  | written _ _ _ _ _ _ _ _ after _ =>
      rw [after]
      exact List.cons_ne_nil _ _
  | hungUp _ _ closed _ _ _ | readFailed closed _ _ _ _ _ | writeClosed _ _ closed _ _ _ _ _ _ =>
      rw [closed] at isOpen
      cases isOpen
  | refused step receives full _ _ _ _ _ _ =>
      subst step
      exact absurd (room receives) (Nat.not_le.mpr full)

theorem next_sound : Preserves next QueueRoom Sound := by
  intro s event t sound room step
  exact {
    toPlaced := next_placed sound.toPlaced step
    somewhere := fun fd => (next_life sound.toPlaced step fd).somewhere sound room }

theorem Sound.owned (sound : Sound s) : Owned s where
  sockfd fd isOpen :=
    have ⟨sockfd, nonneg⟩ := sound.sockfd fd isOpen
    ⟨sockfd, (lt_of_lt_of_le (by decide) nonneg).ne'⟩
  place fd isOpen := by
    have nonempty := List.length_pos_iff.mpr (sound.somewhere fd isOpen)
    exact List.length_eq_one_iff.mp (Nat.le_antisymm (sound.single fd) nonempty)
  closed fd isClosed := by
    by_contra placesSome
    rw [sound.opened fd placesSome] at isClosed
    cases isClosed
  posted := sound.posted

theorem start_sound (users : Fd → HttpConn) (threadNumber maxRequests : Nat) :
    Sound (start users threadNumber maxRequests) where
  toPlaced := start_placed users threadNumber maxRequests
  somewhere fd isOpen := by cases isOpen

/-- The connection of a refused request stays open, and has no place. -/
theorem refused_not_owned {answers : List Recv} (placed : Placed s)
    (full : ¬ s.QueueRoom (.read answers)) (step : s.next (.read answers) = some t) :
    ¬ Owned t := by
  simp only [next] at step
  split at step
  · rename_i sockfd batch reported
    obtain ⟨before, vacant, -⟩ := placed.handled reported
    have opened := placed.opened sockfd (by rw [before]; simp)
    obtain ⟨receives, full⟩ := Classical.not_imp.mp full
    obtain ⟨⟨more, c⟩, read, rfl⟩ :=
      Option.map_eq_some_iff.mp (Option.ite_none_left_eq_some.mp step).2
    change (s.users sockfd).read answers = some (more, c) at read
    obtain rfl : more = true := by
      unfold Server.receives at receives
      rw [reported] at receives
      simpa [read] using receives
    have refused : ({ s with batch := batch }.setUser sockfd c).append sockfd =
        { s with batch := batch }.setUser sockfd c := if_pos (Nat.not_le.mp full)
    intro owned
    change Owned (({ s with batch := batch }.setUser sockfd c).append sockfd) at owned
    rw [refused] at owned
    obtain ⟨place, place_eq⟩ := owned.place sockfd opened
    exact List.cons_ne_nil place [] (place_eq.symm.trans vacant)
  · contradiction

theorem not_queueRoom {event : ServerEvent} (full : ¬ s.QueueRoom event) :
    ∃ answers, event = .read answers := by
  cases event with
  | read answers => exact ⟨answers, rfl⟩
  | wait | accept | hangup | post | write | wake | take | process | arm => exact absurd trivial full

/-- In a run, every open connection always has exactly one owner if and only if
every request that is read finds room in the queue. -/
theorem owned_along_iff {users : Fd → HttpConn} {threadNumber maxRequests : Nat}
    {events : List ServerEvent}
    (finished : run next (start users threadNumber maxRequests) events = some t) :
    Along next Owned (start users threadNumber maxRequests) events ↔
      Meets next QueueRoom (start users threadNumber maxRequests) events := by
  refine along_iff_meets next_sound (fun _ => Sound.owned) ?_ (start_sound _ _ _) finished
  intro s event t sound full step
  obtain ⟨answers, rfl⟩ := not_queueRoom full
  exact refused_not_owned sound.toPlaced full step

end Life

/-! ## A full queue -/

/-- The events of a client that connects and sends a byte. -/
def sendsByte (connfd : Fd) : List ServerEvent :=
  [.wait [.listen], .accept connfd, .wait [.client connfd false (some .epollin)],
    .read [.data [71], .again]]

/-- A state in which the clients below `count` have each sent a byte, and no
worker has woken up. -/
structure Waiting (count : Nat) (s : Server) : Prop where
  users : ∀ fd, (count : Int) ≤ fd → s.users fd = zeroConn
  opened : ∀ fd, (count : Int) ≤ fd → s.opened fd = false
  userCount : s.userCount = count
  batch : s.batch = []
  posting : s.posting = false
  length : s.workqueue.length = count
  below : ∀ fd ∈ s.workqueue, fd < count
  maxRequests : s.maxRequests = MAX_REQUESTS
  workers : ∃ threadNumber, s.workers = List.replicate threadNumber .idle

/-- The state in front of the call of `append` for the next client. -/
def byteRead (s : Server) (connfd : Fd) : Server :=
  let s := { s.reported [.listen] with batch := [] }.initConn connfd
  let s := { s.reported [.client connfd false (some .epollin)] with batch := [] }
  s.setUser connfd ((zeroConn.initSocket connfd).append [71])

theorem readUser_more {s : Server} {request : Fd} {answers : List Recv} {c : HttpConn}
    (read : (s.users request).read answers = some (true, c)) :
    s.readUser request answers = some ((s.setUser request c).append request) := by
  unfold readUser
  rw [read]
  rfl

namespace Waiting

variable {count : Nat} {s t : Server}

theorem run_sendsByte (waiting : Waiting count s) (room : count < MAX_FD) :
    run next s (sendsByte count) = some ((s.byteRead count).append count) := by
  have listens : s.next (.wait [.listen]) = some (s.reported [.listen]) :=
    if_pos ⟨waiting.batch, waiting.posting, by simp [Reports, Awaited, Report.sockfd,
      MAX_EVENT_NUMBER]⟩
  have accepts : (s.reported [.listen]).next (.accept count) =
      some ({ s.reported [.listen] with batch := [] }.initConn count) := by
    have fresh : ¬ s.opened count = true := by
      rw [waiting.opened count (le_refl _)]
      exact Bool.false_ne_true
    have few : ¬ s.userCount ≥ MAX_FD := by
      rw [waiting.userCount]
      simpa using room
    have inside : ¬ (count : Int) ≥ MAX_FD := by simpa using room
    simp only [next, reported, waiting.posting, Bool.false_eq_true, if_false]
    unfold accept
    rw [if_neg (Int.natCast_nonneg count).not_gt]
    exact (if_neg fresh).trans ((if_neg few).trans (if_neg inside))
  obtain ⟨q, q_eq⟩ : ∃ q, q = { s.reported [.listen] with batch := [] }.initConn count := ⟨_, rfl⟩
  have armed : q.interest count = some .epollin := by
    rw [q_eq]
    exact Function.update_self _ _ _
  have reports : q.next (.wait [.client count false (some .epollin)]) =
      some (q.reported [.client count false (some .epollin)]) := by
    refine if_pos ⟨by rw [q_eq]; rfl, by rw [q_eq]; exact waiting.posting, ?_⟩
    simp [Reports, Awaited, Report.sockfd, MAX_EVENT_NUMBER, armed]
  have user : q.users count = zeroConn.initSocket count := by
    rw [q_eq]
    refine (Function.update_self _ _ _).trans ?_
    change (s.users count).initSocket count = _
    rw [waiting.users count (le_refl _)]
  have reads :
      (q.reported [.client count false (some .epollin)]).next (.read [.data [71], .again]) =
      some ((s.byteRead count).append count) := by
    have read : (q.users count).read [.data [71], .again] =
        some (true, (zeroConn.initSocket count).append [71]) := by
      rw [user]
      rfl
    have idle : q.posting = false := by rw [q_eq]; exact waiting.posting
    refine (if_neg (by rw [reported, idle]; exact Bool.false_ne_true)).trans ?_
    rw [readUser_more (s := { q.reported [.client count false (some .epollin)] with batch := [] })
      read, q_eq]
    rfl
  rw [sendsByte, run_cons_of_step listens, run_cons_of_step accepts, ← q_eq,
    run_cons_of_step reports, run_cons_of_step reads, run_nil]

/-- The next client is queued while there is room. -/
theorem append (waiting : Waiting count s) (room : count ≤ MAX_REQUESTS) :
    ∃ t, run next s (sendsByte count ++ [.post]) = some t ∧ Waiting (count + 1) t := by
  have queued : (s.byteRead count).append count = { s.byteRead count with
      workqueue := s.workqueue ++ [(count : Int)], posting := true } := by
    refine if_neg ?_
    change ¬ s.workqueue.length > s.maxRequests
    rw [waiting.length, waiting.maxRequests]
    exact Nat.not_lt.mpr room
  refine ⟨{ s.byteRead count with
    workqueue := s.workqueue ++ [(count : Int)], posting := false, queuestat := s.queuestat + 1 },
    ?_, ?_⟩
  · rw [run_append, waiting.run_sendsByte (lt_of_le_of_lt room (by decide)), queued]
    rfl
  · have ne : ∀ fd : Int, ((count + 1 : Nat) : Int) ≤ fd → fd ≠ count := fun fd le => by omega
    exact {
      users := fun fd le => by
        refine (Function.update_of_ne (ne fd le) _ _).trans ?_
        refine (Function.update_of_ne (ne fd le) _ _).trans ?_
        exact waiting.users fd (by omega)
      opened := fun fd le => by
        refine (Function.update_of_ne (ne fd le) _ _).trans ?_
        exact waiting.opened fd (by omega)
      userCount := by
        change s.userCount + 1 = _
        rw [waiting.userCount]
        rfl
      batch := rfl
      posting := rfl
      length := by
        change (s.workqueue ++ [(count : Int)]).length = _
        rw [List.length_append, List.length_singleton, waiting.length]
      below := fun fd mem => by
        obtain mem | mem := List.mem_append.mp mem
        · exact (waiting.below fd mem).trans (Int.lt_succ count)
        · exact List.mem_singleton.mp mem ▸ Int.lt_succ count
      maxRequests := waiting.maxRequests
      workers := waiting.workers }

/-- The next client has no place when there is no room. -/
theorem refused (waiting : Waiting count s) (full : MAX_REQUESTS < count) (few : count < MAX_FD) :
    ∃ t, run next s (sendsByte count) = some t ∧ t.opened count = true ∧ t.places count = [] := by
  have ignored : (s.byteRead count).append count = s.byteRead count := by
    refine if_pos ?_
    change s.workqueue.length > s.maxRequests
    rw [waiting.length, waiting.maxRequests]
    exact full
  obtain ⟨threadNumber, workers⟩ := waiting.workers
  refine ⟨s.byteRead count, (waiting.run_sendsByte few).trans (congrArg some ignored), ?_, ?_⟩
  · exact Function.update_self _ _ _
  · refine places_eq_nil_iff.mpr ⟨?_, rfl, ?_, ?_⟩
    · exact if_pos (List.mem_singleton.mpr rfl)
    · change s.workqueue.filter (· = (count : Int)) = []
      rw [List.filter_eq_nil_iff]
      intro fd mem
      simpa using (waiting.below fd mem).ne
    · change s.workers.filterMap (Worker.place count) = []
      rw [workers, List.filterMap_eq_nil_iff]
      intro worker mem
      rw [List.eq_of_mem_replicate mem]
      rfl

theorem fill (waiting : Waiting 0 s) (count : Nat) (room : count ≤ MAX_REQUESTS + 1) :
    ∃ events t, run next s events = some t ∧ Waiting count t := by
  induction count with
  | zero => exact ⟨[], s, rfl, waiting⟩
  | succ count ih =>
      obtain ⟨events, t, finished, filled⟩ := ih (Nat.le_of_succ_le room)
      obtain ⟨u, queued, more⟩ := filled.append (Nat.le_of_succ_le_succ room)
      exact ⟨events ++ (sendsByte count ++ [.post]), u, by
        rw [run_append, finished]
        exact queued, more⟩

end Waiting

theorem start_waiting (threadNumber : Nat) :
    Waiting 0 (start (fun _ => zeroConn) threadNumber MAX_REQUESTS) where
  users _ _ := rfl
  opened _ _ := rfl
  userCount := rfl
  batch := rfl
  posting := rfl
  length := rfl
  below fd mem := by cases mem
  maxRequests := rfl
  workers := ⟨threadNumber, rfl⟩

/-- With the pool that `main` makes, a connection can lose its owner. -/
theorem exists_not_owned : ∃ events t,
    run next (start (fun _ => zeroConn) THREAD_NUMBER MAX_REQUESTS) events = some t ∧
      ¬ Owned t := by
  obtain ⟨events, s, finished, waiting⟩ := (start_waiting THREAD_NUMBER).fill _ (le_refl _)
  obtain ⟨t, refused, opened, vacant⟩ := waiting.refused (Nat.lt_succ_self _) (by decide)
  refine ⟨events ++ sendsByte (MAX_REQUESTS + 1 : Nat), t, ?_, fun owned => ?_⟩
  · rw [run_append, finished]
    exact refused
  · obtain ⟨place, place_eq⟩ := owned.place _ opened
    exact List.cons_ne_nil place [] (place_eq.symm.trans vacant)

end Server

end NetPractice.Http
