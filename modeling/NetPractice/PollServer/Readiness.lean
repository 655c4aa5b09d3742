import NetPractice.PollServer.Core

/-!
# Clients that are read when they are ready

An entry that is used again was cleared by `Poll`.  An entry behind `maxi` has
never been examined, and its `revents` is whatever was on the stack.  The loop over
the clients stops in front of it when `nready` runs out, which is when every client
that `Poll` reported was read.
-/

namespace NetPractice.PollServer

open NetPractice.Socket NetPractice.Transition
open NetPractice.PollChat (Mask PollFd has POLLERR POLLHUP POLLNVAL)

/-! ## The loop over the clients -/

/-- A client that the loop reads. -/
def Chosen (entry : PollFd) : Prop :=
  0 ≤ entry.fd ∧ Hit entry.revents

instance : DecidablePred Chosen :=
  fun _ => inferInstanceAs (Decidable (_ ∧ _))

/-- The number of clients that the loop can read. -/
def hits (entries : List PollFd) : Nat :=
  entries.countP Chosen

/-- The loop over some entries and then, unless it was left, over more. -/
def Checked.andThen (answer : Nat → Answer) (i : Nat) (first : Checked) (more : List PollFd) :
    Checked :=
  match first.left with
  | .passed nready =>
      let second := checkClients answer i nready more
      { client := first.client ++ second.client
        reads := first.reads ++ second.reads
        left := second.left }
  | .broke | .ended => { first with client := first.client ++ more }

section Loop

variable {answer : Nat → Answer} {i nready : Nat} {entry : PollFd} {entries more : List PollFd}

theorem checkClients_passed (idle : ¬ Chosen entry) :
    checkClients answer i nready (entry :: entries) =
      (checkClients answer (i + 1) nready entries).behind entry := by
  rw [checkClients]
  split
  · rfl
  · next used =>
    rw [if_neg fun hit => idle ⟨Int.not_lt.mp used, hit⟩]

theorem checkClients_chosen (chosen : Chosen entry) :
    checkClients answer i nready (entry :: entries) =
      if answer i = .failed then
        { client := entry :: entries, reads := [(i, entry.fd)], left := .ended }
      else if nready - 1 = 0 then
        { client := afterRead (answer i) entry :: entries
          reads := [(i, entry.fd)]
          left := .broke }
      else
        let checked := checkClients answer (i + 1) (nready - 1) entries
        { checked.behind (afterRead (answer i) entry) with
          reads := (i, entry.fd) :: checked.reads } := by
  rw [checkClients, if_neg (Int.not_lt.mpr chosen.1), if_pos chosen.2]

theorem andThen_behind (checked : Checked) (entry : PollFd) (more : List PollFd) :
    (checked.behind entry).andThen answer i more =
      (checked.andThen answer i more).behind entry := by
  rcases checked with ⟨client, reads, left⟩
  cases left <;> rfl

/-- The loop over a list is the loop over its beginning, and then over the rest. -/
theorem checkClients_append :
    checkClients answer i nready (entries ++ more) =
      (checkClients answer i nready entries).andThen answer (i + entries.length) more := by
  induction entries generalizing i nready with
  | nil => rfl
  | cons entry entries ih =>
      have index : i + (entry :: entries).length = i + 1 + entries.length := by
        rw [List.length_cons]
        omega
      rw [List.cons_append, index]
      by_cases chosen : Chosen entry
      · rw [checkClients_chosen chosen, checkClients_chosen chosen]
        split
        · rfl
        · split
          · rfl
          · rw [ih]
            rcases checkClients answer (i + 1) (nready - 1) entries with ⟨client, reads, left⟩
            cases left <;> rfl
      · rw [checkClients_passed chosen, checkClients_passed chosen, ih, andThen_behind]

theorem length_checkClients : (checkClients answer i nready entries).client.length =
    entries.length := by
  induction entries generalizing i nready with
  | nil => rfl
  | cons entry entries ih =>
      by_cases chosen : Chosen entry
      · rw [checkClients_chosen chosen]
        split
        · rfl
        · split
          · rfl
          · exact congrArg Nat.succ ih
      · rw [checkClients_passed chosen]
        exact congrArg Nat.succ ih

/-- Only chosen clients are read. -/
theorem reads_checkClients {read : Nat × Fd}
    (mem : read ∈ (checkClients answer i nready entries).reads) :
    ∃ k entry, read.1 = i + k ∧ entries[k]? = some entry ∧ entry.fd = read.2 ∧ Chosen entry := by
  induction entries generalizing i nready with
  | nil => cases mem
  | cons entry entries ih =>
      have later : ∀ nready, read ∈ (checkClients answer (i + 1) nready entries).reads →
          ∃ k other, read.1 = i + k ∧ (entry :: entries)[k]? = some other ∧
            other.fd = read.2 ∧ Chosen other := by
        intro nready mem
        rcases ih mem with ⟨k, other, index, found, fd_eq, chosen⟩
        exact ⟨k + 1, other, by omega, found, fd_eq, chosen⟩
      by_cases chosen : Chosen entry
      · have here : read = (i, entry.fd) → ∃ k other, read.1 = i + k ∧
            (entry :: entries)[k]? = some other ∧ other.fd = read.2 ∧ Chosen other := by
          rintro rfl
          exact ⟨0, entry, rfl, rfl, rfl, chosen⟩
        rw [checkClients_chosen chosen] at mem
        split at mem
        · exact here (List.mem_singleton.mp mem)
        · split at mem
          · exact here (List.mem_singleton.mp mem)
          · rcases List.mem_cons.mp mem with first | mem
            · exact here first
            · exact later _ mem
      · rw [checkClients_passed chosen] at mem
        exact later _ mem

/-- No read of a chosen client ends the program: the first one, and those behind it. -/
theorem reads_goOn_cons : (∀ k other, (entry :: entries)[k]? = some other → Chosen other →
    answer (i + k) ≠ .failed) ↔
      (Chosen entry → answer i ≠ .failed) ∧
        ∀ k other, entries[k]? = some other → Chosen other → answer (i + 1 + k) ≠ .failed := by
  constructor
  · intro all
    refine ⟨all 0 entry rfl, fun k other found chosen => ?_⟩
    have later := all (k + 1) other found chosen
    rwa [show i + (k + 1) = i + 1 + k by omega] at later
  · rintro ⟨first, later⟩ (_ | k) other found chosen
    · cases found
      exact first chosen
    · rw [show i + (k + 1) = i + 1 + k by omega]
      exact later k other found chosen

/-- The loop comes to its end when no read ends the program and `nready` is more than
the number of the clients that are read. -/
theorem left_checkClients (positive : 0 < nready) (rest : Nat) :
    (checkClients answer i nready entries).left = .passed rest ↔
      nready = hits entries + rest ∧ 0 < rest ∧
        ∀ k entry, entries[k]? = some entry → Chosen entry → answer (i + k) ≠ .failed := by
  induction entries generalizing i nready with
  | nil =>
      simp only [checkClients, hits, List.countP_nil, Left.passed.injEq]
      constructor
      · rintro rfl
        exact ⟨(Nat.zero_add _).symm, positive, fun k entry found => by simp at found⟩
      · rintro ⟨equal, -, -⟩
        omega
  | cons entry entries ih =>
      rw [reads_goOn_cons]
      by_cases chosen : Chosen entry
      · have count : hits (entry :: entries) = hits entries + 1 := by
          simp [hits, chosen]
        rw [checkClients_chosen chosen, count]
        split
        · next failed =>
          constructor
          · intro equal
            cases equal
          · rintro ⟨-, -, goes, -⟩
            exact absurd failed (goes chosen)
        · next goes =>
          split
          · next spent =>
            constructor
            · intro equal
              cases equal
            · rintro ⟨equal, more, -⟩
              omega
          · next unspent =>
            have after := ih (i := i + 1) (Nat.pos_of_ne_zero unspent)
            refine Iff.trans after ?_
            constructor
            · rintro ⟨equal, more, later⟩
              exact ⟨by omega, more, fun _ => goes, later⟩
            · rintro ⟨equal, more, -, later⟩
              exact ⟨by omega, more, later⟩
      · have count : hits (entry :: entries) = hits entries := by
          simp [hits, chosen]
        rw [checkClients_passed chosen, count]
        refine Iff.trans (ih (i := i + 1) positive) ?_
        constructor
        · rintro ⟨equal, more, later⟩
          exact ⟨equal, more, fun isChosen => absurd isChosen chosen, later⟩
        · rintro ⟨equal, more, -, later⟩
          exact ⟨equal, more, later⟩

end Loop

/-! ## The table -/

/-- A client that `Poll` reported and the loop does not read. -/
def Unread (revents : Mask) : Prop :=
  revents ≠ 0 ∧ ¬ Hit revents

instance : DecidablePred Unread :=
  fun _ => inferInstanceAs (Decidable (_ ∧ _))

theorem Hit.ne_zero {revents : Mask} (hit : Hit revents) : revents ≠ 0 := by
  rintro rfl
  revert hit
  decide

/-- What is reported is read or is not. -/
theorem nready_eq {entries : List PollFd} (used : ∀ entry ∈ entries, 0 ≤ entry.fd) :
    Server.nready entries =
      hits entries + (entries.map PollFd.revents).countP Unread := by
  induction entries with
  | nil => rfl
  | cons entry entries ih =>
      have rest := ih fun other mem => used other (List.mem_cons_of_mem _ mem)
      have chosen_iff : Chosen entry ↔ Hit entry.revents :=
        and_iff_right (used entry List.mem_cons_self)
      have here : (if decide (entry.revents ≠ 0) then 1 else 0) =
          (if decide (Chosen entry) then 1 else 0) +
            if decide (Unread entry.revents) then 1 else 0 := by
        by_cases hit : Hit entry.revents
        · simpa [chosen_iff, Unread, hit] using hit.ne_zero
        · by_cases zero : entry.revents = 0
          · rw [zero] at hit
            simpa [chosen_iff, Unread, zero] using hit
          · simp [chosen_iff, Unread, hit]
      simp only [Server.nready, hits] at rest ⊢
      rw [List.map_cons, List.countP_cons, List.countP_cons, List.countP_cons, rest, here]
      omega

theorem modify_append_left {α : Type} {change : α → α} {k : Nat} {front : List α}
    (inside : k < front.length) (rest : List α) :
    (front ++ rest).modify k change = front.modify k change ++ rest := by
  induction front generalizing k with
  | nil => exact absurd inside (Nat.not_lt_zero k)
  | cons entry front ih =>
      cases k with
      | zero => rfl
      | succ k =>
          rw [List.cons_append, List.modify_succ_cons, ih (Nat.lt_of_succ_lt_succ inside)]
          rfl

theorem modify_append_cons {α : Type} (change : α → α) (front rest : List α) (entry : α) :
    (front ++ entry :: rest).modify front.length change = front ++ change entry :: rest := by
  induction front with
  | nil => rfl
  | cons other front ih =>
      rw [List.cons_append, List.length_cons, List.modify_succ_cons, ih]
      rfl

namespace Server

/-- The entry of the listening socket, those up to `maxi`, and those behind it, which
are available. -/
structure Shape (s : Server) (first : PollFd) (clients behind : List PollFd) : Prop where
  client : s.client = first :: (clients ++ behind)
  maxi : s.maxi = clients.length
  listen : 0 ≤ first.fd
  behind : ∀ entry ∈ behind, entry.fd < 0

/-- The invariant. -/
def Tabled (s : Server) : Prop :=
  ∃ first clients behind, s.Shape first clients behind

/-- The entry of a new client. -/
def connected (connfd : Fd) (entry : PollFd) : PollFd :=
  { entry with fd := connfd, events := POLLRDNORM }

section Rounds

variable {s t : Server} {round : Round} {first fresh : PollFd} {clients behind : List PollFd}
  {connfd : Fd}

/-- Only the entries of the loop change. -/
theorem Shape.check_eq (shape : Shape s first clients behind) (round : Round) (nready : Nat) :
    s.check round nready =
      { s with
        client := first :: ((checkClients round.answer 1 nready clients).client ++ behind)
        reads := (checkClients round.answer 1 nready clients).reads
        ended := decide ((checkClients round.answer 1 nready clients).left = .ended) } := by
  have loop : s.client.tail.take s.maxi = clients := by
    rw [shape.client, shape.maxi, List.tail_cons, List.take_left]
  have rest : s.client.drop (s.maxi + 1) = behind := by
    rw [shape.client, shape.maxi, List.drop_succ_cons, List.drop_left]
  have head : s.client.take 1 = [first] := by
    rw [shape.client]
    rfl
  simp only [check, loop, rest, head]
  rfl

theorem Shape.check (shape : Shape s first clients behind) (round : Round) (nready : Nat) :
    Tabled (s.check round nready) := by
  refine ⟨first, (checkClients round.answer 1 nready clients).client, behind, ?_⟩
  rw [shape.check_eq]
  constructor
  · rfl
  · exact shape.maxi.trans length_checkClients.symm
  · exact shape.listen
  · exact shape.behind

/-- An entry up to `maxi` is used again. -/
theorem Shape.reuse {k : Nat} (shape : Shape s first clients behind)
    (found : clients.findIdx? (fun entry => entry.fd < 0) = some k) (connfd : Fd) :
    available s.client = some (k + 1) ∧
      Shape (s.accept connfd (k + 1)) first (clients.modify k (connected connfd)) behind := by
  have inside : k < clients.length := (List.findIdx?_eq_some_iff_getElem.mp found).1
  constructor
  · rw [available, shape.client, List.tail_cons, List.findIdx?_append, found]
    rfl
  · constructor
    · change (s.client.modify (k + 1) (connected connfd)) = _
      rw [shape.client, List.modify_succ_cons, modify_append_left inside]
    · have least : ¬ k + 1 > s.maxi := by
        rw [shape.maxi]
        omega
      rw [List.length_modify]
      exact (if_neg least).trans shape.maxi
    · exact shape.listen
    · exact shape.behind

/-- An entry behind `maxi` is used for the first time. -/
theorem Shape.extend (shape : Shape s first clients (fresh :: behind))
    (full : clients.findIdx? (fun entry => entry.fd < 0) = none) (connfd : Fd) :
    available s.client = some (clients.length + 1) ∧
      Shape (s.accept connfd (clients.length + 1)) first
        (clients ++ [connected connfd fresh]) behind := by
  have free : fresh.fd < 0 := shape.behind fresh List.mem_cons_self
  constructor
  · rw [available, shape.client, List.tail_cons, List.findIdx?_append, full]
    simp [List.findIdx?_cons, free]
  · constructor
    · change (s.client.modify (clients.length + 1) (connected connfd)) = _
      rw [shape.client, List.modify_succ_cons, modify_append_cons, List.append_assoc]
      rfl
    · have more : clients.length + 1 > s.maxi := by
        rw [shape.maxi]
        exact Nat.lt_succ_self _
      rw [List.length_append]
      exact if_pos more
    · exact shape.listen
    · intro entry mem
      exact shape.behind entry (List.mem_cons_of_mem _ mem)

/-! ## A round behind its call of `Poll` -/

/-- The state behind a call of `Poll`. -/
structure Polled (s : Server) (first : PollFd) (clients behind : List PollFd) : Prop
    extends Shape s first clients behind where
  polled : s.polled = first :: clients
  cleared : ∀ entry ∈ clients, entry.fd < 0 → entry.revents = 0
  reads : s.reads = []

/-- The entries that the loop goes through are as `Poll` examined them, or not
reported. -/
theorem Polled.readsReady (polled : Polled s first clients behind) {entries : List PollFd}
    (same : ∀ (k : Nat) (entry : PollFd), entries[k]? = some entry → Chosen entry →
      clients[k]? = some entry)
    {checked : Checked} {nready : Nat}
    (checked_eq : checked = checkClients round.answer 1 nready entries)
    (reads : t.reads = checked.reads) (polled_eq : t.polled = s.polled) : t.ReadsReady := by
  intro read mem
  rw [reads, checked_eq] at mem
  rcases reads_checkClients mem with ⟨k, entry, index, found, fd_eq, chosen⟩
  refine ⟨entry, ?_, fd_eq, chosen.2⟩
  rw [polled_eq, polled.polled, index, Nat.add_comm, List.getElem?_cons_succ]
  exact same k entry found chosen

/-- An entry that is used again was cleared. -/
theorem Polled.not_chosen_reused (polled : Polled s first clients behind) {k : Nat}
    (found : clients.findIdx? (fun entry => entry.fd < 0) = some k) {j : Nat} {entry : PollFd}
    (read : (clients.modify k (connected connfd))[j]? = some entry) (chosen : Chosen entry) :
    clients[j]? = some entry := by
  by_cases same : k = j
  · subst same
    rcases List.findIdx?_eq_some_iff_getElem.mp found with ⟨inside, free, -⟩
    rw [List.getElem?_modify_eq, List.getElem?_eq_getElem inside] at read
    cases read
    have zero := polled.cleared clients[k] (List.getElem_mem inside) (of_decide_eq_true free)
    exact absurd zero chosen.2.ne_zero
  · rw [List.getElem?_modify_ne _ _ same] at read
    exact read

/-- The loop goes on to an entry behind `maxi` when a report is left and no read ends the
program. -/
theorem left_passed_iff (used : ∀ entry ∈ clients, 0 ≤ entry.fd)
    (positive : 0 < nready clients) (answer : Nat → Answer) :
    (∃ rest, (checkClients answer 1 (nready clients) clients).left = .passed rest) ↔
      (∃ entry ∈ clients, Unread entry.revents) ∧
        ∀ k entry, clients[k]? = some entry → Hit entry.revents → answer (1 + k) ≠ .failed := by
  have total := nready_eq used
  have unread : 0 < (clients.map PollFd.revents).countP Unread ↔
      ∃ entry ∈ clients, Unread entry.revents := by
    simp [List.countP_pos_iff]
  constructor
  · rintro ⟨rest, passed⟩
    rcases (left_checkClients positive rest).mp passed with ⟨equal, more, goes⟩
    constructor
    · rw [← unread]
      omega
    · intro k entry found hit
      exact goes k entry found ⟨used entry (List.mem_of_getElem? found), hit⟩
  · rintro ⟨some, goes⟩
    refine ⟨(clients.map PollFd.revents).countP Unread, ?_⟩
    apply (left_checkClients positive _).mpr
    exact ⟨total, unread.mpr some, fun k entry found chosen => goes k entry found chosen.2⟩

/-- The entry behind `maxi` is read when the loop reaches it and its `revents` says
so. -/
theorem Polled.fresh_iff (polled : Polled s first clients (fresh :: behind))
    (nonneg : 0 ≤ connfd) {nready : Nat}
    (reads : t.reads = (checkClients round.answer 1 nready
      (clients ++ [connected connfd fresh])).reads)
    (polled_eq : t.polled = s.polled) :
    t.ReadsReady ↔
      ¬ (Hit fresh.revents ∧
        ∃ rest, (checkClients round.answer 1 nready clients).left = .passed rest) := by
  have old : ∀ {checked : Checked} {t : Server},
      checked = checkClients round.answer 1 nready clients → t.reads = checked.reads →
        t.polled = s.polled → t.ReadsReady :=
    polled.readsReady fun _ _ found _ => found
  rw [checkClients_append] at reads
  cases left : (checkClients round.answer 1 nready clients).left with
  | broke | ended =>
      simp only [Checked.andThen, left] at reads
      constructor
      · rintro - ⟨-, rest, passed⟩
        cases passed
      · intro _
        exact old rfl reads polled_eq
  | passed rest =>
      simp only [Checked.andThen, left] at reads
      by_cases hit : Hit fresh.revents
      · have chosen : Chosen (connected connfd fresh) := ⟨nonneg, hit⟩
        have stale : (1 + clients.length, connfd) ∈ t.reads := by
          rw [reads, checkClients_chosen chosen]
          apply List.mem_append_right
          split
          · exact List.mem_singleton_self _
          · split
            · exact List.mem_singleton_self _
            · exact List.mem_cons_self
        constructor
        · intro ready
          rcases ready _ stale with ⟨entry, found, -⟩
          rw [polled_eq, polled.polled, Nat.add_comm, List.getElem?_cons_succ] at found
          simp at found
        · intro safe
          exact absurd ⟨hit, rest, rfl⟩ safe
      · have idle : ¬ Chosen (connected connfd fresh) := fun chosen => hit chosen.2
        have nothing : (checkClients round.answer (1 + clients.length) rest
            [connected connfd fresh]).reads = [] := by
          rw [checkClients_passed idle]
          rfl
        rw [nothing, List.append_nil] at reads
        constructor
        · rintro - ⟨isHit, -⟩
          exact hit isHit
        · intro _
          exact old rfl reads polled_eq

/-- What makes a round read too early, in terms of what `Poll` examined. -/
structure ExposedAt (first : PollFd) (clients behind : List PollFd) (round : Round) : Prop where
  connection : has first.revents POLLRDNORM
  accepted : round.connfd.isSome
  full : ∀ entry ∈ clients, 0 ≤ entry.fd
  stale : ∃ entry ∈ behind.head?, Hit entry.revents
  unread : ∃ entry ∈ clients, Unread entry.revents
  goes : ∀ k entry, clients[k]? = some entry → Hit entry.revents →
    round.answer (1 + k) ≠ .failed

theorem nready_cons (connection : has first.revents POLLRDNORM) :
    nready (first :: clients) - 1 = nready clients := by
  have nonzero : first.revents ≠ 0 := by
    intro zero
    rw [zero] at connection
    revert connection
    decide
  have more : nready (first :: clients) = nready clients + 1 :=
    List.countP_cons_of_pos (by exact decide_eq_true nonzero)
  rw [more, Nat.add_sub_cancel]

theorem readsReady_of_reads (reads : t.reads = []) : t.ReadsReady := by
  intro read mem
  rw [reads] at mem
  cases mem

/-- A new connection in an entry that a client has left. -/
theorem Polled.serve_reused (polled : Polled s first clients behind) {k : Nat}
    (search : clients.findIdx? (fun entry => entry.fd < 0) = some k) (connfd : Fd) :
    Tabled (if nready clients = 0 then s.accept connfd (k + 1)
        else (s.accept connfd (k + 1)).check round (nready clients)) ∧
      ((if nready clients = 0 then s.accept connfd (k + 1)
        else (s.accept connfd (k + 1)).check round (nready clients)).ReadsReady ↔
          ¬ ExposedAt first clients behind round) := by
  have after := (polled.toShape.reuse search connfd).2
  have safe : ¬ ExposedAt first clients behind round := by
    intro exposed
    rcases List.findIdx?_eq_some_iff_getElem.mp search with ⟨inside, free, -⟩
    have used := exposed.full clients[k] (List.getElem_mem inside)
    exact absurd (of_decide_eq_true free) (Int.not_lt.mpr used)
  split
  · exact ⟨⟨_, _, _, after⟩, iff_of_true (readsReady_of_reads polled.reads) safe⟩
  · refine ⟨after.check round _, iff_of_true ?_ safe⟩
    rw [after.check_eq]
    exact polled.readsReady
      (fun j entry read chosen => polled.not_chosen_reused search read chosen)
      rfl rfl rfl

/-- A new connection in the entry behind `maxi`. -/
theorem Polled.serve_extended (polled : Polled s first clients (fresh :: behind))
    (search : clients.findIdx? (fun entry => entry.fd < 0) = none)
    (connection : has first.revents POLLRDNORM) {connfd : Fd} (accept : round.connfd = some connfd)
    (nonneg : 0 ≤ connfd) :
    Tabled (if nready clients = 0 then s.accept connfd (clients.length + 1)
        else (s.accept connfd (clients.length + 1)).check round (nready clients)) ∧
      ((if nready clients = 0 then s.accept connfd (clients.length + 1)
        else (s.accept connfd (clients.length + 1)).check round (nready clients)).ReadsReady ↔
          ¬ ExposedAt first clients (fresh :: behind) round) := by
  have after := (polled.toShape.extend search connfd).2
  have full : ∀ entry ∈ clients, 0 ≤ entry.fd := by
    intro entry mem
    have free := List.findIdx?_eq_none_iff.mp search entry mem
    exact Int.not_lt.mp (of_decide_eq_false free)
  split
  · next spent =>
    refine ⟨⟨_, _, _, after⟩, iff_of_true (readsReady_of_reads polled.reads) fun exposed => ?_⟩
    rcases exposed.unread with ⟨entry, mem, unread⟩
    have none := List.countP_eq_zero.mp spent entry mem
    exact none (decide_eq_true unread.1)
  · next unspent =>
    refine ⟨after.check round _, ?_⟩
    have reads := congrArg Server.reads (after.check_eq round (nready clients))
    rw [polled.fresh_iff nonneg reads rfl, left_passed_iff full (Nat.pos_of_ne_zero unspent)]
    apply not_congr
    constructor
    · rintro ⟨hit, unread, goes⟩
      exact ⟨connection, by rw [accept]; rfl, full, ⟨fresh, rfl, hit⟩, unread, goes⟩
    · intro exposed
      rcases exposed.stale with ⟨entry, mem, hit⟩
      cases mem
      exact ⟨hit, exposed.unread, exposed.goes⟩

/-- A round keeps the shape of the table, and reads only clients that are ready unless an
entry behind `maxi` is exposed. -/
theorem Polled.serve (polled : Polled s first clients behind)
    (nonneg : ∀ connfd ∈ round.connfd, 0 ≤ connfd) :
    Tabled (s.serve round) ∧
      ((s.serve round).ReadsReady ↔ ¬ ExposedAt first clients behind round) := by
  have shape := polled.toShape
  have left : Tabled s.quit :=
    ⟨first, clients, behind, shape.client, shape.maxi, shape.listen, shape.behind⟩
  have head : (∃ entry ∈ s.client.head?, has entry.revents POLLRDNORM) ↔
      has first.revents POLLRDNORM := by
    simp [shape.client]
  unfold Server.serve
  by_cases connection : has first.revents POLLRDNORM
  · rw [if_pos (head.mpr connection), polled.polled, nready_cons connection]
    cases accept : round.connfd with
    | none =>
        refine ⟨left, iff_of_true (readsReady_of_reads polled.reads) fun exposed => ?_⟩
        have accepted := exposed.accepted
        rw [accept] at accepted
        cases accepted
    | some connfd =>
        cases search : clients.findIdx? (fun entry => entry.fd < 0) with
        | some k =>
            simp only [(shape.reuse search connfd).1]
            exact polled.serve_reused search connfd
        | none =>
            cases behind with
            | nil =>
                have nothing : available s.client = none := by
                  rw [available, shape.client, List.tail_cons, List.append_nil, search]
                  rfl
                simp only [nothing]
                refine ⟨left, iff_of_true (readsReady_of_reads polled.reads) fun exposed => ?_⟩
                rcases exposed.stale with ⟨entry, mem, -⟩
                cases mem
            | cons fresh behind =>
                simp only [(shape.extend search connfd).1]
                exact polled.serve_extended search connection accept (nonneg connfd accept)
  · rw [if_neg fun some => connection (head.mp some)]
    refine ⟨shape.check round _, iff_of_true ?_ fun exposed => connection exposed.connection⟩
    rw [shape.check_eq]
    exact polled.readsReady (fun _ _ found _ => found) rfl rfl rfl

/-! ## Rounds -/

/-- A connection is accepted into an entry behind `maxi` whose `revents`, as it was on the
stack, looks ready, while a client was reported that the loop does not read, and no read
of a client ends the program. -/
structure Exposed (s : Server) (round : Round) : Prop where
  connection : ∃ revents ∈ round.revents.head?, has revents POLLRDNORM
  accepted : round.connfd.isSome
  full : ∀ entry ∈ s.client.tail.take s.maxi, 0 ≤ entry.fd
  stale : ∃ entry ∈ s.client[s.maxi + 1]?, Hit entry.revents
  unread : ∃ revents ∈ round.revents.tail, Unread revents
  goes : ∀ k revents, round.revents.tail[k]? = some revents → Hit revents →
    round.answer (1 + k) ≠ .failed

theorem length_report {entries : List PollFd} {revents : List Mask}
    (length_eq : revents.length = entries.length) :
    (report entries revents).length = entries.length := by
  rw [report, List.length_zipWith, length_eq, Nat.min_self]

theorem map_revents_report {entries : List PollFd} {revents : List Mask}
    (length_eq : revents.length = entries.length) :
    (report entries revents).map PollFd.revents = revents := by
  induction entries generalizing revents with
  | nil => rw [List.eq_nil_of_length_eq_zero length_eq]; rfl
  | cons entry entries ih =>
      cases revents with
      | nil => cases length_eq
      | cons mask revents =>
          change mask :: (report entries revents).map PollFd.revents = _
          rw [ih (Nat.succ.inj length_eq)]

theorem map_fd_report {entries : List PollFd} {revents : List Mask}
    (length_eq : revents.length = entries.length) :
    (report entries revents).map PollFd.fd = entries.map PollFd.fd := by
  induction entries generalizing revents with
  | nil => rfl
  | cons entry entries ih =>
      cases revents with
      | nil => cases length_eq
      | cons mask revents =>
          change entry.fd :: (report entries revents).map PollFd.fd = _
          rw [ih (Nat.succ.inj length_eq)]
          rfl

/-- `Poll` clears what has no descriptor. -/
theorem report_cleared {entries : List PollFd} {revents : List Mask}
    (reportable : ∀ pair ∈ entries.zip revents, Reportable pair.1 pair.2) {entry : PollFd}
    (mem : entry ∈ report entries revents) (free : entry.fd < 0) : entry.revents = 0 := by
  induction entries generalizing revents with
  | nil => cases mem
  | cons first entries ih =>
      cases revents with
      | nil => cases mem
      | cons mask revents =>
          rcases List.mem_cons.mp mem with rfl | mem
          · exact (reportable (first, mask) List.mem_cons_self).1 free
          · exact ih (fun pair inside => reportable pair (List.mem_cons_of_mem _ inside)) mem

/-- The entries behind those that are examined do not matter. -/
theorem report_append {entries : List PollFd} {revents : List Mask}
    (length_eq : revents.length = entries.length) (more : List PollFd) :
    report (entries ++ more) revents = report entries revents := by
  calc
    report (entries ++ more) revents = report (entries ++ more) (revents ++ []) := by
      rw [List.append_nil]
    _ = report entries revents ++ report more [] := List.zipWith_append length_eq.symm
    _ = report entries revents := by rw [report, report, List.zipWith_nil_right, List.append_nil]

/-- The state behind `Poll`, in terms of the state in front of it. -/
theorem Shape.poll (shape : Shape s first clients behind) (possible : s.Possible round) :
    ∃ first' clients', Polled (s.poll round.revents) first' clients' behind ∧
      round.revents = first'.revents :: clients'.map PollFd.revents ∧
      clients'.map PollFd.fd = clients.map PollFd.fd := by
  have whole := possible.whole
  have reportable := possible.report
  rw [shape.maxi] at whole
  cases revents : round.revents with
  | nil =>
      rw [revents] at whole
      cases whole
  | cons mask masks =>
      rw [revents] at whole
      rw [revents, shape.client] at reportable
      have length_eq : masks.length = clients.length := Nat.succ.inj whole
      have examined : report s.client (mask :: masks) =
          { first with revents := mask } :: report clients masks := by
        rw [shape.client]
        exact congrArg _ (report_append length_eq behind)
      have rest : s.client.drop (s.maxi + 1) = behind := by
        rw [shape.client, shape.maxi, List.drop_succ_cons, List.drop_left]
      refine ⟨{ first with revents := mask }, report clients masks, ?_, ?_, ?_⟩
      · constructor
        · constructor
          · change report s.client (mask :: masks) ++ s.client.drop (s.maxi + 1) = _
            rw [examined, rest]
            rfl
          · exact shape.maxi.trans (length_report length_eq).symm
          · exact shape.listen
          · exact shape.behind
        · exact examined
        · intro entry mem
          apply report_cleared (fun pair inside => reportable pair ?_) mem
          apply List.mem_cons_of_mem
          have both : pair ∈ (clients ++ behind).zip (masks ++ []) := by
            rw [List.zip_append length_eq.symm]
            exact List.mem_append_left _ inside
          rw [List.append_nil] at both
          exact both
        · rfl
      · rw [map_revents_report length_eq]
      · exact map_fd_report length_eq

/-- A round is exposed in the same way before and behind its `Poll`. -/
theorem Shape.exposed_iff {first' : PollFd} {clients' : List PollFd}
    (shape : Shape s first clients behind)
    (revents : round.revents = first'.revents :: clients'.map PollFd.revents)
    (fds : clients'.map PollFd.fd = clients.map PollFd.fd) :
    s.Exposed round ↔ ExposedAt first' clients' behind round := by
  have loop : s.client.tail.take s.maxi = clients := by
    rw [shape.client, shape.maxi, List.tail_cons, List.take_left]
  have next : s.client[s.maxi + 1]? = behind.head? := by
    rw [shape.client, shape.maxi, List.getElem?_cons_succ,
      List.getElem?_append_right (Nat.le_refl _), Nat.sub_self, List.head?_eq_getElem?]
  have used : (∀ entry ∈ clients, 0 ≤ entry.fd) ↔ ∀ entry ∈ clients', 0 ≤ entry.fd := by
    have both : (∀ fd ∈ clients.map PollFd.fd, 0 ≤ fd) ↔ ∀ entry ∈ clients, 0 ≤ entry.fd :=
      List.forall_mem_map
    rw [← both, ← fds, List.forall_mem_map]
  constructor
  · intro exposed
    constructor
    · simpa [revents] using exposed.connection
    · exact exposed.accepted
    · exact used.mp (loop ▸ exposed.full)
    · exact next ▸ exposed.stale
    · simpa [revents] using exposed.unread
    · intro k entry found hit
      apply exposed.goes k entry.revents _ hit
      simp [revents, found]
  · intro exposed
    constructor
    · simpa [revents] using exposed.connection
    · exact exposed.accepted
    · rw [loop]
      exact used.mpr exposed.full
    · rw [next]
      exact exposed.stale
    · simpa [revents] using exposed.unread
    · intro k mask found hit
      rw [revents, List.tail_cons, List.getElem?_map] at found
      rcases Option.map_eq_some_iff.mp found with ⟨entry, here, rfl⟩
      exact exposed.goes k entry here hit

/-- A round reads only clients that are ready exactly when it is not exposed. -/
theorem Tabled.next (tabled : Tabled s) (step : s.next round = some t) :
    Tabled t ∧ (t.ReadsReady ↔ ¬ s.Exposed round) := by
  rcases guarded_eq_some_iff.mp step with ⟨⟨-, possible⟩, rfl⟩
  rcases tabled with ⟨first, clients, behind, shape⟩
  rcases shape.poll possible with ⟨first', clients', polled, revents, fds⟩
  rw [shape.exposed_iff revents fds]
  exact polled.serve possible.connfd

end Rounds

/-- The program starts with a listening socket, and with no clients. -/
theorem create_tabled {listenfd : Fd} (nonneg : 0 ≤ listenfd) (first : PollFd)
    (stack : List PollFd) : Tabled (create listenfd first stack) := by
  refine ⟨_, [], _, rfl, rfl, nonneg, ?_⟩
  intro entry mem
  rcases List.mem_map.mp mem with ⟨other, -, rfl⟩
  exact Int.negSucc_lt_zero 0

/-- In a run whose every round is possible, each client was read because the last `Poll`
reported it ready exactly when no round is exposed. -/
theorem readsReady_along_iff_not_exposed {listenfd : Fd} (nonneg : 0 ≤ listenfd)
    (first : PollFd) (stack : List PollFd) {rounds : List Round}
    (possible : (run next (create listenfd first stack) rounds).isSome) :
    Along next ReadsReady (create listenfd first stack) rounds ↔
      Meets next (fun s round => ¬ s.Exposed round) (create listenfd first stack) rounds := by
  have start : Tabled (create listenfd first stack) ∧ ReadsReady (create listenfd first stack) :=
    ⟨create_tabled nonneg first stack, readsReady_of_reads rfl⟩
  have preserves : Preserves next (fun s round => ¬ s.Exposed round)
      fun s => Tabled s ∧ ReadsReady s := by
    intro s round t inv safe step
    rcases inv.1.next step with ⟨tabled, iff⟩
    exact ⟨tabled, iff.mpr safe⟩
  apply along_iff_meets_of_isSome preserves _ _ start possible
  · intro s inv
    exact inv.2
  · intro s round t inv exposed step
    rw [(inv.1.next step).2]
    exact exposed

/-- A stack on which the third entry looks readable. -/
def dirtyStack : List PollFd :=
  [⟨0, 0, 0⟩, ⟨0, 0, POLLRDNORM⟩, ⟨0, 0, 0⟩]

/-- A client connects; then another one, while `Poll` reports `POLLHUP` for the first. -/
def hangup : List Round :=
  [⟨[POLLRDNORM], some 4, fun _ => .echoed⟩, ⟨[POLLRDNORM, POLLHUP], some 5, fun _ => .echoed⟩]

/-- On a stack of zeros, no entry looks ready before it is polled. -/
theorem readsReady_along_hangup :
    Along next ReadsReady (create 3 ⟨0, 0, 0⟩ (List.replicate 3 ⟨0, 0, 0⟩)) hangup := by
  apply (readsReady_along_iff_not_exposed (by decide) _ _ (by decide)).mpr
  refine ⟨fun exposed => ?_, fun s step => ⟨fun exposed => ?_, fun _ _ => trivial⟩⟩
  · rcases exposed.stale with ⟨entry, mem, hit⟩
    cases mem
    exact absurd hit (by decide)
  · cases step
    rcases exposed.stale with ⟨entry, mem, hit⟩
    cases mem
    exact absurd hit (by decide)

/-- The second client is read in the round in which it was accepted, although `Poll` did
not examine its entry. -/
theorem fresh_client_read :
    ∃ t, run next (create 3 ⟨0, 0, 0⟩ dirtyStack) hangup = some t ∧
      t.polled.length = 2 ∧ t.reads = [(2, 5)] ∧ ¬ t.ReadsReady := by
  have outcome : (run next (create 3 ⟨0, 0, 0⟩ dirtyStack) hangup).map
      (fun t => (t.polled.length, t.reads)) = some (2, [(2, 5)]) := by decide
  rcases Option.map_eq_some_iff.mp outcome with ⟨t, finished, observed⟩
  rw [Prod.mk.injEq] at observed
  rcases observed with ⟨length_eq, reads⟩
  refine ⟨t, finished, length_eq, reads, fun ready => ?_⟩
  rcases ready (2, 5) (by rw [reads]; exact List.mem_singleton_self _) with ⟨entry, found, -⟩
  have inside := (List.getElem?_eq_some_iff.mp found).1
  rw [length_eq] at inside
  exact absurd inside (Nat.lt_irrefl 2)

end Server

end NetPractice.PollServer
