import NetPractice.Prethreaded.Core
import NetPractice.Memory.Ring

/-!
# The ring of accepted descriptors

The descriptors are numbered in the order in which they were accepted, and each
one has the slot of its number.  The ring has an empty and a full state with
equal indices; the full one ends the program before a thread can take it for the
empty one.
-/

namespace NetPractice.Prethreaded

open NetPractice.Transition NetPractice.Memory

/-! ## Weights -/

/-- Whether the main thread has locked the mutex. -/
def Main.holds : Main → Nat
  | .storing _ | .signalling | .unlocking | .quit => 1
  | .accepting | .locking _ => 0

/-- Whether a thread has locked the mutex. -/
def Thread.holds (thread : Thread) : Nat :=
  match thread.position with
  | .testing | .unlocking _ => 1
  | .locking | .waiting | .woken | .serving _ => 0

/-- The statements that a thread can execute without another descriptor. -/
def Thread.work (thread : Thread) : Nat :=
  match thread.position with
  | .waiting => 0
  | .testing => 1
  | .locking | .woken => 2
  | .serving _ => 3
  | .unlocking _ => 4

/-- Whether a thread has taken a descriptor that it has not yet counted. -/
def Thread.uncounted (thread : Thread) : Nat :=
  match thread.position with
  | .unlocking _ => 1
  | .locking | .testing | .waiting | .woken | .serving _ => 0

/-- The statements that the main thread can execute without another connection,
where a descriptor in the ring lets a thread execute four. -/
def Main.work : Main → Nat
  | .accepting | .quit => 0
  | .unlocking => 1
  | .signalling => 4
  | .storing _ => 9
  | .locking _ => 10

/-- The statements that need no connection and no `Pthread_cond_wait` that returns
without a signal. -/
def Event.Continues : Event → Prop
  | .main | .signal _ | .thread _ => True
  | .accept _ | .wakeup _ => False

namespace Server

/-- A bound of the number of statements that need no connection. -/
def work (s : Server) : Nat :=
  4 * (s.stored - s.taken.length) + s.main.work + total Thread.work s.tptr

/-- What a thread has taken. -/
def takenBy (s : Server) (i : Nat) : List (Nat × Int) :=
  s.taken.filter fun entry => entry.1 = i

/-- The ring: the descriptors that were stored and not taken are in their slots. -/
structure Filled (s : Server) : Prop where
  whole : s.clifd.length = MAXNCLI
  least : s.taken.length ≤ s.stored
  most : s.stored ≤ s.taken.length + MAXNCLI
  room : s.main ≠ .quit → s.stored < s.taken.length + MAXNCLI
  accepted : s.stored + s.main.connfd.toList.length = s.accepted.length
  hand : ∀ connfd ∈ s.main.connfd, s.accepted[s.stored]? = some connfd
  iget : s.iget = s.taken.length % MAXNCLI
  iput : s.iput = s.stored % MAXNCLI
  holds : Ring.Holds MAXNCLI s.clifd s.accepted s.taken.length s.stored
  order : s.taken.map Prod.snd = s.accepted.take s.taken.length

/-- A thread serves the last descriptor that it took, and counts those that it
took. -/
structure Carries (s : Server) (i : Nat) (thread : Thread) : Prop where
  connfd : ∀ connfd ∈ thread.position.connfd, (s.takenBy i).getLast? = some (i, connfd)
  counted : thread.threadCount + thread.uncounted = (s.takenBy i).length

/-- The invariant. -/
structure Consistent (s : Server) : Prop where
  filled : s.Filled
  holders : s.main.holds + total Thread.holds s.tptr = if s.clifdMutex then 1 else 0
  awake : s.stored ≠ s.taken.length → ¬ s.Unsignalled → s.tptr ≠ [] → ¬ s.Blocked
  carries : ∀ i thread, s.tptr[i]? = some thread → s.Carries i thread

section Steps

variable {s t : Server}

/-! ## The ring -/

theorem positive_MAXNCLI : 0 < MAXNCLI :=
  Nat.zero_lt_succ _

/-- An index goes to the slot of the next number. -/
theorem advance_mod (number : Nat) : advance (number % MAXNCLI) = (number + 1) % MAXNCLI :=
  Ring.mod_advance positive_MAXNCLI number

/-- The main thread goes on without touching the descriptors. -/
theorem Filled.main {main : Main} {locked : Bool} {tptr : List Thread} (filled : Filled s)
    (connfd : main.connfd = s.main.connfd) (quit : s.main = .quit → main = .quit) :
    Filled { s with main := main, clifdMutex := locked, tptr := tptr } := by
  have same : stored { s with main := main, clifdMutex := locked, tptr := tptr } = s.stored := by
    simp only [stored, connfd]
  constructor
  · exact filled.whole
  · exact same ▸ filled.least
  · exact same ▸ filled.most
  · intro running
    rw [same]
    exact filled.room fun quitting => running (quit quitting)
  · rw [same]
    simp only [connfd]
    exact filled.accepted
  · rw [same]
    simp only [connfd]
    exact filled.hand
  · exact filled.iget
  · exact same ▸ filled.iput
  · exact same ▸ filled.holds
  · exact filled.order

theorem Filled.taken_le (filled : Filled s) : s.taken.length ≤ s.accepted.length := by
  have least := filled.least
  have accepted := filled.accepted
  omega

theorem Filled.accept {connfd : Int} (filled : Filled s) (accepting : s.main = .accepting) :
    Filled { s with main := .locking connfd, accepted := s.accepted ++ [connfd] } := by
  have before : s.stored = s.accepted.length := by
    simp [stored, accepting, Main.connfd]
  have same : stored { s with main := .locking connfd, accepted := s.accepted ++ [connfd] } =
      s.stored := by
    simp [stored, accepting, Main.connfd]
  have taken_le := filled.taken_le
  constructor
  · exact filled.whole
  · exact same ▸ filled.least
  · exact same ▸ filled.most
  · intro _
    rw [same]
    exact filled.room (by simp [accepting])
  · rw [same, before]
    simp [Main.connfd]
  · rintro _ ⟨⟩
    rw [same, before]
    exact List.getElem?_concat_length
  · exact filled.iget
  · exact same ▸ filled.iput
  · rw [same]
    exact filled.holds.append (Nat.le_of_eq before) _
  · rw [List.take_append_of_le_length taken_le]
    exact filled.order

/-- The indices are equal behind a store exactly when the ring is full. -/
theorem Filled.advance_eq_iff {connfd : Int} (filled : Filled s)
    (storing : s.main = .storing connfd) :
    advance s.iput = s.iget ↔ s.stored + 1 = s.taken.length + MAXNCLI := by
  have least := filled.least
  have room := filled.room (by simp [storing])
  rw [filled.iput, filled.iget, advance_mod,
    Ring.mod_eq_mod_iff positive_MAXNCLI (Nat.le_succ_of_le least) (by omega)]
  omega

theorem Filled.stored_store {connfd : Int} (filled : Filled s)
    (storing : s.main = .storing connfd) :
    stored { s with
      clifd := s.clifd.set s.iput connfd
      iput := advance s.iput
      main := if advance s.iput = s.iget then .quit else .signalling } = s.stored + 1 := by
  have accepted := filled.accepted
  have nothing : (if advance s.iput = s.iget then Main.quit else .signalling).connfd = none := by
    split <;> rfl
  rw [storing] at accepted
  simp only [stored, nothing]
  exact accepted.symm

theorem Filled.store {connfd : Int} (filled : Filled s) (storing : s.main = .storing connfd) :
    Filled { s with
      clifd := s.clifd.set s.iput connfd
      iput := advance s.iput
      main := if advance s.iput = s.iget then .quit else .signalling } := by
  have full := filled.advance_eq_iff storing
  have least := filled.least
  have room := filled.room (by simp [storing])
  have accepted : s.stored + 1 = s.accepted.length := by
    have accepted := filled.accepted
    rw [storing] at accepted
    exact accepted
  have nothing : (if advance s.iput = s.iget then Main.quit else .signalling).connfd = none := by
    split <;> rfl
  have more := filled.stored_store storing
  have found : s.accepted[s.stored]? = some connfd := filled.hand connfd (by rw [storing]; rfl)
  constructor
  · exact (List.length_set ..).trans filled.whole
  · rw [more]
    exact Nat.le_succ_of_le least
  · rw [more]
    exact room
  · intro running
    rw [more]
    have notFull : ¬ advance s.iput = s.iget := by
      intro equal
      exact running (if_pos equal)
    rw [full] at notFull
    simp only
    omega
  · rw [more]
    simp only [nothing]
    exact accepted
  · simp [nothing]
  · exact filled.iget
  · rw [more, ← advance_mod, ← filled.iput]
  · rw [more]
    simp only [filled.iput]
    exact filled.holds.push positive_MAXNCLI filled.whole room found
  · exact filled.order

/-- While the main thread has not quit, equal indices mean that the ring is empty. -/
theorem Filled.empty_iff (filled : Filled s) (running : s.main ≠ .quit) :
    s.iget = s.iput ↔ s.stored = s.taken.length := by
  have room := filled.room running
  rw [eq_comm, filled.iput, filled.iget,
    Ring.mod_eq_mod_iff positive_MAXNCLI filled.least filled.most]
  omega

/-- The slot at `iget` has the next descriptor in the order of acceptance. -/
theorem Filled.take {i : Nat} {connfd : Int} {locked : Bool} {tptr : List Thread}
    (filled : Filled s) (more : s.taken.length < s.stored)
    (read : s.clifd[s.iget]? = some connfd) :
    Filled { s with
      iget := advance s.iget
      taken := s.taken ++ [(i, connfd)]
      clifdMutex := locked
      tptr := tptr } := by
  have most := filled.most
  have room := filled.room
  have found : s.accepted[s.taken.length]? = some connfd := by
    rw [← filled.holds s.taken.length (Nat.le_refl _) more, ← filled.iget]
    exact read
  constructor
  · exact filled.whole
  · rw [List.length_append]
    exact more
  · simp only [List.length_append, List.length_singleton]
    exact Nat.le_trans most (by omega)
  · intro running
    have room := room running
    simp only [List.length_append, List.length_singleton]
    exact Nat.lt_of_lt_of_le room (by omega)
  · exact filled.accepted
  · exact filled.hand
  · simp only [filled.iget, advance_mod, List.length_append, List.length_singleton]
  · exact filled.iput
  · rw [List.length_append]
    exact filled.holds.pop
  · rw [List.map_append, filled.order, List.length_append, List.length_singleton,
      List.take_add_one, found]
    rfl

/-! ## Steps of the main thread -/

/-- A step that moves no thread. -/
theorem Consistent.main (consistent : Consistent s) (filled : Filled t)
    (tptr : t.tptr = s.tptr) (taken : t.taken = s.taken)
    (holders : t.main.holds + (if s.clifdMutex then 1 else 0) =
      s.main.holds + if t.clifdMutex then 1 else 0)
    (awake : t.stored ≠ t.taken.length → ¬ t.Unsignalled → t.tptr ≠ [] → ¬ t.Blocked) :
    Consistent t where
  filled := filled
  holders := by
    have before := consistent.holders
    rw [tptr]
    omega
  awake := awake
  carries i thread running := by
    rw [tptr] at running
    have carries := consistent.carries i thread running
    constructor
    · rw [takenBy, taken]
      exact carries.connfd
    · rw [takenBy, taken]
      exact carries.counted

/-- The mutex is locked while a thread holds it. -/
theorem Consistent.locked (consistent : Consistent s)
    (held : s.main.holds = 1 ∨ ∃ thread ∈ s.tptr, thread.holds = 1) : s.clifdMutex = true := by
  have holders := consistent.holders
  by_contra free
  rw [if_neg free] at holders
  rcases held with holds | ⟨thread, mem, holds⟩
  · omega
  · have le := weight_le_total Thread.holds mem
    omega

/-- A thread that holds the mutex keeps the main thread out. -/
theorem Consistent.main_holds {thread : Thread} (consistent : Consistent s)
    (mem : thread ∈ s.tptr) (holds : thread.holds = 1) : s.main.holds = 0 := by
  have holders := consistent.holders
  have le := weight_le_total Thread.holds mem
  split at holders <;> omega

theorem Consistent.accept {connfd : Int} (consistent : Consistent s)
    (accepting : s.main = .accepting) :
    Consistent { s with main := .locking connfd, accepted := s.accepted ++ [connfd] } := by
  have same : stored { s with main := .locking connfd, accepted := s.accepted ++ [connfd] } =
      s.stored := by
    simp [stored, accepting, Main.connfd]
  apply consistent.main
  · exact consistent.filled.accept accepting
  · rfl
  · rfl
  · simp [accepting, Main.holds]
  · intro pending _
    rw [same] at pending
    apply consistent.awake pending
    simp [Unsignalled, accepting]

theorem Consistent.mainStep (consistent : Consistent s) (step : s.mainStep = some t) :
    Consistent t := by
  unfold Server.mainStep at step
  cases main : s.main with
  | accepting | signalling | quit =>
      rw [main] at step
      cases step
  | locking connfd =>
      simp only [main, Option.ite_none_left_eq_some, Option.some.injEq] at step
      rcases step with ⟨free, rfl⟩
      apply consistent.main
      · apply consistent.filled.main
        · rw [main]
          rfl
        · simp [main]
      · rfl
      · rfl
      · simp [main, free, Main.holds]
      · intro pending _
        apply consistent.awake
        · simpa [stored, main, Main.connfd] using pending
        · simp [Unsignalled, main]
  | storing connfd =>
      simp only [main, Option.some.injEq] at step
      subst step
      apply consistent.main
      · exact consistent.filled.store main
      · rfl
      · rfl
      · simp only [main]
        congr 1
        split <;> rfl
      · intro _ signalled
        refine absurd ?_ signalled
        simp only [Unsignalled]
        split
        · exact .inr rfl
        · exact .inl rfl
  | unlocking =>
      simp only [main, Option.some.injEq] at step
      subst step
      apply consistent.main
      · apply consistent.filled.main
        · rw [main]
          rfl
        · simp [main]
      · rfl
      · rfl
      · simp [main, consistent.locked (.inl (by rw [main]; rfl)), Main.holds]
      · intro pending _
        apply consistent.awake
        · simpa [stored, main, Main.connfd] using pending
        · simp [Unsignalled, main]

end Steps

end Server

end NetPractice.Prethreaded
