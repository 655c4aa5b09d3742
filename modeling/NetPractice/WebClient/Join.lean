import NetPractice.WebClient.Core
import NetPractice.Transition.Core

/-!
# Joining the threads

A thread sets `F_DONE` before it locks the mutex to count itself.  The main thread scans
the flags with the mutex locked, so that it can find the flag of a thread that has still to
lock: then it waits for that thread forever.  In all other runs, every thread is joined
exactly once and the counters are right.
-/

namespace NetPractice.WebClient

open NetPractice.Transition

/-- The thread has not locked the mutex yet. -/
def Thread.HasToLock : Thread → Prop
  | .connecting | .reading | .locking => True
  | .absent | .counting | .unlocking | .returning | .ended => False

instance : ∀ thread : Thread, Decidable thread.HasToLock
  | .connecting | .reading | .locking => isTrue trivial
  | .absent | .counting | .unlocking | .returning | .ended => isFalse id

/-- The main thread has locked the mutex and waits for a thread that has to lock it. -/
def Deadlocked (c : Client) : Prop :=
  ∃ i f, c.main = .joining i ∧ c.ndoneMutex = true ∧ c.file[i]? = some f ∧ f.thread.HasToLock

/-- There is no deadlock, each thread is joined once, and the counters are in their
bounds. -/
structure Correct (c : Client) : Prop where
  live : ¬ Deadlocked c
  once : ∀ f ∈ c.file, f.joins ≤ 1
  all : c.main = .finished → ∀ f ∈ c.file, f.joins = 1
  nconn : 0 ≤ c.nconn ∧ c.nconn ≤ c.maxnconn
  ndone : c.main = .outer → 0 ≤ c.ndone

/-- A thread whose flag the scan finds has locked the mutex before. -/
def LockedBefore (c : Client) (event : Event) : Prop :=
  match event, c.main with
  | .main, .scanning i => ∀ f ∈ c.file[i]?, f.flags = .done → ¬ f.thread.HasToLock
  | _, _ => True

instance (c : Client) (event : Event) : Decidable (LockedBefore c event) := by
  unfold LockedBefore
  split <;> infer_instance

/-! ## What is counted -/

/-- The flags and joins that belong to the state of a thread. -/
def File.Fits (f : File) : Prop :=
  match f.thread with
  | .absent => f.flags = .zero ∧ f.joins = 0
  | .connecting => f.flags = .connecting ∧ f.joins = 0
  | .reading => f.flags = .reading ∧ f.joins = 0
  | .locking | .counting | .unlocking | .returning => f.flags = .done ∧ f.joins = 0
  | .ended => f.flags = .done ∧ f.joins = 0 ∨ f.flags = .joined ∧ f.joins = 1

/-- Is the thread still to be created? -/
def File.isAbsent (f : File) : Nat :=
  if f.thread = .absent then 1 else 0

/-- Has the thread been created, and not joined? -/
def File.isLive (f : File) : Nat :=
  if f.thread ≠ .absent ∧ f.joins = 0 then 1 else 0

/-- Is the thread still to be joined? -/
def File.isUnjoined (f : File) : Nat :=
  if f.joins = 0 then 1 else 0

/-- Does the thread hold the mutex? -/
def File.holds (f : File) : Nat :=
  match f.thread with
  | .counting | .unlocking => 1
  | .absent | .connecting | .reading | .locking | .returning | .ended => 0

/-- Has the thread counted itself, and not been joined? -/
def File.isCounted (f : File) : Nat :=
  match f.thread with
  | .unlocking | .returning | .ended => if f.joins = 0 then 1 else 0
  | .absent | .connecting | .reading | .locking | .counting => 0

/-- Does the main thread hold the mutex? -/
def Main.holds : Main → Nat
  | .testing | .scanning _ | .joining _ | .unlocking => 1
  | .outer | .filling | .locking | .waiting | .finished => 0

namespace Client

variable {c d : Client} {i : Nat} {f : File}

/-- The invariant of the process. -/
structure Consistent (c : Client) : Prop where
  fits : ∀ f ∈ c.file, f.Fits
  mutex : c.main.holds + total File.holds c.file = if c.ndoneMutex then 1 else 0
  nlefttoconn : c.nlefttoconn = total File.isAbsent c.file
  nlefttoread : c.nlefttoread = total File.isUnjoined c.file
  nconn : c.nconn = total File.isLive c.file
  ndone : c.ndone = total File.isCounted c.file
  most : c.nconn ≤ c.maxnconn
  joining : ∀ i, c.main = .joining i →
    ∃ f, c.file[i]? = some f ∧ f.flags = .done ∧ ¬ f.thread.HasToLock
  finished : c.main = .finished → c.nlefttoread = 0

theorem joins_of_fits (fits : f.Fits) : f.joins = 0 ∨ f.joins = 1 := by
  rcases f with ⟨flags, thread, joins⟩
  cases thread with
  | ended => exact fits.imp And.right And.right
  | absent | connecting | reading | locking | counting | unlocking | returning =>
      exact Or.inl fits.2

theorem Consistent.correct (consistent : c.Consistent) : Correct c where
  live := by
    rintro ⟨i, f, main, -, present, hasToLock⟩
    rcases consistent.joining i main with ⟨g, same, -, locked⟩
    obtain rfl := Option.some.inj (present.symm.trans same)
    exact locked hasToLock
  once f mem := by
    rcases joins_of_fits (consistent.fits f mem) with none | one
    · exact none ▸ Nat.zero_le 1
    · exact one ▸ Nat.le_refl 1
  all main f mem := by
    have none := consistent.nlefttoread.symm.trans (consistent.finished main)
    have unjoined := total_eq_zero_iff.mp (Int.ofNat_eq_zero.mp none) f mem
    rcases joins_of_fits (consistent.fits f mem) with none | one
    · rw [File.isUnjoined, if_pos none] at unjoined
      cases unjoined
    · exact one
  nconn := by
    constructor
    · rw [consistent.nconn]
      exact Int.natCast_nonneg _
    · exact consistent.most
  ndone _ := by
    rw [consistent.ndone]
    exact Int.natCast_nonneg _

theorem start_consistent (nfiles : Nat) {maxnconn : Int} (positive : 1 ≤ maxnconn) :
    (start nfiles maxnconn).Consistent where
  fits f mem := by
    rw [List.eq_of_mem_replicate mem]
    exact ⟨rfl, rfl⟩
  mutex := by simp [start, Main.holds, File.holds]
  nlefttoconn := by simp [start, File.isAbsent]
  nlefttoread := by simp [start, File.isUnjoined]
  nconn := by simp [start, File.isLive]
  ndone := by simp [start, File.isCounted]
  most := Int.le_trans Int.one_nonneg positive
  joining i main := by cases main
  finished main := by cases main

/-- The main thread holds the mutex. -/
theorem Consistent.held (consistent : c.Consistent) (holds : c.main.holds = 1) :
    c.ndoneMutex = true := by
  have mutex := consistent.mutex
  rw [holds] at mutex
  by_contra free
  rw [if_neg free] at mutex
  omega

/-- The thread of a file holds the mutex. -/
theorem Consistent.heldByThread (consistent : c.Consistent) (present : c.file[i]? = some f)
    (holds : f.holds = 1) : c.ndoneMutex = true := by
  have mutex := consistent.mutex
  have part := weight_le_total File.holds (List.mem_of_getElem? present)
  by_contra free
  rw [if_neg free] at mutex
  omega

/-! ## Every step keeps the counters -/

/-- An error ends the process. -/
theorem Consistent.quits (consistent : c.Consistent) : Consistent { c with quit := true } :=
  ⟨consistent.fits, consistent.mutex, consistent.nlefttoconn, consistent.nlefttoread,
    consistent.nconn, consistent.ndone, consistent.most, consistent.joining,
    consistent.finished⟩

/-- A step of the main thread that leaves the files alone. -/
theorem Consistent.mainMoves {main : Main} {locked : Bool} (consistent : c.Consistent)
    (mutex : main.holds + (if c.ndoneMutex then 1 else 0) =
      c.main.holds + if locked then 1 else 0)
    (joining : ∀ i, main = .joining i →
      ∃ f, c.file[i]? = some f ∧ f.flags = .done ∧ ¬ f.thread.HasToLock)
    (finished : main = .finished → c.nlefttoread = 0) :
    Consistent { c with ndoneMutex := locked, main := main } where
  fits := consistent.fits
  mutex := by
    have before := consistent.mutex
    dsimp only
    omega
  nlefttoconn := consistent.nlefttoconn
  nlefttoread := consistent.nlefttoread
  nconn := consistent.nconn
  ndone := consistent.ndone
  most := consistent.most
  joining := joining
  finished := finished

/-- A step that changes one file, and the counters as much as its part of them. -/
theorem Consistent.setFile {new : File} (consistent : c.Consistent)
    (present : c.file[i]? = some f) (file : d.file = c.file.set i new) (fits : new.Fits)
    (mutex : d.main.holds + new.holds + (if c.ndoneMutex then 1 else 0) =
      c.main.holds + f.holds + if d.ndoneMutex then 1 else 0)
    (nlefttoconn : d.nlefttoconn + f.isAbsent = c.nlefttoconn + new.isAbsent)
    (nlefttoread : d.nlefttoread + f.isUnjoined = c.nlefttoread + new.isUnjoined)
    (nconn : d.nconn + f.isLive = c.nconn + new.isLive)
    (ndone : d.ndone + f.isCounted = c.ndone + new.isCounted)
    (most : d.nconn ≤ d.maxnconn)
    (joining : ∀ j, d.main = .joining j → c.main = .joining j ∧
      (i = j → f.flags = .done → ¬ f.thread.HasToLock →
        new.flags = .done ∧ ¬ new.thread.HasToLock))
    (unfinished : d.main ≠ .finished) : d.Consistent where
  fits g mem := by
    rw [file] at mem
    rcases List.mem_or_eq_of_mem_set mem with before | rfl
    · exact consistent.fits g before
    · exact fits
  mutex := by
    have before := consistent.mutex
    have changed := total_set File.holds present new
    rw [file]
    omega
  nlefttoconn := by
    rw [file]
    exact eq_total_set consistent.nlefttoconn present nlefttoconn
  nlefttoread := by
    rw [file]
    exact eq_total_set consistent.nlefttoread present nlefttoread
  nconn := by
    rw [file]
    exact eq_total_set consistent.nconn present nconn
  ndone := by
    rw [file]
    exact eq_total_set consistent.ndone present ndone
  most := most
  joining j main := by
    rcases joining j main with ⟨before, kept⟩
    rcases consistent.joining j before with ⟨g, same, done, locked⟩
    rw [file]
    by_cases here : i = j
    · subst here
      obtain rfl := Option.some.inj (present.symm.trans same)
      refine ⟨new, ?_, kept rfl done locked⟩
      exact List.getElem?_set_self (List.getElem?_eq_some_iff.mp present).1
    · refine ⟨g, ?_, done, locked⟩
      exact (List.getElem?_set_ne here).trans same
  finished main := absurd main unfinished

theorem Consistent.create (consistent : c.Consistent) (main : c.main = .filling)
    (more : c.nconn < c.maxnconn) : c.create.Consistent := by
  unfold Client.create
  split
  next => exact consistent.quits
  next i found =>
    rcases List.findIdx?_eq_some_iff_getElem.mp found with ⟨inside, zero, -⟩
    have present := List.getElem?_eq_getElem inside
    have fits := consistent.fits _ (List.getElem_mem inside)
    generalize c.file[i] = f at zero present fits
    rcases f with ⟨flags, thread, joins⟩
    obtain rfl : flags = .zero := of_decide_eq_true zero
    have absent : thread = .absent ∧ joins = 0 := by
      cases thread with
      | absent => exact ⟨rfl, fits.2⟩
      | ended => rcases fits with ⟨flags, -⟩ | ⟨flags, -⟩ <;> cases flags
      | connecting | reading | locking | counting | unlocking | returning => cases fits.1
    rcases absent with ⟨rfl, rfl⟩
    apply consistent.setFile present rfl
    · exact ⟨rfl, rfl⟩
    · rfl
    · change c.nlefttoconn - 1 + 1 = c.nlefttoconn + 0
      omega
    · rfl
    · change c.nconn + 1 + 0 = c.nconn + 1
      omega
    · rfl
    · exact more
    · intro j joining
      rw [main] at joining
      cases joining
    · rw [main]
      exact Main.noConfusion

theorem Consistent.joined (consistent : c.Consistent) (main : c.main = .joining i)
    (present : c.file[i]? = some f) (ended : f.thread = .ended) : (c.joined i f).Consistent := by
  rcases consistent.joining i main with ⟨g, same, done, -⟩
  obtain rfl := Option.some.inj (present.symm.trans same)
  have fits := consistent.fits f (List.mem_of_getElem? present)
  rcases f with ⟨flags, thread, joins⟩
  obtain rfl : thread = .ended := ended
  obtain rfl : flags = .done := done
  have unjoined : joins = 0 := by
    rcases fits with ⟨-, none⟩ | ⟨flags, -⟩
    · exact none
    · cases flags
  subst unjoined
  apply consistent.setFile present rfl
  · exact Or.inr ⟨rfl, rfl⟩
  · rw [main]
    rfl
  · rfl
  · change c.nlefttoread - 1 + 1 = c.nlefttoread + 0
    omega
  · change c.nconn - 1 + 1 = c.nconn + 0
    omega
  · change c.ndone - 1 + 1 = c.ndone + 0
    omega
  · exact Int.le_trans (Int.sub_le_self _ Int.one_nonneg) consistent.most
  · exact fun j joining => by cases joining
  · exact Main.noConfusion

/-- The test of the outer loop; behind it, nothing is left to read. -/
theorem Consistent.tested (consistent : c.Consistent) (main : c.main = .outer) :
    Consistent { c with main := if 0 < c.nlefttoread then .filling else .finished } := by
  apply consistent.mainMoves
  · rw [main]
    split <;> rfl
  · intro i joining
    split at joining <;> cases joining
  · intro finished
    split at finished
    · cases finished
    · have lower := consistent.nlefttoread
      omega

/-- The scan finds a file that is done, or goes on. -/
theorem Consistent.scanned (consistent : c.Consistent) (main : c.main = .scanning i)
    (present : c.file[i]? = some f) (locked : f.flags = .done → ¬ f.thread.HasToLock) :
    Consistent { c with main := if f.flags = .done then .joining i else .scanning (i + 1) } := by
  apply consistent.mainMoves
  · rw [main]
    split <;> rfl
  · intro j joining
    split at joining
    next done =>
      obtain rfl := Main.joining.inj joining
      exact ⟨f, present, done, locked done⟩
    next => cases joining
  · intro finished
    split at finished <;> cases finished

theorem Consistent.mainStep (consistent : c.Consistent) (locked : LockedBefore c .main)
    (step : c.mainStep = some d) : d.Consistent := by
  unfold Client.mainStep at step
  unfold LockedBefore at locked
  cases main : c.main with
  | outer =>
      rw [main] at step
      cases step
      exact consistent.tested main
  | filling =>
      rw [main] at step
      dsimp only at step
      split at step
      next more =>
        cases step
        exact consistent.create main more.1
      next =>
        cases step
        apply consistent.mainMoves
        · rw [main]
          rfl
        · nofun
        · nofun
  | locking | waiting =>
      rw [main] at step
      rcases refused_eq_some_iff.mp step with ⟨free, rfl⟩
      apply consistent.mainMoves
      · rw [main, if_neg free]
        rfl
      · nofun
      · nofun
  | testing =>
      rw [main] at step
      dsimp only at step
      split at step
      next =>
        cases step
        apply consistent.mainMoves
        · rw [main, consistent.held (congrArg Main.holds main)]
          rfl
        · nofun
        · nofun
      next =>
        cases step
        apply consistent.mainMoves
        · rw [main]
          rfl
        · nofun
        · nofun
  | scanning i =>
      rw [main] at step locked
      dsimp only at step
      split at step
      next =>
        cases step
        apply consistent.mainMoves
        · rw [main]
          rfl
        · nofun
        · nofun
      next f present =>
        cases step
        exact consistent.scanned main present (locked f present)
  | joining i =>
      rw [main] at step
      dsimp only at step
      split at step
      next => cases step
      next f present =>
        rcases guarded_eq_some_iff.mp step with ⟨ended, rfl⟩
        exact consistent.joined main present ended
  | unlocking =>
      rw [main] at step
      cases step
      apply consistent.mainMoves
      · rw [main, consistent.held (congrArg Main.holds main)]
        rfl
      · nofun
      · nofun
  | finished =>
      rw [main] at step
      cases step

/-- A step of a thread that leaves the counters alone. -/
theorem Consistent.threadMoves {new : File} {locked : Bool} (consistent : c.Consistent)
    (present : c.file[i]? = some f) (unfinished : c.main ≠ .finished) (fits : new.Fits)
    (mutex : new.holds + (if c.ndoneMutex then 1 else 0) = f.holds + if locked then 1 else 0)
    (created : new.isAbsent = f.isAbsent) (unjoined : new.isUnjoined = f.isUnjoined)
    (live : new.isLive = f.isLive) (counted : new.isCounted = f.isCounted)
    (joining : f.flags = .done → ¬ f.thread.HasToLock →
      new.flags = .done ∧ ¬ new.thread.HasToLock) :
    Consistent { c with ndoneMutex := locked, file := c.file.set i new } := by
  apply consistent.setFile present rfl fits
  · dsimp only
    omega
  · rw [created]
  · rw [unjoined]
  · rw [live]
  · rw [counted]
  · exact consistent.most
  · exact fun j waits => ⟨waits, fun _ => joining⟩
  · exact unfinished

theorem Consistent.threadStep (consistent : c.Consistent) (present : c.file[i]? = some f)
    (unfinished : c.main ≠ .finished) (step : c.threadStep i f = some d) : d.Consistent := by
  have fits := consistent.fits f (List.mem_of_getElem? present)
  have held := consistent.heldByThread present
  unfold Client.threadStep at step
  rcases f with ⟨flags, thread, joins⟩
  cases thread with
  | absent | ended => cases step
  | connecting | reading =>
      cases step
      obtain rfl : joins = 0 := fits.2
      apply consistent.threadMoves present unfinished
      · exact ⟨rfl, fits.2⟩
      · rfl
      · rfl
      · rfl
      · rfl
      · rfl
      · exact fun _ locked => absurd trivial locked
  | locking =>
      rcases refused_eq_some_iff.mp step with ⟨free, rfl⟩
      obtain rfl : joins = 0 := fits.2
      apply consistent.threadMoves present unfinished
      · exact fits
      · rw [if_neg free]
        rfl
      · rfl
      · rfl
      · rfl
      · rfl
      · exact fun _ locked => absurd trivial locked
  | counting =>
      cases step
      obtain rfl : joins = 0 := fits.2
      apply consistent.setFile present rfl
      · exact fits
      · rfl
      · rfl
      · rfl
      · rfl
      · change c.ndone + 1 + 0 = c.ndone + 1
        omega
      · exact consistent.most
      · exact fun j waits => ⟨waits, fun _ done _ => ⟨done, id⟩⟩
      · exact unfinished
  | unlocking =>
      cases step
      obtain rfl : joins = 0 := fits.2
      apply consistent.threadMoves present unfinished
      · exact fits
      · rw [held rfl]
        rfl
      · rfl
      · rfl
      · rfl
      · rfl
      · exact fun done _ => ⟨done, id⟩
  | returning =>
      cases step
      obtain rfl : joins = 0 := fits.2
      apply consistent.threadMoves present unfinished
      · exact Or.inl fits
      · rfl
      · rfl
      · rfl
      · rfl
      · rfl
      · exact fun done _ => ⟨done, id⟩

theorem Consistent.next {event : Event} (consistent : c.Consistent)
    (locked : LockedBefore c event) (step : c.next event = some d) : d.Consistent := by
  unfold Client.next at step
  rcases Option.ite_none_left_eq_some.mp step with ⟨running, taken⟩
  cases event with
  | main => exact consistent.mainStep locked taken
  | thread i =>
      rcases Option.bind_eq_some_iff.mp taken with ⟨f, present, moved⟩
      exact consistent.threadStep present (fun finished => running (Or.inr finished)) moved
  | createFails =>
      rcases guarded_eq_some_iff.mp taken with ⟨main, rfl⟩
      exact consistent.quits
  | threadFails i =>
      dsimp only at taken
      split at taken
      next =>
        cases taken
        exact consistent.quits
      next =>
        cases taken
        exact consistent.quits
      next => cases taken

/-- A scan that finds the flag of a thread that has to lock the mutex waits for it. -/
theorem Consistent.loses {event : Event} (consistent : c.Consistent)
    (early : ¬ LockedBefore c event) (step : c.next event = some d) : ¬ Correct d := by
  intro correct
  apply early
  unfold LockedBefore
  split
  next event i main =>
    intro f present done
    unfold Client.next at step
    rcases Option.ite_none_left_eq_some.mp step with ⟨running, taken⟩
    intro hasToLock
    unfold Client.mainStep at taken
    rw [main] at taken
    dsimp only at taken
    rw [Option.mem_def.mp present] at taken
    cases taken
    apply correct.live
    exact ⟨i, f, if_pos done, consistent.held (congrArg Main.holds main), present, hasToLock⟩
  next => trivial

end Client

/-- For any number of files, any `maxnconn` of at least 1 and every interleaving: there is
no deadlock, every thread is joined once and the counters are right, exactly if each scan
that finds `F_DONE` finds that the thread has locked the mutex before. -/
theorem webClient_along_iff_lockedBefore (nfiles : Nat) {maxnconn : Int}
    (positive : 1 ≤ maxnconn) {events : List Event} {c : Client}
    (finished : run Client.next (Client.start nfiles maxnconn) events = some c) :
    Along Client.next Correct (Client.start nfiles maxnconn) events ↔
      Meets Client.next LockedBefore (Client.start nfiles maxnconn) events :=
  along_iff_meets (fun _ _ _ consistent locked step => consistent.next locked step)
    (fun _ consistent => consistent.correct)
    (fun _ _ _ consistent early step => consistent.loses early step)
    (Client.start_consistent nfiles positive) finished

/-- Two files with one connection: the scan finds one flag in each round, behind the
`unlock` of its thread. -/
def oneByOne : List Event :=
  [.main, .main, .main, .main, .thread 0, .thread 0, .main, .thread 0, .thread 0, .thread 0,
    .thread 0, .main, .main, .main, .main, .main, .main, .main, .main, .main, .thread 1,
    .thread 1, .thread 1, .thread 1, .thread 1, .thread 1, .main, .main, .main, .main, .main,
    .main, .main, .main, .main]

theorem webClient_along_oneByOne :
    Along Client.next Correct (Client.start 2 1) oneByOne := by
  have finishes : (run Client.next (Client.start 2 1) oneByOne).map Client.main =
      some .finished := by
    decide +kernel
  rcases Option.map_eq_some_iff.mp finishes with ⟨c, finished, -⟩
  exact (webClient_along_iff_lockedBefore 2 (Int.le_refl 1) finished).mpr (by decide +kernel)

/-- Two files with two connections: the first thread ends, the second one sets its flag, and
then the main thread wakes up and scans. -/
def flagBeforeLock : List Event :=
  [.main, .main, .main, .main, .main, .main, .thread 0, .thread 0, .thread 0, .thread 0,
    .thread 0, .thread 0, .thread 1, .thread 1, .main, .main, .main, .main, .main]

/-- The main thread waits for the second thread, which waits for the mutex: no step is
left. -/
theorem flagBeforeLock_deadlocks :
    (run Client.next (Client.start 2 2) flagBeforeLock).map
        (fun c => (c.main, c.ndoneMutex, c.file[1]?)) =
      some (.joining 1, true, some ⟨.done, .locking, 0⟩) ∧
    ((run Client.next (Client.start 2 2) flagBeforeLock).bind fun c => c.next .main) = none ∧
    ((run Client.next (Client.start 2 2) flagBeforeLock).bind fun c => c.next (.thread 1)) =
      none ∧
    ¬ Along Client.next Correct (Client.start 2 2) flagBeforeLock := by
  have outcome : (run Client.next (Client.start 2 2) flagBeforeLock).map
      (fun c => (c.main, c.ndoneMutex, c.file[1]?)) =
        some (.joining 1, true, some ⟨.done, .locking, 0⟩) := by
    decide +kernel
  refine ⟨outcome, by decide +kernel, by decide +kernel, fun along => ?_⟩
  rcases Option.map_eq_some_iff.mp outcome with ⟨c, finished, fields⟩
  rcases Prod.mk.inj fields with ⟨main, rest⟩
  rcases Prod.mk.inj rest with ⟨locked, waiting⟩
  exact (along.last finished).live ⟨1, _, main, locked, waiting, trivial⟩

end NetPractice.WebClient
