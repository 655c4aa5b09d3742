import NetPractice.Memory.KeySet
import NetPractice.NonblockClient.Core
import NetPractice.Transition.Core
import NetPractice.Transition.Threads

/-!
# The counters and sets of the web client

Three counters and two sets are kept beside the flags of the files.  At each call of
`Select` they agree with the flags, in whatever order connects are established and
descriptors end; so there is a file to connect to when one is looked for, and a descriptor
to wait for while files are left.
-/

namespace NetPractice.NonblockClient

open NetPractice.Memory
open NetPractice.Socket
open NetPractice.Transition

/-! ## What is counted -/

/-- Has the file a connection? -/
def File.isOpen (f : File) : Nat :=
  if f.Open then 1 else 0

/-- Is the file still without one? -/
def File.isZero (f : File) : Nat :=
  if f.flags = .zero then 1 else 0

/-- Is the file still to be read? -/
def File.isLeft (f : File) : Nat :=
  if f.flags ≠ .done then 1 else 0

/-- The connection of the file is not yet established. -/
def File.Connecting (f : File) : Prop :=
  f.flags = .connecting

/-- The main loop is at its call of `Select`. -/
def AtSelect (c : Client) : Prop :=
  c.phase = .filling ∧ ¬ c.MayConnect

/-- The counters are the numbers of files with such flags, the sets have the descriptors of
files with such flags, and there is something to wait for. -/
structure Bookkept (c : Client) : Prop where
  nconn : c.nconn = total File.isOpen c.file
  most : c.nconn ≤ c.maxnconn
  nlefttoconn : c.nlefttoconn = total File.isZero c.file
  nlefttoread : c.nlefttoread = total File.isLeft c.file
  distinct : DistinctKeys File.Open File.fd c.file
  rset : ∀ fd, fd ∈ c.rset ↔ ∃ f ∈ c.file, f.Open ∧ f.fd = fd
  wset : ∀ fd, fd ∈ c.wset ↔ ∃ f ∈ c.file, f.Connecting ∧ f.fd = fd
  maxfd : ∀ fd ∈ c.rset, fd ≤ c.maxfd
  nonempty : c.rset.Nonempty

/-- The program has not quit, and its books are right at `Select`. -/
structure Correct (c : Client) : Prop where
  running : c.phase ≠ .quit
  select : AtSelect c → Bookkept c

namespace Client

variable {c d : Client} {i : Nat} {f new : File} {fd : Fd} {rs ws : Finset Fd}

/-- The counters are right. -/
structure Counted (c : Client) : Prop where
  nconn : c.nconn = total File.isOpen c.file
  nlefttoconn : c.nlefttoconn = total File.isZero c.file
  nlefttoread : c.nlefttoread = total File.isLeft c.file

/-- The sets are right. -/
structure Watched (c : Client) : Prop where
  distinct : DistinctKeys File.Open File.fd c.file
  rset : Mirrors c.rset File.Open File.fd c.file
  wset : Mirrors c.wset File.Connecting File.fd c.file
  maxfd : ∀ fd ∈ c.rset, fd ≤ c.maxfd

/-- The invariant of the main loop. -/
structure Consistent (c : Client) : Prop where
  counted : c.Counted
  watched : c.Watched
  most : c.nconn ≤ c.maxnconn
  positive : 1 ≤ c.maxnconn
  running : c.phase ≠ .quit
  filling : c.phase = .filling → 0 < c.nlefttoread

/-! ## One file changes -/

/-- The counters change as much as the part of the file in them. -/
theorem Counted.set (counted : c.Counted) (present : c.file[i]? = some f)
    (file : d.file = c.file.set i new) (nconn : d.nconn + f.isOpen = c.nconn + new.isOpen)
    (nlefttoconn : d.nlefttoconn + f.isZero = c.nlefttoconn + new.isZero)
    (nlefttoread : d.nlefttoread + f.isLeft = c.nlefttoread + new.isLeft) : d.Counted where
  nconn := by
    rw [file]
    exact eq_total_set counted.nconn present nconn
  nlefttoconn := by
    rw [file]
    exact eq_total_set counted.nlefttoconn present nlefttoconn
  nlefttoread := by
    rw [file]
    exact eq_total_set counted.nlefttoread present nlefttoread

theorem le_maxfd_insert (bound : ∀ other ∈ c.rset, other ≤ c.maxfd) :
    ∀ other ∈ insert fd c.rset, other ≤ if fd > c.maxfd then fd else c.maxfd := by
  intro other mem
  rcases Finset.mem_insert.mp mem with rfl | old
  · split_ifs with larger
    · exact le_rfl
    · exact Int.not_lt.mp larger
  · split_ifs with larger
    · exact Int.le_trans (bound other old) (Int.le_of_lt larger)
    · exact bound other old

/-- A descriptor that is new, for a file that had none. -/
theorem Watched.startConnect (watched : c.Watched) (present : c.file[i]? = some f)
    (zero : f.flags = .zero) (fresh : ∀ f ∈ c.file, f.Open → f.fd ≠ fd) (established : Bool) :
    (c.startConnect i fd established).Watched := by
  have closed : ¬ f.Open := by
    rintro (flags | flags) <;> rw [zero] at flags <;> cases flags
  have notConnecting : ¬ f.Connecting := fun flags => closed (Or.inl flags)
  have distinct {flags : Flags} : DistinctKeys File.Open File.fd (c.file.set i ⟨fd, flags⟩) :=
    watched.distinct.set present fun _ other elsewhere isOpen => fresh other elsewhere.mem isOpen
  cases established with
  | false =>
      exact ⟨distinct,
        watched.rset.insert (b := File.mk fd .connecting) present closed (Or.inl rfl),
        watched.wset.insert (b := File.mk fd .connecting) present notConnecting rfl,
        le_maxfd_insert watched.maxfd⟩
  | true =>
      refine ⟨distinct, watched.rset.insert (b := File.mk fd .reading) present closed (Or.inr rfl),
        watched.wset.keep present fun k => ?_, le_maxfd_insert watched.maxfd⟩
      refine iff_of_false (fun both => notConnecting both.1) ?_
      rintro ⟨flags, _⟩
      cases flags

/-- A connect is established: the descriptor stays in one set and leaves the other. -/
theorem Watched.established (watched : c.Watched) (present : c.file[i]? = some ⟨fd, .connecting⟩) :
    ({ c with wset := c.wset.erase fd }.writeGetCmd i fd).Watched where
  distinct := by
    refine watched.distinct.set present fun _ other elsewhere isOpen => ?_
    exact watched.distinct.ne present (Or.inl rfl) elsewhere isOpen
  rset := by
    have member : fd ∈ c.rset :=
      (watched.rset fd).mpr ⟨_, List.mem_of_getElem? present, Or.inl rfl, rfl⟩
    have kept : Mirrors c.rset File.Open File.fd (c.file.set i ⟨fd, .reading⟩) :=
      watched.rset.keep present fun k =>
        and_congr_left fun _ => iff_of_true (Or.inl rfl) (Or.inr rfl)
    change Mirrors (insert fd c.rset) _ _ _
    rw [Finset.insert_eq_of_mem member]
    exact kept
  wset := watched.wset.erase (watched.distinct.mono fun _ => Or.inl) present rfl fun flags => by
    cases flags
  maxfd := le_maxfd_insert watched.maxfd

theorem Watched.endOfFile (watched : c.Watched) (present : c.file[i]? = some ⟨fd, .reading⟩) :
    (c.endOfFile i ⟨fd, .reading⟩).Watched where
  distinct := by
    refine watched.distinct.set present fun isOpen => ?_
    rcases isOpen with flags | flags <;> cases flags
  rset := by
    refine watched.rset.erase watched.distinct present (Or.inr rfl) ?_
    rintro (flags | flags) <;> cases flags
  wset := by
    refine watched.wset.keep present fun k => iff_of_false ?_ ?_
    · rintro ⟨flags, _⟩
      cases flags
    · rintro ⟨flags, _⟩
      cases flags
  maxfd other mem := watched.maxfd other (Finset.mem_of_mem_erase mem)

/-! ## The steps of the main loop -/

/-- Whether a connect is established at once makes no difference to the counters. -/
theorem startConnect_file (established : Bool) : ∃ new : File, new.Open ∧
    (c.startConnect i fd established).file = c.file.set i new := by
  cases established with
  | false => exact ⟨⟨fd, .connecting⟩, Or.inl rfl, rfl⟩
  | true => exact ⟨⟨fd, .reading⟩, Or.inr rfl, rfl⟩

theorem startConnect_others (established : Bool) :
    let started := c.startConnect i fd established
    started.maxnconn = c.maxnconn ∧ started.nconn = c.nconn ∧
      started.nlefttoconn = c.nlefttoconn ∧ started.nlefttoread = c.nlefttoread ∧
      started.phase = c.phase := by
  cases established <;> exact ⟨rfl, rfl, rfl, rfl, rfl⟩

/-- The weights of a file with an open descriptor. -/
theorem weights_of_open (isOpen : f.Open) : f.isOpen = 1 ∧ f.isZero = 0 ∧ f.isLeft = 1 := by
  rcases f with ⟨fd, flags⟩
  rcases isOpen with flags | flags <;> obtain rfl := flags <;> exact ⟨rfl, rfl, rfl⟩

/-- There is a file to connect to, as long as some are left. -/
theorem Counted.exists_zero (counted : c.Counted) (left : 0 < c.nlefttoconn) :
    ∃ i f, c.file.findIdx? (fun f => f.flags = .zero) = some i ∧ c.file[i]? = some f ∧
      f.flags = .zero := by
  have positive : 0 < total File.isZero c.file := by
    have count := counted.nlefttoconn
    omega
  rcases exists_of_total_pos positive with ⟨j, f, present, weight⟩
  have zero : f.flags = .zero := by
    by_contra other
    rw [File.isZero, if_neg other] at weight
    exact absurd weight (Nat.lt_irrefl 0)
  have some : (c.file.findIdx? fun f => f.flags = .zero).isSome := by
    rw [List.findIdx?_isSome, List.any_eq_true]
    exact ⟨f, List.mem_of_getElem? present, decide_eq_true zero⟩
  rcases Option.isSome_iff_exists.mp some with ⟨i, found⟩
  rcases List.findIdx?_eq_some_iff_getElem.mp found with ⟨inside, first, -⟩
  exact ⟨i, c.file[i], found, List.getElem?_eq_getElem inside, of_decide_eq_true first⟩

theorem Consistent.connect (consistent : c.Consistent) (may : c.MayConnect)
    (fresh : ∀ f ∈ c.file, f.Open → f.fd ≠ fd) (established : Bool) :
    (c.connect fd established).Consistent := by
  rcases consistent.counted.exists_zero may.2 with ⟨i, f, found, present, zero⟩
  rcases @startConnect_file c i fd established with ⟨new, isOpen, file⟩
  rcases @startConnect_others c i fd established with
    ⟨maxnconn, nconn, nlefttoconn, nlefttoread, phase⟩
  have watched := consistent.watched.startConnect present zero fresh established
  rcases weights_of_open isOpen with ⟨newOpen, newZero, newLeft⟩
  have weights : f.isOpen = 0 ∧ f.isZero = 1 ∧ f.isLeft = 1 := by
    rcases f with ⟨_, flags⟩
    obtain rfl : flags = .zero := zero
    exact ⟨rfl, rfl, rfl⟩
  rcases weights with ⟨wasOpen, wasZero, wasLeft⟩
  unfold Client.connect
  rw [found]
  dsimp only
  constructor
  · refine consistent.counted.set present (show _ = c.file.set i new from file) ?_ ?_ ?_
    · dsimp only
      rw [nconn, newOpen, wasOpen]
      omega
    · dsimp only
      rw [nlefttoconn, newZero, wasZero]
      omega
    · dsimp only
      rw [nlefttoread, newLeft, wasLeft]
  · exact ⟨watched.distinct, watched.rset, watched.wset, watched.maxfd⟩
  · dsimp only
    rw [nconn, maxnconn]
    exact may.1
  · exact maxnconn ▸ consistent.positive
  · exact phase ▸ consistent.running
  · intro filling
    exact nlefttoread ▸ consistent.filling (phase ▸ filling)

/-- A change of the place in the main loop. -/
theorem Consistent.moves {phase : Phase} (consistent : c.Consistent) (running : phase ≠ .quit)
    (filling : phase = .filling → 0 < c.nlefttoread) :
    Consistent { c with phase := phase } :=
  ⟨⟨consistent.counted.nconn, consistent.counted.nlefttoconn, consistent.counted.nlefttoread⟩,
    ⟨consistent.watched.distinct, consistent.watched.rset, consistent.watched.wset,
      consistent.watched.maxfd⟩,
    consistent.most, consistent.positive, running, filling⟩

/-- The visit of a file in the scan; the place in the main loop is changed behind it. -/
theorem Consistent.visitFile (consistent : c.Consistent) (present : c.file[i]? = some f)
    (scanning : c.phase ≠ .filling) (eof : Bool) :
    (c.visitFile i rs ws f eof).Consistent := by
  rcases f with ⟨fd, flags⟩
  unfold Client.visitFile
  cases flags with
  | zero | done => exact consistent
  | connecting =>
      dsimp only
      split_ifs with ready
      · refine ⟨?_, consistent.watched.established present, consistent.most, consistent.positive,
          consistent.running, fun filling => absurd filling scanning⟩
        exact consistent.counted.set present rfl rfl rfl rfl
      · exact consistent
  | reading =>
      dsimp only
      split_ifs with ended
      · refine ⟨?_, consistent.watched.endOfFile present, ?_, consistent.positive,
          consistent.running, fun filling => absurd filling scanning⟩
        · refine consistent.counted.set present rfl ?_ rfl ?_
          · change c.nconn - 1 + 1 = c.nconn + 0
            omega
          · change c.nlefttoread - 1 + 1 = c.nlefttoread + 0
            omega
        · exact Int.le_trans (Int.sub_le_self _ Int.one_nonneg) consistent.most
      · exact consistent

theorem Consistent.visit (consistent : c.Consistent) (phase : c.phase = .scanning i rs ws)
    (eof : Bool) : (c.visit i rs ws eof).Consistent := by
  unfold Client.visit
  cases present : c.file[i]? with
  | none =>
      dsimp only
      split_ifs with left
      · exact consistent.moves Phase.noConfusion fun _ => left
      · exact consistent.moves Phase.noConfusion Phase.noConfusion
  | some f =>
      have scanning : c.phase ≠ .filling := by
        rw [phase]
        exact Phase.noConfusion
      exact (consistent.visitFile present scanning eof).moves Phase.noConfusion Phase.noConfusion

theorem preserves_consistent : Preserves next (fun _ _ => True) Consistent := by
  intro c event d consistent _ step
  unfold Client.next at step
  split at step
  next fd established _ =>
    rcases guarded_eq_some_iff.mp step with ⟨⟨may, _, fresh⟩, rfl⟩
    exact consistent.connect may fresh established
  next rs ws _ =>
    rcases guarded_eq_some_iff.mp step with ⟨_, rfl⟩
    exact consistent.moves Phase.noConfusion Phase.noConfusion
  next eof i rs ws scanning =>
    cases step
    exact consistent.visit scanning eof
  next => cases step

theorem start_consistent (nfiles : Nat) {maxnconn : Int} (positive : 1 ≤ maxnconn) :
    (start nfiles maxnconn).Consistent where
  counted := by
    constructor <;> simp [start, File.isOpen, File.isZero, File.isLeft, File.Open]
  watched := by
    have closed : ∀ f ∈ (start nfiles maxnconn).file, ¬ f.Open := by
      intro f mem
      rw [List.eq_of_mem_replicate mem]
      decide
    refine ⟨?_, ?_, ?_, ?_⟩
    · intro i j f g first second isOpen
      exact absurd isOpen (closed f (List.mem_of_getElem? first))
    · intro fd
      refine iff_of_false (Finset.notMem_empty fd) ?_
      rintro ⟨f, mem, isOpen, _⟩
      exact closed f mem isOpen
    · intro fd
      refine iff_of_false (Finset.notMem_empty fd) ?_
      rintro ⟨f, mem, connecting, _⟩
      exact closed f mem (Or.inl connecting)
    · intro fd mem
      exact absurd mem (Finset.notMem_empty fd)
  most := Int.le_trans Int.one_nonneg positive
  positive := positive
  running := by
    unfold start
    dsimp only
    split_ifs <;> exact Phase.noConfusion
  filling phase := by
    unfold start at phase ⊢
    dsimp only at phase ⊢
    split_ifs at phase with some
    omega

/-! ## At `Select` -/

/-- Behind the loop that starts connects, some descriptor is open: there are as many as
there may be, or all files that are left have one. -/
theorem Consistent.exists_open (consistent : c.Consistent) (select : AtSelect c) :
    ∃ f ∈ c.file, f.Open := by
  rcases select with ⟨phase, full⟩
  have counted := consistent.counted
  have positive := consistent.positive
  have left := consistent.filling phase
  by_cases more : c.nconn < c.maxnconn
  · have none : total File.isZero c.file = 0 := by
      have zero := counted.nlefttoconn
      have exhausted : ¬ 0 < c.nlefttoconn := fun some => full ⟨more, some⟩
      omega
    have some : 0 < total File.isLeft c.file := by
      have count := counted.nlefttoread
      omega
    rcases exists_of_total_pos some with ⟨i, f, present, weight⟩
    have mem := List.mem_of_getElem? present
    have started := total_eq_zero_iff.mp none f mem
    refine ⟨f, mem, ?_⟩
    rcases f with ⟨fd, flags⟩
    cases flags with
    | zero => cases started
    | connecting => exact Or.inl rfl
    | reading => exact Or.inr rfl
    | done => cases weight
  · have some : 0 < total File.isOpen c.file := by
      have count := counted.nconn
      omega
    rcases exists_of_total_pos some with ⟨i, f, present, weight⟩
    refine ⟨f, List.mem_of_getElem? present, ?_⟩
    by_contra closed
    rw [File.isOpen, if_neg closed] at weight
    exact absurd weight (Nat.lt_irrefl 0)

theorem Consistent.correct (consistent : c.Consistent) : Correct c where
  running := consistent.running
  select atSelect := {
    nconn := consistent.counted.nconn
    most := consistent.most
    nlefttoconn := consistent.counted.nlefttoconn
    nlefttoread := consistent.counted.nlefttoread
    distinct := consistent.watched.distinct
    rset := consistent.watched.rset
    wset := consistent.watched.wset
    maxfd := consistent.watched.maxfd
    nonempty := by
      rcases consistent.exists_open atSelect with ⟨f, mem, isOpen⟩
      exact ⟨f.fd, (consistent.watched.rset f.fd).mpr ⟨f, mem, isOpen, rfl⟩⟩ }

end Client

/-- Along every run, with any number of files and room for at least one connection, the
program does not quit, and at each call of `Select` its books are right. -/
theorem connections_along (nfiles : Nat) (maxnconn : Int) (positive : 1 ≤ maxnconn)
    (events : List Event) : Along Client.next Correct (Client.start nfiles maxnconn) events :=
  (Client.preserves_consistent.along (Client.start_consistent nfiles positive) meets_true).mono
    fun _ consistent => consistent.correct

/-- Two connections at a time for three files: one of them is established at once, and its
descriptor is used again. -/
def threeFiles : List Event :=
  [.connect 5 false, .connect 6 true, .select {6} {5}, .visit false, .visit true, .visit false,
    .visit false, .connect 6 false]

theorem connections_along_threeFiles :
    (run Client.next (Client.start 3 2) threeFiles).isSome ∧ (1 : Int) ≤ 2 ∧
      Along Client.next Correct (Client.start 3 2) threeFiles :=
  ⟨by decide +kernel, by decide, connections_along 3 2 (by decide) threeFiles⟩

end NetPractice.NonblockClient
