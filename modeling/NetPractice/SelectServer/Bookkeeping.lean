import NetPractice.SelectServer.Core
import NetPractice.Transition.Loops

/-!
# The client table and the descriptor set

At every call of `Select`, the descriptor set is the listening socket and the clients of the
table, and the two maxima bound what is in use.  `nready` begins at the number of reported
descriptors, so the loop over the clients ends behind the last reported one, or later.
-/

namespace NetPractice.SelectServer

open NetPractice.Memory
open NetPractice.Socket
open NetPractice.Transition

namespace Server

/-- The descriptors, the table and the maxima agree. -/
structure Tabled (s : Server) : Prop where
  allset : ∀ fd, fd ∈ s.allset ↔ fd = s.listenfd ∨ InUse FD_SETSIZE s.client fd
  distinct : Distinct FD_SETSIZE s.client
  maxi : Within FD_SETSIZE s.client s.maxi
  maxfd : ∀ fd ∈ s.allset, fd ≤ s.maxfd
  setsize : ∀ fd ∈ s.allset, fd < FD_SETSIZE

/-- The table at a call of `Select`; and in the round that ends there, every client that was
reported has been read exactly once, and no other. -/
structure Bookkept (s : Server) : Prop extends Tabled s where
  read : ∀ fd ∈ s.rset, fd ≠ s.listenfd → s.reads.count fd = 1
  reported : ∀ fd ∈ s.reads, fd ∈ s.rset ∧ fd ≠ s.listenfd

/-- The listening socket is no client, and the last index in use is one of the table. -/
structure Aligned (s : Server) : Prop extends Tabled s where
  listen : ¬ InUse FD_SETSIZE s.client s.listenfd
  last : s.maxi < FD_SETSIZE

section Steps

variable {s t : Server} {round : Round} {i j : Nat} {fd : Fd}

theorem Aligned.listen_ne (aligned : Aligned s) (below : i < FD_SETSIZE)
    (used : 0 ≤ s.client i) : s.client i ≠ s.listenfd :=
  fun equal => aligned.listen (equal ▸ inUse_slot below used)

/-! ## A new client -/

/-- The connection gets an available entry. -/
theorem Aligned.accept (aligned : Aligned s) (fresh : fd ∉ s.allset) (nonneg : 0 ≤ fd)
    (below : fd < FD_SETSIZE) (accepted : s.accept fd = some t) : Aligned t := by
  rcases Option.map_eq_some_iff.mp accepted with ⟨k, found, rfl⟩
  rcases firstFree_spec found with ⟨inside, free⟩
  have notListen : fd ≠ s.listenfd := fun equal => fresh ((aligned.allset fd).mpr (.inl equal))
  have notUsed : ¬ InUse FD_SETSIZE s.client fd := fun inUse =>
    fresh ((aligned.allset fd).mpr (.inr inUse))
  constructor
  · constructor
    · intro fd'
      dsimp only
      rw [Finset.mem_insert, aligned.allset fd', inUse_occupy inside free nonneg]
      exact or_left_comm
    · exact aligned.distinct.occupy nonneg notUsed
    · exact aligned.maxi.occupy
    · intro fd' mem
      dsimp only at mem ⊢
      rcases Finset.mem_insert.mp mem with rfl | old
      · split
        next => exact le_refl _
        next less => exact Int.not_lt.mp less
      · have bound := aligned.maxfd fd' old
        split
        next more => exact bound.trans (le_of_lt more)
        next => exact bound
    · intro fd' mem
      rcases Finset.mem_insert.mp mem with rfl | old
      · exact below
      · exact aligned.setsize fd' old
  · dsimp only
    rw [inUse_occupy inside free nonneg]
    rintro (same | old)
    · exact notListen same.symm
    · exact aligned.listen old
  · exact last_occupy aligned.last inside

/-! ## A reported client -/

/-- Only a client that is read in this call, and has closed, leaves the table. -/
theorem Aligned.handle (aligned : Aligned s) (inside : i < FD_SETSIZE) (used : 0 ≤ s.client i) :
    Aligned (s.handle round i) := by
  unfold Server.handle
  dsimp only
  split
  · constructor
    · constructor
      · intro fd
        dsimp only
        rw [Finset.mem_erase, aligned.allset fd, inUse_vacate aligned.distinct inside used]
        constructor
        · rintro ⟨ne, same | inUse⟩
          · exact .inl same
          · exact .inr ⟨ne, inUse⟩
        · rintro (rfl | ⟨ne, inUse⟩)
          · exact ⟨(aligned.listen_ne inside used).symm, .inl rfl⟩
          · exact ⟨ne, .inr inUse⟩
      · exact aligned.distinct.vacate
      · exact aligned.maxi.vacate
      · intro fd mem
        exact aligned.maxfd fd (Finset.mem_of_mem_erase mem)
      · intro fd mem
        exact aligned.setsize fd (Finset.mem_of_mem_erase mem)
    · dsimp only
      rw [inUse_vacate aligned.distinct inside used]
      exact fun inUse => aligned.listen inUse.2
    · exact aligned.last
  · exact ⟨⟨aligned.allset, aligned.distinct, aligned.maxi, aligned.maxfd, aligned.setsize⟩,
      aligned.listen, aligned.last⟩

/-- What the call leaves as it is. -/
theorem handle_frame (round : Round) (s : Server) (i : Nat) :
    (s.handle round i).rset = s.rset ∧ (s.handle round i).listenfd = s.listenfd ∧
      (s.handle round i).reads = s.reads ++ [s.client i] ∧
      ∀ j, j ≠ i → (s.handle round i).client j = s.client j := by
  unfold Server.handle
  dsimp only
  split
  · exact ⟨rfl, rfl, rfl, fun j ne => Function.update_of_ne ne (-1) s.client⟩
  · exact ⟨rfl, rfl, rfl, fun _ _ => rfl⟩

/-! ## The loop over the clients -/

/-- A client of the table that was reported. -/
def Reported (s : Server) (i : Nat) : Prop :=
  0 ≤ s.client i ∧ s.client i ∈ s.rset

instance (s : Server) : DecidablePred s.Reported :=
  fun _ => inferInstanceAs (Decidable (_ ∧ _))

/-- The loop of the program is one that counts `nready` down. -/
theorem checkClients_eq_countdown (round : Round) (nready : Int) (items : List Nat) (s : Server) :
    checkClients round nready items s =
      countdown (· ≤ 0) Reported (handle round) nready items s := by
  induction items generalizing nready s with
  | nil => rfl
  | cons i items ih =>
      rw [checkClients, countdown]
      by_cases unused : s.client i < 0
      · have notReported : ¬ s.Reported i := fun reported =>
          absurd reported.1 (Int.not_le.mpr unused)
        rw [if_neg notReported]
        exact (if_pos unused).trans (ih nready s)
      · refine (if_neg unused).trans ?_
        by_cases inSet : s.client i ∈ s.rset
        · have reported : s.Reported i := ⟨Int.not_lt.mp unused, inSet⟩
          rw [if_pos inSet, if_pos reported, ih]
        · have notReported : ¬ s.Reported i := fun reported => inSet reported.2
          rw [if_neg inSet, if_neg notReported, ih]

theorem separate_handle (round : Round) : Separate Reported (handle round) := by
  intro s i j ne
  rcases handle_frame round s i with ⟨rset_eq, -, -, same⟩
  unfold Reported
  rw [rset_eq, same j ne]

theorem foldl_handle_frame (round : Round) {items : List Nat} (nodup : items.Nodup) (s : Server) :
    (items.foldl (handle round) s).rset = s.rset ∧
      (items.foldl (handle round) s).listenfd = s.listenfd ∧
      (items.foldl (handle round) s).reads = s.reads ++ items.map s.client := by
  induction items generalizing s with
  | nil => exact ⟨rfl, rfl, (List.append_nil _).symm⟩
  | cons i items ih =>
      rcases List.nodup_cons.mp nodup with ⟨new, nodup⟩
      rcases handle_frame round s i with ⟨rset_eq, listenfd_eq, reads_eq, same⟩
      rcases ih nodup (s.handle round i) with ⟨rset_eq', listenfd_eq', reads_eq'⟩
      have map_eq : items.map (s.handle round i).client = items.map s.client := by
        apply List.map_congr_left
        intro j mem
        exact same j fun equal => new (equal ▸ mem)
      rw [List.foldl_cons]
      refine ⟨rset_eq'.trans rset_eq, listenfd_eq'.trans listenfd_eq, ?_⟩
      rw [reads_eq', reads_eq, map_eq, List.append_assoc]
      rfl

theorem Aligned.foldl (aligned : Aligned s) {items : List Nat} (nodup : items.Nodup)
    (used : ∀ i ∈ items, i < FD_SETSIZE ∧ 0 ≤ s.client i) :
    Aligned (items.foldl (Server.handle round) s) := by
  induction items generalizing s with
  | nil => exact aligned
  | cons i items ih =>
      rcases List.nodup_cons.mp nodup with ⟨new, nodup⟩
      rcases used i List.mem_cons_self with ⟨inside, nonneg⟩
      rw [List.foldl_cons]
      apply ih (aligned.handle inside nonneg) nodup
      intro j mem
      rcases used j (List.mem_cons_of_mem i mem) with ⟨inside', nonneg'⟩
      have same := (handle_frame round s i).2.2.2 j fun equal => new (equal ▸ mem)
      exact ⟨inside', same ▸ nonneg'⟩

/-- The indices of the loop are those of the table up to `maxi`. -/
theorem Aligned.mem_indices (aligned : Aligned s) :
    (∀ i ∈ s.indices, i < FD_SETSIZE) ∧
      ∀ i, i < FD_SETSIZE → 0 ≤ s.client i → i ∈ s.indices := by
  constructor
  · exact fun i mem => lt_of_mem_range aligned.last mem
  · exact fun i inside used => aligned.maxi.mem_range inside used

/-- The clients that the loop finds are those that `Select` has reported. -/
theorem Aligned.count_reported (aligned : Aligned s) (within : ∀ fd ∈ s.rset, fd ∈ s.allset) :
    (s.indices.filter (s.Reported ·)).length = (s.rset.erase s.listenfd).card := by
  rcases aligned.mem_indices with ⟨inside, all⟩
  apply length_filter_eq_card List.nodup_range
  · intro i mem j mem' reported _ equal
    exact aligned.distinct i j (inside i mem) (inside j mem') reported.1 equal
  · intro fd
    rw [Finset.mem_erase]
    constructor
    · rintro ⟨ne, mem⟩
      rcases (aligned.allset fd).mp (within fd mem) with same | ⟨used, i, below, rfl⟩
      · exact absurd same ne
      · exact ⟨i, all i below used, ⟨used, mem⟩, rfl⟩
    · rintro ⟨i, mem, reported, rfl⟩
      exact ⟨aligned.listen_ne (inside i mem) reported.1, reported.2⟩

/-- The invariant at a call of `Select`. -/
structure Settled (s : Server) : Prop extends Bookkept s, Aligned s

/-- The loop reads every reported client, and each of them once. -/
theorem Aligned.check (aligned : Aligned s) (within : ∀ fd ∈ s.rset, fd ∈ s.allset)
    (none : s.reads = []) {nready : Int} (count : ((s.rset.erase s.listenfd).card : Int) ≤ nready) :
    Settled (s.check round nready) := by
  rcases aligned.mem_indices with ⟨inside, all⟩
  have nodup : s.indices.Nodup := List.nodup_range
  have number := aligned.count_reported within
  have check_eq : s.check round nready =
      (s.indices.filter (s.Reported ·)).foldl (Server.handle round) s := by
    rw [Server.check, checkClients_eq_countdown]
    apply countdown_eq_foldl (fun _ spent => spent) (separate_handle round) nodup
    rw [number]
    exact count
  have used : ∀ i ∈ s.indices.filter (s.Reported ·), i < FD_SETSIZE ∧ 0 ≤ s.client i := by
    intro i mem
    rcases List.mem_filter.mp mem with ⟨inTable, reported⟩
    exact ⟨inside i inTable, (of_decide_eq_true reported).1⟩
  rcases foldl_handle_frame round (nodup.filter (s.Reported ·)) s with
    ⟨rset_eq, listenfd_eq, reads_eq⟩
  rw [none, List.nil_append] at reads_eq
  have distinct : ((s.indices.filter (s.Reported ·)).map s.client).Nodup := by
    apply List.Nodup.map_on _ (nodup.filter _)
    intro i mem j mem' equal
    rcases used i mem with ⟨below, nonneg⟩
    exact aligned.distinct i j below (used j mem').1 nonneg equal
  have folded : Aligned ((s.indices.filter (s.Reported ·)).foldl (Server.handle round) s) :=
    aligned.foldl (nodup.filter _) used
  rw [check_eq]
  refine ⟨⟨folded.toTabled, ?_, ?_⟩, folded.listen, folded.last⟩
  · intro fd mem ne
    rw [rset_eq] at mem
    rw [listenfd_eq] at ne
    rw [reads_eq]
    apply List.count_eq_one_of_mem distinct
    rcases (aligned.allset fd).mp (within fd mem) with same | ⟨nonneg, i, below, rfl⟩
    · exact absurd same ne
    · apply List.mem_map_of_mem
      exact List.mem_filter.mpr ⟨all i below nonneg, decide_eq_true ⟨nonneg, mem⟩⟩
  · intro fd mem
    rw [reads_eq] at mem
    rw [rset_eq, listenfd_eq]
    rcases List.mem_map.mp mem with ⟨i, inFiltered, rfl⟩
    rcases List.mem_filter.mp inFiltered with ⟨inTable, reported⟩
    have isReported := of_decide_eq_true reported
    exact ⟨isReported.2, aligned.listen_ne (inside i inTable) isReported.1⟩

/-! ## Rounds -/

theorem accept_frame (accepted : s.accept fd = some t) :
    t.rset = s.rset ∧ t.reads = s.reads ∧ t.listenfd = s.listenfd ∧
      t.allset = insert fd s.allset := by
  rcases Option.map_eq_some_iff.mp accepted with ⟨k, -, rfl⟩
  exact ⟨rfl, rfl, rfl, rfl⟩

/-- A round leads from one call of `Select` to the next. -/
theorem Settled.next (settled : Settled s) (step : s.next round = some t) : Settled t := by
  unfold Server.next at step
  rcases Option.ite_none_right_eq_some.mp step with ⟨possible, step⟩
  dsimp only at step
  let s' : Server := { s with rset := round.ready, reads := [], echoed := [] }
  have aligned : Aligned s' :=
    ⟨⟨settled.allset, settled.distinct, settled.maxi, settled.maxfd, settled.setsize⟩,
      settled.listen, settled.last⟩
  have within : ∀ fd ∈ s'.rset, fd ∈ s'.allset := fun fd mem => (possible.reported fd mem).1
  by_cases connection : s.listenfd ∈ round.ready
  · rw [if_pos connection] at step
    rcases Option.map_eq_some_iff.mp step with ⟨u, accepted, t_eq⟩
    rcases possible.fresh connection with ⟨fresh, nonneg, below⟩
    have aligned' : Aligned u := aligned.accept fresh nonneg below accepted
    rcases accept_frame (s := s') accepted with ⟨rset_eq, reads_eq, listenfd_eq, allset_eq⟩
    have within' : ∀ fd ∈ u.rset, fd ∈ u.allset := by
      rw [rset_eq, allset_eq]
      exact fun fd mem => Finset.mem_insert_of_mem (within fd mem)
    have erase_eq : u.rset.erase u.listenfd = round.ready.erase s.listenfd := by
      rw [rset_eq, listenfd_eq]
    have count := Finset.card_erase_add_one connection
    split at t_eq
    next spent =>
      have empty : u.rset.erase u.listenfd = ∅ := by
        rw [erase_eq]
        apply Finset.card_eq_zero.mp
        omega
      subst t_eq
      refine ⟨⟨aligned'.toTabled, ?_, ?_⟩, aligned'.listen, aligned'.last⟩
      · intro fd mem ne
        have inErase := Finset.mem_erase.mpr ⟨ne, mem⟩
        rw [empty] at inErase
        exact absurd inErase (Finset.notMem_empty fd)
      · rw [reads_eq]
        exact fun _ mem => absurd mem List.not_mem_nil
    next more =>
      rw [← t_eq]
      apply aligned'.check within' reads_eq
      rw [erase_eq]
      omega
  · rw [if_neg connection] at step
    cases step
    apply aligned.check within rfl
    have erase_eq : s'.rset.erase s'.listenfd = round.ready := Finset.erase_eq_of_notMem connection
    rw [erase_eq]

end Steps

theorem initial_settled {listenfd : Fd} (below : listenfd < FD_SETSIZE) :
    Settled (initial listenfd) := by
  have unused : ∀ i, ¬ 0 ≤ (initial listenfd).client i := by
    intro i
    change ¬ (0 : Int) ≤ -1
    decide
  refine ⟨⟨⟨?_, ?_, ?_, ?_, ?_⟩, ?_, ?_⟩, ?_, ?_⟩
  · intro fd
    rw [show (initial listenfd).allset = {listenfd} from rfl, Finset.mem_singleton]
    constructor
    · exact .inl
    · rintro (same | ⟨used, i, -, rfl⟩)
      · exact same
      · exact absurd used (unused i)
  · exact fun i _ _ _ used _ => absurd used (unused i)
  · exact fun i _ used => absurd used (unused i)
  · intro fd mem
    rw [Finset.mem_singleton.mp mem]
    exact le_refl listenfd
  · intro fd mem
    rw [Finset.mem_singleton.mp mem]
    exact below
  · exact fun fd mem => absurd mem (Finset.notMem_empty fd)
  · exact fun _ mem => absurd mem List.not_mem_nil
  · rintro ⟨used, i, -, same⟩
    exact unused i (same ▸ used)
  · change (-1 : Int) < FD_SETSIZE
    decide

/-- At every call of `Select`, whatever the system calls answer: the descriptor set is the
listening socket and the clients of the table, which are distinct; `maxi` and `maxfd` bound
what is in use; and every client that was reported in the last round has been read exactly
once. -/
theorem bookkept_along {listenfd : Fd} (below : listenfd < FD_SETSIZE) (rounds : List Round) :
    Along next Bookkept (initial listenfd) rounds := by
  have settled : Along next Settled (initial listenfd) rounds :=
    Preserves.along (fun _ _ _ settled _ step => settled.next step) (initial_settled below)
      meets_true
  exact settled.mono fun _ settled => settled.toBookkept

/-- Two clients connect; the first one closes, and the next connection, which is accepted in
the round in which the second one is read, gets its entry. -/
def reusedEntry : List Round :=
  [⟨{3}, 4, fun _ => []⟩, ⟨{3}, 5, fun _ => []⟩, ⟨{4}, 0, fun _ => []⟩,
    ⟨{3, 5}, 4, fun _ => [97]⟩]

theorem bookkept_along_reusedEntry :
    ((run next (initial 3) reusedEntry).map fun s => (s.client 0, s.client 1, s.reads)) =
        some (4, 5, [5]) ∧
      Along next Bookkept (initial 3) reusedEntry :=
  ⟨by decide +kernel, bookkept_along (by decide) reusedEntry⟩

end Server

end NetPractice.SelectServer
