import NetPractice.AddrInfo.Lookup
import NetPractice.AddrInfo.Services
import NetPractice.Memory.Owned

/-!
# What getaddrinfo allocates

A call of `getaddrinfo` ends, whatever the resolver answers and whichever allocations fail.
Its list holds every entry that was allocated, also behind `bad`, so that `freeaddrinfo` frees
every block once.  The string behind `canon` is lost where the search fails after it was saved.
-/

namespace NetPractice.AddrInfo

open NetPractice.Memory

/-! ## The account -/

/-- How many of the first calls have found memory. -/
def granted (grants : Grants) (calls : Nat) : Nat :=
  (List.range calls).countP grants

theorem granted_of_true {grants : Grants} {calls : Nat} (grant : grants calls = true) :
    granted grants (calls + 1) = granted grants calls + 1 := by
  simp [granted, List.range_succ, grant]

theorem granted_of_false {grants : Grants} {calls : Nat} (grant : ¬ grants calls = true) :
    granted grants (calls + 1) = granted grants calls := by
  simp [granted, List.range_succ, grant]

/-- The number of an entry's blocks. -/
def Info.held (info : Info) : Nat :=
  info.addr.isSome.toNat + info.canonname.isSome.toNat + 1

theorem length_blocks (ai : Nat) (info : Info) : (info.blocks ai).length = info.held := by
  unfold Info.blocks Info.held
  cases info.addr <;> cases info.canonname <;> rfl

/-- The number of all entries' blocks. -/
def held (infos : Arena Info) : Nat :=
  ((Arena.vals infos).map Info.held).sum

theorem held_append (infos : Arena Info) (node : Node Info) :
    held (infos ++ [node]) = held infos + node.val.held := by
  simp [held]

@[simp]
theorem held_setNext (infos : Arena Info) (ai : Nat) (link : Option Nat) :
    held (infos.setNext ai link) = held infos := by
  simp [held]

theorem held_setVal {infos : Arena Info} {ai : Nat} {node : Node Info}
    (found : infos[ai]? = some node) (info : Info) :
    held (infos.setVal ai info) + node.val.held = held infos + info.held := by
  rw [held, Arena.vals_setVal, List.map_set, held]
  apply sum_set
  rw [List.getElem?_map, Arena.getElem?_vals found]
  rfl

/-- The list has every entry, and its blocks and `apart` others are all that was allocated. -/
structure Heap.Kept (grants : Grants) (heap : Heap) (aihead : Option Nat) (apart : Nat) :
    Prop where
  owns : Owns heap.infos aihead
  accounted : held heap.infos + apart = granted grants heap.allocs

/-- An entry for an address, with its socket address. -/
structure Fits (address : HostAddr) (info : Info) : Prop where
  family : info.family = address.family
  addr : ∃ port, info.addr = some { family := address.family, port := port, addr := address.bytes }
  addrlen : info.addrlen = address.family.sockaddrSize

/-- The entries are for these addresses. -/
structure Heap.Filled (heap : Heap) (addresses : List HostAddr) : Prop where
  found : ∀ info ∈ Arena.vals heap.infos, ∃ address ∈ addresses, Fits address info
  listed : ∀ address ∈ addresses, ∃ info ∈ Arena.vals heap.infos, Fits address info

section

variable {address : HostAddr} {info : Info}

theorem Fits.ready (fits : Fits address info) : Ready info where
  family := by
    rw [fits.family]
    exact address.found
  addr := by
    rcases fits.addr with ⟨port, addr_eq⟩
    rw [addr_eq]
    rfl

theorem Fits.claimed (fits : Fits address info) (port socktype : Int) :
    Fits address (claimed port socktype info) where
  family := fits.family
  addr := by
    rcases fits.addr with ⟨old, addr_eq⟩
    exact ⟨.ofInt port, by simp [AddrInfo.claimed, addr_eq]⟩
  addrlen := fits.addrlen

theorem fits_addressInfo (hints : Hints) (address : HostAddr) :
    Fits address (addressInfo hints address) :=
  ⟨rfl, ⟨0, rfl⟩, rfl⟩

end

section

variable {grants : Grants} {heap other : Heap} {aihead : Option Nat} {apart : Nat}
  {addresses : List HostAddr}

/-- Blocks move between the entries and what is apart from them. -/
theorem Heap.Kept.put (kept : heap.Kept grants aihead apart) {ai : Nat} {node : Node Info}
    (found : heap.infos[ai]? = some node) {info : Info} {later : Nat}
    (same : info.held + later = node.val.held + apart) :
    (heap.put ai info).Kept grants aihead later where
  owns := kept.owns.setVal ai info
  accounted := by
    have exchanged := held_setVal found info
    have accounted := kept.accounted
    simp only [Heap.put]
    omega

theorem Heap.Filled.fits (filled : heap.Filled addresses) {ai : Nat} {node : Node Info}
    (found : heap.infos[ai]? = some node) : ∃ address ∈ addresses, Fits address node.val :=
  filled.found _ (List.mem_of_getElem? (Arena.getElem?_vals found))

theorem Heap.Filled.ready (filled : heap.Filled addresses) {ai : Nat} {node : Node Info}
    (found : heap.infos[ai]? = some node) : Ready node.val := by
  rcases filled.fits found with ⟨address, -, fits⟩
  exact fits.ready

/-- An assignment that leaves an entry with its address. -/
theorem Heap.Filled.put (filled : heap.Filled addresses) {ai : Nat} {node : Node Info}
    (found : heap.infos[ai]? = some node) {info : Info}
    (keeps : ∀ address, Fits address node.val → Fits address info) :
    (heap.put ai info).Filled addresses where
  found := by
    intro content mem
    rw [Heap.put, Arena.vals_setVal] at mem
    rcases List.mem_or_eq_of_mem_set mem with old | rfl
    · exact filled.found content old
    · rcases filled.fits found with ⟨address, known, fits⟩
      exact ⟨address, known, keeps address fits⟩
  listed := by
    intro address known
    rcases filled.listed address known with ⟨content, mem, fits⟩
    rcases List.mem_iff_getElem?.mp mem with ⟨place, here⟩
    have below : ai < (Arena.vals heap.infos).length :=
      (List.getElem?_eq_some_iff.mp (Arena.getElem?_vals found)).1
    rw [Heap.put, Arena.vals_setVal]
    by_cases same : place = ai
    · subst same
      cases (Arena.getElem?_vals found).symm.trans here
      exact ⟨info, List.mem_set below info, keeps address fits⟩
    · refine ⟨content, List.mem_of_getElem? (i := place) ?_, fits⟩
      rw [List.getElem?_set_ne (Ne.symm same)]
      exact here

/-- A new entry for an address, which may be there already. -/
theorem Heap.Filled.append (filled : heap.Filled addresses) {added : Info} {address : HostAddr}
    (fits : Fits address added)
    (contents : Arena.vals other.infos = Arena.vals heap.infos ++ [added])
    {later : List HostAddr} (more : ∀ a, a ∈ later ↔ a ∈ addresses ∨ a = address) :
    other.Filled later where
  found := by
    intro content mem
    rw [contents] at mem
    rcases List.mem_append.mp mem with old | new
    · rcases filled.found content old with ⟨place, known, fitsOld⟩
      exact ⟨place, (more place).mpr (.inl known), fitsOld⟩
    · rcases List.mem_singleton.mp new with rfl
      exact ⟨address, (more address).mpr (.inr rfl), fits⟩
  listed := by
    intro place mem
    rw [contents]
    rcases (more place).mp mem with known | rfl
    · rcases filled.listed place known with ⟨content, old, fitsOld⟩
      exact ⟨content, List.mem_append_left _ old, fitsOld⟩
    · exact ⟨added, List.mem_append_right _ (List.mem_singleton.mpr rfl), fits⟩

/-- A refused call of `calloc` or `malloc`. -/
theorem Heap.Kept.refused (kept : heap.Kept grants aihead apart)
    (grant : ¬ grants heap.allocs = true) : heap.tried.Kept grants aihead apart where
  owns := kept.owns
  accounted := kept.accounted.trans (granted_of_false grant).symm

/-- A call that finds memory. -/
theorem Heap.Kept.allocated (kept : heap.Kept grants aihead apart)
    (grant : grants heap.allocs = true) : heap.tried.Kept grants aihead (apart + 1) where
  owns := kept.owns
  accounted := by
    have accounted := kept.accounted
    have more := granted_of_true grant
    simp only [Heap.tried]
    omega

/-! ## ga_clone and ga_port -/

theorem gaClone_kept {ai : Nat} {new : Option Nat} (kept : heap.Kept grants aihead apart)
    (filled : heap.Filled addresses) (clone : gaClone grants ai heap = some (new, other)) :
    other.Kept grants aihead apart ∧ (new ≠ none → other.Filled addresses) := by
  rcases Option.bind_eq_some_iff.mp clone with ⟨node, found, clone⟩
  have ready := filled.ready found
  have below : ai < heap.infos.length := (List.getElem?_eq_some_iff.mp found).1
  have accounted := kept.accounted
  -- the clone is in the list before its socket address is allocated
  have linked : Owns (Arena.setNext (heap.infos ++ [⟨cloneInfo node.val, node.next⟩]) ai
      (some heap.infos.length)) aihead := kept.owns.insert found (cloneInfo node.val)
  have heldLinked : held (Arena.setNext (heap.infos ++ [⟨cloneInfo node.val, node.next⟩]) ai
      (some heap.infos.length)) = held heap.infos + 1 := by
    rw [held_setNext, held_append]
    rfl
  by_cases calloc : grants heap.allocs = true
  · rw [if_pos calloc] at clone
    have first := granted_of_true calloc
    by_cases malloc : grants (heap.allocs + 1) = true
    · have second : granted grants (heap.allocs + 2) = granted grants (heap.allocs + 1) + 1 :=
        granted_of_true malloc
      rcases Option.isSome_iff_exists.mp ready.addr with ⟨addr, addr_eq⟩
      simp only [if_pos malloc, addr_eq, Option.bind_eq_bind, Option.bind_some,
        Option.some.injEq, Prod.mk.injEq] at clone
      rcases clone with ⟨rfl, rfl⟩
      have here : (Arena.setNext (heap.infos ++ [⟨cloneInfo node.val, node.next⟩]) ai
          (some heap.infos.length))[heap.infos.length]? =
            some ⟨cloneInfo node.val, node.next⟩ := by
        rw [Arena.getElem?_setNext_of_ne (Nat.ne_of_gt below), List.getElem?_concat_length]
      rcases filled.fits found with ⟨address, known, fits⟩
      refine ⟨⟨linked.setVal _ _, ?_⟩, fun _ => ?_⟩
      · have exchanged : held (Arena.setVal _ heap.infos.length
            { cloneInfo node.val with addr := some addr }) + 1 = _ + 2 := held_setVal here _
        simp only at exchanged ⊢
        omega
      · have fitsClone : Fits address { cloneInfo node.val with addr := some addr } := by
          rcases fits.addr with ⟨port, same⟩
          exact ⟨fits.family, ⟨port, addr_eq.symm.trans same⟩, fits.addrlen⟩
        refine filled.append fitsClone ?_ fun a => ?_
        · simp only [Arena.vals_setVal, Arena.vals_setNext, Arena.vals_append]
          rw [List.set_append_right _ _ (Nat.le_of_eq (Arena.length_vals _)), Arena.length_vals,
            Nat.sub_self]
          rfl
        · exact ⟨.inl, fun mem => mem.elim id fun same => same ▸ known⟩
    · have second : granted grants (heap.allocs + 2) = granted grants (heap.allocs + 1) :=
        granted_of_false malloc
      rw [if_neg malloc] at clone
      cases clone
      refine ⟨⟨linked, ?_⟩, fun absent => absurd rfl absent⟩
      simp only
      omega
  · rw [if_neg calloc] at clone
    cases clone
    exact ⟨kept.refused calloc, fun absent => absurd rfl absent⟩

theorem choose_kept {socktype : Int} {ai : Nat} {choice : Choice}
    (kept : heap.Kept grants aihead apart) (filled : heap.Filled addresses)
    (chosen : choose grants socktype ai heap = some (choice, other)) :
    other.Kept grants aihead apart ∧ (choice ≠ .noMemory → other.Filled addresses) := by
  rcases Option.bind_eq_some_iff.mp chosen with ⟨node, found, chosen⟩
  split at chosen
  · split at chosen
    · rcases Option.bind_eq_some_iff.mp chosen with ⟨⟨new, middle⟩, clone, chosen⟩
      have spec := gaClone_kept kept filled clone
      cases new with
      | none =>
          cases chosen
          exact ⟨spec.1, fun memory => absurd rfl memory⟩
      | some new =>
          cases chosen
          exact ⟨spec.1, fun _ => spec.2 (by rintro ⟨⟩)⟩
    · cases chosen
      exact ⟨kept, fun _ => filled⟩
  · split at chosen
    · cases chosen
      exact ⟨kept, fun _ => filled⟩
    · cases chosen
      exact ⟨kept, fun _ => filled⟩

theorem held_claimed (port socktype : Int) (info : Info) :
    (claimed port socktype info).held = info.held := by
  simp [Info.held, claimed]

/-- The loop of `ga_port` keeps the account, also where a clone cannot be allocated. -/
theorem gaPortLoop_kept {port socktype : Int} {fuel nfound : Nat} {cursor result : Option Nat}
    (kept : heap.Kept grants aihead apart) (filled : heap.Filled addresses)
    (loop : gaPortLoop grants port socktype fuel cursor nfound heap = some (result, other)) :
    other.Kept grants aihead apart ∧ (result ≠ none → other.Filled addresses) := by
  induction fuel generalizing cursor nfound heap with
  | zero => cases cursor <;> cases loop
  | succ fuel ih =>
      cases cursor with
      | none =>
          cases loop
          exact ⟨kept, fun _ => filled⟩
      | some ai =>
          rcases Option.bind_eq_some_iff.mp loop with ⟨⟨choice, middle⟩, chosen, loop⟩
          have spec := choose_kept kept filled chosen
          cases choice with
          | noMemory =>
              cases loop
              exact ⟨spec.1, fun found => absurd rfl found⟩
          | mismatch =>
              rcases Option.bind_eq_some_iff.mp loop with ⟨node, found, loop⟩
              exact ih spec.1 (spec.2 (by rintro ⟨⟩)) loop
          | entry place =>
              rcases Option.bind_eq_some_iff.mp loop with ⟨node, found, loop⟩
              rcases Option.bind_eq_some_iff.mp loop with ⟨⟨info, counted⟩, claims, loop⟩
              have filledMiddle := spec.2 (by rintro ⟨⟩)
              have ready := filledMiddle.ready found
              cases (claim_eq ready port socktype).symm.trans claims
              refine ih (spec.1.put found ?_) (filledMiddle.put found ?_) loop
              · rw [held_claimed]
              · exact fun address fits => fits.claimed port socktype

/-- `ga_port` ends. -/
theorem gaPort_kept (kept : heap.Kept grants aihead apart) (filled : heap.Filled addresses)
    (port socktype : Int) :
    ∃ result other, gaPort grants aihead port socktype heap = some (result, other) ∧
      other.Kept grants aihead apart ∧ (result ≠ none → other.Filled addresses) := by
  rcases kept.owns with ⟨entries, visits, all⟩
  have ready : ∀ entry ∈ entries, Ready entry.2 := by
    intro entry mem
    rcases filled.found _ ((visits.vals_perm all).mem_iff.mp (List.mem_map_of_mem mem)) with
      ⟨address, -, fits⟩
    exact fits.ready
  rcases gaPort_spec visits ready grants port socktype with
    ⟨-, other, call⟩ | ⟨other, after, call, -⟩
  · exact ⟨none, other, call, gaPortLoop_kept kept filled call⟩
  · exact ⟨_, other, call, gaPortLoop_kept kept filled call⟩

theorem gaPorts_kept (kept : heap.Kept grants aihead apart) (filled : heap.Filled addresses)
    (services : List Service) :
    ∃ results other, gaPorts grants aihead services heap = some (results, other) ∧
      other.Kept grants aihead apart ∧ (none ∉ results → other.Filled addresses) := by
  induction services generalizing heap with
  | nil => exact ⟨[], heap, rfl, kept, fun _ => filled⟩
  | cons service rest ih =>
      rcases gaPort_kept kept filled service.port service.socktype with
        ⟨result, middle, call, keptMiddle, filledMiddle⟩
      rw [gaPorts, call]
      cases result with
      | none =>
          exact ⟨[none], middle, rfl, keptMiddle, fun found => absurd List.mem_cons_self found⟩
      | some nfound =>
          rcases ih keptMiddle (filledMiddle (Option.some_ne_none nfound)) with
            ⟨results, other, calls, keptOther, filledOther⟩
          refine ⟨some nfound :: results, other, ?_, keptOther, fun found => filledOther ?_⟩
          · simp only [calls]
            rfl
          · exact fun failed => found (List.mem_cons_of_mem _ failed)

theorem gaServ_kept (kept : heap.Kept grants aihead apart) (filled : heap.Filled addresses)
    (own : Host) (socktype : Int) (serv : List UInt8) :
    ∃ error other, gaServ grants own socktype serv aihead heap = some (error, other) ∧
      other.Kept grants aihead apart ∧ (error = none → other.Filled addresses) := by
  rcases gaPorts_kept kept filled (serviceCalls own socktype serv) with
    ⟨results, other, calls, keptOther, filledOther⟩
  simp only [gaServ, calls, Option.bind_eq_bind, Option.bind_some]
  split
  · exact ⟨_, other, rfl, keptOther, by rintro ⟨⟩⟩
  · next found =>
      split
      · exact ⟨_, other, rfl, keptOther, by rintro ⟨⟩⟩
      · exact ⟨_, other, rfl, keptOther, fun _ => filledOther found⟩

/-! ## freeaddrinfo -/

/-- The entry that a block was allocated for. -/
def Block.entry : Block → Nat
  | .addr ai | .canonname ai | .info ai => ai

theorem entry_of_mem_blocks {ai : Nat} {info : Info} {block : Block}
    (mem : block ∈ info.blocks ai) : block.entry = ai := by
  unfold Info.blocks at mem
  split at mem <;> split at mem <;> simp at mem <;> grind [Block.entry]

theorem nodup_blocks (ai : Nat) (info : Info) : (info.blocks ai).Nodup := by
  unfold Info.blocks
  split <;> split <;> simp

/-- `freeaddrinfo` frees what the entries of the list hold. -/
theorem freeLoop_eq {infos : Arena Info} {cursor : Option Nat} {entries : List (Nat × Info)}
    (visits : Visits infos cursor entries) {fuel : Nat} (enough : entries.length < fuel) :
    freeLoop infos fuel cursor =
      some (entries.flatMap fun entry => entry.2.blocks entry.1) := by
  induction entries generalizing cursor fuel with
  | nil =>
      cases visits
      cases fuel with
      | zero => cases enough
      | succ fuel => rfl
  | cons first rest ih =>
      rcases visits with ⟨rfl, next, found, visits⟩
      cases fuel with
      | zero => cases enough
      | succ fuel =>
          simp only [freeLoop, found, Option.bind_eq_bind, Option.bind_some,
            ih visits (Nat.lt_of_succ_lt_succ enough), List.flatMap_cons]

/-- What is not apart from the entries is freed, and freed once. -/
theorem freeaddrinfo_kept (kept : heap.Kept grants aihead apart) :
    ∃ freed, freeaddrinfo heap aihead = some freed ∧ freed.Nodup ∧
      freed.length + apart = granted grants heap.allocs := by
  rcases kept.owns with ⟨entries, visits, all⟩
  refine ⟨_, freeLoop_eq visits (Nat.lt_succ_of_le visits.length_le), ?_, ?_⟩
  · rw [List.nodup_flatMap]
    refine ⟨fun entry _ => nodup_blocks entry.1 entry.2, ?_⟩
    refine (List.pairwise_map.mp visits.nodup).imp fun ne block left right => ne ?_
    exact (entry_of_mem_blocks left).symm.trans (entry_of_mem_blocks right)
  · have lengths : (entries.flatMap fun entry => entry.2.blocks entry.1).length =
        ((entries.map Prod.snd).map Info.held).sum := by
      simp only [List.length_flatMap, length_blocks, List.map_map, Function.comp_def]
    rw [lengths, ((visits.vals_perm all).map Info.held).sum_eq]
    exact kept.accounted

end

/-! ## The host search -/

section

variable {grants : Grants} {search : Search} {apart : Nat} {addresses : List HostAddr}

/-- The search has linked every entry that it allocated, and has named none. -/
structure Search.Kept (grants : Grants) (search : Search) (apart : Nat) : Prop where
  listed : ∃ entries, Searched search entries ∧ entries.length = search.heap.infos.length
  accounted : held search.heap.infos + apart = granted grants search.heap.allocs
  unnamed : ∀ info ∈ Arena.vals search.heap.infos, info.canonname = none

theorem Search.Kept.heap (kept : search.Kept grants apart) :
    search.heap.Kept grants search.aihead apart where
  owns := by
    rcases kept.listed with ⟨entries, searched, all⟩
    exact ⟨entries, searched.visits, all⟩
  accounted := kept.accounted

/-- Calls of `calloc` or `strdup`: what they have allocated is apart from the entries. -/
theorem Search.Kept.called (kept : search.Kept grants apart) (calls later : Nat)
    (more : granted grants calls + apart = granted grants search.heap.allocs + later) :
    Search.Kept grants { search with heap := { search.heap with allocs := calls } } later where
  listed := by
    rcases kept.listed with ⟨entries, searched, all⟩
    exact ⟨entries, ⟨searched.visits, searched.aipnext⟩, all⟩
  accounted := by
    have accounted := kept.accounted
    simp only
    omega
  unnamed := kept.unnamed

theorem vals_link (search : Search) (info : Info) :
    Arena.vals (search.link info).heap.infos = Arena.vals search.heap.infos ++ [info] := by
  unfold Search.link
  cases search.aipnext <;> simp

theorem length_link (search : Search) (info : Info) :
    (search.link info).heap.infos.length = search.heap.infos.length + 1 := by
  rw [← Arena.length_vals, vals_link, List.length_append, Arena.length_vals]
  rfl

theorem allocs_link (search : Search) (info : Info) :
    (search.link info).heap.allocs = search.heap.allocs := by
  unfold Search.link
  cases search.aipnext <;> rfl

/-- The blocks of an entry are apart from the others until it is linked. -/
theorem Search.Kept.link {info : Info} (kept : search.Kept grants (apart + info.held))
    (unnamed : info.canonname = none) : (search.link info).Kept grants apart where
  listed := by
    rcases kept.listed with ⟨entries, searched, all⟩
    refine ⟨_, searched.link info, ?_⟩
    rw [length_link, List.length_append, all]
    rfl
  accounted := by
    have accounted := kept.accounted
    rw [held, vals_link, allocs_link, List.map_append, List.sum_append, ← held]
    simp only [List.map_cons, List.map_nil, List.sum_cons, List.sum_nil]
    omega
  unnamed := by
    intro content mem
    rw [vals_link] at mem
    rcases List.mem_append.mp mem with old | new
    · exact kept.unnamed content old
    · rcases List.mem_singleton.mp new with rfl
      exact unnamed

theorem gaAistruct_kept (kept : search.Kept grants apart)
    (filled : search.heap.Filled addresses) (hints : Hints) (address : HostAddr) :
    (gaAistruct grants hints address search).2.Kept grants apart ∧
      ((gaAistruct grants hints address search).1 = .ok →
        (gaAistruct grants hints address search).2.heap.Filled (addresses ++ [address])) := by
  by_cases calloc : grants search.heap.allocs = true
  · have first := granted_of_true calloc
    by_cases malloc : grants (search.heap.allocs + 1) = true
    · have second : granted grants (search.heap.allocs + 2) =
          granted grants (search.heap.allocs + 1) + 1 := granted_of_true malloc
      have two : (addressInfo hints address).held = 2 := rfl
      have allocated := kept.called (search.heap.allocs + 2)
        (apart + (addressInfo hints address).held) (by omega)
      simp only [gaAistruct, if_pos calloc, if_pos malloc]
      refine ⟨allocated.link rfl, fun _ => ?_⟩
      refine filled.append (fits_addressInfo hints address) ?_ fun a => ?_
      · exact vals_link _ _
      · rw [List.mem_append, List.mem_singleton]
    · have second : granted grants (search.heap.allocs + 2) =
          granted grants (search.heap.allocs + 1) := granted_of_false malloc
      have one : (aistructInfo hints address).held = 1 := rfl
      have allocated := kept.called (search.heap.allocs + 2)
        (apart + (aistructInfo hints address).held) (by omega)
      simp only [gaAistruct, if_pos calloc, if_neg malloc]
      exact ⟨allocated.link rfl, by rintro ⟨⟩⟩
  · simp only [gaAistruct, if_neg calloc]
    refine ⟨kept.called _ _ ?_, by rintro ⟨⟩⟩
    rw [granted_of_false calloc]

theorem addAddresses_kept (kept : search.Kept grants apart)
    (filled : search.heap.Filled addresses) (hints : Hints) (addrs : List HostAddr) :
    (addAddresses grants hints addrs search).2.Kept grants apart ∧
      ((addAddresses grants hints addrs search).1 = .ok →
        (addAddresses grants hints addrs search).2.heap.Filled (addresses ++ addrs)) := by
  induction addrs generalizing search addresses with
  | nil =>
      rw [List.append_nil]
      exact ⟨kept, fun _ => filled⟩
  | cons address rest ih =>
      have spec := gaAistruct_kept kept filled hints address
      rw [addAddresses]
      split
      · next middle call =>
          rw [call] at spec
          rw [List.append_cons]
          exact ih spec.1 (spec.2 rfl)
      · next middle call =>
          rw [call] at spec
          exact ⟨spec.1, by rintro ⟨⟩⟩

/-- The string behind `canon` is apart from the entries. -/
structure Locals.Kept (grants : Grants) (r : Request) (l : Locals) : Prop where
  search : l.search.Kept grants l.canon.isSome.toNat
  wanted : l.canon ≠ none → r.WantsCanon

variable {r : Request} {l : Locals}

theorem saveCanon_kept (kept : l.Kept grants r) (name : Option (List UInt8)) :
    (saveCanon grants r name l).2.Kept grants r ∧
      (saveCanon grants r name l).2.search.heap.infos = l.search.heap.infos := by
  unfold saveCanon
  split
  · next saves =>
      rcases saves with ⟨wants, absent, present⟩
      have search := kept.search
      rw [absent] at search
      rcases Option.ne_none_iff_exists'.mp present with ⟨text, rfl⟩
      split
      · next strdup =>
          refine ⟨⟨search.called _ _ ?_, fun _ => wants⟩, rfl⟩
          rw [granted_of_true strdup]
          rfl
      · next strdup =>
          refine ⟨⟨kept.search.called _ _ ?_, kept.wanted⟩, rfl⟩
          rw [granted_of_false strdup]
          rfl
  · exact ⟨kept, rfl⟩

/-- The addresses that are added to the list. -/
def Answer.addrs : Answer → List HostAddr
  | .error _ | .ignore => []
  | .found _ addrs => addrs

/-- One round of the search, which may be the last. -/
theorem searchOne_kept (kept : l.Kept grants r) (filled : l.search.heap.Filled addresses)
    (answer : Answer) :
    (searchOne grants r l answer).2.Kept grants r ∧
      ((searchOne grants r l answer).1 = none →
        (searchOne grants r l answer).2.search.heap.Filled (addresses ++ answer.addrs)) := by
  cases answer with
  | error e => exact ⟨kept, by rintro ⟨⟩⟩
  | ignore =>
      rw [Answer.addrs, List.append_nil]
      exact ⟨kept, fun _ => filled⟩
  | found name addrs =>
      have saved := saveCanon_kept kept name
      rw [searchOne]
      split
      · next e middle call =>
          rw [call] at saved
          exact ⟨saved.1, by rintro ⟨⟩⟩
      · next middle call =>
          rw [call] at saved
          have filledMiddle : middle.search.heap.Filled addresses := by
            constructor
            · rw [saved.2]
              exact filled.found
            · rw [saved.2]
              exact filled.listed
          have spec := addAddresses_kept saved.1.search filledMiddle r.hints addrs
          split
          · next search call =>
              rw [call] at spec
              exact ⟨⟨spec.1, saved.1.wanted⟩, by rintro ⟨⟩⟩
          · next search call =>
              rw [call] at spec
              exact ⟨⟨spec.1, saved.1.wanted⟩, fun _ => spec.2 rfl⟩

theorem searchLoop_kept (kept : l.Kept grants r) (filled : l.search.heap.Filled addresses)
    (answers : List Answer) :
    (searchLoop grants r answers l).2.Kept grants r ∧
      ((searchLoop grants r answers l).1 = none →
        (searchLoop grants r answers l).2.search.heap.Filled
          (addresses ++ answers.flatMap Answer.addrs)) := by
  induction answers generalizing l addresses with
  | nil =>
      rw [List.flatMap_nil, List.append_nil]
      exact ⟨kept, fun _ => filled⟩
  | cons answer rest ih =>
      have spec := searchOne_kept kept filled answer
      rw [searchLoop]
      split
      · next e middle call =>
          rw [call] at spec
          exact ⟨spec.1, by rintro ⟨⟩⟩
      · next middle call =>
          rw [call] at spec
          rw [List.flatMap_cons, ← List.append_assoc]
          exact ih spec.1 (spec.2 rfl)

theorem start_filled : Heap.Filled {} [] :=
  ⟨by rintro info ⟨⟩, by rintro address ⟨⟩⟩

theorem start_kept (grants : Grants) (r : Request) : Locals.Kept grants r {} where
  search := ⟨⟨[], ⟨rfl, rfl⟩, rfl⟩, rfl, by rintro info ⟨⟩⟩
  wanted := fun saved => absurd rfl saved

/-! ## The whole function -/

/-- The saved string goes to the first entry, or a copy is made for it. -/
theorem setCanonname_kept (kept : l.Kept grants r) (filled : l.search.heap.Filled addresses)
    {aihead : Nat} (head : l.search.aihead = some aihead) (host : List UInt8) :
    ∃ error heap, setCanonname grants r host l.canon aihead l.search.heap = some (error, heap) ∧
      (error = none → heap.Kept grants (some aihead) 0 ∧ heap.Filled addresses) ∧
      (error ≠ none → heap.Kept grants (some aihead) l.canon.isSome.toNat) := by
  have whole := kept.search.heap
  rw [head] at whole
  by_cases wants : r.WantsCanon
  · rcases whole.owns with ⟨entries, visits, -⟩
    cases entries with
    | nil => cases visits
    | cons first rest =>
        rcases first with ⟨place, info⟩
        rcases visits with ⟨same, next, found, -⟩
        cases same
        have unnamed : info.canonname = none :=
          kept.search.unnamed info (List.mem_of_getElem? (Arena.getElem?_vals found))
        have keeps : ∀ name address, Fits address info →
            Fits address { info with canonname := name } :=
          fun _ _ fits => ⟨fits.family, fits.addr, fits.addrlen⟩
        simp only [setCanonname, if_pos wants, found, Option.bind_eq_bind, Option.bind_some]
        cases canon : l.canon with
        | some name =>
            refine ⟨none, _, rfl, fun _ => ⟨whole.put found ?_, filled.put found (keeps _)⟩,
              fun failed => absurd rfl failed⟩
            simp [Info.held, unnamed, canon]
        | none =>
            rw [canon] at whole
            by_cases strdup : grants l.search.heap.allocs = true
            · simp only [if_pos strdup]
              have allocated := whole.allocated strdup
              have filledTried : l.search.heap.tried.Filled addresses :=
                ⟨filled.found, filled.listed⟩
              refine ⟨none, _, rfl,
                fun _ => ⟨allocated.put found ?_, filledTried.put found (keeps _)⟩,
                fun failed => absurd rfl failed⟩
              simp [Info.held, unnamed]
            · simp only [if_neg strdup]
              exact ⟨_, _, rfl, by rintro ⟨⟩, fun _ => whole.refused strdup⟩
  · have absent : l.canon = none := by
      by_contra saved
      exact wants (kept.wanted saved)
    rw [absent] at whole
    exact ⟨none, _, if_neg wants, fun _ => ⟨whole, filled⟩, fun failed => absurd rfl failed⟩

/-- Nothing is freed twice.  What was allocated is given back with the list, or has been freed
where there is none, but for the lost string.  What `ga_unix` does with its blocks is not
known. -/
def Outcome.Released (grants : Grants) : Outcome → Prop
  | .list aihead heap =>
      ∃ freed, freeaddrinfo heap (some aihead) = some freed ∧ freed.Nodup ∧
        freed.length = granted grants heap.allocs
  | .failed _ freed heap lost =>
      freed.Nodup ∧ freed.length + lost.isSome.toNat = granted grants heap.allocs
  | .quit => True
  | .unix => False

/-- A list has entries for these addresses, and for no others. -/
def Outcome.Lists (addresses : List HostAddr) : Outcome → Prop
  | .list aihead heap =>
      ∃ entries, Visits heap.infos (some aihead) entries ∧
        (∀ entry ∈ entries, ∃ address ∈ addresses, Fits address entry.2) ∧
        ∀ address ∈ addresses, ∃ entry ∈ entries, Fits address entry.2
  | .failed _ _ _ _ | .unix | .quit => True

/-- The string that a failed call has lost. -/
def Outcome.lost : Outcome → Option (List UInt8)
  | .failed _ _ _ lost => lost
  | .list _ _ | .unix | .quit => none

/-- The blocks are accounted for, and the list is for these addresses; a string is only lost
where the caller wants a canonical name. -/
structure Outcome.Sound (grants : Grants) (r : Request) (addresses : List HostAddr)
    (outcome : Outcome) : Prop where
  released : outcome.Released grants
  lists : outcome.Lists addresses
  lost : outcome.lost ≠ none → r.WantsCanon

theorem bad_sound {heap : Heap} {aihead : Option Nat} {canon : Option (List UInt8)}
    (kept : heap.Kept grants aihead canon.isSome.toNat) (wanted : canon ≠ none → r.WantsCanon)
    (e : Error) :
    ∃ outcome, bad e aihead heap canon = some outcome ∧ outcome.Sound grants r addresses := by
  rcases freeaddrinfo_kept kept with ⟨freed, call, nodup, length_eq⟩
  exact ⟨.failed e freed heap canon, by rw [bad, call]; rfl, ⟨nodup, length_eq⟩, trivial, wanted⟩

theorem list_sound {heap : Heap} {aihead : Nat} (kept : heap.Kept grants (some aihead) 0)
    (filled : heap.Filled addresses) :
    (Outcome.list aihead heap).Sound grants r addresses where
  released := freeaddrinfo_kept kept
  lists := by
    rcases kept.owns with ⟨entries, visits, all⟩
    have same := visits.vals_perm all
    refine ⟨entries, visits, fun entry mem => ?_, fun address known => ?_⟩
    · exact filled.found _ (same.mem_iff.mp (List.mem_map_of_mem mem))
    · rcases filled.listed address known with ⟨info, mem, fits⟩
      rcases List.mem_map.mp (same.mem_iff.mpr mem) with ⟨entry, member, rfl⟩
      exact ⟨entry, member, fits⟩
  lost := fun some => absurd rfl some

theorem finish_sound (kept : l.Kept grants r) (filled : l.search.heap.Filled addresses)
    {aihead : Nat} (head : l.search.aihead = some aihead) (own : Host) (host : List UInt8) :
    ∃ outcome, finish grants own r host aihead l = some outcome ∧
      outcome.Sound grants r addresses := by
  rcases setCanonname_kept kept filled head host with ⟨error, heap, call, named, refused⟩
  rw [finish, call]
  simp only [Option.bind_eq_bind, Option.bind_some]
  cases error with
  | some e => exact bad_sound (refused (Option.some_ne_none e)) kept.wanted e
  | none =>
      rcases named rfl with ⟨keptNamed, filledNamed⟩
      cases given r.servname with
      | none => exact ⟨_, rfl, list_sound keptNamed filledNamed⟩
      | some serv =>
          rcases gaServ_kept keptNamed filledNamed own r.socktype serv with
            ⟨error, other, call, keptOther, filledOther⟩
          simp only [call, Option.bind_some]
          cases error with
          | some e =>
              have whole : other.Kept grants (some aihead)
                (none : Option (List UInt8)).isSome.toNat := keptOther
              exact bad_sound whole (fun saved => absurd rfl saved) e
          | none => exact ⟨_, rfl, list_sound keptOther (filledOther rfl)⟩

/-- The addresses that the host search adds to the list. -/
def foundAddrs (own : Host) (r : Request) : List HostAddr :=
  ((gaNsearch r).map (answer own r (gaNsearch r).length)).flatMap Answer.addrs

/-- Every call that is not for the Unix domain ends with its blocks accounted for, and a list
is for the addresses that the search has found. -/
theorem getaddrinfo_sound (grants : Grants) (own : Host) (r : Request) (remote : ¬ r.Local) :
    ∃ outcome, getaddrinfo grants own r = some outcome ∧
      outcome.Sound grants r (foundAddrs own r) := by
  have start := start_kept grants r
  unfold getaddrinfo
  split
  · next e checked => exact bad_sound start.search.heap start.wanted e
  · rw [if_neg remote]
    simp only
    split
    · exact ⟨.quit, rfl, trivial, trivial, fun some => absurd rfl some⟩
    · have searched := searchLoop_kept start start_filled
        ((gaNsearch r).map (answer own r (gaNsearch r).length))
      split
      · next e final loop =>
          rw [loop] at searched
          exact bad_sound searched.1.search.heap searched.1.wanted e
      · next final loop =>
          rw [loop, List.nil_append] at searched
          split
          · next head =>
              have whole := searched.1.search.heap
              rw [head] at whole
              exact bad_sound whole searched.1.wanted .EAI_NONAME
          · next aihead head => exact finish_sound searched.1 (searched.2 rfl) head own _

end

/-- A host that every name is an alias of. -/
def noao : Host where
  order := .little
  gethostbyname2 := fun _ _ => .error .HOST_NOT_FOUND
  gethostbyname := fun _ name =>
    .ok ⟨name, .inet, [⟨.inet, [10, 0, 0, 1], by simp, rfl⟩], by decide⟩
  getservbyname := fun _ _ => none

/-- A stream to a host, with its canonical name. -/
def canonicalStream : Request where
  hostname := some (Text.ascii "noao")
  servname := none
  flags := AI_CANONNAME
  family := .inet
  socktype := SOCK_STREAM
  protocol := 0

/-- The name of the host is saved, and the first entry finds no memory. -/
theorem getaddrinfo_sound_lost :
    ∃ outcome, getaddrinfo (· == 0) noao canonicalStream = some outcome ∧
      outcome.lost = some (Text.ascii "noao") ∧
      outcome.Sound (· == 0) canonicalStream (foundAddrs noao canonicalStream) := by
  rcases getaddrinfo_sound (· == 0) noao canonicalStream (by decide) with ⟨outcome, call, sound⟩
  have lost : (getaddrinfo (· == 0) noao canonicalStream).map Outcome.lost =
      some (some (Text.ascii "noao")) := by
    decide
  rw [call] at lost
  exact ⟨outcome, call, Option.some.inj lost, sound⟩

end NetPractice.AddrInfo
