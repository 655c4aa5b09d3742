import NetPractice.AddrInfo.Core
import Mathlib.Data.List.Basic
import Mathlib.Algebra.Group.Nat.Defs
import Mathlib.Algebra.Ring.Nat

/-!
# Every address with every service

`ga_port` inserts a clone in front of its own cursor while it goes through the
list.  One round of its loop replaces one entry by one or two, and what stands
behind the entry is visited as it was.  A whole call is therefore a pass over
the contents.  A pass for a new socket type puts one more clone behind the first
entry of each address, in front of the clones of the earlier calls.
-/

namespace NetPractice.AddrInfo

open NetPractice.Memory

/-! ## A pass over the contents -/

/-- An entry with the socket type and the port of a service. -/
def claimed (port socktype : Int) (info : Info) : Info :=
  { info with
    socktype := socktype
    addr := info.addr.map fun addr => { addr with port := .ofInt port } }

/-- A clone with its own socket address. -/
def cloned (info : Info) : Info :=
  { cloneInfo info with addr := info.addr }

/-- What a call leaves in the place of an entry. -/
def served (port socktype : Int) (info : Info) : List Info :=
  if info.flags &&& AI_CLONE ≠ 0 then
    if info.socktype ≠ 0 then
      [info, claimed port socktype (cloned info)]
    else
      [claimed port socktype info]
  else if info.socktype ≠ socktype then
    [info]
  else
    [claimed port socktype info]

/-- Whether a call counts an entry. -/
def counted (socktype : Int) (info : Info) : Nat :=
  if info.flags &&& AI_CLONE ≠ 0 ∨ info.socktype = socktype then 1 else 0

/-- An entry whose socket address was filled in. -/
structure Ready (info : Info) : Prop where
  family : info.family ≠ .unspec
  addr : info.addr.isSome

theorem claim_eq {info : Info} (ready : Ready info) (port socktype : Int) :
    claim port socktype info = some (claimed port socktype info, 1) := by
  rcases Option.isSome_iff_exists.mp ready.addr with ⟨addr, addr_eq⟩
  unfold claim
  split
  · simp [addr_eq, claimed]
  · simp [addr_eq, claimed]
  · next unspec => exact absurd unspec ready.family

theorem Ready.cloned {info : Info} (ready : Ready info) : Ready (cloned info) :=
  ⟨ready.family, ready.addr⟩

/-! ## One round of the loop -/

/-- The entry at `ai`, in front of `next`, was replaced: whatever is visited from
`next` later is then visited behind these contents. -/
structure Replaced (arena other : Arena Info) (ai : Nat) (next : Option Nat)
    (infos : List Info) : Prop where
  grown : arena.length ≤ other.length
  elsewhere : ∀ place < arena.length, place ≠ ai → other[place]? = arena[place]?
  placed : ∀ later : Arena Info,
    (∀ place < other.length, place = ai ∨ arena.length ≤ place → later[place]? = other[place]?) →
      ∀ entries, Visits later next entries →
        ∃ made, Visits later (some ai) (made ++ entries) ∧ made.map Prod.snd = infos

theorem replaced_same {arena : Arena Info} {ai : Nat} {next : Option Nat} {info : Info}
    (found : arena[ai]? = some ⟨info, next⟩) : Replaced arena arena ai next [info] := by
  constructor
  · exact Nat.le_refl _
  · intro place _ _
    rfl
  · intro later agree entries visits
    have below : ai < arena.length := (List.getElem?_eq_some_iff.mp found).1
    exact ⟨[(ai, info)],
      ⟨rfl, next, (agree ai below (.inl rfl)).trans found, visits⟩, rfl⟩

/-- An assignment to the entry itself. -/
theorem replaced_setVal {arena : Arena Info} {ai : Nat} {next : Option Nat} {info : Info}
    (found : arena[ai]? = some ⟨info, next⟩) (val : Info) :
    Replaced arena (arena.setVal ai val) ai next [val] := by
  have same := replaced_same (Arena.getElem?_setVal_self found val)
  constructor
  · simp
  · intro place _ ne
    exact Arena.getElem?_setVal_of_ne ne val
  · intro later agree
    apply same.placed later
    intro place below disj
    exact agree place below (by simpa using disj)

/-- A node that was allocated and linked behind the entry. -/
theorem replaced_insert {arena other : Arena Info} {ai : Nat} {next : Option Nat}
    {info added : Info} (found : arena[ai]? = some ⟨info, next⟩)
    (length_eq : other.length = arena.length + 1)
    (first : other[ai]? = some ⟨info, some arena.length⟩)
    (second : other[arena.length]? = some ⟨added, next⟩)
    (elsewhere : ∀ place < arena.length, place ≠ ai → other[place]? = arena[place]?) :
    Replaced arena other ai next [info, added] := by
  have below : ai < arena.length := (List.getElem?_eq_some_iff.mp found).1
  constructor
  · omega
  · exact elsewhere
  · intro later agree entries visits
    have firstLater := (agree ai (by omega) (.inl rfl)).trans first
    have secondLater := (agree arena.length (by omega) (.inr (Nat.le_refl _))).trans second
    exact ⟨[(ai, info), (arena.length, added)],
      ⟨rfl, some arena.length, firstLater, rfl, next, secondLater, visits⟩, rfl⟩

/-- A call of `calloc` or `malloc` found no memory. -/
def Refused (grants : Grants) : Prop :=
  ∃ call, grants call = false

/-- A clone is allocated, linked and filled, unless the memory runs out. -/
theorem gaClone_spec {heap : Heap} {ai : Nat} {next : Option Nat} {info : Info}
    (found : heap.infos[ai]? = some ⟨info, next⟩) (ready : Ready info) (grants : Grants) :
    (Refused grants ∧ ∃ other, gaClone grants ai heap = some (none, other)) ∨
      ∃ other, gaClone grants ai heap = some (some heap.infos.length, other) ∧
        other.infos.length = heap.infos.length + 1 ∧
        other.infos[ai]? = some ⟨info, some heap.infos.length⟩ ∧
        other.infos[heap.infos.length]? = some ⟨cloned info, next⟩ ∧
        ∀ place < heap.infos.length, place ≠ ai →
          other.infos[place]? = heap.infos[place]? := by
  rcases Option.isSome_iff_exists.mp ready.addr with ⟨addr, addr_eq⟩
  have below : ai < heap.infos.length := (List.getElem?_eq_some_iff.mp found).1
  by_cases calloc : grants heap.allocs
  · by_cases malloc : grants (heap.allocs + 1)
    · right
      refine ⟨_, by simp [gaClone, found, calloc, malloc, addr_eq]; rfl, ?_, ?_, ?_, ?_⟩
      · simp
      · rw [Arena.getElem?_setVal_of_ne (Nat.ne_of_lt below)]
        exact Arena.getElem?_setNext_self ((List.getElem?_append_left below).trans found) _
      · have linked : (Arena.setNext (heap.infos ++ [⟨cloneInfo info, next⟩]) ai
            (some heap.infos.length))[heap.infos.length]? = some ⟨cloneInfo info, next⟩ := by
          rw [Arena.getElem?_setNext_of_ne (Nat.ne_of_gt below), List.getElem?_concat_length]
        rw [Arena.getElem?_setVal_self linked, cloned, addr_eq]
      · intro place allocated ne
        rw [Arena.getElem?_setVal_of_ne (Nat.ne_of_lt allocated),
          Arena.getElem?_setNext_of_ne ne]
        exact List.getElem?_append_left allocated
    · left
      exact ⟨⟨_, Bool.eq_false_iff.mpr malloc⟩, _, by simp [gaClone, found, calloc, malloc]; rfl⟩
  · left
    exact ⟨⟨_, Bool.eq_false_iff.mpr calloc⟩, _, by simp [gaClone, found, calloc]; rfl⟩

/-- One round: the memory runs out, or the entry is replaced as in a pass and the
loop goes on behind it. -/
theorem gaPortLoop_round {heap : Heap} {ai : Nat} {next : Option Nat} {info : Info}
    (found : heap.infos[ai]? = some ⟨info, next⟩) (ready : Ready info) (grants : Grants)
    (port socktype : Int) (fuel nfound : Nat) :
    (Refused grants ∧ ∃ other,
        gaPortLoop grants port socktype (fuel + 1) (some ai) nfound heap = some (none, other)) ∨
      ∃ other, Replaced heap.infos other.infos ai next (served port socktype info) ∧
        gaPortLoop grants port socktype (fuel + 1) (some ai) nfound heap =
          gaPortLoop grants port socktype fuel next (nfound + counted socktype info) other := by
  have claimedHere : Replaced heap.infos (heap.put ai (claimed port socktype info)).infos ai next
      [claimed port socktype info] := replaced_setVal found _
  by_cases plain : info.flags &&& AI_CLONE = 0
  · by_cases same : info.socktype = socktype
    · right
      refine ⟨heap.put ai (claimed port socktype info), ?_, ?_⟩
      · simpa [served, plain, same] using claimedHere
      · simp [gaPortLoop, choose, found, plain, same, claim_eq ready, counted]
    · right
      refine ⟨heap, ?_, ?_⟩
      · simpa [served, plain, same] using replaced_same found
      · simp [gaPortLoop, choose, found, plain, same, counted]
  · by_cases fresh : info.socktype = 0
    · right
      refine ⟨heap.put ai (claimed port socktype info), ?_, ?_⟩
      · simpa [served, plain, fresh] using claimedHere
      · simp [gaPortLoop, choose, found, plain, fresh, claim_eq ready, counted]
    · rcases gaClone_spec found ready grants with
        ⟨refused, other, cloneEq⟩ | ⟨other, cloneEq, length_eq, first, second, elsewhere⟩
      · left
        refine ⟨refused, other, ?_⟩
        simp [gaPortLoop, choose, found, plain, fresh, cloneEq]
      · right
        have below : ai < heap.infos.length := (List.getElem?_eq_some_iff.mp found).1
        refine ⟨other.put heap.infos.length (claimed port socktype (cloned info)), ?_, ?_⟩
        · rw [served, if_pos plain, if_pos fresh]
          apply replaced_insert found
          · simp [Heap.put, length_eq]
          · exact (Arena.getElem?_setVal_of_ne (Nat.ne_of_lt below) _).trans first
          · exact Arena.getElem?_setVal_self second _
          · intro place allocated ne
            exact (Arena.getElem?_setVal_of_ne (Nat.ne_of_lt allocated) _).trans
              (elsewhere place allocated ne)
        · simp [gaPortLoop, choose, found, plain, fresh, cloneEq, second,
            claim_eq ready.cloned, counted]

/-! ## A whole call -/

/-- What a call makes of the contents. -/
def pass (port socktype : Int) (infos : List Info) : List Info :=
  infos.flatMap (served port socktype)

/-- The number of entries that a call counts. -/
def countedIn (socktype : Int) (infos : List Info) : Nat :=
  (infos.map (counted socktype)).sum

/-- From the cursor, which visited these entries, later contents are visited; nothing
else that was allocated before has changed. -/
structure Rewritten (arena other : Arena Info) (cursor : Option Nat)
    (entries : List (Nat × Info)) (infos : List Info) : Prop where
  grown : arena.length ≤ other.length
  elsewhere : ∀ place < arena.length, place ∉ entries.map Prod.fst →
    other[place]? = arena[place]?
  visited : ∃ after, Visits other cursor after ∧ after.map Prod.snd = infos

/-- One entry is replaced, and then the entries behind it are rewritten. -/
theorem Replaced.rewritten {arena middle other : Arena Info} {ai : Nat} {info : Info}
    {next : Option Nat} {rest : List (Nat × Info)} {infos later : List Info}
    (replaced : Replaced arena middle ai next infos)
    (rewritten : Rewritten middle other next rest later) (fresh : ai ∉ rest.map Prod.fst)
    (bounded : ∀ entry ∈ rest, entry.1 < arena.length) :
    Rewritten arena other (some ai) ((ai, info) :: rest) (infos ++ later) where
  grown := Nat.le_trans replaced.grown rewritten.grown
  elsewhere := by
    intro place allocated outside
    have ne : place ≠ ai := by
      rintro rfl
      exact outside List.mem_cons_self
    rw [rewritten.elsewhere place (Nat.lt_of_lt_of_le allocated replaced.grown)
      fun mem => outside (List.mem_cons_of_mem _ mem)]
    exact replaced.elsewhere place allocated ne
  visited := by
    have kept : ∀ place < middle.length, place = ai ∨ arena.length ≤ place →
        other[place]? = middle[place]? := by
      intro place allocated disj
      apply rewritten.elsewhere place allocated
      intro mem
      rcases disj with rfl | new
      · exact fresh mem
      · rcases List.mem_map.mp mem with ⟨entry, member, rfl⟩
        exact absurd (bounded entry member) (Nat.not_lt.mpr new)
    rcases rewritten.visited with ⟨after, visitsAfter, after_eq⟩
    rcases replaced.placed other kept after visitsAfter with ⟨made, visitsMade, made_eq⟩
    refine ⟨made ++ after, visitsMade, ?_⟩
    rw [List.map_append, made_eq, after_eq]

/-- The loop is a pass over what the cursor visits. -/
theorem gaPortLoop_spec {heap : Heap} {cursor : Option Nat} {entries : List (Nat × Info)}
    (visits : Visits heap.infos cursor entries) (ready : ∀ entry ∈ entries, Ready entry.2)
    (grants : Grants) (port socktype : Int) {fuel : Nat} (enough : entries.length < fuel)
    (nfound : Nat) :
    (Refused grants ∧ ∃ other,
        gaPortLoop grants port socktype fuel cursor nfound heap = some (none, other)) ∨
      ∃ other,
        gaPortLoop grants port socktype fuel cursor nfound heap =
          some (some (nfound + countedIn socktype (entries.map Prod.snd)), other) ∧
        Rewritten heap.infos other.infos cursor entries
          (pass port socktype (entries.map Prod.snd)) := by
  induction entries generalizing cursor heap fuel nfound with
  | nil =>
      rcases fuel with _ | fuel
      · exact absurd enough (Nat.not_lt_zero _)
      · right
        refine ⟨heap, ?_, Nat.le_refl _, fun _ _ _ => rfl, [], visits, rfl⟩
        cases visits
        rfl
  | cons first rest ih =>
      rcases first with ⟨ai, info⟩
      rcases fuel with _ | fuel
      · exact absurd enough (Nat.not_lt_zero _)
      have aiFresh : ai ∉ rest.map Prod.fst := (List.nodup_cons.mp visits.nodup).1
      have bounded : ∀ entry ∈ rest, entry.1 < heap.infos.length := by
        intro entry mem
        exact visits.lt_length (List.mem_cons_of_mem _ mem)
      have readyRest : ∀ entry ∈ rest, Ready entry.2 := by
        intro entry mem
        exact ready entry (List.mem_cons_of_mem _ mem)
      rcases visits with ⟨rfl, next, here, visits⟩
      rcases gaPortLoop_round here (ready _ List.mem_cons_self) grants port socktype fuel nfound
        with failed | ⟨middle, replaced, roundEq⟩
      · exact .inl failed
      -- the round leaves the rest of the list where it was
      have visitsMiddle : Visits middle.infos next rest := by
        apply visits.congr
        intro entry mem
        apply replaced.elsewhere _ (bounded entry mem)
        intro same
        exact aiFresh (same ▸ List.mem_map_of_mem mem)
      rw [roundEq]
      rcases ih visitsMiddle readyRest (Nat.lt_of_succ_lt_succ enough)
          (nfound + counted socktype info) with
        ⟨refused, other, failed⟩ | ⟨other, loopEq, rewritten⟩
      · exact .inl ⟨refused, other, failed⟩
      · right
        refine ⟨other, ?_, replaced.rewritten rewritten aiFresh bounded⟩
        simp [loopEq, countedIn, Nat.add_assoc]

/-- `ga_port` is a pass over the list, or fails for want of memory. -/
theorem gaPort_spec {heap : Heap} {aihead : Option Nat} {entries : List (Nat × Info)}
    (visits : Visits heap.infos aihead entries) (ready : ∀ entry ∈ entries, Ready entry.2)
    (grants : Grants) (port socktype : Int) :
    (Refused grants ∧ ∃ other, gaPort grants aihead port socktype heap = some (none, other)) ∨
      ∃ other after,
        gaPort grants aihead port socktype heap =
          some (some (countedIn socktype (entries.map Prod.snd)), other) ∧
        Visits other.infos aihead after ∧
        after.map Prod.snd = pass port socktype (entries.map Prod.snd) := by
  rcases gaPortLoop_spec visits ready grants port socktype
      (Nat.lt_succ_of_le visits.length_le) 0 with
    failed | ⟨other, loopEq, rewritten⟩
  · exact .inl failed
  · right
    rw [Nat.zero_add] at loopEq
    rcases rewritten.visited with ⟨after, visitsAfter, contents⟩
    exact ⟨other, after, loopEq, visitsAfter, contents⟩

/-! ## The entries of an address -/

/-- The entry of an address with a service. -/
def serviceInfo (hints : Hints) (address : HostAddr) (flags : UInt32) (service : Service) :
    Info :=
  { addressInfo hints address with
    flags := flags
    socktype := service.socktype
    addr := some
      { family := address.family, port := .ofInt service.port, addr := address.bytes } }

/-- The order that calls leave behind: the first one took the entry of
`ga_aistruct`, and each later one cloned directly behind it. -/
def order : List Service → List Service
  | [] => []
  | first :: later => first :: later.reverse

/-- The entries of an address after these calls. -/
def block (hints : Hints) (address : HostAddr) : List Service → List Info
  | [] => [addressInfo hints address]
  | first :: later =>
      serviceInfo hints address AI_CLONE first ::
        later.reverse.map (serviceInfo hints address 0)

theorem order_perm (services : List Service) : (order services).Perm services := by
  cases services with
  | nil => exact List.Perm.refl _
  | cons first later => exact (List.reverse_perm later).cons first

theorem ready_addressInfo (hints : Hints) (address : HostAddr) :
    Ready (addressInfo hints address) :=
  ⟨address.found, rfl⟩

theorem ready_of_mem_block {hints : Hints} {address : HostAddr} {services : List Service}
    {info : Info} (mem : info ∈ block hints address services) : Ready info := by
  cases services with
  | nil =>
      rcases List.mem_singleton.mp mem with rfl
      exact ready_addressInfo hints address
  | cons first later =>
      rcases List.mem_cons.mp mem with rfl | mem
      · exact ⟨address.found, rfl⟩
      · rcases List.mem_map.mp mem with ⟨service, -, rfl⟩
        exact ⟨address.found, rfl⟩

/-- A clone of another type is passed by. -/
theorem served_clone (hints : Hints) (address : HostAddr) {service other : Service}
    (ne : other.socktype ≠ service.socktype) :
    served service.port service.socktype (serviceInfo hints address 0 other) =
      [serviceInfo hints address 0 other] := by
  simp [served, serviceInfo, ne]

/-- The entry that `ga_aistruct` made is taken by the first call. -/
theorem served_addressInfo {hints : Hints} (anyType : hints.socktype = 0)
    (address : HostAddr) (service : Service) :
    served service.port service.socktype (addressInfo hints address) =
      [serviceInfo hints address AI_CLONE service] := by
  simp [served, addressInfo, aistructInfo, anyType, claimed, serviceInfo, AI_CLONE]

/-- The entry that the first call took is cloned by every later one. -/
theorem served_first (hints : Hints) (address : HostAddr) {first : Service}
    (nonzero : first.socktype ≠ 0) (service : Service) :
    served service.port service.socktype (serviceInfo hints address AI_CLONE first) =
      [serviceInfo hints address AI_CLONE first, serviceInfo hints address 0 service] := by
  simp [served, nonzero, claimed, cloned, cloneInfo, serviceInfo, addressInfo, aistructInfo,
    AI_CLONE]

/-- A pass for a new socket type adds its service to the entries of an address. -/
theorem pass_block {hints : Hints} (anyType : hints.socktype = 0) (address : HostAddr)
    {services : List Service} {service : Service}
    (nonzero : ∀ other ∈ services, other.socktype ≠ 0)
    (fresh : ∀ other ∈ services, other.socktype ≠ service.socktype) :
    pass service.port service.socktype (block hints address services) =
      block hints address (services ++ [service]) := by
  cases services with
  | nil => simp [pass, block, served_addressInfo anyType]
  | cons first later =>
      have clones : pass service.port service.socktype
          (later.reverse.map (serviceInfo hints address 0)) =
            later.reverse.map (serviceInfo hints address 0) := by
        rw [pass, List.flatMap_map, List.map_eq_flatMap]
        apply List.flatMap_congr
        intro other mem
        exact served_clone hints address
          (fresh other (List.mem_cons_of_mem _ (List.mem_reverse.mp mem)))
      have head := served_first hints address (nonzero first List.mem_cons_self) service
      simpa [pass, block, head] using clones

/-- A call for a new socket type counts one entry of each address. -/
theorem countedIn_block {hints : Hints} (anyType : hints.socktype = 0) (address : HostAddr)
    {services : List Service} {service : Service}
    (fresh : ∀ other ∈ services, other.socktype ≠ service.socktype) :
    countedIn service.socktype (block hints address services) = 1 := by
  cases services with
  | nil =>
      simp [countedIn, block, counted, addressInfo, aistructInfo, anyType, AI_CLONE]
  | cons first later =>
      have head : counted service.socktype (serviceInfo hints address AI_CLONE first) = 1 := by
        simp [counted, serviceInfo, AI_CLONE]
      have clones : ∀ other ∈ later.reverse.map (serviceInfo hints address 0),
          counted service.socktype other = 0 := by
        intro other mem
        rcases List.mem_map.mp mem with ⟨call, member, rfl⟩
        have ne := fresh call (List.mem_cons_of_mem _ (List.mem_reverse.mp member))
        simp [counted, serviceInfo, ne]
      rw [countedIn, block, List.map_cons, List.sum_cons, head, List.map_congr_left clones]
      simp [Function.comp_def]

/-! ## All addresses -/

/-- The contents of the list after these calls. -/
def blocks (hints : Hints) (addresses : List HostAddr) (services : List Service) : List Info :=
  addresses.flatMap fun address => block hints address services

theorem pass_blocks {hints : Hints} (anyType : hints.socktype = 0) (addresses : List HostAddr)
    {services : List Service} {service : Service}
    (nonzero : ∀ other ∈ services, other.socktype ≠ 0)
    (fresh : ∀ other ∈ services, other.socktype ≠ service.socktype) :
    pass service.port service.socktype (blocks hints addresses services) =
      blocks hints addresses (services ++ [service]) := by
  induction addresses with
  | nil => rfl
  | cons address rest ih =>
      have head := pass_block anyType address nonzero fresh
      simp only [blocks, pass, List.flatMap_cons, List.flatMap_append] at ih head ⊢
      rw [head, ih]

theorem countedIn_blocks {hints : Hints} (anyType : hints.socktype = 0)
    (addresses : List HostAddr) {services : List Service} {service : Service}
    (fresh : ∀ other ∈ services, other.socktype ≠ service.socktype) :
    countedIn service.socktype (blocks hints addresses services) = addresses.length := by
  induction addresses with
  | nil => rfl
  | cons address rest ih =>
      have head := countedIn_block anyType address fresh
      simp only [blocks, countedIn, List.flatMap_cons, List.map_append, List.sum_append]
        at ih head ⊢
      rw [head, ih, List.length_cons, Nat.add_comm]

/-- The calls, from a list that earlier calls left behind. -/
theorem gaPorts_spec {hints : Hints} (anyType : hints.socktype = 0)
    (addresses : List HostAddr) (grants : Grants) {aihead : Option Nat} {heap : Heap}
    {before services : List Service} {entries : List (Nat × Info)}
    (visits : Visits heap.infos aihead entries)
    (contents : entries.map Prod.snd = blocks hints addresses before)
    (nonzero : ∀ service ∈ before ++ services, service.socktype ≠ 0)
    (distinct : ((before ++ services).map Service.socktype).Nodup) :
    ∃ results other, gaPorts grants aihead services heap = some (results, other) ∧
      (none ∈ results ∧ Refused grants ∨
        results = List.replicate services.length (some addresses.length) ∧
        ∃ after, Visits other.infos aihead after ∧
          after.map Prod.snd = blocks hints addresses (before ++ services)) := by
  induction services generalizing before entries heap with
  | nil =>
      refine ⟨[], heap, rfl, .inr ⟨rfl, entries, visits, ?_⟩⟩
      rw [List.append_nil]
      exact contents
  | cons service rest ih =>
      have ready : ∀ entry ∈ entries, Ready entry.2 := by
        intro entry mem
        have member := List.mem_map_of_mem (f := Prod.snd) mem
        rw [contents] at member
        rcases List.mem_flatMap.mp member with ⟨address, -, mem⟩
        exact ready_of_mem_block mem
      have fresh : ∀ other ∈ before, other.socktype ≠ service.socktype := by
        intro other mem same
        rw [List.map_append, List.map_cons] at distinct
        exact (List.nodup_append.mp distinct).2.2 _ (List.mem_map_of_mem mem) _
          List.mem_cons_self same
      have regroup : before ++ service :: rest = before ++ [service] ++ rest := by simp
      have nonzeroBefore : ∀ other ∈ before, other.socktype ≠ 0 := by
        intro other mem
        exact nonzero other (List.mem_append_left _ mem)
      rcases gaPort_spec visits ready grants service.port service.socktype with
        ⟨refused, other, failed⟩ | ⟨middle, after, portEq, visitsAfter, contentsAfter⟩
      · exact ⟨[none], other, by simp [gaPorts, failed], .inl ⟨List.mem_singleton_self _, refused⟩⟩
      · rw [contents, countedIn_blocks anyType addresses fresh] at portEq
        rw [contents, pass_blocks anyType addresses nonzeroBefore fresh] at contentsAfter
        rw [regroup] at nonzero distinct
        rcases ih visitsAfter contentsAfter nonzero distinct with
          ⟨results, other, restEq, outcome⟩
        refine ⟨some addresses.length :: results, other, by simp [gaPorts, portEq, restEq], ?_⟩
        rcases outcome with ⟨failed, refused⟩ | ⟨results_eq, last, visitsLast, contentsLast⟩
        · exact .inl ⟨List.mem_cons_of_mem _ failed, refused⟩
        · rw [regroup]
          exact .inr ⟨by rw [results_eq]; rfl, last, visitsLast, contentsLast⟩

/-! ## The host search -/

/-- The list under construction: what it holds and where its end is. -/
structure Searched (search : Search) (entries : List (Nat × Info)) : Prop where
  visits : Visits search.heap.infos search.aihead entries
  aipnext : search.aipnext = entries.getLast?.elim .aihead fun entry => .next entry.1

/-- A new entry goes to the end. -/
theorem Searched.link {search : Search} {entries : List (Nat × Info)}
    (searched : Searched search entries) (info : Info) :
    Searched (search.link info) (entries ++ [(search.heap.infos.length, info)]) := by
  rcases List.eq_nil_or_concat entries with rfl | ⟨front, last, rfl⟩
  · have atHead : search.aipnext = .aihead := searched.aipnext
    constructor
    · simp only [Search.link, atHead, List.nil_append]
      exact ⟨rfl, none, List.getElem?_concat_length, rfl⟩
    · simp [Search.link, atHead]
  · have atLast : search.aipnext = .next last.1 := by
      have aipnext := searched.aipnext
      rw [List.concat_eq_append, List.getLast?_append] at aipnext
      exact aipnext
    have visits := searched.visits
    rw [List.concat_eq_append] at visits
    constructor
    · simp only [Search.link, atLast, List.concat_eq_append, List.append_assoc,
        List.singleton_append]
      exact visits.append_last info
    · simp [Search.link, atLast]

/-- The host search leaves an entry for each address, in their order. -/
theorem build_spec {grants : Grants} {hints : Hints} {addresses : List HostAddr}
    {search final : Search} {entries : List (Nat × Info)} (searched : Searched search entries)
    (built : build grants hints addresses search = some final) :
    ∃ added, Searched final (entries ++ added) ∧
      added.map Prod.snd = addresses.map (addressInfo hints) := by
  induction addresses generalizing search entries with
  | nil =>
      cases built
      refine ⟨[], ?_, rfl⟩
      rw [List.append_nil]
      exact searched
  | cons address rest ih =>
      by_cases calloc : grants search.heap.allocs
      · by_cases malloc : grants (search.heap.allocs + 1)
        · simp only [build, gaAistruct, calloc, malloc, if_true] at built
          have start : Searched { search with heap := search.heap.tried.tried } entries :=
            ⟨searched.visits, searched.aipnext⟩
          rcases ih (start.link (addressInfo hints address)) built with
            ⟨added, searchedAfter, added_eq⟩
          refine ⟨(search.heap.infos.length, addressInfo hints address) :: added, ?_, ?_⟩
          · rw [List.append_cons]
            exact searchedAfter
          · rw [List.map_cons, added_eq, List.map_cons]
        · simp [build, gaAistruct, calloc, malloc] at built
      · simp [build, gaAistruct, calloc] at built

/-! ## The cross product -/

/-- What a caller of `getaddrinfo` goes through: the family, the address, the
socket type and the port of an entry. -/
def Info.endpoint (info : Info) : Family × Option (List UInt8) × Int × Option UInt16 :=
  (info.family, info.addr.map SockAddr.addr, info.socktype, info.addr.map SockAddr.port)

/-- An address with a service. -/
def endpoint (address : HostAddr) (service : Service) :
    Family × Option (List UInt8) × Int × Option UInt16 :=
  (address.family, some address.bytes, service.socktype, some (.ofInt service.port))

theorem map_endpoint_block (hints : Hints) (address : HostAddr) {services : List Service}
    (nonempty : services ≠ []) :
    (block hints address services).map Info.endpoint =
      (order services).map (endpoint address) := by
  cases services with
  | nil => exact absurd rfl nonempty
  | cons first later =>
      simp [block, order, Info.endpoint, endpoint, serviceInfo, addressInfo, aistructInfo,
        Function.comp_def]

theorem map_endpoint_blocks (hints : Hints) (addresses : List HostAddr)
    {services : List Service} (nonempty : services ≠ []) :
    (blocks hints addresses services).map Info.endpoint =
      addresses.flatMap fun address => (order services).map (endpoint address) := by
  induction addresses with
  | nil => rfl
  | cons address rest ih =>
      rw [blocks] at ih ⊢
      rw [List.flatMap_cons, List.map_append, map_endpoint_block hints address nonempty, ih,
        List.flatMap_cons]

/-- Without a socket type in the hints, calls for distinct socket types leave each
address with every service, the addresses in their order and the services of an
address next to each other. -/
theorem gaPorts_crossProduct {grants : Grants} {hints : Hints} {addresses : List HostAddr}
    {services : List Service} {heap final : Heap} {search : Search}
    {results : List (Option Nat)} (anyType : hints.socktype = 0) (nonempty : services ≠ [])
    (nonzero : ∀ service ∈ services, service.socktype ≠ 0)
    (distinct : (services.map Service.socktype).Nodup)
    (built : build grants hints addresses { heap := heap } = some search)
    (called : gaPorts grants search.aihead services search.heap = some (results, final))
    (successful : none ∉ results) :
    results = List.replicate services.length (some addresses.length) ∧
      ∃ entries, Visits final.infos search.aihead entries ∧
        entries.length = addresses.length * services.length ∧
        ∃ arrangement : List Service, arrangement.Perm services ∧
          entries.map (fun entry => entry.2.endpoint) =
            addresses.flatMap fun address => arrangement.map (endpoint address) := by
  have start : Searched { heap := heap } [] := ⟨rfl, rfl⟩
  rcases build_spec start built with ⟨entries, searched, contents⟩
  have before : entries.map Prod.snd = blocks hints addresses [] := by
    rw [contents, blocks, List.map_eq_flatMap]
    rfl
  rcases gaPorts_spec anyType addresses grants searched.visits before nonzero distinct with
    ⟨same, other, portsEq, outcome⟩
  cases portsEq.symm.trans called
  rcases outcome with ⟨failed, -⟩ | ⟨results_eq, after, visits, contentsAfter⟩
  · exact absurd failed successful
  · constructor
    · exact results_eq
    · have endpoints : after.map (fun entry => entry.2.endpoint) =
          addresses.flatMap fun address => (order services).map (endpoint address) := by
        rw [← map_endpoint_blocks hints addresses nonempty, ← List.nil_append services,
          ← contentsAfter, List.map_map]
        rfl
      refine ⟨after, visits, ?_, order services, order_perm services, endpoints⟩
      have length_eq := congrArg List.length endpoints
      simpa [List.length_flatMap, (order_perm services).length_eq] using length_eq

/-- The calls of a multihomed host with a service for TCP and UDP. -/
theorem gaPorts_crossProduct_daytime :
    let hints : Hints := { socktype := 0, protocol := 0 }
    let addresses : List HostAddr :=
      [⟨.inet, [192, 0, 2, 1], nofun, rfl⟩, ⟨.inet, [192, 0, 2, 2], nofun, rfl⟩]
    let services : List Service := [⟨3328, 1⟩, ⟨3328, 2⟩]
    ∃ search results final,
      build (fun _ => true) hints addresses {} = some search ∧
        gaPorts (fun _ => true) search.aihead services search.heap = some (results, final) ∧
        results = List.replicate services.length (some addresses.length) ∧
        ∃ entries, Visits final.infos search.aihead entries ∧
          entries.length = addresses.length * services.length ∧
          ∃ arrangement : List Service, arrangement.Perm services ∧
            entries.map (fun entry => entry.2.endpoint) =
              addresses.flatMap fun address => arrangement.map (endpoint address) := by
  intro hints addresses services
  have possible : ((build (fun _ => true) hints addresses {}).bind fun search =>
      (gaPorts (fun _ => true) search.aihead services search.heap).map Prod.fst) =
        some [some 2, some 2] := by decide
  rcases Option.bind_eq_some_iff.mp possible with ⟨search, built, called⟩
  rcases Option.map_eq_some_iff.mp called with ⟨⟨results, final⟩, called, rfl⟩
  exact ⟨search, _, final, built, called,
    gaPorts_crossProduct rfl (by decide) (by decide) (by decide) built called (by decide)⟩

end NetPractice.AddrInfo
