import NetPractice.AddrInfo.Release

/-!
# When getaddrinfo returns a list

Where memory does not run out, `getaddrinfo` returns a list exactly for the arguments that pass
its checks, when no search is an error, one of them has found an address, and the service that
is asked for is known.
-/

namespace NetPractice.AddrInfo

open NetPractice.Memory

/-! ## The host search -/

/-- The error that an answer leads to. -/
def Answer.error? : Answer → Option Error
  | .error e => some e
  | .ignore | .found _ _ => none

/-- All calls of `calloc`, `malloc` and `strdup` find memory. -/
def Enough (grants : Grants) : Prop :=
  ∀ call, grants call = true

section

variable {grants : Grants} {r : Request} {l : Locals}

theorem addAddresses_enough (enough : Enough grants) (hints : Hints) (addrs : List HostAddr)
    (search : Search) :
    (addAddresses grants hints addrs search).1 = .ok ∧
      Arena.vals (addAddresses grants hints addrs search).2.heap.infos =
        Arena.vals search.heap.infos ++ addrs.map (addressInfo hints) := by
  induction addrs generalizing search with
  | nil =>
      rw [List.map_nil, List.append_nil]
      exact ⟨rfl, rfl⟩
  | cons address rest ih =>
      simp only [addAddresses, gaAistruct, enough _, if_true]
      have behind := ih (Search.link { search with heap := search.heap.tried.tried }
        (addressInfo hints address))
      rw [vals_link] at behind
      refine ⟨behind.1, behind.2.trans ?_⟩
      rw [List.append_assoc]
      rfl

theorem saveCanon_enough (enough : Enough grants) (r : Request) (name : Option (List UInt8))
    (l : Locals) :
    (saveCanon grants r name l).1 = none ∧
      (saveCanon grants r name l).2.search.heap.infos = l.search.heap.infos := by
  unfold saveCanon
  split
  · rw [if_pos (enough _)]
    exact ⟨rfl, rfl⟩
  · exact ⟨rfl, rfl⟩

theorem searchOne_enough (enough : Enough grants) (r : Request) (l : Locals) (answer : Answer) :
    (searchOne grants r l answer).1 = answer.error? ∧
      (answer.error? = none →
        Arena.vals (searchOne grants r l answer).2.search.heap.infos =
          Arena.vals l.search.heap.infos ++ answer.addrs.map (addressInfo r.hints)) := by
  cases answer with
  | error e => exact ⟨rfl, by rintro ⟨⟩⟩
  | ignore =>
      refine ⟨rfl, fun _ => ?_⟩
      rw [Answer.addrs, List.map_nil, List.append_nil]
      rfl
  | found name addrs =>
      have saved := saveCanon_enough enough r name l
      rw [searchOne]
      split
      · next e middle call =>
          rw [call] at saved
          cases saved.1
      · next middle call =>
          rw [call] at saved
          have added := addAddresses_enough enough r.hints addrs middle.search
          rw [saved.2] at added
          split
          · next search call =>
              rw [call] at added
              cases added.1
          · next search call =>
              rw [call] at added
              exact ⟨rfl, fun _ => added.2⟩

/-- The search stops at the first answer that is an error. -/
theorem searchLoop_enough (enough : Enough grants) (r : Request) (answers : List Answer)
    (l : Locals) :
    (searchLoop grants r answers l).1 = answers.findSome? Answer.error? ∧
      (answers.findSome? Answer.error? = none →
        Arena.vals (searchLoop grants r answers l).2.search.heap.infos =
          Arena.vals l.search.heap.infos ++
            (answers.flatMap Answer.addrs).map (addressInfo r.hints)) := by
  induction answers generalizing l with
  | nil =>
      refine ⟨rfl, fun _ => ?_⟩
      rw [List.flatMap_nil, List.map_nil, List.append_nil]
      rfl
  | cons answer rest ih =>
      have one := searchOne_enough enough r l answer
      rw [searchLoop]
      split
      · next e middle call =>
          rw [call] at one
          rw [List.findSome?_cons, ← one.1]
          exact ⟨rfl, by rintro ⟨⟩⟩
      · next middle call =>
          rw [call] at one
          have behind := ih middle
          rw [List.findSome?_cons, ← one.1]
          refine ⟨behind.1, fun clear => (behind.2 clear).trans ?_⟩
          rw [one.2 one.1.symm, List.flatMap_cons, List.map_append, List.append_assoc]

/-! ## The service -/

variable {heap : Heap} {aihead : Option Nat} {apart : Nat} {addresses : List HostAddr}

theorem gaPort_enough (enough : Enough grants) (kept : heap.Kept grants aihead apart)
    (filled : heap.Filled addresses) (port socktype : Int) :
    ∃ other,
      gaPort grants aihead port socktype heap =
        some (some (countedIn socktype (Arena.vals heap.infos)), other) ∧
      other.Kept grants aihead apart ∧ other.Filled addresses := by
  rcases gaPort_kept kept filled port socktype with ⟨result, other, call, keptOther, filledOther⟩
  rcases kept.owns with ⟨entries, visits, all⟩
  have same := visits.vals_perm all
  have ready : ∀ entry ∈ entries, Ready entry.2 := by
    intro entry mem
    rcases filled.found _ (same.mem_iff.mp (List.mem_map_of_mem mem)) with ⟨address, -, fits⟩
    exact fits.ready
  have counts : countedIn socktype (entries.map Prod.snd) =
      countedIn socktype (Arena.vals heap.infos) := (same.map (counted socktype)).sum_eq
  rcases gaPort_spec visits ready grants port socktype with
    ⟨⟨refused, refuses⟩, -⟩ | ⟨final, after, again, -⟩
  · rw [enough refused] at refuses
    cases refuses
  · rw [counts] at again
    cases call.symm.trans again
    exact ⟨other, call, keptOther, filledOther (Option.some_ne_none _)⟩

theorem gaPorts_enough (enough : Enough grants) (kept : heap.Kept grants aihead apart)
    (filled : heap.Filled addresses) (services : List Service) :
    ∃ (results : List Nat) (other : Heap),
      gaPorts grants aihead services heap = some (results.map some, other) ∧
        results.length = services.length ∧
        ∀ service ∈ services.head?,
          countedIn service.socktype (Arena.vals heap.infos) ∈ results := by
  induction services generalizing heap with
  | nil => exact ⟨[], heap, rfl, rfl, by rintro service ⟨⟩⟩
  | cons service rest ih =>
      rcases gaPort_enough enough kept filled service.port service.socktype with
        ⟨middle, call, keptMiddle, filledMiddle⟩
      rcases ih keptMiddle filledMiddle with ⟨results, other, calls, length_eq, -⟩
      refine ⟨countedIn service.socktype (Arena.vals heap.infos) :: results, other, ?_,
        congrArg Nat.succ length_eq, ?_⟩
      · rw [gaPorts, call]
        simp only [calls]
        rfl
      · intro first here
        cases here
        exact List.mem_cons_self

theorem socktype_of_mem_serviceCalls {own : Host} {socktype : Int} {serv : List UInt8}
    {service : Service} (mem : service ∈ serviceCalls own socktype serv)
    (asked : socktype ≠ 0) : service.socktype = socktype := by
  by_cases digits : serv.head?.any Text.isDigit = true
  · simp only [serviceCalls, if_pos digits, if_pos asked, List.mem_singleton] at mem
    rw [mem]
  · simp only [serviceCalls, if_neg digits] at mem
    rcases List.mem_append.mp mem with stream | dgram
    · split at stream
      · next wants =>
          simp only [Option.mem_toList, Option.map_eq_some_iff] at stream
          rcases stream with ⟨port, -, rfl⟩
          exact (wants.resolve_left asked).symm
      · cases stream
    · split at dgram
      · next wants =>
          simp only [Option.mem_toList, Option.map_eq_some_iff] at dgram
          rcases dgram with ⟨port, -, rfl⟩
          exact (wants.resolve_left asked).symm
      · cases dgram

/-- What decides whether `ga_port` counts an entry. -/
def Info.kind (info : Info) : UInt32 × Int :=
  (info.flags, info.socktype)

/-- The kind of an entry that `ga_aistruct` has made. -/
def madeKind (socktype : Int) : UInt32 × Int :=
  (if socktype = 0 then 0 ||| AI_CLONE else 0, socktype)

theorem counted_of_kind {own : Host} {socktype : Int} {serv : List UInt8} {service : Service}
    (mem : service ∈ serviceCalls own socktype serv) {info : Info}
    (kind : info.kind = madeKind socktype) : counted service.socktype info = 1 := by
  rcases Prod.mk.inj kind with ⟨flags, type⟩
  unfold counted
  by_cases asked : socktype = 0
  · rw [if_pos asked] at flags
    rw [flags]
    exact if_pos (.inl (by decide))
  · refine if_pos (.inr (type.trans ?_))
    exact (socktype_of_mem_serviceCalls mem asked).symm

theorem countedIn_ne_zero {own : Host} {socktype : Int} {serv : List UInt8} {service : Service}
    (mem : service ∈ serviceCalls own socktype serv) {infos : List Info}
    (kinds : ∀ info ∈ infos, info.kind = madeKind socktype) (nonempty : infos ≠ []) :
    countedIn service.socktype infos ≠ 0 := by
  cases infos with
  | nil => exact absurd rfl nonempty
  | cons info rest =>
      have one := counted_of_kind mem (kinds info List.mem_cons_self)
      rw [countedIn, List.map_cons, List.sum_cons, one]
      omega

/-- A service is found when there is an entry for the address of a host. -/
theorem gaServ_enough (enough : Enough grants) (kept : heap.Kept grants aihead apart)
    (filled : heap.Filled addresses) {socktype : Int}
    (kinds : ∀ info ∈ Arena.vals heap.infos, info.kind = madeKind socktype)
    (nonempty : Arena.vals heap.infos ≠ []) (own : Host) (serv : List UInt8) :
    ∃ error other, gaServ grants own socktype serv aihead heap = some (error, other) ∧
      (error = none ↔ serviceCalls own socktype serv ≠ []) := by
  rcases gaPorts_enough enough kept filled (serviceCalls own socktype serv) with
    ⟨results, other, calls, length_eq, first⟩
  have known : none ∉ results.map some := by simp
  have values : (results.map some).map (Option.getD · 0) = results := by
    rw [List.map_map]
    exact List.map_id results
  simp only [gaServ, calls, Option.bind_eq_bind, Option.bind_some, if_neg known, values]
  cases services : serviceCalls own socktype serv with
  | nil =>
      rw [services, List.length_nil] at length_eq
      rw [List.eq_nil_of_length_eq_zero length_eq, if_pos List.sum_nil]
      exact ⟨_, other, rfl, by rintro ⟨⟩, fun some => absurd rfl some⟩
  | cons service rest =>
      rw [services] at first
      have mem : service ∈ serviceCalls own socktype serv := by
        rw [services]
        exact List.mem_cons_self
      have positive : 0 < results.sum := List.sum_pos_iff_exists_pos_nat.mpr
        ⟨_, first service rfl, Nat.pos_of_ne_zero (countedIn_ne_zero mem kinds nonempty)⟩
      rw [if_neg positive.ne']
      exact ⟨_, other, rfl, fun _ => List.cons_ne_nil service rest, fun _ => rfl⟩

/-! ## The whole function -/

theorem kinds_put {ai : Nat} {node : Node Info} (found : heap.infos[ai]? = some node)
    {info : Info} (same : info.kind = node.val.kind) :
    (Arena.vals (heap.put ai info).infos).map Info.kind =
      (Arena.vals heap.infos).map Info.kind := by
  have here : ((Arena.vals heap.infos).map Info.kind)[ai]? = some node.val.kind := by
    rw [List.getElem?_map, Arena.getElem?_vals found]
    rfl
  rw [Heap.put, Arena.vals_setVal, List.map_set, same]
  apply List.ext_getElem?
  intro place
  by_cases at_ai : ai = place
  · subst at_ai
    rw [here, List.getElem?_set_self (List.getElem?_eq_some_iff.mp here).1]
  · rw [List.getElem?_set_ne at_ai]

theorem setCanonname_enough (enough : Enough grants) {host : List UInt8}
    {canon : Option (List UInt8)} {ai : Nat} {error : Option Error} {other : Heap}
    (call : setCanonname grants r host canon ai heap = some (error, other)) :
    error = none ∧
      (Arena.vals other.infos).map Info.kind = (Arena.vals heap.infos).map Info.kind := by
  by_cases wants : r.WantsCanon
  · rw [setCanonname, if_pos wants] at call
    rcases Option.bind_eq_some_iff.mp call with ⟨node, found, call⟩
    cases canon with
    | some name =>
        cases call
        exact ⟨rfl, kinds_put found rfl⟩
    | none =>
        simp only [if_pos (enough _)] at call
        cases call
        have foundTried : heap.tried.infos[ai]? = some node := found
        exact ⟨rfl, kinds_put foundTried rfl⟩
  · rw [setCanonname, if_neg wants] at call
    cases call
    exact ⟨rfl, rfl⟩

theorem bad_not_list {e : Error} {canon : Option (List UInt8)} :
    ¬ ∃ place other, bad e aihead heap canon = some (.list place other) := by
  rintro ⟨place, other, call⟩
  rcases Option.bind_eq_some_iff.mp call with ⟨freed, -, ends⟩
  cases ends

/-- The service that is asked for is known. -/
def Request.Served (own : Host) (r : Request) : Prop :=
  ∀ serv, given r.servname = some serv → serviceCalls own r.socktype serv ≠ []

theorem finish_list_iff (enough : Enough grants) (kept : l.Kept grants r)
    (filled : l.search.heap.Filled addresses) {ai : Nat} (head : l.search.aihead = some ai)
    (kinds : ∀ info ∈ Arena.vals l.search.heap.infos, info.kind = madeKind r.socktype)
    (nonempty : Arena.vals l.search.heap.infos ≠ []) (own : Host) (host : List UInt8) :
    (∃ place heap, finish grants own r host ai l = some (.list place heap)) ↔ r.Served own := by
  rcases setCanonname_kept kept filled head host with ⟨error, heap, call, named, -⟩
  rcases setCanonname_enough enough call with ⟨rfl, sameKinds⟩
  rcases named rfl with ⟨keptNamed, filledNamed⟩
  rw [finish, call]
  simp only [Option.bind_eq_bind, Option.bind_some]
  cases service : given r.servname with
  | none =>
      refine ⟨fun _ serv asked => ?_, fun _ => ⟨_, _, rfl⟩⟩
      cases service.symm.trans asked
  | some serv =>
      have kindsNamed : ∀ info ∈ Arena.vals heap.infos, info.kind = madeKind r.socktype := by
        intro info mem
        have made : info.kind ∈ (Arena.vals l.search.heap.infos).map Info.kind := by
          rw [← sameKinds]
          exact List.mem_map_of_mem mem
        rcases List.mem_map.mp made with ⟨old, member, same⟩
        exact same.symm.trans (kinds old member)
      have nonemptyNamed : Arena.vals heap.infos ≠ [] := by
        intro empty
        rw [empty] at sameKinds
        exact nonempty (List.map_eq_nil_iff.mp sameKinds.symm)
      rcases gaServ_enough enough keptNamed filledNamed kindsNamed nonemptyNamed own serv with
        ⟨error, other, call, known⟩
      simp only [call, Option.bind_some]
      have served : r.Served own ↔ error = none := by
        rw [known]
        constructor
        · intro all
          exact all serv service
        · intro calls name asked
          cases service.symm.trans asked
          exact calls
      rw [served]
      cases error with
      | some e =>
          constructor
          · exact fun list => absurd list bad_not_list
          · rintro ⟨⟩
      | none => exact ⟨fun _ => rfl, fun _ => ⟨_, _, rfl⟩⟩

/-- What follows a search without an error. -/
theorem searched_list_iff (enough : Enough grants) (kept : l.Kept grants r)
    (filled : l.search.heap.Filled addresses)
    (contents : Arena.vals l.search.heap.infos = addresses.map (addressInfo r.hints))
    (own : Host) (host : List UInt8) :
    (∃ place heap,
      (match l.search.aihead with
        | none => bad .EAI_NONAME none l.search.heap l.canon
        | some aihead => finish grants own r host aihead l) = some (.list place heap)) ↔
      addresses ≠ [] ∧ r.Served own := by
  have empty_iff : l.search.aihead = none ↔ addresses = [] := by
    rw [kept.search.heap.owns.eq_none_iff, contents, List.map_eq_nil_iff]
  split
  · next head =>
      exact ⟨fun list => absurd list bad_not_list,
        fun found => absurd (empty_iff.mp head) found.1⟩
  · next aihead head =>
      have found : addresses ≠ [] := by
        intro empty
        cases head.symm.trans (empty_iff.mpr empty)
      have nonempty : Arena.vals l.search.heap.infos ≠ [] := by
        rw [contents]
        exact fun empty => found (List.map_eq_nil_iff.mp empty)
      have kinds : ∀ info ∈ Arena.vals l.search.heap.infos,
          info.kind = madeKind r.socktype := by
        intro info mem
        rw [contents] at mem
        rcases List.mem_map.mp mem with ⟨address, -, rfl⟩
        rfl
      rw [finish_list_iff enough kept filled head kinds nonempty]
      exact ⟨fun served => ⟨found, served⟩, And.right⟩

/-- What a list is returned for. -/
structure Request.Answerable (own : Host) (r : Request) : Prop where
  checked : gaEcheck r = none
  searched : ∀ query ∈ gaNsearch r, (answer own r (gaNsearch r).length query).error? = none
  found : foundAddrs own r ≠ []
  served : r.Served own

/-- Where memory does not run out, these are the requests that a list is returned for, but for
those of the Unix domain. -/
theorem getaddrinfo_list_iff (own : Host) (r : Request) (remote : ¬ r.Local) :
    (∃ aihead heap, getaddrinfo (fun _ => true) own r = some (.list aihead heap)) ↔
      r.Answerable own := by
  have enough : Enough fun _ => true := fun _ => rfl
  unfold getaddrinfo
  split
  · next e checked =>
      exact ⟨fun list => absurd list bad_not_list,
        fun answerable => absurd (checked.symm.trans answerable.checked) (Option.some_ne_none e)⟩
  next checked =>
  rw [if_neg remote]
  simp only
  split
  · next unknown =>
      refine ⟨by rintro ⟨_, _, ⟨⟩⟩, fun answerable => absurd ?_ answerable.found⟩
      rw [foundAddrs, unknown]
      rfl
  have searched := searchLoop_kept (start_kept (fun _ => true) r) start_filled
    ((gaNsearch r).map (answer own r (gaNsearch r).length))
  have made := searchLoop_enough enough r
    ((gaNsearch r).map (answer own r (gaNsearch r).length)) {}
  simp only [List.findSome?_eq_none_iff, List.forall_mem_map] at made
  split
  · next e final loop =>
      rw [loop] at made
      refine ⟨fun list => absurd list bad_not_list, fun answerable => ?_⟩
      have clear : ((gaNsearch r).map (answer own r (gaNsearch r).length)).findSome?
          Answer.error? = none := by
        simpa only [List.findSome?_eq_none_iff, List.forall_mem_map] using answerable.searched
      cases made.1.trans clear
  · next final loop =>
      rw [loop] at searched made
      have clear : ∀ query ∈ gaNsearch r,
          (answer own r (gaNsearch r).length query).error? = none := by
        simpa only [List.findSome?_eq_none_iff, List.forall_mem_map] using made.1.symm
      have kept : final.Kept (fun _ => true) r := searched.1
      have filled : final.search.heap.Filled (foundAddrs own r) := searched.2 rfl
      have contents : Arena.vals final.search.heap.infos =
          (foundAddrs own r).map (addressInfo r.hints) := made.2 clear
      refine (searched_list_iff enough kept filled contents own _).trans ?_
      constructor
      · rintro ⟨found, served⟩
        exact ⟨checked, clear, found, served⟩
      · intro answerable
        exact ⟨answerable.found, answerable.served⟩

end

/-- An address in digits, and a port that only begins with one. -/
def sevenUp : Request where
  hostname := some (Text.ascii "10.0.0.1")
  servname := some (Text.ascii "7up")
  flags := 0
  family := .unspec
  socktype := 0
  protocol := 0

theorem getaddrinfo_list_sevenUp :
    ∃ aihead heap, getaddrinfo (fun _ => true) noao sevenUp = some (.list aihead heap) := by
  apply (getaddrinfo_list_iff noao sevenUp (by decide)).mpr
  constructor
  · decide
  · decide
  · decide
  · intro serv asked
    cases asked
    decide

end NetPractice.AddrInfo
