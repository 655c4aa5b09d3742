import NetPractice.Memory.Chain

/-!
# The address list of getaddrinfo

`ga_aistruct` links an entry for each address that the host search finds, and
`ga_port` gives the entries the port of a service, once for each socket type.
Where the caller asked for no socket type, the entries carry `AI_CLONE`, and
`ga_clone` adds an entry for each further type while `ga_port` goes through the
list.  The service part runs for AF_INET and AF_INET6 only: `getaddrinfo` leaves
AF_LOCAL to `ga_unix`.
-/

namespace NetPractice.AddrInfo

open NetPractice.Memory

/-- The internal flag of gai_hdr.h. -/
def AI_CLONE : UInt32 := 4

/-- `AF_UNSPEC`, `AF_INET` and `AF_INET6`. -/
inductive Family
  | unspec
  | inet
  | inet6
  deriving DecidableEq, Repr

/-- The size of `struct in_addr` or `struct in6_addr`. -/
def Family.addrSize : Family → Nat
  | .unspec => 0
  | .inet => 4
  | .inet6 => 16

/-- The size of `struct sockaddr_in` or `struct sockaddr_in6`. -/
def Family.sockaddrSize : Family → Nat
  | .unspec => 0
  | .inet => 16
  | .inet6 => 28

/-- An address that the host search passes on. -/
structure HostAddr where
  family : Family
  bytes : List UInt8
  found : family ≠ .unspec
  sized : bytes.length = family.addrSize

/-- A `struct sockaddr_in` or a `struct sockaddr_in6`. -/
structure SockAddr where
  family : Family
  port : UInt16
  addr : List UInt8
  deriving DecidableEq, Repr

/-- A `struct addrinfo` without its link, as `calloc` leaves it. -/
structure Info where
  flags : UInt32 := 0
  family : Family := .unspec
  socktype : Int := 0
  protocol : Int := 0
  addrlen : Nat := 0
  canonname : Option (List UInt8) := none
  addr : Option SockAddr := none
  deriving DecidableEq, Repr

/-- The caller's wishes. -/
structure Hints where
  socktype : Int
  protocol : Int
  deriving DecidableEq, Repr

/-- The entries that were allocated, and the calls of `calloc` and `malloc` so
far. -/
structure Heap where
  infos : Arena Info := []
  allocs : Nat := 0
  deriving DecidableEq, Repr

/-- Which calls of `calloc` and `malloc` find memory. -/
abbrev Grants := Nat → Bool

/-- The heap behind one more attempt to allocate. -/
def Heap.tried (heap : Heap) : Heap :=
  { heap with allocs := heap.allocs + 1 }

/-- The heap after an assignment to the fields of `ai`. -/
def Heap.put (heap : Heap) (ai : Nat) (info : Info) : Heap :=
  { heap with infos := heap.infos.setVal ai info }

/-! ## Building the list -/

/-- What `aipnext` points at: `aihead`, or the link of an entry. -/
inductive Link
  | aihead
  | next (ai : Nat)
  deriving DecidableEq, Repr

/-- The host search: the list so far and its end. -/
structure Search where
  heap : Heap := {}
  aihead : Option Nat := none
  aipnext : Link := .aihead
  deriving DecidableEq, Repr

/-- The assignments `**paipnext = ai; *paipnext = &ai->ai_next`, after the new
entry was appended to the arena. -/
def Search.link (search : Search) (info : Info) : Search :=
  let ai := search.heap.infos.length
  let infos := search.heap.infos ++ [⟨info, none⟩]
  match search.aipnext with
  | .aihead =>
      { heap := { search.heap with infos := infos }, aihead := some ai, aipnext := .next ai }
  | .next last =>
      { search with
        heap := { search.heap with infos := Arena.setNext infos last (some ai) }
        aipnext := .next ai }

/-- What `ga_aistruct` returns. -/
inductive Status
  | ok
  | EAI_MEMORY
  deriving DecidableEq, Repr

/-- The fields that `ga_aistruct` sets before it allocates the socket address. -/
def aistructInfo (hints : Hints) (address : HostAddr) : Info :=
  { flags := if hints.socktype = 0 then 0 ||| AI_CLONE else 0
    socktype := hints.socktype
    protocol := hints.protocol
    family := address.family }

/-- The entry with its socket address: all but the port. -/
def addressInfo (hints : Hints) (address : HostAddr) : Info :=
  { aistructInfo hints address with
    addr := some { family := address.family, port := 0, addr := address.bytes }
    addrlen := address.family.sockaddrSize }

/-- `ga_aistruct`: an entry for an address is linked behind the others. -/
def gaAistruct (grants : Grants) (hints : Hints) (address : HostAddr) (search : Search) :
    Status × Search :=
  if grants search.heap.allocs then
    if grants (search.heap.allocs + 1) then
      (.ok, { search with heap := search.heap.tried.tried }.link (addressInfo hints address))
    else
      (.EAI_MEMORY,
        { search with heap := search.heap.tried.tried }.link (aistructInfo hints address))
  else
    (.EAI_MEMORY, { search with heap := search.heap.tried })

/-- The host search of `getaddrinfo`: a call for each address, undefined where
one of them fails. -/
def build (grants : Grants) (hints : Hints) : List HostAddr → Search → Option Search
  | [], search => some search
  | address :: rest, search =>
      match gaAistruct grants hints address search with
      | (.ok, search) => build grants hints rest search
      | (.EAI_MEMORY, _) => none

/-! ## Filling in a service -/

/-- What `ga_clone` copies before it allocates the socket address. -/
def cloneInfo (info : Info) : Info :=
  { flags := 0
    family := info.family
    socktype := info.socktype
    protocol := info.protocol
    canonname := none
    addrlen := info.addrlen }

/-- The new entry behind `ai`, or NULL.  Undefined where there is no socket
address to copy. -/
def gaClone (grants : Grants) (ai : Nat) (heap : Heap) : Option (Option Nat × Heap) := do
  let node ← heap.infos[ai]?
  if grants heap.allocs then
    let new := heap.infos.length
    let infos := Arena.setNext (heap.infos ++ [⟨cloneInfo node.val, node.next⟩]) ai (some new)
    if grants (heap.allocs + 1) then
      let addr ← node.val.addr
      some (some new,
        { infos := Arena.setVal infos new { cloneInfo node.val with addr := some addr }
          allocs := heap.allocs + 2 })
    else
      some (none, { infos := infos, allocs := heap.allocs + 2 })
  else
    some (none, heap.tried)

/-- The entry after its socket type and port are set, and whether it counts.
`port` is cut to the 16 bits of `sin_port`. -/
def claim (port socktype : Int) (info : Info) : Option (Info × Nat) :=
  match info.family with
  | .inet | .inet6 => do
      let addr ← info.addr
      some ({ info with socktype := socktype, addr := some { addr with port := .ofInt port } }, 1)
  | .unspec => some ({ info with socktype := socktype }, 0)

/-- How the loop's body goes on after the tests on the flags. -/
inductive Choice
  | mismatch
  | noMemory
  | entry (ai : Nat)
  deriving DecidableEq, Repr

/-- The entry that gets the socket type: `ai` itself or a clone of it. -/
def choose (grants : Grants) (socktype : Int) (ai : Nat) (heap : Heap) :
    Option (Choice × Heap) := do
  let node ← heap.infos[ai]?
  if node.val.flags &&& AI_CLONE ≠ 0 then
    if node.val.socktype ≠ 0 then
      match ← gaClone grants ai heap with
      | (none, heap) => some (.noMemory, heap)
      | (some new, heap) => some (.entry new, heap)
    else
      some (.entry ai, heap)
  else if node.val.socktype ≠ socktype then
    some (.mismatch, heap)
  else
    some (.entry ai, heap)

/-- The loop of `ga_port` from `ai` on: `none` for its result is -1, an undefined
value the lack of fuel or a NULL that is followed. -/
def gaPortLoop (grants : Grants) (port socktype : Int) :
    Nat → Option Nat → Nat → Heap → Option (Option Nat × Heap)
  | 0, _, _, _ => none
  | _ + 1, none, nfound, heap => some (some nfound, heap)
  | fuel + 1, some ai, nfound, heap => do
      match ← choose grants socktype ai heap with
      | (.noMemory, heap) => some (none, heap)
      | (.mismatch, heap) =>
          let node ← heap.infos[ai]?
          gaPortLoop grants port socktype fuel node.next nfound heap
      | (.entry ai, heap) =>
          let node ← heap.infos[ai]?
          let (info, counted) ← claim port socktype node.val
          gaPortLoop grants port socktype fuel node.next (nfound + counted) (heap.put ai info)

/-- A round for each entry and one for NULL are enough. -/
def gaPort (grants : Grants) (aihead : Option Nat) (port socktype : Int) (heap : Heap) :
    Option (Option Nat × Heap) :=
  gaPortLoop grants port socktype (heap.infos.length + 1) aihead 0 heap

/-- A call of `ga_port`. -/
structure Service where
  port : Int
  socktype : Int
  deriving DecidableEq, Repr

/-- Calls one after the other, with their results.  A call that returns -1 ends
them: its caller gives up. -/
def gaPorts (grants : Grants) (aihead : Option Nat) :
    List Service → Heap → Option (List (Option Nat) × Heap)
  | [], heap => some ([], heap)
  | service :: rest, heap =>
      match gaPort grants aihead service.port service.socktype heap with
      | none => none
      | some (none, heap) => some ([none], heap)
      | some (some nfound, heap) =>
          (gaPorts grants aihead rest heap).map fun (results, heap) =>
            (some nfound :: results, heap)

end NetPractice.AddrInfo
