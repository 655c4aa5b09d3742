import NetPractice.AddrInfo.Core
import NetPractice.Inet.Grammar
import NetPractice.Memory.ByteOrder
import NetPractice.Text.StringFunctions

/-!
# getaddrinfo

`getaddrinfo` checks its arguments, looks up the host once for each address family, makes a
list of the addresses, and gives the entries the port of the service.  Where it fails, it goes
to `bad`, and frees what the list holds.  `gethostbyname`, `gethostbyname2` and `getservbyname`
are parameters.  The Unix domain is left to `ga_unix`.
-/

namespace NetPractice.AddrInfo

open NetPractice.Memory
open NetPractice.Text (ascii atoi isDigit)

/-- The socket is to be bound. -/
def AI_PASSIVE : UInt32 := 1

/-- The canonical name is to be returned. -/
def AI_CANONNAME : UInt32 := 2

/-- A stream socket. -/
def SOCK_STREAM : Int := 1

/-- A datagram socket. -/
def SOCK_DGRAM : Int := 2

/-- A raw socket. -/
def SOCK_RAW : Int := 3

/-- The errors of `getaddrinfo`. -/
inductive Error
  | EAI_ADDRFAMILY
  | EAI_AGAIN
  | EAI_BADFLAGS
  | EAI_FAIL
  | EAI_FAMILY
  | EAI_MEMORY
  | EAI_NODATA
  | EAI_NONAME
  | EAI_SERVICE
  | EAI_SOCKTYPE
  deriving DecidableEq, Repr

/-- `hints.ai_family`; `other` is a value that `ga_echeck` does not know. -/
inductive Af
  | unspec
  | inet
  | inet6
  | unix
  | other
  deriving DecidableEq, Repr

/-- `hints.ai_family == AF_UNSPEC` or the family itself. -/
def Af.Allows (af : Af) : Family → Prop
  | .unspec => af = .unspec
  | .inet => af = .unspec ∨ af = .inet
  | .inet6 => af = .unspec ∨ af = .inet6

instance (af : Af) (family : Family) : Decidable (af.Allows family) := by
  cases family <;> unfold Af.Allows <;> infer_instance

/-- The arguments.  Without hints the flags, the socket type and the protocol are 0, and the
family is AF_UNSPEC. -/
structure Request where
  hostname : Option (List UInt8)
  servname : Option (List UInt8)
  flags : UInt32
  family : Af
  socktype : Int
  protocol : Int
  deriving DecidableEq, Repr

/-- What `ga_aistruct` copies from the hints. -/
def Request.hints (r : Request) : Hints where
  socktype := r.socktype
  protocol := r.protocol

/-- The string, where it is neither NULL nor empty. -/
def given (string : Option (List UInt8)) : Option (List UInt8) :=
  string.filter (· ≠ [])

/-- What the resolver sets `h_errno` to. -/
inductive HErrno
  | HOST_NOT_FOUND
  | TRY_AGAIN
  | NO_RECOVERY
  | NO_DATA
  | other
  deriving DecidableEq, Repr

/-- The error for a value of `h_errno`. -/
def HErrno.error : HErrno → Error
  | .HOST_NOT_FOUND => .EAI_NONAME
  | .TRY_AGAIN => .EAI_AGAIN
  | .NO_RECOVERY => .EAI_FAIL
  | .NO_DATA => .EAI_NODATA
  | .other => .EAI_NONAME

/-- A `struct hostent`. -/
structure Hostent where
  name : List UInt8
  addrtype : Family
  addrs : List HostAddr
  typed : ∀ address ∈ addrs, address.family = addrtype

/-- The host: its resolver, its table of services and its byte order; `inet6` is RES_USE_INET6. -/
structure Host where
  order : ByteOrder
  gethostbyname2 : List UInt8 → Family → Except HErrno Hostent
  gethostbyname : (inet6 : Bool) → List UInt8 → Except HErrno Hostent
  getservbyname : List UInt8 → (proto : List UInt8) → Option Int

/-! ## ga_echeck and ga_nsearch -/

/-- `ga_echeck`: the error of arguments that do not go together. -/
def gaEcheck (r : Request) : Option Error :=
  if r.flags &&& ~~~(AI_PASSIVE ||| AI_CANONNAME) ≠ 0 then some .EAI_BADFLAGS
  else if given r.hostname = none ∧ given r.servname = none then some .EAI_NONAME
  else
    match r.family with
    | .unspec => none
    | .inet | .inet6 =>
        if r.socktype ≠ 0 ∧ r.socktype ≠ SOCK_STREAM ∧ r.socktype ≠ SOCK_DGRAM ∧
            r.socktype ≠ SOCK_RAW then
          some .EAI_SOCKTYPE
        else none
    | .unix =>
        if r.socktype ≠ 0 ∧ r.socktype ≠ SOCK_STREAM ∧ r.socktype ≠ SOCK_DGRAM then
          some .EAI_SOCKTYPE
        else none
    | .other => some .EAI_FAMILY

/-- The arguments are for `ga_unix`. -/
def Request.Local (r : Request) : Prop :=
  (r.hostname = some (ascii "/local") ∨ r.hostname = some (ascii "/unix")) ∧
    r.servname.bind List.head? = some 47

instance (r : Request) : Decidable r.Local :=
  inferInstanceAs (Decidable (_ ∧ _))

/-- A `struct search`. -/
structure Query where
  host : List UInt8
  family : Family
  deriving DecidableEq, Repr

/-- The `switch` of `ga_nsearch`, with the host for each of the two families. -/
def switch (family : Af) (inet inet6 : List UInt8) : List Query :=
  match family with
  | .inet => [⟨inet, .inet⟩]
  | .inet6 => [⟨inet6, .inet6⟩]
  | .unspec => [⟨inet6, .inet6⟩, ⟨inet, .inet⟩]
  | .unix | .other => []

/-- The elements of `search[]`. -/
def gaNsearch (r : Request) : List Query :=
  match given r.hostname with
  | none =>
      if r.flags &&& AI_PASSIVE ≠ 0 then switch r.family (ascii "0.0.0.0") (ascii "0::0")
      else switch r.family (ascii "localhost") (ascii "0::1")
  | some hostname => switch r.family hostname hostname

/-! ## The host search -/

theorem length_of_inetPton4 {text bytes : List UInt8}
    (read : Inet.inetPton4 text = some bytes) : bytes.length = Family.inet.addrSize :=
  ((Inet.inetPton4_eq_some_iff text bytes).mp read).1

theorem length_of_inetPton6 {text bytes : List UInt8}
    (read : Inet.inetPton6 text = some bytes) : bytes.length = Family.inet6.addrSize := by
  cases (Inet.inetPton6_eq_some_iff text bytes).mp read with
  | whole _ _ full =>
      rw [List.length_append]
      exact full
  | compressed _ _ _ fits => exact Inet.length_placed fits

/-- A dotted-decimal string. -/
def ipv4String (host : List UInt8) : Option HostAddr :=
  if host.head?.any isDigit then
    (Inet.inetPton4 host).pmap (fun bytes sized => ⟨.inet, bytes, nofun, sized⟩)
      fun _ => length_of_inetPton4
  else none

/-- An IPv6 hex string. -/
def ipv6String (host : List UInt8) : Option HostAddr :=
  if (host.head?.any fun ch => (Inet.xdigit ch).isSome || ch == Inet.colon) ∧
      Inet.colon ∈ host then
    (Inet.inetPton6 host).pmap (fun bytes sized => ⟨.inet6, bytes, nofun, sized⟩)
      fun _ => length_of_inetPton6
  else none

/-- What one round of the search gives; `name` is `hptr->h_name`. -/
inductive Answer
  | error (e : Error)
  | ignore
  | found (name : Option (List UInt8)) (addrs : List HostAddr)

/-- The resolver, as it is asked in a search for one or two families. -/
def Host.lookup (own : Host) (nsearch : Nat) (query : Query) : Except HErrno Hostent :=
  if nsearch = 2 then own.gethostbyname2 query.host query.family
  else own.gethostbyname (query.family == .inet6) query.host

/-- What is found for one entry of `search[]`. -/
def answer (own : Host) (r : Request) (nsearch : Nat) (query : Query) : Answer :=
  match ipv4String query.host with
  | some inaddr =>
      if ¬ r.family.Allows .inet then .error .EAI_ADDRFAMILY
      else if query.family ≠ .inet then .ignore
      else .found none [inaddr]
  | none =>
      match ipv6String query.host with
      | some in6addr =>
          if ¬ r.family.Allows .inet6 then .error .EAI_ADDRFAMILY
          else if query.family ≠ .inet6 then .ignore
          else .found none [in6addr]
      | none =>
          match own.lookup nsearch query with
          | .error h => if nsearch = 2 then .ignore else .error h.error
          | .ok hptr =>
              if ¬ r.family.Allows hptr.addrtype then .error .EAI_ADDRFAMILY
              else .found (some hptr.name) hptr.addrs

/-- The locals of the search. -/
structure Locals where
  search : Search := {}
  canon : Option (List UInt8) := none
  deriving DecidableEq, Repr

/-- The locals behind one more attempt to allocate. -/
def Locals.tried (l : Locals) : Locals :=
  { l with search := { l.search with heap := l.search.heap.tried } }

/-- The caller wants a canonical name, and has said of what. -/
def Request.WantsCanon (r : Request) : Prop :=
  given r.hostname ≠ none ∧ r.flags &&& AI_CANONNAME ≠ 0

instance (r : Request) : Decidable r.WantsCanon :=
  inferInstanceAs (Decidable (_ ∧ _))

/-- The canonical name is saved the first time. -/
def saveCanon (grants : Grants) (r : Request) (name : Option (List UInt8)) (l : Locals) :
    Option Error × Locals :=
  if r.WantsCanon ∧ l.canon = none ∧ name ≠ none then
    if grants l.search.heap.allocs then (none, { l.tried with canon := name })
    else (some .EAI_MEMORY, l.tried)
  else (none, l)

/-- One `addrinfo{}` for each address. -/
def addAddresses (grants : Grants) (hints : Hints) : List HostAddr → Search → Status × Search
  | [], search => (.ok, search)
  | address :: rest, search =>
      match gaAistruct grants hints address search with
      | (.ok, search) => addAddresses grants hints rest search
      | (.EAI_MEMORY, search) => (.EAI_MEMORY, search)

/-- One round of the search; it goes to `bad` with an error. -/
def searchOne (grants : Grants) (r : Request) (l : Locals) : Answer → Option Error × Locals
  | .error e => (some e, l)
  | .ignore => (none, l)
  | .found name addrs =>
      match saveCanon grants r name l with
      | (some e, l) => (some e, l)
      | (none, l) =>
          match addAddresses grants r.hints addrs l.search with
          | (.EAI_MEMORY, search) => (some .EAI_MEMORY, { l with search := search })
          | (.ok, search) => (none, { l with search := search })

/-- The loop over the entries of `search[]`. -/
def searchLoop (grants : Grants) (r : Request) : List Answer → Locals → Option Error × Locals
  | [], l => (none, l)
  | answer :: rest, l =>
      match searchOne grants r l answer with
      | (some e, l) => (some e, l)
      | (none, l) => searchLoop grants r rest l

/-! ## freeaddrinfo -/

/-- What was allocated for an entry. -/
inductive Block
  | addr (ai : Nat)
  | canonname (ai : Nat)
  | info (ai : Nat)
  deriving DecidableEq, Repr

/-- What `freeaddrinfo` frees of an entry. -/
def Info.blocks (ai : Nat) (info : Info) : List Block :=
  (if info.addr.isSome then [.addr ai] else []) ++
    (if info.canonname.isSome then [.canonname ai] else []) ++ [.info ai]

/-- The calls of `free`, from an entry on; undefined where a pointer leads nowhere. -/
def freeLoop (infos : Arena Info) : Nat → Option Nat → Option (List Block)
  | 0, _ => none
  | _ + 1, none => some []
  | fuel + 1, some ai => do
      let node ← infos[ai]?
      let rest ← freeLoop infos fuel node.next
      some (node.val.blocks ai ++ rest)

/-- A round for each entry and one for NULL are enough. -/
def freeaddrinfo (heap : Heap) (aihead : Option Nat) : Option (List Block) :=
  freeLoop heap.infos (heap.infos.length + 1) aihead

/-! ## The service and the whole function -/

/-- The calls of `ga_port` that `ga_serv` makes; `htons` takes the lower 16 bits. -/
def serviceCalls (own : Host) (socktype : Int) (serv : List UInt8) : List Service :=
  if serv.head?.any isDigit then
    let port : Int := own.order.load (ByteOrder.big.store 2 (atoi serv % 2 ^ 16).toNat)
    if socktype ≠ 0 then [⟨port, socktype⟩] else [⟨port, SOCK_STREAM⟩, ⟨port, SOCK_DGRAM⟩]
  else
    (if socktype = 0 ∨ socktype = SOCK_STREAM then
        ((own.getservbyname serv (ascii "tcp")).map (⟨·, SOCK_STREAM⟩)).toList else []) ++
      if socktype = 0 ∨ socktype = SOCK_DGRAM then
        ((own.getservbyname serv (ascii "udp")).map (⟨·, SOCK_DGRAM⟩)).toList else []

/-- `ga_serv`: the ports that the service has for the socket types that are asked for. -/
def gaServ (grants : Grants) (own : Host) (socktype : Int) (serv : List UInt8)
    (aihead : Option Nat) (heap : Heap) : Option (Option Error × Heap) := do
  let (results, heap) ← gaPorts grants aihead (serviceCalls own socktype serv) heap
  if none ∈ results then some (some .EAI_MEMORY, heap)
  else if (results.map (Option.getD · 0)).sum = 0 then
    some (some (if socktype = 0 then .EAI_NONAME else .EAI_SERVICE), heap)
  else some (none, heap)

/-- `aihead->ai_canonname = canon`, or a copy of `search[0].host`. -/
def setCanonname (grants : Grants) (r : Request) (host : List UInt8)
    (canon : Option (List UInt8)) (aihead : Nat) (heap : Heap) : Option (Option Error × Heap) :=
  if r.WantsCanon then do
    let node ← heap.infos[aihead]?
    match canon with
    | some name => some (none, heap.put aihead { node.val with canonname := some name })
    | none =>
        if grants heap.allocs then
          some (none, heap.tried.put aihead { node.val with canonname := some host })
        else some (some .EAI_MEMORY, heap.tried)
  else some (none, heap)

/-- How a call ends.  `lost` is the string behind `canon`, unless an entry has it. -/
inductive Outcome
  | list (aihead : Nat) (heap : Heap)
  | failed (e : Error) (freed : List Block) (heap : Heap) (lost : Option (List UInt8))
  | unix
  | quit
  deriving DecidableEq, Repr

/-- The statements behind `bad`. -/
def bad (e : Error) (aihead : Option Nat) (heap : Heap) (canon : Option (List UInt8)) :
    Option Outcome := do
  let freed ← freeaddrinfo heap aihead
  some (.failed e freed heap canon)

/-- What follows the host search. -/
def finish (grants : Grants) (own : Host) (r : Request) (host : List UInt8) (aihead : Nat)
    (l : Locals) : Option Outcome := do
  match ← setCanonname grants r host l.canon aihead l.search.heap with
  | (some e, heap) => bad e (some aihead) heap l.canon
  | (none, heap) =>
      match given r.servname with
      | none => some (.list aihead heap)
      | some serv =>
          match ← gaServ grants own r.socktype serv (some aihead) heap with
          | (some e, heap) => bad e (some aihead) heap none
          | (none, heap) => some (.list aihead heap)

/-- `getaddrinfo`, with the allocations that succeed and the host that answers. -/
def getaddrinfo (grants : Grants) (own : Host) (r : Request) : Option Outcome :=
  match gaEcheck r with
  | some e => bad e none {} none
  | none =>
      if r.Local then some .unix
      else
        let search := gaNsearch r
        if search = [] then some .quit
        else
          match searchLoop grants r (search.map (answer own r search.length)) {} with
          | (some e, l) => bad e l.search.aihead l.search.heap l.canon
          | (none, l) =>
              match l.search.aihead with
              | none => bad .EAI_NONAME none l.search.heap l.canon
              | some aihead => finish grants own r (search.headD ⟨[], .unspec⟩).host aihead l

end NetPractice.AddrInfo
