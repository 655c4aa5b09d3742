import NetPractice.Icmpd.Core
import NetPractice.Memory.Reading

/-!
# The bytes of a datagram that the ICMP daemon reads

This module embeds `readable_v4` once more, as a computation that reads `buf`.  Its result is
that of the handler in `NetPractice.Icmpd.Core`, and its reads show which bytes the handler
looks at: the fields that are printed, and those that are written to the clients.

A message has to have room for an IP header without options and for eight bytes behind it.
The UDP header is looked for behind the options, which are not checked for.
-/

namespace NetPractice.Icmpd

open NetPractice.Memory
open NetPractice.Text

/-- `ip_hl << 2`. -/
def readHeaderLength (ip : Nat) : Reading Nat Byte Nat := do
  let first ← Reading.cell ip
  return first.toNat % 16 * 4

/-- As `portAt`, byte by byte. -/
def readPort (k : Nat) : Reading Nat Byte Nat := do
  let high ← Reading.cell k
  let low ← Reading.cell (k + 1)
  return high.toNat * 256 + low.toNat

/-- As `bytesAt`, byte by byte. -/
def readBytes (k count : Nat) : Reading Nat Byte (List Byte) :=
  Reading.each (fun i => Reading.cell (k + i)) (List.range count)

namespace Daemon

/-- The body of the loop over the clients, for a client that gets the error. -/
def readReport (s : Daemon) (hlen1 hlen2 sport i : Nat) : Reading Nat Byte Report := do
  let addr ← readBytes (hlen1 + 8 + 16) 4
  let dport ← readPort (hlen1 + 8 + hlen2 + 2)
  let type ← Reading.cell hlen1
  let code ← Reading.cell (hlen1 + 1)
  return {
    connfd := s.slot i
    sport := sport
    err := {
      errno := errnoV4 type code
      type := type
      code := code
      dest := ⟨.inet, addr, dport⟩ }
    passed := s.passed (s.slot i) }

/-- `readable_v4` behind `Recvfrom`, which has returned `n`. -/
def readDatagram (s : Daemon) (n : Nat) : Reading Nat Byte (Option Daemon) := do
  let hlen1 ← readHeaderLength 0
  let icmplen : Int := n - hlen1
  if icmplen < 8 then return none
  else
    let type ← Reading.cell hlen1
    let _code ← Reading.cell (hlen1 + 1)
    if type = ICMP_UNREACH ∨ type = ICMP_TIMXCEED ∨ type = ICMP_SOURCEQUENCH then
      if icmplen < 8 + 20 + 8 then return none
      else
        let hip := hlen1 + 8
        let hlen2 ← readHeaderLength hip
        let _srcip ← readBytes (hip + 12) 4
        let _dstip ← readBytes (hip + 16) 4
        let proto ← Reading.cell (hip + 9)
        if proto = IPPROTO_UDP then
          let sport ← readPort (hlen1 + 8 + hlen2)
          let new ← Reading.each (s.readReport hlen1 hlen2 sport) (s.owners .inet sport)
          return some { s with reports := s.reports ++ new, nready := s.nready - 1 }
        else return some { s with nready := s.nready - 1 }
    else return some { s with nready := s.nready - 1 }

end Daemon

/-! ## The fields -/

variable {buf : Nat → Byte} {P : Nat → Prop}

@[simp]
theorem result_readHeaderLength (ip : Nat) :
    (readHeaderLength ip).result buf = headerLength buf ip := by
  unfold readHeaderLength headerLength
  simp only [Reading.result_bind, Reading.result_cell, Reading.result_pure]

@[simp]
theorem result_readPort (k : Nat) : (readPort k).result buf = portAt buf k := by
  unfold readPort portAt
  simp only [Reading.result_bind, Reading.result_cell, Reading.result_pure]

@[simp]
theorem result_readBytes (k count : Nat) :
    (readBytes k count).result buf = bytesAt buf k count := by
  unfold readBytes bytesAt
  simp only [Reading.result_each, Reading.result_cell]

@[simp]
theorem within_readHeaderLength (ip : Nat) : (readHeaderLength ip).Within buf P ↔ P ip := by
  unfold readHeaderLength
  simp only [Reading.within_bind, Reading.within_cell, Reading.within_pure, and_true]

@[simp]
theorem within_readPort (k : Nat) : (readPort k).Within buf P ↔ P k ∧ P (k + 1) := by
  unfold readPort
  simp only [Reading.within_bind, Reading.within_cell, Reading.within_pure, and_true]

@[simp]
theorem within_readBytes (k count : Nat) :
    (readBytes k count).Within buf P ↔ ∀ i < count, P (k + i) := by
  unfold readBytes
  simp only [Reading.within_each, Reading.within_cell, List.mem_range]

namespace Daemon

variable {s : Daemon} {n hlen1 hlen2 sport i : Nat}

theorem result_readReport : (s.readReport hlen1 hlen2 sport i).result buf =
    { connfd := s.slot i
      sport := sport
      err := {
        errno := errnoV4 (buf hlen1) (buf (hlen1 + 1))
        type := buf hlen1
        code := buf (hlen1 + 1)
        dest := ⟨.inet, bytesAt buf (hlen1 + 8 + 16) 4, portAt buf (hlen1 + 8 + hlen2 + 2)⟩ }
      passed := s.passed (s.slot i) } := by
  unfold readReport
  simp only [Reading.result_bind, Reading.result_cell, Reading.result_pure, result_readBytes,
    result_readPort]

/-- A report is made of bytes of the two headers, and of the port. -/
theorem within_readReport (header : ∀ k < hlen1 + 8 + 20, P k) :
    (s.readReport hlen1 hlen2 sport i).Within buf P ↔
      P (hlen1 + 8 + hlen2 + 2) ∧ P (hlen1 + 8 + hlen2 + 3) := by
  unfold readReport
  simp only [Reading.within_bind, Reading.within_cell, Reading.within_pure, within_readBytes,
    within_readPort, and_true]
  constructor
  · rintro ⟨_, dport, _, _⟩
    exact dport
  · intro dport
    refine ⟨?_, dport, ?_, ?_⟩
    · intro i below
      exact header _ (by omega)
    · exact header _ (by omega)
    · exact header _ (by omega)

/-! ## The handler -/

/-- The computation is the handler. -/
theorem result_readDatagram (s : Daemon) (buf : Nat → Byte) (n : Nat) :
    (s.readDatagram n).result buf = s.readableV4 buf n := by
  unfold readDatagram readableV4 parseV4
  simp only [Reading.result_bind, result_readHeaderLength]
  by_cases short : (n : Int) - headerLength buf 0 < 8
  · rw [if_pos short, if_pos short]
    rfl
  · rw [if_neg short, if_neg short]
    simp only [Reading.result_bind, Reading.result_cell]
    by_cases error : buf (headerLength buf 0) = ICMP_UNREACH ∨
        buf (headerLength buf 0) = ICMP_TIMXCEED ∨ buf (headerLength buf 0) = ICMP_SOURCEQUENCH
    · rw [if_pos error, if_pos error]
      by_cases quit : (n : Int) - headerLength buf 0 < 8 + 20 + 8
      · rw [if_pos quit, if_pos quit]
        rfl
      · rw [if_neg quit, if_neg quit]
        simp only [Reading.result_bind, Reading.result_cell, result_readHeaderLength]
        by_cases udp : buf (headerLength buf 0 + 8 + 9) = IPPROTO_UDP
        · rw [if_pos udp, if_pos udp]
          simp only [Reading.result_bind, Reading.result_pure, Reading.result_each,
            result_readPort, result_readReport]
          rfl
        · rw [if_neg udp, if_neg udp]
          rfl
    · rw [if_neg error, if_neg error]
      rfl

/-- The message is an error, long enough, and it quotes a UDP datagram. -/
def QuotesUdp (buf : Nat → Byte) (n : Nat) : Prop :=
  let hlen1 := headerLength buf 0
  hlen1 + (8 + 20 + 8) ≤ n ∧
    (buf hlen1 = ICMP_UNREACH ∨ buf hlen1 = ICMP_TIMXCEED ∨ buf hlen1 = ICMP_SOURCEQUENCH) ∧
    buf (hlen1 + 8 + 9) = IPPROTO_UDP

/-- Behind the options of the quoted header there is room for the ports; the second one is
read for a client only. -/
def PortsInside (s : Daemon) (buf : Nat → Byte) (n : Nat) : Prop :=
  let hlen1 := headerLength buf 0
  let hlen2 := headerLength buf (hlen1 + 8)
  hlen1 + 8 + hlen2 + 4 ≤ n ∨
    hlen1 + 8 + hlen2 + 2 ≤ n ∧ s.owners .inet (portAt buf (hlen1 + 8 + hlen2)) = []

/-- The ports and the reports, for a message that is long enough. -/
theorem within_reports (s : Daemon) {udp : Nat} (long : hlen1 + (8 + 20 + 8) ≤ n)
    (place : udp = hlen1 + 8 + hlen2) :
    ((readPort udp).Within buf (· < n) ∧
      ∀ i ∈ s.owners .inet (portAt buf udp),
        (s.readReport hlen1 hlen2 (portAt buf udp) i).Within buf (· < n)) ↔
      udp + 4 ≤ n ∨ udp + 2 ≤ n ∧ s.owners .inet (portAt buf udp) = [] := by
  have header : ∀ k < hlen1 + 8 + 20, k < n := fun k below => by omega
  simp only [within_readPort, within_readReport header, ← place]
  cases owners : s.owners .inet (portAt buf udp) with
  | nil =>
      simp only [List.not_mem_nil, false_implies, implies_true, and_true]
      omega
  | cons i rest =>
      simp only [List.mem_cons, reduceCtorEq, and_false, or_false]
      constructor
      · rintro ⟨_, dport⟩
        have last := (dport i (Or.inl rfl)).2
        omega
      · intro room
        exact ⟨⟨by omega, by omega⟩, fun _ _ => ⟨by omega, by omega⟩⟩

/-- What `readable_v4` reads lies inside the datagram just when the ports do that it looks
for. -/
theorem within_readDatagram_iff (s : Daemon) (buf : Nat → Byte) (n : Nat) (whole : 20 ≤ n) :
    (s.readDatagram n).Within buf (· < n) ↔ (QuotesUdp buf n → s.PortsInside buf n) := by
  have first : 0 < n := by omega
  unfold readDatagram QuotesUdp PortsInside
  simp only [Reading.within_bind, within_readHeaderLength, result_readHeaderLength, first,
    true_and]
  by_cases short : (n : Int) - headerLength buf 0 < 8
  · rw [if_pos short]
    refine iff_of_true (Reading.within_pure _) ?_
    rintro ⟨long, _⟩
    omega
  · rw [if_neg short]
    have type : headerLength buf 0 < n := by omega
    have code : headerLength buf 0 + 1 < n := by omega
    simp only [Reading.within_bind, Reading.within_cell, Reading.result_cell, type, code,
      true_and]
    by_cases error : buf (headerLength buf 0) = ICMP_UNREACH ∨
        buf (headerLength buf 0) = ICMP_TIMXCEED ∨ buf (headerLength buf 0) = ICMP_SOURCEQUENCH
    · rw [if_pos error]
      by_cases quit : (n : Int) - headerLength buf 0 < 8 + 20 + 8
      · rw [if_pos quit]
        refine iff_of_true (Reading.within_pure _) ?_
        rintro ⟨long, _⟩
        omega
      · rw [if_neg quit]
        have long : headerLength buf 0 + (8 + 20 + 8) ≤ n := by omega
        have header : ∀ k < headerLength buf 0 + 8 + 20, k < n := fun k below => by omega
        have srcip : ∀ i < 4, headerLength buf 0 + 8 + 12 + i < n := fun i below =>
          header _ (by omega)
        have dstip : ∀ i < 4, headerLength buf 0 + 8 + 16 + i < n := fun i below =>
          header _ (by omega)
        simp only [Reading.within_bind, Reading.within_cell, Reading.result_cell,
          within_readHeaderLength, result_readHeaderLength, within_readBytes]
        rw [and_iff_right (header _ (by omega)), and_iff_right srcip, and_iff_right dstip,
          and_iff_right (header _ (by omega))]
        by_cases udp : buf (headerLength buf 0 + 8 + 9) = IPPROTO_UDP
        · rw [if_pos udp]
          simp only [Reading.within_bind, Reading.within_each, Reading.within_pure, and_true,
            result_readPort]
          rw [within_reports s long rfl]
          exact ⟨fun ports _ => ports, fun ports => ports ⟨long, error, udp⟩⟩
        · rw [if_neg udp]
          refine iff_of_true (Reading.within_pure _) ?_
          rintro ⟨_, _, quoted⟩
          exact absurd quoted udp
    · rw [if_neg error]
      refine iff_of_true (Reading.within_pure _) ?_
      rintro ⟨_, type, _⟩
      exact absurd type error

end Daemon

/-! ## A quoted header with options -/

/-- A port is unreachable; `first` is the first byte of the header that is quoted. -/
def portUnreachable (first : Byte) : Nat → Byte
  | 0 => 0x45
  | 20 => ICMP_UNREACH
  | 21 => ICMP_UNREACH_PORT
  | 28 => first
  | 37 => IPPROTO_UDP
  | _ => 0

/-- Without options, the ports are the last bytes that are needed. -/
theorem within_portUnreachable : 20 ≤ 56 ∧
    ((Daemon.initial 3 4 5).readDatagram 56).Within (portUnreachable 0x45) (· < 56) :=
  ⟨by decide,
    (Daemon.within_readDatagram_iff _ _ 56 (by decide)).mpr fun _ => Or.inl (by decide)⟩

/-- With forty bytes of options, the ports are looked for behind the datagram. -/
theorem not_within_portUnreachable :
    ¬ ∀ (s : Daemon) (buf : Nat → Byte) (n : Nat), 20 ≤ n →
      (s.readDatagram n).Within buf (· < n) := by
  intro within
  have reads : 88 ∈ ((Daemon.initial 3 4 5).readDatagram 56).reads (portUnreachable 0x4f) := by
    decide +kernel
  exact absurd (within _ _ 56 (by decide) 88 reads) (by decide)

end NetPractice.Icmpd
