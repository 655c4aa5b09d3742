import NetPractice.Icmpd.Bounds

/-!
# The replies that traceroute waits for

This module embeds the body of the loop in `traceroute/recv_v4.c`, as a computation that
reads `recvbuf`.  It looks for the ports of a quoted datagram where the ICMP daemon does, and
checks before that they have been received.

The round reads nothing outside of the datagram, and it ends the loop just with a message that
quotes the probe.
-/

namespace NetPractice.Traceroute

open NetPractice.Memory
open NetPractice.Text
open NetPractice.Icmpd

/-- The time to live was exceeded in transit. -/
def ICMP_TIMXCEED_INTRANS : Byte := 0

/-- The ports of the datagrams that are sent, and the number of the last one. -/
structure Probe where
  sport : Nat
  dport : Nat
  seq : Nat
  deriving DecidableEq, Repr

/-- Whether a message with `icmplen` bytes at `icmp` quotes the probe; `none` when it is too
short to tell. -/
def Probe.quoted (p : Probe) (icmp icmplen : Nat) : Reading Nat Byte (Option Bool) := do
  if icmplen < 8 + 20 then return none
  else
    let hip := icmp + 8
    let hlen2 ← readHeaderLength hip
    if icmplen < 8 + hlen2 + 4 then return none
    else
      let udp := icmp + 8 + hlen2
      let proto ← Reading.cell (hip + 9)
      let sport ← readPort udp
      let dport ← readPort (udp + 2)
      return some (proto = IPPROTO_UDP ∧ sport = p.sport % 65536 ∧
        dport = (p.dport + p.seq) % 65536)

/-- One round of `recv_v4`, for a datagram of `n` bytes: what it returns, if it does. -/
def Probe.recvV4 (p : Probe) (n : Nat) : Reading Nat Byte (Option Int) := do
  let hlen1 ← readHeaderLength 0
  if (n : Int) - hlen1 < 8 then return none
  else
    let icmplen := n - hlen1
    let type ← Reading.cell hlen1
    let code ← Reading.cell (hlen1 + 1)
    if type = ICMP_TIMXCEED ∧ code = ICMP_TIMXCEED_INTRANS then
      let quoted ← p.quoted hlen1 icmplen
      return if quoted = some true then some (-2) else none
    else if type = ICMP_UNREACH then
      let quoted ← p.quoted hlen1 icmplen
      return if quoted = some true then
        if code = ICMP_UNREACH_PORT then some (-1) else some code.toNat
      else none
    else return none

variable {buf : Nat → Byte} {n icmp icmplen : Nat} {p : Probe}

theorem within_quoted (inside : icmp + icmplen ≤ n) :
    (p.quoted icmp icmplen).Within buf (· < n) := by
  unfold Probe.quoted
  by_cases short : icmplen < 8 + 20
  · rw [if_pos short]
    exact Reading.within_pure _
  · rw [if_neg short]
    simp only [Reading.within_bind, within_readHeaderLength, result_readHeaderLength]
    refine ⟨by omega, ?_⟩
    by_cases noPorts : icmplen < 8 + headerLength buf (icmp + 8) + 4
    · rw [if_pos noPorts]
      exact Reading.within_pure _
    · rw [if_neg noPorts]
      simp only [Reading.within_bind, Reading.within_cell, Reading.within_pure, within_readPort,
        and_true]
      exact ⟨by omega, ⟨by omega, by omega⟩, by omega, by omega⟩

/-- The message in a datagram of `n` bytes quotes the probe, with its ports. -/
def Probe.Quoted (p : Probe) (buf : Nat → Byte) (n : Nat) : Prop :=
  let hip := headerLength buf 0 + 8
  let udp := hip + headerLength buf hip
  hip + 20 ≤ n ∧ udp + 4 ≤ n ∧ buf (hip + 9) = IPPROTO_UDP ∧ portAt buf udp = p.sport % 65536 ∧
    portAt buf (udp + 2) = (p.dport + p.seq) % 65536

instance (p : Probe) (buf : Nat → Byte) (n : Nat) : Decidable (p.Quoted buf n) :=
  inferInstanceAs (Decidable (_ ∧ _ ∧ _ ∧ _ ∧ _))

/-- What a type and a code tell of a router or the destination. -/
def told (type code : Byte) : Option Int :=
  if type = ICMP_TIMXCEED ∧ code = ICMP_TIMXCEED_INTRANS then some (-2)
  else if type = ICMP_UNREACH then some (if code = ICMP_UNREACH_PORT then -1 else code.toNat)
  else none

theorem result_quoted (p : Probe) {buf : Nat → Byte} {n : Nat} (long : headerLength buf 0 ≤ n) :
    (p.quoted (headerLength buf 0) (n - headerLength buf 0)).result buf = some true ↔
      p.Quoted buf n := by
  unfold Probe.quoted Probe.Quoted
  by_cases short : n - headerLength buf 0 < 8 + 20
  · rw [if_pos short]
    exact iff_of_false nofun fun quoted => by omega
  · rw [if_neg short]
    simp only [Reading.result_bind, result_readHeaderLength]
    by_cases noPorts : n - headerLength buf 0 < 8 + headerLength buf (headerLength buf 0 + 8) + 4
    · rw [if_pos noPorts]
      exact iff_of_false nofun fun quoted => by omega
    · rw [if_neg noPorts]
      simp only [Reading.result_bind, Reading.result_cell, Reading.result_pure, result_readPort,
        Option.some.injEq, decide_eq_true_iff]
      exact ⟨fun same => ⟨by omega, by omega, same⟩, fun quoted => quoted.2.2⟩

/-- What `recv_v4` reads lies inside the datagram, whatever the lengths of its headers. -/
theorem within_recvV4 (p : Probe) (buf : Nat → Byte) {n : Nat} (received : 0 < n) :
    (p.recvV4 n).Within buf (· < n) := by
  unfold Probe.recvV4
  simp only [Reading.within_bind, within_readHeaderLength, result_readHeaderLength]
  refine ⟨received, ?_⟩
  by_cases short : (n : Int) - headerLength buf 0 < 8
  · rw [if_pos short]
    exact Reading.within_pure _
  · rw [if_neg short]
    have inside : headerLength buf 0 + (n - headerLength buf 0) ≤ n := by omega
    simp only [Reading.within_bind, Reading.within_cell, Reading.result_cell]
    refine ⟨by omega, by omega, ?_⟩
    by_cases exceeded : buf (headerLength buf 0) = ICMP_TIMXCEED ∧
        buf (headerLength buf 0 + 1) = ICMP_TIMXCEED_INTRANS
    · rw [if_pos exceeded]
      exact (Reading.within_bind _ _).mpr ⟨within_quoted inside, Reading.within_pure _⟩
    · rw [if_neg exceeded]
      by_cases unreach : buf (headerLength buf 0) = ICMP_UNREACH
      · rw [if_pos unreach]
        refine (Reading.within_bind _ _).mpr ⟨within_quoted inside, ?_⟩
        split_ifs <;> exact Reading.within_pure _
      · rw [if_neg unreach]
        exact Reading.within_pure _

/-- For every datagram, whatever the lengths of its headers, a round reads nothing outside of
it; and it ends the loop, with what the type and the code tell, just when the message quotes
the probe. -/
theorem recvV4_spec (p : Probe) (buf : Nat → Byte) {n : Nat} (received : 0 < n) :
    (p.recvV4 n).Within buf (· < n) ∧
      (p.recvV4 n).result buf =
        if p.Quoted buf n then told (buf (headerLength buf 0)) (buf (headerLength buf 0 + 1))
        else none := by
  refine ⟨within_recvV4 p buf received, ?_⟩
  unfold Probe.recvV4
  simp only [Reading.result_bind, result_readHeaderLength]
  by_cases short : (n : Int) - headerLength buf 0 < 8
  · have notQuoted : ¬ p.Quoted buf n := fun quoted => by
      have long := quoted.1
      omega
    rw [if_pos short, if_neg notQuoted]
    rfl
  · have long : headerLength buf 0 ≤ n := by omega
    have quoted_iff := result_quoted p long
    simp only [if_neg short, Reading.result_bind, Reading.result_cell, told]
    by_cases exceeded : buf (headerLength buf 0) = ICMP_TIMXCEED ∧
        buf (headerLength buf 0 + 1) = ICMP_TIMXCEED_INTRANS
    · simp only [if_pos exceeded, Reading.result_bind, Reading.result_pure, quoted_iff]
    · rw [if_neg exceeded, if_neg exceeded]
      by_cases unreach : buf (headerLength buf 0) = ICMP_UNREACH
      · simp only [if_pos unreach, Reading.result_bind, quoted_iff]
        by_cases quoted : p.Quoted buf n
        · simp only [if_pos quoted, Reading.result_pure]
          split_ifs <;> rfl
        · simp only [if_neg quoted, Reading.result_pure]
      · rw [if_neg unreach, if_neg unreach, Reading.result_pure, ite_self]

/-- A router answers to the third probe; the quoted header has four bytes of options. -/
def fromRouter : Nat → Byte
  | 0 => 0x45
  | 20 => ICMP_TIMXCEED
  | 28 => 0x46
  | 37 => IPPROTO_UDP
  | 52 => 0x80
  | 53 => 1
  | 54 => 0x82
  | 55 => 0x9d
  | _ => 0

theorem recvV4_fromRouter : 0 < 56 ∧
    ((Probe.mk 0x8001 0x829a 3).recvV4 56).Within fromRouter (· < 56) ∧
      ((Probe.mk 0x8001 0x829a 3).recvV4 56).result fromRouter = some (-2) := by
  have spec := recvV4_spec ⟨0x8001, 0x829a, 3⟩ fromRouter (show 0 < 56 by decide)
  exact ⟨by decide, spec.1, spec.2.trans (by decide)⟩

end NetPractice.Traceroute
