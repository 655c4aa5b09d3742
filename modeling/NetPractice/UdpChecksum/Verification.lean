import NetPractice.UdpChecksum.Core

/-!
# The checksum of a datagram verifies

A receiver adds the words of the pseudo-header, of the UDP header and of the data.  With the
checksum that `udp_write` stores, on a host of either byte order, the sum is `0xffff`.
-/

namespace NetPractice.UdpChecksum

open NetPractice.Checksum
open NetPractice.Memory
open NetPractice.Text

variable {order : ByteOrder} {localAddr destAddr : SockaddrIn} {userlen : Nat}

/-! ## The layout -/

/-- What stands in the place of the IP header while the checksum is calculated. -/
def overlay (localAddr destAddr : SockaddrIn) (userlen : Nat) : List Byte :=
  List.replicate 8 0 ++ ([0, IPPROTO_UDP] ++ (htons (SIZEOF_UDPHDR + userlen) ++
    (localAddr.addrBytes ++ destAddr.addrBytes)))

/-- The pseudo-header of a datagram. -/
def pseudoHeader (localAddr destAddr : SockaddrIn) (userlen : Nat) : List Byte :=
  localAddr.addrBytes ++ (destAddr.addrBytes ++ ([0, IPPROTO_UDP] ++
    htons (SIZEOF_UDPHDR + userlen)))

/-- The pseudo-header that a receiver makes of the headers of a packet. -/
def pseudoHeaderOf (packet : List Byte) : List Byte :=
  (packet.drop 12).take 8 ++ ([0] ++ ((packet.drop 9).take 1 ++ (packet.drop 24).take 2))

/-- The UDP header, without the checksum. -/
def udpFields (localAddr destAddr : SockaddrIn) (userlen : Nat) : List Byte :=
  localAddr.portBytes ++ (destAddr.portBytes ++ htons (SIZEOF_UDPHDR + userlen))

/-- The IP header that is sent; the protocol and the addresses are those of the overlay, and
the system replaces what is left of its length. -/
def ipHeader (order : ByteOrder) (localAddr destAddr : SockaddrIn) (userlen : Nat)
    (swapped : Bool) : List Byte :=
  let total := userlen + SIZEOF_UDPIPHDR
  [0x45, 0] ++ (if swapped then htons total else order.store 2 total) ++
    ([0, 0, 0, 0, TTL_OUT, IPPROTO_UDP] ++ htons (SIZEOF_UDPHDR + userlen) ++
      (localAddr.addrBytes ++ destAddr.addrBytes))

theorem exists_port (a : SockaddrIn) : ∃ high low, a.portBytes = [high, low] :=
  List.length_eq_two.mp (ByteOrder.length_store 2 _)

theorem exists_htons (value : Nat) : ∃ high low, htons value = [high, low] :=
  List.length_eq_two.mp (ByteOrder.length_store 2 value)

theorem exists_addr (a : SockaddrIn) : ∃ b₀ b₁ b₂ b₃, a.addrBytes = [b₀, b₁, b₂, b₃] :=
  ⟨_, _, _, _, rfl⟩

theorem fillHeader_eq (buf : List Byte) : fillHeader localAddr destAddr userlen buf =
    overlay localAddr destAddr userlen ++ (udpFields localAddr destAddr userlen ++
      ([0, 0] ++ buf.drop SIZEOF_UDPIPHDR)) := by
  rcases exists_addr localAddr with ⟨s₀, s₁, s₂, s₃, source⟩
  rcases exists_addr destAddr with ⟨d₀, d₁, d₂, d₃, destination⟩
  rcases exists_port localAddr with ⟨p₀, p₁, sport⟩
  rcases exists_port destAddr with ⟨q₀, q₁, dport⟩
  rcases exists_htons (SIZEOF_UDPHDR + userlen) with ⟨l₀, l₁, len⟩
  unfold fillHeader overlay udpFields
  rw [source, destination, sport, dport, len]
  simp only [put, SIZEOF_UDPIPHDR, List.replicate_succ, List.replicate_zero, List.take_succ_cons,
    List.take_zero, List.drop_succ_cons, List.drop_zero, List.cons_append, List.nil_append,
    List.length_cons, List.length_nil, Nat.zero_add, Nat.reduceAdd]

/-- Bytes that are stored over as many others. -/
theorem put_append {k : Nat} {front old new : List Byte} (place : front.length = k)
    (same : old.length = new.length) (back : List Byte) :
    put k new (front ++ (old ++ back)) = front ++ (new ++ back) := by
  have behind : (front ++ (old ++ back)).drop (k + new.length) = back := by
    rw [← List.append_assoc]
    exact List.drop_left' (by rw [List.length_append, place, same])
  rw [put, behind, List.take_left' place, List.append_assoc]

theorem exists_total (swapped : Bool) (total : Nat) :
    ∃ high low, (if swapped then htons total else order.store 2 total) = [high, low] := by
  cases swapped with
  | false => exact List.length_eq_two.mp (ByteOrder.length_store 2 _)
  | true => exact exists_htons total

theorem fillIp_eq (swapped : Bool) (rest : List Byte) :
    fillIp order swapped (userlen + SIZEOF_UDPIPHDR)
        (overlay localAddr destAddr userlen ++ rest) =
      ipHeader order localAddr destAddr userlen swapped ++ rest := by
  rcases @exists_total order swapped (userlen + SIZEOF_UDPIPHDR) with ⟨t₀, t₁, total⟩
  rcases exists_addr localAddr with ⟨s₀, s₁, s₂, s₃, source⟩
  rcases exists_addr destAddr with ⟨d₀, d₁, d₂, d₃, destination⟩
  rcases exists_htons (SIZEOF_UDPHDR + userlen) with ⟨l₀, l₁, len⟩
  unfold fillIp overlay ipHeader
  dsimp only
  rw [total, source, destination, len]
  simp only [put, List.replicate_succ, List.replicate_zero, List.take_succ_cons,
    List.take_zero, List.drop_succ_cons, List.drop_zero, List.cons_append, List.nil_append,
    List.length_cons, List.length_nil, Nat.zero_add, Nat.reduceAdd]

/-- The IP header leaves the fields of the pseudo-header where they are. -/
theorem pseudoHeaderOf_eq (swapped : Bool) (rest : List Byte) :
    pseudoHeaderOf (ipHeader order localAddr destAddr userlen swapped ++
      (udpFields localAddr destAddr userlen ++ rest)) =
      pseudoHeader localAddr destAddr userlen := by
  rcases @exists_total order swapped (userlen + SIZEOF_UDPIPHDR) with ⟨t₀, t₁, total⟩
  rcases exists_addr localAddr with ⟨s₀, s₁, s₂, s₃, source⟩
  rcases exists_addr destAddr with ⟨d₀, d₁, d₂, d₃, destination⟩
  rcases exists_port localAddr with ⟨p₀, p₁, sport⟩
  rcases exists_port destAddr with ⟨q₀, q₁, dport⟩
  rcases exists_htons (SIZEOF_UDPHDR + userlen) with ⟨l₀, l₁, len⟩
  unfold ipHeader udpFields pseudoHeader
  dsimp only
  rw [total, source, destination, sport, dport, len]
  rfl

/-! ## The datagram -/

section Datagram

variable {buf : List Byte}

/-- The user data. -/
def payload (userlen : Nat) (buf : List Byte) : List Byte :=
  (buf.drop SIZEOF_UDPIPHDR).take userlen

/-- The bytes that the checksum is calculated over. -/
def checked (localAddr destAddr : SockaddrIn) (userlen : Nat) (buf : List Byte) : List Byte :=
  overlay localAddr destAddr userlen ++ (udpFields localAddr destAddr userlen ++
    ([0, 0] ++ payload userlen buf))

@[simp]
theorem length_overlay : (overlay localAddr destAddr userlen).length = 20 := by
  simp [overlay, htons, SockaddrIn.addrBytes]

@[simp]
theorem length_udpFields : (udpFields localAddr destAddr userlen).length = 6 := by
  simp [udpFields, htons, SockaddrIn.portBytes]

@[simp]
theorem length_ipHeader (swapped : Bool) :
    (ipHeader order localAddr destAddr userlen swapped).length = 20 := by
  cases swapped <;> simp [ipHeader, htons, SockaddrIn.addrBytes]

theorem put_sum {sum : List Byte} (two : sum.length = 2) (rest : List Byte) :
    put 26 sum (overlay localAddr destAddr userlen ++
      (udpFields localAddr destAddr userlen ++ ([0, 0] ++ rest))) =
    overlay localAddr destAddr userlen ++
      (udpFields localAddr destAddr userlen ++ (sum ++ rest)) := by
  have place : (overlay localAddr destAddr userlen ++
      udpFields localAddr destAddr userlen).length = 26 := by
    rw [List.length_append, length_overlay, length_udpFields]
  have zeros : ([0, 0] : List Byte).length = sum.length := two.symm
  rw [← List.append_assoc, put_append place zeros, List.append_assoc]

/-- Two headers and the data, cut off behind the data. -/
theorem take_total {ip fields sum : List Byte} (total : ip.length + fields.length + sum.length =
    SIZEOF_UDPIPHDR) (rest : List Byte) :
    (ip ++ (fields ++ (sum ++ rest))).take (userlen + SIZEOF_UDPIPHDR) =
      ip ++ (fields ++ (sum ++ rest.take userlen)) := by
  have header : (ip ++ (fields ++ sum)).length + userlen = userlen + SIZEOF_UDPIPHDR := by
    rw [List.length_append, List.length_append, ← Nat.add_assoc, total, Nat.add_comm]
  have cut := @List.take_length_add_append Byte (ip ++ (fields ++ sum)) rest userlen
  rw [header] at cut
  simpa only [List.append_assoc] using cut

/-- What is handed to `Sendto`. -/
theorem udpWrite_eq (swapped : Bool) :
    udpWrite order localAddr destAddr userlen false swapped buf =
      ipHeader order localAddr destAddr userlen swapped ++
        (udpFields localAddr destAddr userlen ++
          (order.store 2 (uiSum order (checked localAddr destAddr userlen buf)).toNat ++
            payload userlen buf)) := by
  have length : (order.store 2
      (uiSum order (checked localAddr destAddr userlen buf)).toNat).length = 2 :=
    ByteOrder.length_store 2 _
  unfold udpWrite
  dsimp only
  rw [if_neg Bool.false_ne_true, fillHeader_eq, take_total (by simp [SIZEOF_UDPIPHDR])]
  change (fillIp order swapped (userlen + SIZEOF_UDPIPHDR) (put 26 (order.store 2
    (uiSum order (checked localAddr destAddr userlen buf)).toNat) _)).take _ = _
  rw [put_sum length, fillIp_eq, take_total (by simp [SIZEOF_UDPIPHDR])]
  rfl

/-! ## The checksum -/

/-- The addresses, the protocol and the length are added in another order. -/
theorem sum_words_overlay (rest : List Byte) :
    (words order (overlay localAddr destAddr userlen ++ rest)).sum =
      (words order (pseudoHeader localAddr destAddr userlen ++ rest)).sum := by
  have source : 2 ∣ localAddr.addrBytes.length := ⟨2, rfl⟩
  have destination : 2 ∣ destAddr.addrBytes.length := ⟨2, rfl⟩
  have len : 2 ∣ (htons (SIZEOF_UDPHDR + userlen)).length := ⟨1, rfl⟩
  have protocol : 2 ∣ ([0, IPPROTO_UDP] : List Byte).length := ⟨1, rfl⟩
  have zeros : (words order (List.replicate 8 0)).sum = 0 := by cases order <;> rfl
  unfold overlay pseudoHeader
  simp only [List.append_assoc]
  rw [words_append ⟨4, rfl⟩, words_append protocol, words_append len, words_append source,
    words_append destination, words_append source, words_append destination,
    words_append protocol, words_append len]
  simp only [List.sum_append, zeros]
  omega

theorem uiSum_modEq (bytes : List Byte) :
    (uiSum order bytes).toNat ≡ (inCksum order bytes).toNat [MOD 65535] := by
  unfold uiSum
  dsimp only
  split_ifs with zero
  · rw [zero]
    exact Nat.mod_self 65535
  · exact Nat.ModEq.refl _

theorem uiSum_ne_zero (bytes : List Byte) : (uiSum order bytes).toNat ≠ 0 := by
  unfold uiSum
  dsimp only
  split_ifs with zero
  · decide
  · exact fun none => zero (UInt16.toNat_inj.mp none)

theorem store_uiSum_ne (bytes : List Byte) :
    order.store 2 (uiSum order bytes).toNat ≠ [0, 0] := by
  intro zeros
  have load : order.load (order.store 2 (uiSum order bytes).toNat) = (uiSum order bytes).toNat :=
    ByteOrder.load_store (UInt16.toNat_lt _)
  have zero : order.load [0, 0] = 0 := by cases order <;> rfl
  rw [zeros, zero] at load
  exact uiSum_ne_zero bytes load.symm

theorem length_checked_le :
    (checked localAddr destAddr userlen buf).length ≤ userlen + SIZEOF_UDPIPHDR := by
  have data : (payload userlen buf).length ≤ userlen := List.length_take_le _ _
  unfold checked
  simp only [List.length_append, length_overlay, length_udpFields, List.length_cons,
    List.length_nil, SIZEOF_UDPIPHDR]
  omega

/-- A receiver's sum is the other zero. -/
theorem onesSum_received (fits : userlen ≤ 65507) :
    onesSum 0xffff (words .big (pseudoHeader localAddr destAddr userlen ++
      (udpFields localAddr destAddr userlen ++
        (order.store 2 (uiSum order (checked localAddr destAddr userlen buf)).toNat ++
          payload userlen buf)))) = 0xffff := by
  have even : 2 ∣ (overlay localAddr destAddr userlen ++
      udpFields localAddr destAddr userlen).length := by
    rw [List.length_append, length_overlay, length_udpFields]
    decide
  have checkedEq : checked localAddr destAddr userlen buf =
      (overlay localAddr destAddr userlen ++ udpFields localAddr destAddr userlen) ++
        ([0, 0] ++ payload userlen buf) := (List.append_assoc _ _ _).symm
  have short : (checked localAddr destAddr userlen buf).length ≤ 2 ^ 17 := by
    have length := @length_checked_le localAddr destAddr userlen buf
    unfold SIZEOF_UDPIPHDR at length
    omega
  have word : (uiSum order (checked localAddr destAddr userlen buf)).toNat ≤ 65535 :=
    Nat.le_of_lt_succ (UInt16.toNat_lt _)
  have dvd := dvd_sum_words_insert even (checkedEq ▸ short) word
    (checkedEq ▸ uiSum_modEq (checked localAddr destAddr userlen buf))
  apply onesSum_eq_of_dvd le_of_mem_words
  · rw [Ne, sum_words_eq_zero_iff]
    intro none
    have protocol : IPPROTO_UDP ∈ pseudoHeader localAddr destAddr userlen := by
      simp [pseudoHeader]
    exact absurd (none _ (List.mem_append_left _ protocol)) (by decide)
  · rw [← sum_words_overlay, ← List.append_assoc]
    exact dvd_sum_words_big dvd

end Datagram

/-- Whatever is sent between whatever addresses, the checksum is not 0, and the sum of a
receiver is `0xffff`; the accumulator of `in_cksum` is exact for what is sent and for each
part of it, and no carry is lost at its end. -/
theorem udpWrite_verifies (order : ByteOrder) (swapped : Bool) (localAddr destAddr : SockaddrIn)
    (buf : List Byte) (userlen : Nat) (fits : userlen ≤ 65507) :
    let packet := udpWrite order localAddr destAddr userlen false swapped buf
    (packet.drop 26).take 2 ≠ [0, 0] ∧
      packet.drop 28 = (buf.drop 28).take userlen ∧
      pseudoHeaderOf packet = pseudoHeader localAddr destAddr userlen ∧
      onesSum 0xffff (words .big (pseudoHeader localAddr destAddr userlen ++ packet.drop 20)) =
        0xffff ∧
      ∀ bytes : List Byte, bytes.length ≤ userlen + 28 →
        (accumulate order 0 bytes).toNat = (words order bytes).sum ∧
          (inCksum order bytes).toNat = 0xffff - onesSum 0xffff (words order bytes) := by
  intro packet
  have whole : packet = _ := udpWrite_eq swapped
  clear_value packet
  have header : packet.drop 20 = udpFields localAddr destAddr userlen ++
      (order.store 2 (uiSum order (checked localAddr destAddr userlen buf)).toNat ++
        payload userlen buf) := by
    rw [whole]
    exact List.drop_left' (length_ipHeader swapped)
  have field : packet.drop 26 =
      order.store 2 (uiSum order (checked localAddr destAddr userlen buf)).toNat ++
        payload userlen buf := by
    have further : (packet.drop 20).drop 6 = packet.drop 26 := List.drop_drop
    rw [← further, header]
    exact List.drop_left' length_udpFields
  have data : packet.drop 28 = payload userlen buf := by
    have further : (packet.drop 26).drop 2 = packet.drop 28 := List.drop_drop
    rw [← further, field]
    exact List.drop_left' (ByteOrder.length_store 2 _)
  refine ⟨?_, data, ?_, ?_, ?_⟩
  · rw [field, List.take_left' (ByteOrder.length_store 2 _)]
    exact store_uiSum_ne _
  · rw [whole]
    exact pseudoHeaderOf_eq swapped _
  · rw [header]
    exact onesSum_received fits
  · intro bytes length
    exact ⟨accumulate_exact (by omega), toNat_inCksum (by omega)⟩

/-- A datagram with three bytes of data. -/
theorem udpWrite_three_verifies :
    let packet := udpWrite .little ⟨0x0a000001, 1000⟩ ⟨0x0a000002, 53⟩ 3 false true
      (List.replicate 28 0 ++ [1, 2, 255])
    3 ≤ 65507 ∧ packet.drop 28 = [1, 2, 255] ∧
      onesSum 0xffff (words .big
        (pseudoHeader ⟨0x0a000001, 1000⟩ ⟨0x0a000002, 53⟩ 3 ++ packet.drop 20)) = 0xffff := by
  have verifies := udpWrite_verifies .little true ⟨0x0a000001, 1000⟩ ⟨0x0a000002, 53⟩
    (List.replicate 28 0 ++ [1, 2, 255]) 3 (by decide)
  exact ⟨by decide, verifies.2.1, verifies.2.2.2.1⟩

end NetPractice.UdpChecksum
