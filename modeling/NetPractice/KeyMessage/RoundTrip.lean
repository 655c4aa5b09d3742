import NetPractice.KeyMessage.Add

/-!
# A request is printed as it was built

The message that `sadb_add` builds passes the checks of `print_sadb_msg`, which walks over
exactly its four extensions and shows what was stored.  The buffer is too small for the
request just when the key does not fit behind the two addresses.
-/

namespace NetPractice.KeyMessage

open NetPractice.Memory
open NetPractice.Text

variable {order : ByteOrder} {mem : Nat → Byte}

/-! ## What some stores leave -/

section Stored

variable {stores : List (Store Byte)}

theorem numberAt_applyAll {width k value : Nat} (apart : stores.Pairwise Store.Apart)
    (member : ⟨k, order.store width value⟩ ∈ stores) (fits : value < 256 ^ width) :
    numberAt order (Store.applyAll stores mem) width k = value := by
  have stored := @window_applyAll_of_mem _ _ _ mem apart member
  rw [ByteOrder.length_store] at stored
  exact (congrArg order.load stored).trans (ByteOrder.load_store fits)

theorem cell_applyAll {k : Nat} {b : Byte} (apart : stores.Pairwise Store.Apart)
    (member : ⟨k, [b]⟩ ∈ stores) : Store.applyAll stores mem k = b := by
  have stored := @window_applyAll_of_mem _ _ _ mem apart member
  rw [List.length_singleton, window_succ] at stored
  exact List.head_eq_of_cons_eq stored

theorem load_replicate (width : Nat) : order.load (List.replicate width 0) = 0 := by
  have word : loadWord (List.replicate width 0) = 0 := by
    induction width with
    | zero => rfl
    | succ width ih =>
        rw [List.replicate_succ, loadWord, ih]
        rfl
  cases order with
  | little => exact word
  | big => rw [ByteOrder.load, List.reverse_replicate, word]

theorem window_zeros (k width : Nat) :
    window (fun _ => (0 : Byte)) k width = List.replicate width 0 := by
  unfold window
  rw [List.map_const', List.length_range]

end Stored

/-! ## What is printed -/

theorem result_readKey (p bytes : Nat) :
    (readKey p (bytes * 8 : Nat)).result mem = window mem p bytes := by
  induction bytes generalizing p with
  | zero =>
      rw [readKey, if_neg (by omega)]
      rfl
  | succ bytes ih =>
      have left : (((bytes + 1) * 8 : Nat) : Int) - 8 = (bytes * 8 : Nat) := by omega
      rw [readKey, if_pos (by omega), left]
      simp only [Reading.result_bind, Reading.result_cell, Reading.result_pure, ih, window_succ]

theorem result_saPrint (ext : Nat) :
    (saPrint order ext).result mem =
      ⟨numberAt order mem 4 (ext + 4), mem (ext + 8), mem (ext + 9), mem (ext + 10),
        mem (ext + 11), numberAt order mem 4 (ext + 12)⟩ := by
  unfold saPrint
  simp only [Reading.result_bind, Reading.result_cell, Reading.result_pure, result_readNumber]

theorem result_addressPrint (ext : Nat) :
    (addressPrint order ext).result mem =
      ⟨typeAt order mem ext, numberAt order mem 2 (ext + 8),
        window mem (ext + 8) (lengthAt order mem ext - 8), mem (ext + 5), mem (ext + 4)⟩ := by
  unfold addressPrint
  simp only [Reading.result_bind, Reading.result_cell, Reading.result_pure, Reading.result_each,
    result_readNumber]
  rfl

theorem within_saPrint {ext n : Nat} (room : ext + 16 ≤ n) :
    (saPrint order ext).Within mem (· < n) := by
  have spi := @within_readNumber_of_le order mem n 4 (ext + 4) (by omega)
  have flags := @within_readNumber_of_le order mem n 4 (ext + 12) (by omega)
  unfold saPrint
  simp only [Reading.within_bind, Reading.within_cell, Reading.within_pure, spi, flags,
    and_true, true_and]
  omega

/-- `sock_ntop` reads a family at least, and no more than the extension has behind it. -/
theorem within_addressPrint {ext n : Nat} (room : ext + 10 ≤ n)
    (length : behind order mem ext ≤ n) : (addressPrint order ext).Within mem (· < n) := by
  have exttype := @within_readNumber_of_le order mem n 2 (ext + 2) (by omega)
  have units := @within_readNumber_of_le order mem n 2 ext (by omega)
  have family := @within_readNumber_of_le order mem n 2 (ext + 8) (by omega)
  unfold behind lengthAt at length
  unfold addressPrint
  simp only [Reading.within_bind, Reading.within_each, Reading.within_cell, Reading.within_pure,
    result_readNumber, exttype, units, family, List.mem_range, and_true, true_and]
  refine ⟨fun i below => ?_, ?_, ?_⟩ <;> omega

/-- An extension whose type is not one of those with a loop. -/
theorem result_extensionPrint_other {ext type : Nat} (typed : typeAt order mem ext = type)
    (plain : ¬ (type = SADB_EXT_KEY_AUTH ∨ type = SADB_EXT_KEY_ENCRYPT) ∧
      ¬ (type = SADB_EXT_SUPPORTED_AUTH ∨ type = SADB_EXT_SUPPORTED_ENCRYPT)) :
    (extensionPrint order ext).result mem = .other type := by
  unfold extensionPrint
  simp only [Reading.result_bind, result_readNumber]
  rw [show numberAt order mem 2 (ext + 2) = type from typed, if_neg plain.1, if_neg plain.2,
    Reading.result_pure]

theorem result_extensionPrint_key {ext bytes : Nat}
    (typed : typeAt order mem ext = SADB_EXT_KEY_AUTH)
    (bits : numberAt order mem 2 (ext + 4) = bytes * 8) :
    (extensionPrint order ext).result mem =
      .key SADB_EXT_KEY_AUTH (bytes * 8) (window mem (ext + 8) bytes) := by
  unfold extensionPrint
  simp only [Reading.result_bind, result_readNumber]
  rw [show numberAt order mem 2 (ext + 2) = SADB_EXT_KEY_AUTH from typed, if_pos (Or.inl rfl)]
  unfold keyPrint
  simp only [Reading.result_bind, Reading.result_pure, result_readNumber, bits, result_readKey]
  rw [show numberAt order mem 2 (ext + 2) = SADB_EXT_KEY_AUTH from typed]

/-- One round of the walk. -/
theorem result_extensionsPrint_succ {fuel ext next n : Nat} (more : ext < n)
    (reached : behind order mem ext = next) :
    (extensionsPrint order (fuel + 1) ext ((n : Int) - ext)).result mem =
      ((extensionsPrint order fuel next ((n : Int) - next)).result mem).map
        ((extensionPrint order ext).result mem :: ·) := by
  have place : ext + numberAt order mem 2 ext * 8 = next := reached
  have left : (n : Int) - ext - ((numberAt order mem 2 ext : Nat) : Int) * 8 = n - next := by omega
  rw [extensionsPrint, if_pos (by omega)]
  simp only [Reading.result_bind, Reading.result_pure, result_readNumber]
  rw [place, left]

theorem result_extensionsPrint_end (fuel n : Nat) :
    (extensionsPrint order (fuel + 1) n ((n : Int) - n)).result mem = some [] := by
  rw [extensionsPrint, if_neg (by omega), Reading.result_pure]

theorem confined_of_wellFormed {msglen : Nat} (wellFormed : WellFormed order mem msglen) :
    Confined order mem msglen := by
  by_cases accepted : Accepted order mem msglen
  · exact (confined_iff_of_accepted accepted).mpr wellFormed
  · exact confined_of_rejected accepted

/-! ## The request -/

namespace Request

variable {r : Request}

theorem addressLen_spec (a : Sockaddr) :
    8 + a.bytes.length ≤ addressLen a * 8 ∧ addressLen a ≤ 5 := by
  rw [a.length_bytes, addressLen]
  cases a.family <;> decide

/-- The key is the last thing that is stored, apart from the length. -/
theorem fits_iff : (∀ s ∈ r.stores order, s.stop ≤ BUFSIZE) ↔
    r.keyPlace + 8 + r.key.keydata.length ≤ BUFSIZE := by
  have src := addressLen_spec r.src
  have dst := addressLen_spec r.dst
  unfold stores msgStores saStores addressStores keyStores
  simp only [List.cons_append, List.nil_append, List.forall_mem_cons, List.not_mem_nil,
    Store.stop, ByteOrder.length_store, List.length_singleton, keyPlace, dstPlace, srcPlace,
    saPlace, SIZEOF_SADB_MSG, BUFSIZE]
  constructor
  · intro all
    omega
  · intro last
    simp only [false_implies, implies_true, and_true]
    omega

theorem pairwise_apart : (r.stores order).Pairwise Store.Apart := by
  have src := addressLen_spec r.src
  have dst := addressLen_spec r.dst
  unfold stores msgStores saStores addressStores keyStores
  simp only [List.cons_append, List.nil_append, List.pairwise_cons, List.forall_mem_cons,
    List.not_mem_nil, Store.Apart, Store.stop, ByteOrder.length_store, List.length_singleton,
    keyPlace, dstPlace, srcPlace, saPlace, SIZEOF_SADB_MSG, List.Pairwise.nil, false_implies,
    implies_true, and_true]
  omega

/-- The buffer after the stores. -/
def built (order : ByteOrder) (r : Request) : Nat → Byte :=
  Store.applyAll (r.stores order) fun _ => 0

/-- Some bytes behind all stores that begin in front of them are still zero. -/
theorem window_built_of_outside {k width : Nat}
    (outside : ∀ s ∈ r.stores order, k + width ≤ s.place ∨ s.stop ≤ k) :
    window (built order r) k width = List.replicate width 0 :=
  (window_applyAll_of_outside outside).trans (window_zeros k width)

theorem numberAt_built {width k value : Nat}
    (member : ⟨k, order.store width value⟩ ∈ r.stores order)
    (fits : value < 256 ^ width) : numberAt order (built order r) width k = value :=
  numberAt_applyAll pairwise_apart member fits

theorem cell_built {k : Nat} {b : Byte} (member : ⟨k, [b]⟩ ∈ r.stores order) :
    built order r k = b :=
  cell_applyAll pairwise_apart member

theorem window_built {k : Nat} {bytes : List Byte} (member : ⟨k, bytes⟩ ∈ r.stores order) :
    window (built order r) k bytes.length = bytes :=
  window_applyAll_of_mem pairwise_apart member

/-! The stores of one part are among all of them. -/

theorem mem_of_msg {s : Store Byte} (member : s ∈ r.msgStores order) : s ∈ r.stores order := by
  unfold stores
  simp only [List.append_assoc, List.mem_append, member, true_or]

theorem mem_of_sa {s : Store Byte} (member : s ∈ r.saStores order saPlace) :
    s ∈ r.stores order := by
  unfold stores
  simp only [List.append_assoc, List.mem_append, member, true_or, or_true]

theorem mem_of_key {s : Store Byte} (member : s ∈ keyStores order r.keyPlace r.key) :
    s ∈ r.stores order := by
  unfold stores
  simp only [List.append_assoc, List.mem_append, member, true_or, or_true]

/-- An address with its place and type in the request. -/
def HasAddress (r : Request) (p exttype : Nat) (a : Sockaddr) : Prop :=
  p = srcPlace ∧ exttype = SADB_EXT_ADDRESS_SRC ∧ a = r.src ∨
    p = r.dstPlace ∧ exttype = SADB_EXT_ADDRESS_DST ∧ a = r.dst

theorem mem_of_address {p exttype : Nat} {a : Sockaddr} {s : Store Byte}
    (address : r.HasAddress p exttype a) (member : s ∈ addressStores order p exttype a) :
    s ∈ r.stores order := by
  unfold stores
  rcases address with ⟨rfl, rfl, rfl⟩ | ⟨rfl, rfl, rfl⟩
  · simp only [List.append_assoc, List.mem_append, member, true_or, or_true]
  · simp only [List.append_assoc, List.mem_append, member, true_or, or_true]

/-- No store is made behind the bytes of an address, up to the next extension. -/
theorem window_padding {p exttype : Nat} {a : Sockaddr} (address : r.HasAddress p exttype a) :
    window (built order r) (p + 8 + a.bytes.length) (addressLen a * 8 - 8 - a.bytes.length) =
      List.replicate (addressLen a * 8 - 8 - a.bytes.length) 0 := by
  have src := addressLen_spec r.src
  have dst := addressLen_spec r.dst
  apply window_built_of_outside
  unfold stores msgStores saStores addressStores keyStores
  simp only [List.cons_append, List.nil_append, List.forall_mem_cons, List.not_mem_nil,
    Store.stop, ByteOrder.length_store, List.length_singleton, keyPlace, dstPlace, srcPlace,
    saPlace, SIZEOF_SADB_MSG, false_implies, implies_true, and_true]
  rcases address with ⟨rfl, -, rfl⟩ | ⟨rfl, -, rfl⟩
  · simp only [srcPlace, saPlace, SIZEOF_SADB_MSG]
    omega
  · simp only [dstPlace, srcPlace, saPlace, SIZEOF_SADB_MSG]
    omega

theorem address_fields {p exttype : Nat} {a : Sockaddr} (address : r.HasAddress p exttype a) :
    typeAt order (built order r) p = exttype ∧
      lengthAt order (built order r) p = addressLen a * 8 := by
  have spec := addressLen_spec a
  have small : exttype < 256 ^ 2 := by
    rcases address with ⟨-, rfl, -⟩ | ⟨-, rfl, -⟩ <;> decide
  have typed : typeAt order (built order r) p = exttype :=
    numberAt_built (mem_of_address address (by unfold addressStores; simp)) small
  have units : numberAt order (built order r) 2 p = addressLen a :=
    numberAt_built (mem_of_address address (by unfold addressStores; simp)) (by omega)
  exact ⟨typed, congrArg (· * 8) units⟩

/-- What `address_print` shows of an address: its bytes, and zeros up to a multiple of eight. -/
theorem result_addressPrint_built {p exttype : Nat} {a : Sockaddr}
    (address : r.HasAddress p exttype a) (known : a.family ≠ .other) :
    (addressPrint order p).result (built order r) =
      ⟨exttype, order.load (a.bytes.take 2),
        a.bytes ++ List.replicate (addressLen a * 8 - 8 - a.bytes.length) 0,
        prefixAll a.family, 0⟩ := by
  have spec := addressLen_spec a
  rcases @address_fields order r _ _ _ address with ⟨typed, length⟩
  have proto : built order r (p + 4) = 0 :=
    cell_built (mem_of_address address (by unfold addressStores; simp))
  have prefixlen : built order r (p + 5) = prefixAll a.family :=
    cell_built (mem_of_address address (by unfold addressStores; simp))
  have bytes : window (built order r) (p + 8) a.bytes.length = a.bytes :=
    window_built (mem_of_address address (by unfold addressStores; simp))
  have two : 2 ≤ a.bytes.length := by
    rw [a.length_bytes]
    cases family : a.family with
    | inet | inet6 => decide
    | other => exact absurd family known
  have family : numberAt order (built order r) 2 (p + 8) = order.load (a.bytes.take 2) := by
    have first : window (built order r) (p + 8) 2 = a.bytes.take 2 := by
      have front := congrArg (List.take 2) bytes
      rw [show a.bytes.length = 2 + (a.bytes.length - 2) by omega, window_add,
        List.take_left' (length_window _ _ _)] at front
      exact front
    exact congrArg order.load first
  rw [result_addressPrint, typed, length, proto, prefixlen, family]
  have split : addressLen a * 8 - 8 = a.bytes.length + (addressLen a * 8 - 8 - a.bytes.length) := by
    omega
  rw [split, window_add, bytes, window_padding address, ← split]

theorem result_saPrint_built :
    typeAt order (built order r) saPlace = SADB_EXT_SA ∧
      lengthAt order (built order r) saPlace = 16 ∧
      (saPrint order saPlace).result (built order r) =
        ⟨order.load (ByteOrder.big.store 4 r.spi.toNat), 0, SADB_SASTATE_MATURE, r.alg,
          SADB_EALG_NONE, 0⟩ := by
  have typed : typeAt order (built order r) saPlace = SADB_EXT_SA :=
    numberAt_built (mem_of_sa (by unfold saStores; simp)) (by decide)
  have units : numberAt order (built order r) 2 saPlace = 2 :=
    numberAt_built (mem_of_sa (by unfold saStores; simp)) (by decide)
  have spi : window (built order r) (saPlace + 4) (ByteOrder.big.store 4 r.spi.toNat).length =
      ByteOrder.big.store 4 r.spi.toNat :=
    @window_built order r _ _ (mem_of_sa (by unfold saStores; simp))
  rw [ByteOrder.length_store] at spi
  have replay : built order r (saPlace + 8) = 0 :=
    cell_built (mem_of_sa (by unfold saStores; simp))
  have state : built order r (saPlace + 9) = SADB_SASTATE_MATURE :=
    cell_built (mem_of_sa (by unfold saStores; simp))
  have auth : built order r (saPlace + 10) = r.alg :=
    cell_built (mem_of_sa (by unfold saStores; simp))
  have encrypt : built order r (saPlace + 11) = SADB_EALG_NONE :=
    cell_built (mem_of_sa (by unfold saStores; simp))
  have flags : numberAt order (built order r) 4 (saPlace + 12) = 0 :=
    numberAt_built (mem_of_sa (by unfold saStores; simp)) (by decide)
  refine ⟨typed, congrArg (· * 8) units, ?_⟩
  have number : numberAt order (built order r) 4 (saPlace + 4) =
      order.load (ByteOrder.big.store 4 r.spi.toNat) := congrArg order.load spi
  rw [result_saPrint, number, replay, state, auth, encrypt, flags]

/-- Where the key fits, its length is stored as it is. -/
theorem keyLen_eq (fits : r.keyPlace + 8 + r.key.keydata.length ≤ BUFSIZE) :
    keyLen r.key.keybits = (8 + r.key.keydata.length + 7) / 8 ∧ r.len ≤ BUFSIZE := by
  have bits : r.key.keybits / 8 = r.key.keydata.length := by
    rw [← r.key.length_keydata, Nat.mul_div_cancel _ (by decide)]
  have small : r.keyPlace + 8 + r.key.keydata.length ≤ 4096 := fits
  have eq : keyLen r.key.keybits = (8 + r.key.keydata.length + 7) / 8 := by
    rw [keyLen, bits, Nat.mod_eq_of_lt (by omega)]
  refine ⟨eq, ?_⟩
  rw [len, eq, BUFSIZE]
  simp only [keyPlace, dstPlace, srcPlace, saPlace, SIZEOF_SADB_MSG] at small ⊢
  omega

theorem result_keyPrint_built (fits : r.keyPlace + 8 + r.key.keydata.length ≤ BUFSIZE) :
    behind order (built order r) r.keyPlace = r.len ∧
      bodyEnd order (built order r) r.keyPlace ≤ r.len ∧
      (extensionPrint order r.keyPlace).result (built order r) =
        .key SADB_EXT_KEY_AUTH r.key.keybits r.key.keydata := by
  have small : r.keyPlace + 8 + r.key.keydata.length ≤ 4096 := fits
  have bits := r.key.length_keydata
  have stored : (8 + r.key.keybits / 8 + 7) / 8 = (8 + r.key.keydata.length + 7) / 8 := by
    rw [← bits, Nat.mul_div_cancel _ (by decide)]
  have typed : typeAt order (built order r) r.keyPlace = SADB_EXT_KEY_AUTH :=
    numberAt_built (mem_of_key (by unfold keyStores; simp)) (by decide)
  have units : numberAt order (built order r) 2 r.keyPlace = (8 + r.key.keydata.length + 7) / 8 :=
    stored ▸ numberAt_built (mem_of_key (by unfold keyStores; simp)) (by omega)
  have number : numberAt order (built order r) 2 (r.keyPlace + 4) = r.key.keydata.length * 8 :=
    bits ▸ numberAt_built (mem_of_key (by unfold keyStores; simp)) (by omega)
  have body : window (built order r) (r.keyPlace + 8) r.key.keydata.length = r.key.keydata :=
    @window_built order r _ _ (mem_of_key (by unfold keyStores; simp))
  refine ⟨?_, ?_, ?_⟩
  · rw [behind, lengthAt, units, len, (keyLen_eq fits).1]
  · rw [bodyEnd, if_pos (Or.inl typed), number, len, (keyLen_eq fits).1]
    omega
  · rw [result_extensionPrint_key typed number, body, bits]

/-- The extensions that the walk comes by. -/
theorem extensionAt_built :
    extensionAt order (built order r) 0 = saPlace ∧
      extensionAt order (built order r) 1 = srcPlace ∧
      extensionAt order (built order r) 2 = r.dstPlace ∧
      extensionAt order (built order r) 3 = r.keyPlace := by
  have first : extensionAt order (built order r) 0 = saPlace := rfl
  have second : extensionAt order (built order r) 1 = srcPlace := by
    rw [extensionAt_succ, first, behind, result_saPrint_built.2.1]
    rfl
  have third : extensionAt order (built order r) 2 = r.dstPlace := by
    rw [extensionAt_succ, second, behind,
      (address_fields (.inl ⟨rfl, rfl, rfl⟩)).2]
    rfl
  have fourth : extensionAt order (built order r) 3 = r.keyPlace := by
    rw [extensionAt_succ, third, behind,
      (address_fields (.inr ⟨rfl, rfl, rfl⟩)).2]
    rfl
  exact ⟨first, second, third, fourth⟩

/-- Every extension has a length, and only the key has a body that is walked over. -/
theorem wellFormed_built (fits : r.keyPlace + 8 + r.key.keydata.length ≤ BUFSIZE) :
    WellFormed order (built order r) r.len := by
  rcases @extensionAt_built order r with ⟨first, second, third, fourth⟩
  rcases @result_keyPrint_built order r fits with ⟨reached, body, -⟩
  rcases @result_saPrint_built order r with ⟨saType, saLength, -⟩
  rcases @address_fields order r _ _ _ (.inl ⟨rfl, rfl, rfl⟩) with ⟨srcType, srcLength⟩
  rcases @address_fields order r _ _ _ (.inr ⟨rfl, rfl, rfl⟩) with ⟨dstType, dstLength⟩
  have src := addressLen_spec r.src
  have dst := addressLen_spec r.dst
  have key := keyLen_eq fits
  have plain : ∀ ext, typeAt order (built order r) ext = SADB_EXT_SA ∨
      typeAt order (built order r) ext = SADB_EXT_ADDRESS_SRC ∨
      typeAt order (built order r) ext = SADB_EXT_ADDRESS_DST →
      bodyEnd order (built order r) ext = ext := by
    intro ext types
    rw [bodyEnd, if_neg, if_neg]
    · rcases types with type | type | type <;> rw [type] <;> decide
    · rcases types with type | type | type <;> rw [type] <;> decide
  intro i before
  match i with
  | 0 => rw [first] at before ⊢; exact ⟨by omega, by rw [plain _ (.inl saType)]; omega⟩
  | 1 => rw [second] at before ⊢; exact ⟨by omega, by rw [plain _ (.inr (.inl srcType))]; omega⟩
  | 2 => rw [third] at before ⊢; exact ⟨by omega, by rw [plain _ (.inr (.inr dstType))]; omega⟩
  | 3 =>
      rw [fourth] at before ⊢
      exact ⟨by rw [behind] at reached; omega, body⟩
  | i + 4 =>
      have last : extensionAt order (built order r) 4 = r.len := by
        rw [extensionAt_succ, fourth, reached]
      have le := @extensionAt_le order (built order r) 4 (i + 4) (by omega)
      omega

/-- The places of the extensions follow one another. -/
theorem places_lt (fits : r.keyPlace + 8 + r.key.keydata.length ≤ BUFSIZE) :
    saPlace < r.len ∧ srcPlace < r.len ∧ r.dstPlace < r.len ∧ r.keyPlace < r.len ∧
      8 ∣ r.len := by
  have key := (keyLen_eq fits).1
  unfold len
  rw [key]
  simp only [keyPlace, dstPlace, srcPlace, saPlace, SIZEOF_SADB_MSG]
  omega

theorem accepted_built (fits : r.keyPlace + 8 + r.key.keydata.length ≤ BUFSIZE) :
    Accepted order (built order r) r.len := by
  rcases places_lt fits with ⟨-, -, -, -, aligned⟩
  have small : r.len ≤ 4096 := (keyLen_eq fits).2
  have stored : (⟨4, order.store 2 (r.len / 8)⟩ : Store Byte) ∈ r.stores order := by
    unfold stores
    simp only [List.mem_append, List.mem_singleton, or_true]
  refine ⟨?_, @cell_built order r _ _ (mem_of_msg (by unfold msgStores; simp))⟩
  rw [numberAt_built stored (by omega), Nat.div_mul_cancel aligned]

/-- The extensions are printed in their order. -/
theorem result_walk_built (fits : r.keyPlace + 8 + r.key.keydata.length ≤ BUFSIZE) :
    (extensionsPrint order 5 SIZEOF_SADB_MSG ((r.len : Int) - SIZEOF_SADB_MSG)).result
        (built order r) =
      some [.other SADB_EXT_SA, .other SADB_EXT_ADDRESS_SRC, .other SADB_EXT_ADDRESS_DST,
        .key SADB_EXT_KEY_AUTH r.key.keybits r.key.keydata] := by
  rcases places_lt fits with ⟨saBefore, srcBefore, dstBefore, keyBefore, -⟩
  change SIZEOF_SADB_MSG < r.len at saBefore
  rcases @result_keyPrint_built order r fits with ⟨reached, -, key⟩
  rcases @result_saPrint_built order r with ⟨saType, saLength, -⟩
  rcases @address_fields order r _ _ _ (.inl ⟨rfl, rfl, rfl⟩) with ⟨srcType, srcLength⟩
  rcases @address_fields order r _ _ _ (.inr ⟨rfl, rfl, rfl⟩) with ⟨dstType, dstLength⟩
  have toSrc : behind order (built order r) SIZEOF_SADB_MSG = srcPlace := by
    rw [behind, show lengthAt order (built order r) SIZEOF_SADB_MSG = 16 from saLength]
    rfl
  have toDst : behind order (built order r) srcPlace = r.dstPlace := by
    rw [behind, srcLength]
    rfl
  have toKey : behind order (built order r) r.dstPlace = r.keyPlace := by
    rw [behind, dstLength]
    rfl
  have sa : (extensionPrint order SIZEOF_SADB_MSG).result (built order r) = .other SADB_EXT_SA :=
    result_extensionPrint_other saType (by decide)
  rw [result_extensionsPrint_succ saBefore toSrc, result_extensionsPrint_succ srcBefore toDst,
    result_extensionsPrint_succ dstBefore toKey, result_extensionsPrint_succ keyBefore reached,
    result_extensionsPrint_end, sa, result_extensionPrint_other srcType (by decide),
    result_extensionPrint_other dstType (by decide), key]
  rfl

theorem result_printSadbMsg_built (fits : r.keyPlace + 8 + r.key.keydata.length ≤ BUFSIZE) :
    (printSadbMsg order 5 r.len).result (built order r) =
      some (.message ⟨SADB_ADD, 0, r.type, 0, r.pid.toNat⟩
        [.other SADB_EXT_SA, .other SADB_EXT_ADDRESS_SRC, .other SADB_EXT_ADDRESS_DST,
          .key SADB_EXT_KEY_AUTH r.key.keybits r.key.keydata]) := by
  have accepted := @accepted_built order r fits
  have header : r.len ≠ SIZEOF_SADB_MSG := (places_lt fits).1.ne'
  have type : built order r 1 = SADB_ADD := cell_built (mem_of_msg (by unfold msgStores; simp))
  have satype : built order r 3 = r.type := cell_built (mem_of_msg (by unfold msgStores; simp))
  have pid : numberAt order (built order r) 4 12 = r.pid.toNat :=
    numberAt_built (mem_of_msg (by unfold msgStores; simp)) r.pid.toNat_lt
  have outside : ∀ k width, k = 2 ∧ width = 1 ∨ k = 8 ∧ width = 4 →
      window (built order r) k width = List.replicate width 0 := by
    intro k width place
    apply window_built_of_outside
    unfold stores msgStores saStores addressStores keyStores
    simp only [List.cons_append, List.nil_append, List.forall_mem_cons, List.not_mem_nil,
      Store.stop, ByteOrder.length_store, List.length_singleton, keyPlace, dstPlace, srcPlace,
      saPlace, SIZEOF_SADB_MSG, false_implies, implies_true, and_true]
    omega
  have errno : built order r 2 = 0 := List.head_eq_of_cons_eq (outside 2 1 (.inl ⟨rfl, rfl⟩))
  have seq : numberAt order (built order r) 4 8 = 0 :=
    (congrArg order.load (outside 8 4 (.inr ⟨rfl, rfl⟩))).trans (load_replicate 4)
  unfold printSadbMsg
  simp only [Reading.result_bind, result_readNumber]
  rw [if_neg (not_not.mpr accepted.1), Reading.result_bind, Reading.result_cell,
    if_neg (not_not.mpr accepted.2)]
  simp only [Reading.result_bind, Reading.result_cell, result_readNumber, type, errno, satype, seq,
    pid, if_neg header, result_walk_built fits, Reading.result_pure]
  rfl

/-- The extensions of the association and of the addresses are read inside the message. -/
theorem within_prints_built (fits : r.keyPlace + 8 + r.key.keydata.length ≤ BUFSIZE) :
    (saPrint order saPlace).Within (built order r) (· < r.len) ∧
      ∀ p exttype a, r.HasAddress p exttype a →
        (addressPrint order p).Within (built order r) (· < r.len) := by
  have src := addressLen_spec r.src
  have dst := addressLen_spec r.dst
  have len_eq : r.len = r.keyPlace + keyLen r.key.keybits * 8 := rfl
  have key := (keyLen_eq fits).1
  have places : r.keyPlace = r.dstPlace + addressLen r.dst * 8 ∧
      r.dstPlace = srcPlace + addressLen r.src * 8 ∧ srcPlace = saPlace + 16 :=
    ⟨rfl, rfl, rfl⟩
  constructor
  · exact within_saPrint (by omega)
  · intro p exttype a address
    have length := (@address_fields order r _ _ _ address).2
    have reached : behind order (built order r) p = p + addressLen a * 8 := by
      rw [behind, length]
    rcases address with ⟨rfl, -, rfl⟩ | ⟨rfl, -, rfl⟩
    · exact within_addressPrint (by omega) (by omega)
    · exact within_addressPrint (by omega) (by omega)

/-- The request overruns its buffer just when the key does not fit behind the addresses.
Otherwise the walk and what it calls stay inside the message, which says its own length, and
show each argument again, but for an address of a family that has none in the message; the
number of the association is shown as it is on the network. -/
theorem sadbAdd_printed (order : ByteOrder) (r : Request) :
    (r.sadbAdd order = none ↔ BUFSIZE < r.keyPlace + 8 + r.key.keydata.length) ∧
      ∀ buf len, r.sadbAdd order = some (buf, len) →
        len ≤ BUFSIZE ∧ Confined order buf len ∧
          (∃ fuel, (printSadbMsg order fuel len).result buf =
            some (.message ⟨SADB_ADD, 0, r.type, 0, r.pid.toNat⟩
              [.other SADB_EXT_SA, .other SADB_EXT_ADDRESS_SRC, .other SADB_EXT_ADDRESS_DST,
                .key SADB_EXT_KEY_AUTH r.key.keybits r.key.keydata])) ∧
          ((saPrint order (extensionAt order buf 0)).Within buf (· < len) ∧
            (saPrint order (extensionAt order buf 0)).result buf =
              ⟨order.load (ByteOrder.big.store 4 r.spi.toNat), 0, SADB_SASTATE_MATURE, r.alg,
                SADB_EALG_NONE, 0⟩) ∧
          ∀ i exttype a, i = 1 ∧ exttype = SADB_EXT_ADDRESS_SRC ∧ a = r.src ∨
              i = 2 ∧ exttype = SADB_EXT_ADDRESS_DST ∧ a = r.dst →
            a.family ≠ .other →
              (addressPrint order (extensionAt order buf i)).Within buf (· < len) ∧
                (addressPrint order (extensionAt order buf i)).result buf =
                  ⟨exttype, order.load (a.bytes.take 2),
                    a.bytes ++ List.replicate (addressLen a * 8 - 8 - a.bytes.length) 0,
                    prefixAll a.family, 0⟩ := by
  unfold sadbAdd
  constructor
  · rw [ite_eq_right_iff, ← Nat.not_le, ← fits_iff]
    exact ⟨fun overruns fits => Option.some_ne_none _ (overruns fits),
      fun overruns fits => absurd fits overruns⟩
  · intro buf len some_eq
    rcases Option.ite_none_right_eq_some.mp some_eq with ⟨inside, pair⟩
    have fits := fits_iff.mp inside
    cases pair
    change _ ∧ Confined order (built order r) r.len ∧ _
    rcases @extensionAt_built order r with ⟨first, second, third, -⟩
    rcases @within_prints_built order r fits with ⟨withinSa, withinAddress⟩
    refine ⟨(keyLen_eq fits).2, confined_of_wellFormed (wellFormed_built fits),
      ⟨5, result_printSadbMsg_built fits⟩, ?_, ?_⟩
    · change (saPrint order (extensionAt order (built order r) 0)).Within (built order r) _ ∧ _
      rw [first]
      exact ⟨withinSa, result_saPrint_built.2.2⟩
    · rintro i exttype a (⟨rfl, rfl, rfl⟩ | ⟨rfl, rfl, rfl⟩) known
      · have address : r.HasAddress srcPlace SADB_EXT_ADDRESS_SRC r.src := .inl ⟨rfl, rfl, rfl⟩
        change (addressPrint order (extensionAt order (built order r) 1)).Within
          (built order r) _ ∧ (addressPrint order (extensionAt order (built order r) 1)).result
            (built order r) = _
        rw [second]
        exact ⟨withinAddress _ _ _ address, result_addressPrint_built address known⟩
      · have address : r.HasAddress r.dstPlace SADB_EXT_ADDRESS_DST r.dst := .inr ⟨rfl, rfl, rfl⟩
        change (addressPrint order (extensionAt order (built order r) 2)).Within
          (built order r) _ ∧ (addressPrint order (extensionAt order (built order r) 2)).result
            (built order r) = _
        rw [third]
        exact ⟨withinAddress _ _ _ address, result_addressPrint_built address known⟩

end Request

end NetPractice.KeyMessage
