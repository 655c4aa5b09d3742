import NetPractice.KeyMessage.Core
import NetPractice.Transition.Loops

/-!
# The walk over a key management message

`print_sadb_msg` checks the length of the message, and no length of an extension.  It ends,
and stays inside the message, just when the extensions that it comes by have lengths that
move it forward, algorithms that end inside the message, and keys that do.
-/

namespace NetPractice.KeyMessage

open NetPractice.Memory
open NetPractice.Text
open NetPractice.Transition

variable (order : ByteOrder) (mem : Nat → Byte)

/-- The number that is stored at `k`. -/
def numberAt (width k : Nat) : Nat :=
  order.load ((List.range width).map fun i => mem (k + i))

/-- `sadb_ext_len`, in bytes. -/
def lengthAt (ext : Nat) : Nat :=
  numberAt order mem 2 ext * 8

/-- `sadb_ext_type`. -/
def typeAt (ext : Nat) : Nat :=
  numberAt order mem 2 (ext + 2)

/-- Where the walk gets from an extension. -/
def behind (ext : Nat) : Nat :=
  ext + lengthAt order mem ext

/-- Where the walk is after some extensions. -/
def extensionAt (i : Nat) : Nat :=
  (behind order mem)^[i] SIZEOF_SADB_MSG

/-- Where the body ends that is walked over: the algorithms, or the bits of the key. -/
def bodyEnd (ext : Nat) : Nat :=
  if typeAt order mem ext = SADB_EXT_KEY_AUTH ∨ typeAt order mem ext = SADB_EXT_KEY_ENCRYPT then
    ext + 8 + (numberAt order mem 2 (ext + 4) + 7) / 8
  else if typeAt order mem ext = SADB_EXT_SUPPORTED_AUTH ∨
      typeAt order mem ext = SADB_EXT_SUPPORTED_ENCRYPT then
    behind order mem ext
  else ext

/-- The message passes the two checks that are made. -/
def Accepted (msglen : Nat) : Prop :=
  msglen = numberAt order mem 2 4 * 8 ∧ mem 0 = PF_KEY_V2

/-- Each extension that the walk comes by has a length, and a body inside the message. -/
def WellFormed (msglen : Nat) : Prop :=
  ∀ i, extensionAt order mem i < msglen →
    0 < lengthAt order mem (extensionAt order mem i) ∧
      bodyEnd order mem (extensionAt order mem i) ≤ msglen

/-- The function ends, and what it reads is in the header or in the message. -/
def Confined (msglen : Nat) : Prop :=
  (∃ fuel, ((printSadbMsg order fuel msglen).result mem).isSome) ∧
    ∀ fuel, (printSadbMsg order fuel msglen).Within mem (· < max SIZEOF_SADB_MSG msglen)

variable {order : ByteOrder} {mem : Nat → Byte} {n ext : Nat}

/-! ## Numbers -/

@[simp]
theorem result_readNumber (width k : Nat) :
    (readNumber order width k).result mem = numberAt order mem width k := by
  unfold readNumber numberAt
  simp only [Reading.result_bind, Reading.result_each, Reading.result_cell, Reading.result_pure]

@[simp]
theorem within_readNumber {P : Nat → Prop} (width k : Nat) :
    (readNumber order width k).Within mem P ↔ ∀ i < width, P (k + i) := by
  unfold readNumber
  simp only [Reading.within_bind, Reading.within_each, Reading.within_cell, Reading.within_pure,
    List.mem_range, and_true]

theorem within_readNumber_of_le (width k : Nat) (inside : k + width ≤ n) :
    (readNumber order width k).Within mem (· < n) := by
  rw [within_readNumber]
  intro i below
  omega

/-! ## The loops over a body -/

/-- All the algorithms are read, each of eight bytes; the last two of them are reserved. -/
theorem within_readAlgs (aligned : 8 ∣ n) {count alg : Nat} (place : 8 ∣ alg) :
    (readAlgs order alg (8 * count)).Within mem (· < n) ↔ count = 0 ∨ alg + 8 * count ≤ n := by
  induction count generalizing alg with
  | zero =>
      rw [readAlgs, if_neg (by omega)]
      exact iff_of_true (Reading.within_pure _) (Or.inl rfl)
  | succ count ih =>
      have next : (8 : Int) * (count + 1 : Nat) - 8 = 8 * count := by omega
      rw [readAlgs, if_pos (by omega), next]
      simp only [Reading.within_bind, Reading.within_cell, Reading.within_pure, and_true,
        within_readNumber]
      rw [ih (Nat.dvd_add place (Nat.dvd_refl 8))]
      constructor
      · rintro ⟨_, _, _, last, rest⟩
        have maxbits := last 1 (by omega)
        omega
      · intro inside
        exact ⟨by omega, by omega, fun i below => by omega, fun i below => by omega, by omega⟩

theorem within_readKey (p : Nat) (bits : Int) :
    (readKey p bits).Within mem (· < n) ↔ bits ≤ 0 ∨ p + (bits + 7) / 8 ≤ n := by
  fun_induction readKey p bits with
  | case1 p bits more ih =>
      simp only [Reading.within_bind, Reading.within_cell, Reading.within_pure, and_true, ih]
      omega
  | case2 p bits finished => exact iff_of_true (Reading.within_pure _) (Or.inl (by omega))

/-! ## One extension -/

theorem within_keyPrint (room : ext + 8 ≤ n) :
    (keyPrint order ext).Within mem (· < n) ↔
      ext + 8 + (numberAt order mem 2 (ext + 4) + 7) / 8 ≤ n := by
  have exttype := @within_readNumber_of_le order mem n 2 (ext + 2) (by omega)
  have bits := @within_readNumber_of_le order mem n 2 (ext + 4) (by omega)
  unfold keyPrint
  simp only [Reading.within_bind, Reading.within_pure, and_true, result_readNumber, exttype, bits,
    true_and, within_readKey]
  omega

theorem within_supportedPrint (aligned : 8 ∣ n) (place : 8 ∣ ext) (room : ext + 8 ≤ n) :
    (supportedPrint order ext).Within mem (· < n) ↔ behind order mem ext ≤ n := by
  have exttype := @within_readNumber_of_le order mem n 2 (ext + 2) (by omega)
  have units := @within_readNumber_of_le order mem n 2 ext (by omega)
  unfold supportedPrint behind lengthAt
  simp only [Reading.within_bind, result_readNumber, exttype, units, true_and]
  cases numberAt order mem 2 ext with
  | zero =>
      -- the length that is left is negative, and nothing is printed
      rw [if_neg (by omega), Reading.within_bind, readAlgs, if_neg (by omega)]
      exact iff_of_true ⟨Reading.within_pure _, Reading.within_pure _⟩ (by omega)
  | succ count =>
      have left : ((count + 1 : Nat) : Int) * 8 - 8 = 8 * count := by omega
      rw [left]
      by_cases none : (8 : Int) * count = 0
      · rw [if_pos none]
        exact iff_of_true (Reading.within_pure _) (by omega)
      · rw [if_neg none, Reading.within_bind,
          within_readAlgs aligned (Nat.dvd_add place (Nat.dvd_refl 8)),
          and_iff_left (Reading.within_pure _)]
        omega

theorem within_extensionPrint (aligned : 8 ∣ n) (place : 8 ∣ ext) (room : ext + 8 ≤ n) :
    (extensionPrint order ext).Within mem (· < n) ↔ bodyEnd order mem ext ≤ n := by
  have type := @within_readNumber_of_le order mem n 2 (ext + 2) (by omega)
  unfold extensionPrint bodyEnd typeAt
  simp only [Reading.within_bind, result_readNumber, type, true_and]
  split_ifs
  · exact within_keyPrint room
  · exact within_supportedPrint aligned place room
  · exact iff_of_true (Reading.within_pure _) (by omega)

/-! ## The walk -/

theorem forward (ext : Nat) : ext ≤ behind order mem ext :=
  Nat.le_add_right ext _

theorem extensionAt_succ (i : Nat) :
    extensionAt order mem (i + 1) = behind order mem (extensionAt order mem i) :=
  Function.iterate_succ_apply' _ _ _

theorem extensionAt_le {i j : Nat} (le : i ≤ j) :
    extensionAt order mem i ≤ extensionAt order mem j :=
  iterate_le_iterate forward le

theorem dvd_extensionAt (i : Nat) : 8 ∣ extensionAt order mem i := by
  induction i with
  | zero => exact ⟨2, rfl⟩
  | succ i ih =>
      rw [extensionAt_succ]
      exact Nat.dvd_add ih (Nat.dvd_mul_left 8 _)

section Walk

variable (order mem n)

/-- The loop of `print_sadb_msg`, in front of an extension. -/
def walkFrom (fuel i : Nat) : Reading Nat Byte (Option (List Extension)) :=
  extensionsPrint order fuel (extensionAt order mem i) ((n : Int) - extensionAt order mem i)

variable {order mem n}

/-- What a round of the loop leaves. -/
theorem walk_next (i : Nat) :
    extensionAt order mem i + numberAt order mem 2 (extensionAt order mem i) * 8 =
        extensionAt order mem (i + 1) ∧
      (n : Int) - extensionAt order mem i -
          (numberAt order mem 2 (extensionAt order mem i) : Nat) * 8 =
        (n : Int) - extensionAt order mem (i + 1) := by
  have next : extensionAt order mem i + numberAt order mem 2 (extensionAt order mem i) * 8 =
      extensionAt order mem (i + 1) := (extensionAt_succ i).symm
  exact ⟨next, by omega⟩

/-- The loop ends at the first extension that is not in front of the end of the message. -/
theorem isSome_walkFrom_iff (fuel i : Nat) :
    ((walkFrom order mem n fuel i).result mem).isSome ↔
      ∃ j < fuel, n ≤ extensionAt order mem (i + j) := by
  induction fuel generalizing i with
  | zero =>
      refine iff_of_false ?_ ?_
      · rw [walkFrom, extensionsPrint]
        exact Bool.false_ne_true
      · rintro ⟨j, below, _⟩
        exact absurd below (Nat.not_lt_zero j)
  | succ fuel ih =>
      rw [walkFrom, extensionsPrint]
      by_cases before : extensionAt order mem i < n
      · rcases @walk_next order mem n i with ⟨position, left⟩
        rw [if_pos (by omega)]
        simp only [Reading.result_bind, Reading.result_pure, result_readNumber, Option.isSome_map]
        rw [position, left]
        refine (ih (i + 1)).trans ?_
        constructor
        · rintro ⟨j, below, reached⟩
          exact ⟨j + 1, by omega, by rwa [Nat.add_right_comm] at reached⟩
        · rintro ⟨j, below, reached⟩
          cases j with
          | zero => exact absurd reached (Nat.not_le_of_lt before)
          | succ j => exact ⟨j, by omega, by rwa [Nat.add_right_comm]⟩
      · rw [if_neg (by omega)]
        exact iff_of_true rfl ⟨0, Nat.succ_pos fuel, Nat.le_of_not_lt before⟩

/-- The loop stays in front of `n` just when the bodies do of the extensions that it comes
by. -/
theorem within_walkFrom_iff (aligned : 8 ∣ n) (fuel i : Nat) :
    (walkFrom order mem n fuel i).Within mem (· < n) ↔
      ∀ j < fuel, extensionAt order mem (i + j) < n →
        bodyEnd order mem (extensionAt order mem (i + j)) ≤ n := by
  induction fuel generalizing i with
  | zero =>
      refine iff_of_true (Reading.within_pure _) ?_
      intro j below
      exact absurd below (Nat.not_lt_zero j)
  | succ fuel ih =>
      rw [walkFrom, extensionsPrint]
      by_cases before : extensionAt order mem i < n
      · rcases @walk_next order mem n i with ⟨position, left⟩
        rw [if_pos (by omega)]
        have place := @dvd_extensionAt order mem i
        have room : extensionAt order mem i + 8 ≤ n := by omega
        simp only [Reading.within_bind, Reading.within_pure, and_true, result_readNumber,
          within_extensionPrint aligned place room,
          @within_readNumber_of_le order mem n 2 (extensionAt order mem i) (by omega), true_and]
        rw [position, left]
        refine (and_congr_right fun _ => ih (i + 1)).trans ?_
        constructor
        · rintro ⟨first, rest⟩ j below inside
          cases j with
          | zero => exact first
          | succ j =>
              have next : i + 1 + j = i + (j + 1) := by omega
              rw [← next] at inside ⊢
              exact rest j (by omega) inside
        · intro all
          refine ⟨all 0 (Nat.succ_pos fuel) before, fun j below inside => ?_⟩
          have next : i + 1 + j = i + (j + 1) := by omega
          rw [next] at inside ⊢
          exact all (j + 1) (by omega) inside
      · rw [if_neg (by omega)]
        refine iff_of_true (Reading.within_pure _) fun j _ inside => ?_
        have le := @extensionAt_le order mem i (i + j) (Nat.le_add_right i j)
        omega

end Walk

/-- From the first extension, the loop ends and stays in front of `n` just when each extension
has a length and a body that ends there. -/
theorem walk_iff (aligned : 8 ∣ n) :
    (∃ fuel, ((walkFrom order mem n fuel 0).result mem).isSome) ∧
        (∀ fuel, (walkFrom order mem n fuel 0).Within mem (· < n)) ↔
      WellFormed order mem n := by
  have ends : (∃ fuel, ((walkFrom order mem n fuel 0).result mem).isSome) ↔
      ∀ i, extensionAt order mem i < n → 0 < lengthAt order mem (extensionAt order mem i) := by
    calc (∃ fuel, ((walkFrom order mem n fuel 0).result mem).isSome)
        ↔ ∃ i, n ≤ extensionAt order mem i := by
          simp only [isSome_walkFrom_iff, Nat.zero_add]
          exact ⟨fun ⟨_, j, _, reached⟩ => ⟨j, reached⟩,
            fun ⟨j, reached⟩ => ⟨j + 1, j, Nat.lt_succ_self j, reached⟩⟩
      _ ↔ ∀ i, extensionAt order mem i < n →
            extensionAt order mem i < behind order mem (extensionAt order mem i) :=
          exists_le_iterate_iff forward
      _ ↔ _ := by
          simp only [behind, Nat.lt_add_right_iff_pos]
  have stays : (∀ fuel, (walkFrom order mem n fuel 0).Within mem (· < n)) ↔
      ∀ i, extensionAt order mem i < n → bodyEnd order mem (extensionAt order mem i) ≤ n := by
    simp only [within_walkFrom_iff aligned, Nat.zero_add]
    exact ⟨fun all i => all (i + 1) i (Nat.lt_succ_self i), fun all _ i _ => all i⟩
  rw [ends, stays]
  exact ⟨fun both i before => ⟨both.1 i before, both.2 i before⟩,
    fun all => ⟨fun i before => (all i before).1, fun i before => (all i before).2⟩⟩

/-- A message that ends with its header has no extensions. -/
theorem not_extensionAt_lt (small : n ≤ SIZEOF_SADB_MSG) (i : Nat) :
    ¬ extensionAt order mem i < n := by
  have first : extensionAt order mem 0 = SIZEOF_SADB_MSG := rfl
  have le := @extensionAt_le order mem 0 i (Nat.zero_le i)
  omega

theorem wellFormed_of_le (small : n ≤ SIZEOF_SADB_MSG) : WellFormed order mem n :=
  fun i before => absurd before (not_extensionAt_lt small i)

/-! ## The message -/

section Message

variable {msglen : Nat}

/-- The header is read whatever the length of the message. -/
theorem within_header {width k : Nat} (inside : k + width ≤ SIZEOF_SADB_MSG) :
    (readNumber order width k).Within mem (· < max SIZEOF_SADB_MSG msglen) :=
  within_readNumber_of_le width k (inside.trans (le_max_left _ _))

theorem lt_of_header {k : Nat} (inside : k < SIZEOF_SADB_MSG) :
    k < max SIZEOF_SADB_MSG msglen :=
  lt_of_lt_of_le inside (le_max_left _ _)

theorem confined_of_rejected (rejected : ¬ Accepted order mem msglen) :
    Confined order mem msglen := by
  unfold Confined printSadbMsg
  simp only [Reading.within_bind, Reading.result_bind, result_readNumber,
    within_header (show 4 + 2 ≤ SIZEOF_SADB_MSG by decide), true_and]
  by_cases differs : msglen ≠ numberAt order mem 2 4 * 8
  · simp only [if_pos differs, Reading.result_pure, Reading.within_pure]
    exact ⟨⟨0, rfl⟩, fun _ => trivial⟩
  · have version : mem 0 ≠ PF_KEY_V2 := fun version => rejected ⟨not_not.mp differs, version⟩
    simp only [if_neg differs, Reading.within_bind, Reading.result_bind, Reading.within_cell,
      Reading.result_cell, lt_of_header (show 0 < SIZEOF_SADB_MSG by decide), true_and,
      if_pos version, Reading.result_pure, Reading.within_pure]
    exact ⟨⟨0, rfl⟩, fun _ => trivial⟩

theorem confined_iff_of_accepted (accepted : Accepted order mem msglen) :
    Confined order mem msglen ↔ WellFormed order mem msglen := by
  have aligned : 8 ∣ msglen := accepted.1 ▸ Nat.dvd_mul_left 8 _
  unfold Confined printSadbMsg
  simp only [if_neg (not_not.mpr accepted.1), if_neg (not_not.mpr accepted.2),
    Reading.within_bind, Reading.result_bind, Reading.within_cell, Reading.result_cell,
    result_readNumber, within_header (show 4 + 2 ≤ SIZEOF_SADB_MSG by decide),
    within_header (show 8 + 4 ≤ SIZEOF_SADB_MSG by decide),
    within_header (show 12 + 4 ≤ SIZEOF_SADB_MSG by decide),
    lt_of_header (show 0 < SIZEOF_SADB_MSG by decide),
    lt_of_header (show 1 < SIZEOF_SADB_MSG by decide),
    lt_of_header (show 2 < SIZEOF_SADB_MSG by decide),
    lt_of_header (show 3 < SIZEOF_SADB_MSG by decide), true_and]
  by_cases noExtensions : msglen = SIZEOF_SADB_MSG
  · simp only [if_pos noExtensions, Reading.result_pure, Reading.within_pure]
    exact iff_of_true ⟨⟨0, rfl⟩, fun _ => trivial⟩ (wellFormed_of_le noExtensions.le)
  · simp only [if_neg noExtensions, Reading.within_bind, Reading.result_bind,
      Reading.result_pure, Reading.within_pure, and_true, Option.isSome_map]
    rcases Nat.le_total SIZEOF_SADB_MSG msglen with large | small
    · rw [max_eq_right large]
      exact walk_iff aligned
    · have walk := (@walk_iff order mem msglen aligned).mpr (wellFormed_of_le small)
      refine iff_of_true ⟨walk.1, fun fuel => ?_⟩ (wellFormed_of_le small)
      exact (walk.2 fuel).mono fun k below => lt_of_lt_of_le below (le_max_right _ _)

end Message

/-- `print_sadb_msg` ends and stays inside the message just when the message does not pass its
checks, or the extensions are well formed. -/
theorem confined_iff (order : ByteOrder) (mem : Nat → Byte) (msglen : Nat) :
    Confined order mem msglen ↔ (Accepted order mem msglen → WellFormed order mem msglen) := by
  by_cases accepted : Accepted order mem msglen
  · rw [confined_iff_of_accepted accepted, imp_iff_right accepted]
  · exact iff_of_true (confined_of_rejected accepted) fun both => absurd both accepted

/-- A message of 24 bytes, with an extension whose length is 0. -/
def zeroLength : Nat → Byte
  | 0 => PF_KEY_V2
  | 4 => 3
  | _ => 0

/-- The walk does not get over the extension. -/
theorem not_confined_zeroLength :
    ¬ ∀ (order : ByteOrder) (mem : Nat → Byte) (msglen : Nat), Confined order mem msglen := by
  intro confined
  have accepted : Accepted .little zeroLength 24 := ⟨by decide +kernel, rfl⟩
  have wellFormed := (confined_iff_of_accepted accepted).mp (confined .little zeroLength 24)
  exact absurd (wellFormed 0 (by decide +kernel)).1 (by decide +kernel)

end NetPractice.KeyMessage
