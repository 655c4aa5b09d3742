import Mathlib.Data.List.Nodup
import Mathlib.Data.Nat.ModEq

/-!
# Rings

The slots of an array of fixed size, used one after the other, and from the last one on to
the first one.  A queue in a ring occupies the slots from the place where it is taken to
the place where it is filled.
-/

namespace NetPractice.Memory.Ring

/-- The slot behind a slot. -/
def advance (size slot : Nat) : Nat :=
  if size ≤ slot + 1 then 0 else slot + 1

/-- The slot that is `count` places behind another one, at most one round. -/
def slotAt (size first count : Nat) : Nat :=
  if first + count < size then first + count else first + count - size

/-- `count` slots from `first` on. -/
def slots (size first : Nat) : Nat → List Nat
  | 0 => []
  | count + 1 => slots size first count ++ [slotAt size first count]

variable {size first count : Nat}

theorem advance_lt (positive : 0 < size) (slot : Nat) : advance size slot < size := by
  unfold advance
  split <;> omega

theorem slotAt_lt (inside : first < size) (most : count ≤ size) :
    slotAt size first count < size := by
  unfold slotAt
  split <;> omega

@[simp]
theorem slotAt_zero (inside : first < size) : slotAt size first 0 = first :=
  if_pos inside

theorem advance_slotAt (inside : first < size) (more : count < size) :
    advance size (slotAt size first count) = slotAt size first (count + 1) := by
  unfold advance slotAt
  split <;> split <;> split <;> omega

theorem slotAt_advance (inside : first < size) (more : count < size) :
    slotAt size (advance size first) count = slotAt size first (count + 1) := by
  unfold advance slotAt
  split <;> split <;> split <;> omega

/-- Within one round, the slots are different. -/
theorem slotAt_ne {other : Nat} (less : other < count) (more : count < size) :
    slotAt size first other ≠ slotAt size first count := by
  unfold slotAt
  split <;> split <;> omega

@[simp]
theorem slots_zero : slots size first 0 = [] :=
  rfl

theorem slots_succ : slots size first (count + 1) =
    slots size first count ++ [slotAt size first count] :=
  rfl

@[simp]
theorem length_slots : (slots size first count).length = count := by
  induction count with
  | zero => rfl
  | succ count ih => rw [slots_succ, List.length_append, ih, List.length_singleton]

theorem mem_slots {slot : Nat} :
    slot ∈ slots size first count ↔ ∃ other < count, slot = slotAt size first other := by
  induction count with
  | zero => simp
  | succ count ih =>
      rw [slots_succ, List.mem_append, List.mem_singleton, ih]
      constructor
      · rintro (⟨other, less, equal⟩ | equal)
        · exact ⟨other, Nat.lt_succ_of_lt less, equal⟩
        · exact ⟨count, Nat.lt_succ_self count, equal⟩
      · rintro ⟨other, less, equal⟩
        rcases Nat.lt_succ_iff_lt_or_eq.mp less with before | rfl
        · exact Or.inl ⟨other, before, equal⟩
        · exact Or.inr equal

/-- A queue that does not fill the ring does not occupy the slot behind it. -/
theorem slotAt_not_mem_slots (more : count < size) :
    slotAt size first count ∉ slots size first count := by
  intro mem
  rcases mem_slots.mp mem with ⟨other, less, equal⟩
  exact slotAt_ne less more equal.symm

/-- The first slot and those from the next one on. -/
theorem slots_eq_cons (inside : first < size) (most : count < size) :
    slots size first (count + 1) = first :: slots size (advance size first) count := by
  induction count with
  | zero => rw [slots_succ, slotAt_zero inside]; rfl
  | succ count ih =>
      have less : count < size := Nat.lt_of_succ_lt most
      rw [slots_succ, ih less, slots_succ, slotAt_advance inside less]
      rfl

/-- `occupied` are the slots of a queue of `count` elements from `first` on, which is filled
next at `fill`. -/
structure Occupies (size first count fill : Nat) (occupied : List Nat) : Prop where
  occupied : occupied = slots size first count
  fill : fill = slotAt size first count

variable {fill : Nat} {occupied : List Nat}

theorem occupies_empty (inside : first < size) : Occupies size first 0 first [] where
  occupied := rfl
  fill := (slotAt_zero inside).symm

/-- The slot that is filled next is free. -/
theorem Occupies.free (occupies : Occupies size first count fill occupied) (more : count < size) :
    fill ∉ occupied := by
  rw [occupies.occupied, occupies.fill]
  exact slotAt_not_mem_slots more

/-- One more element. -/
theorem Occupies.push (occupies : Occupies size first count fill occupied) (inside : first < size)
    (more : count < size) :
    Occupies size first (count + 1) (advance size fill) (occupied ++ [fill]) where
  occupied := by rw [slots_succ, occupies.occupied, occupies.fill]
  fill := by rw [occupies.fill, advance_slotAt inside more]

/-- A queue begins with its first slot. -/
theorem Occupies.cons (occupies : Occupies size first (count + 1) fill occupied)
    (inside : first < size) (most : count < size) :
    occupied = first :: slots size (advance size first) count := by
  rw [occupies.occupied, slots_eq_cons inside most]

/-- Without its first element. -/
theorem Occupies.pop {rest : List Nat}
    (occupies : Occupies size first (count + 1) fill (first :: rest)) (inside : first < size)
    (most : count < size) : Occupies size (advance size first) count fill rest where
  occupied := (List.cons.inj (occupies.cons inside most)).2
  fill := occupies.fill.trans (slotAt_advance inside most).symm

/-! ## Elements by number

The elements that ever passed through the ring are numbered, and each one has the slot of
its number. -/

section Numbered

universe u

variable {V : Type u} {ring elements : List V} {last : Nat}

/-- The slots of consecutive numbers are consecutive. -/
theorem mod_advance (positive : 0 < size) (number : Nat) :
    (if number % size + 1 = size then 0 else number % size + 1) = (number + 1) % size := by
  have less := Nat.mod_lt number positive
  rw [Nat.add_mod_eq_ite]
  by_cases one : size = 1
  · subst one
    simp [Nat.mod_one]
  · rw [Nat.mod_eq_of_lt (show 1 < size by omega)]
    split <;> split <;> omega

/-- Numbers that are at most one round apart have the same slot only when they are equal or
a whole round apart. -/
theorem mod_eq_mod_iff (positive : 0 < size) (least : first ≤ last)
    (most : last ≤ first + size) :
    last % size = first % size ↔ last = first ∨ last = first + size := by
  constructor
  · intro same
    have multiple : size ∣ last - first := (Nat.modEq_iff_dvd' least).mp same.symm
    rcases multiple with ⟨rounds, rounds_eq⟩
    rcases rounds with _ | _ | rounds
    · left
      omega
    · right
      omega
    · have more : size * 2 ≤ size * (rounds + 1 + 1) := Nat.mul_le_mul_left size (by omega)
      omega
  · rintro (rfl | rfl)
    · rfl
    · exact Nat.add_mod_right first size

/-- The elements with the numbers from `first` up to, not including, `last` are in their
slots. -/
def Holds (size : Nat) (ring elements : List V) (first last : Nat) : Prop :=
  ∀ number, first ≤ number → number < last → ring[number % size]? = elements[number]?

theorem holds_empty (size : Nat) (ring elements : List V) (first : Nat) :
    Holds size ring elements first first := by
  intro number least less
  exact absurd less (Nat.not_lt.mpr least)

/-- An element is put into the slot of its number, which no element in the ring has. -/
theorem Holds.push {value : V} (holds : Holds size ring elements first last)
    (positive : 0 < size) (whole : ring.length = size) (room : last < first + size)
    (found : elements[last]? = some value) :
    Holds size (ring.set (last % size) value) elements first (last + 1) := by
  intro number least less
  by_cases newest : number = last
  · subst newest
    rw [List.getElem?_set_self (by rw [whole]; exact Nat.mod_lt _ positive)]
    exact found.symm
  · have before : number < last := by omega
    have other : last % size ≠ number % size := by
      intro same
      rcases (mod_eq_mod_iff positive (Nat.le_of_lt before) (by omega)).mp same with eq | eq
      · exact newest eq.symm
      · omega
    rw [List.getElem?_set_ne other]
    exact holds number least before

theorem Holds.pop (holds : Holds size ring elements first last) :
    Holds size ring elements (first + 1) last := by
  intro number least less
  exact holds number (Nat.le_of_succ_le least) less

/-- Later elements do not matter. -/
theorem Holds.append (holds : Holds size ring elements first last)
    (enough : last ≤ elements.length) (more : List V) :
    Holds size ring (elements ++ more) first last := by
  intro number least less
  rw [List.getElem?_append_left (Nat.lt_of_lt_of_le less enough)]
  exact holds number least less

end Numbered

end NetPractice.Memory.Ring
