import Mathlib.Data.List.Basic
import Mathlib.Data.List.Nodup
import Mathlib.Data.List.Perm.Subperm

/-!
# Singly linked lists in an arena

The nodes that were allocated so far are a list, and an address is a position
of it.  An allocation appends a node, so that addresses stay valid and a new
one differs from every old one.  `Visits` follows the `next` pointers from a
pointer to NULL.
-/

namespace NetPractice.Memory

universe u

/-- A node with its link. -/
structure Node (V : Type u) where
  val : V
  next : Option Nat
  deriving DecidableEq, Repr

/-- The allocated nodes. -/
abbrev Arena (V : Type u) := List (Node V)

variable {V : Type u}

namespace Arena

/-- The node behind a pointer, undefined for NULL. -/
def load (arena : Arena V) (pointer : Option Nat) : Option (Node V) :=
  pointer.bind fun address => arena[address]?

/-- The assignment to the contents of an allocated node. -/
def setVal (arena : Arena V) (address : Nat) (val : V) : Arena V :=
  arena.modify address fun node => { node with val := val }

/-- The assignment `address->next = link`. -/
def setNext (arena : Arena V) (address : Nat) (link : Option Nat) : Arena V :=
  arena.modify address fun node => { node with next := link }

@[simp]
theorem length_setVal (arena : Arena V) (address : Nat) (val : V) :
    (arena.setVal address val).length = arena.length := by
  simp [setVal]

@[simp]
theorem length_setNext (arena : Arena V) (address : Nat) (link : Option Nat) :
    (arena.setNext address link).length = arena.length := by
  simp [setNext]

theorem getElem?_setVal_self {arena : Arena V} {address : Nat} {node : Node V}
    (found : arena[address]? = some node) (val : V) :
    (arena.setVal address val)[address]? = some { node with val := val } := by
  simp [setVal, found]

theorem getElem?_setNext_self {arena : Arena V} {address : Nat} {node : Node V}
    (found : arena[address]? = some node) (link : Option Nat) :
    (arena.setNext address link)[address]? = some { node with next := link } := by
  simp [setNext, found]

theorem getElem?_setVal_of_ne {arena : Arena V} {address place : Nat} (ne : place ≠ address)
    (val : V) : (arena.setVal address val)[place]? = arena[place]? := by
  simp [setVal, ne.symm]

theorem getElem?_setNext_of_ne {arena : Arena V} {address place : Nat} (ne : place ≠ address)
    (link : Option Nat) : (arena.setNext address link)[place]? = arena[place]? := by
  simp [setNext, ne.symm]

end Arena

/-! ## Following the links -/

/-- The links lead from the pointer through these addresses, with these
contents, to NULL. -/
def Visits (arena : Arena V) : Option Nat → List (Nat × V) → Prop
  | pointer, [] => pointer = none
  | pointer, (address, val) :: rest =>
      pointer = some address ∧
        ∃ next, arena[address]? = some ⟨val, next⟩ ∧ Visits arena next rest

namespace Visits

variable {arena other : Arena V} {pointer : Option Nat} {entries : List (Nat × V)}

theorem nil (arena : Arena V) : Visits arena none [] :=
  rfl

theorem cons {address : Nat} {node : Node V} (found : arena[address]? = some node)
    (visits : Visits arena node.next entries) :
    Visits arena (some address) ((address, node.val) :: entries) :=
  ⟨rfl, node.next, found, visits⟩

/-- Every visited address is allocated. -/
theorem lt_length (visits : Visits arena pointer entries) {entry : Nat × V}
    (mem : entry ∈ entries) : entry.1 < arena.length := by
  induction entries generalizing pointer with
  | nil => cases mem
  | cons first rest ih =>
      rcases visits with ⟨-, next, found, visits⟩
      rcases List.mem_cons.mp mem with rfl | mem
      · exact (List.getElem?_eq_some_iff.mp found).1
      · exact ih visits mem

/-- Nodes that are not visited do not matter. -/
theorem congr (visits : Visits arena pointer entries)
    (agree : ∀ entry ∈ entries, other[entry.1]? = arena[entry.1]?) :
    Visits other pointer entries := by
  induction entries generalizing pointer with
  | nil => exact visits
  | cons first rest ih =>
      rcases visits with ⟨pointer_eq, next, found, visits⟩
      constructor
      · exact pointer_eq
      · refine ⟨next, (agree first List.mem_cons_self).trans found, ih visits ?_⟩
        intro entry mem
        exact agree entry (List.mem_cons_of_mem first mem)

/-- A pointer determines what is visited. -/
theorem unique {others : List (Nat × V)} (visits : Visits arena pointer entries)
    (again : Visits arena pointer others) : entries = others := by
  induction entries generalizing pointer others with
  | nil =>
      cases others with
      | nil => rfl
      | cons first rest => exact nomatch visits.symm.trans again.1
  | cons first rest ih =>
      cases others with
      | nil => exact nomatch again.symm.trans visits.1
      | cons second others =>
          rcases first with ⟨address, val⟩
          rcases second with ⟨place, content⟩
          rcases visits with ⟨pointer_eq, next, found, visits⟩
          rcases again with ⟨again_eq, link, foundAgain, again⟩
          cases pointer_eq.symm.trans again_eq
          cases found.symm.trans foundAgain
          rw [ih visits again]

/-- The part from a visited address on is visited from there. -/
theorem from_mem (visits : Visits arena pointer entries) {address : Nat}
    (mem : address ∈ entries.map Prod.fst) :
    ∃ suffix, Visits arena (some address) suffix ∧ suffix.length ≤ entries.length := by
  induction entries generalizing pointer with
  | nil => cases mem
  | cons first rest ih =>
      rcases List.mem_cons.mp mem with rfl | mem
      · refine ⟨first :: rest, ?_, Nat.le_refl _⟩
        rw [← visits.1]
        exact visits
      · rcases visits with ⟨-, next, -, visits⟩
        rcases ih visits mem with ⟨suffix, visits, le⟩
        exact ⟨suffix, visits, Nat.le_succ_of_le le⟩

/-- A list that ends visits no node twice. -/
theorem nodup (visits : Visits arena pointer entries) :
    (entries.map Prod.fst).Nodup := by
  induction entries generalizing pointer with
  | nil => exact List.nodup_nil
  | cons first rest ih =>
      have whole := visits
      rcases visits with ⟨pointer_eq, next, -, visits⟩
      rw [pointer_eq] at whole
      refine List.nodup_cons.mpr ⟨fun mem => ?_, ih visits⟩
      -- The address leads to the whole list and to a part behind it.
      rcases visits.from_mem mem with ⟨suffix, again, le⟩
      rw [← whole.unique again] at le
      exact Nat.not_succ_le_self _ le

theorem length_le (visits : Visits arena pointer entries) :
    entries.length ≤ arena.length := by
  have subset : entries.map Prod.fst ⊆ List.range arena.length := by
    intro address mem
    rcases List.mem_map.mp mem with ⟨entry, member, rfl⟩
    exact List.mem_range.mpr (visits.lt_length member)
  simpa using (visits.nodup.subperm subset).length_le

/-- An allocation leaves the list as it is. -/
theorem alloc (visits : Visits arena pointer entries) (node : Node V) :
    Visits (arena ++ [node]) pointer entries := by
  apply visits.congr
  intro entry mem
  exact List.getElem?_append_left (visits.lt_length mem)

/-- A new node behind the last one. -/
theorem append_last {address : Nat} {val : V} {front : List (Nat × V)}
    (visits : Visits arena pointer (front ++ [(address, val)])) (added : V) :
    Visits (Arena.setNext (arena ++ [⟨added, none⟩]) address (some arena.length)) pointer
      (front ++ [(address, val), (arena.length, added)]) := by
  induction front generalizing pointer with
  | nil =>
      rcases visits with ⟨rfl, next, found, rfl⟩
      have below : address < arena.length := (List.getElem?_eq_some_iff.mp found).1
      have stays : (arena ++ [⟨added, none⟩])[address]? = some ⟨val, none⟩ :=
        (List.getElem?_append_left below).trans found
      refine ⟨rfl, some arena.length, Arena.getElem?_setNext_self stays _, rfl, none, ?_, rfl⟩
      rw [Arena.getElem?_setNext_of_ne (Nat.ne_of_gt below), List.getElem?_concat_length]
  | cons first rest ih =>
      have distinct := visits.nodup
      rcases visits with ⟨rfl, next, found, visits⟩
      have ne : first.1 ≠ address := by
        rintro rfl
        simp at distinct
      refine ⟨rfl, next, ?_, ih visits⟩
      rw [Arena.getElem?_setNext_of_ne ne]
      exact (List.getElem?_append_left (List.getElem?_eq_some_iff.mp found).1).trans found

end Visits

end NetPractice.Memory
