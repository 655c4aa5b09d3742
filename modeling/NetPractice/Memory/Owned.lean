import NetPractice.Memory.Chain
import Mathlib.Algebra.Group.Nat.Defs
import Mathlib.Algebra.Ring.Nat

/-!
# Lists that hold every node of their arena

Nothing is lost of an arena when a list visits all of its nodes: who follows the links frees
each of them, and frees it once.  An assignment to the contents of a node and an insertion
behind one keep it so.
-/

namespace NetPractice.Memory

universe u

variable {V : Type u} {arena : Arena V} {pointer : Option Nat} {entries : List (Nat × V)}

/-! ## The contents of an arena -/

namespace Arena

/-- The contents of the nodes, in the order of their allocation. -/
def vals (arena : Arena V) : List V :=
  arena.map Node.val

@[simp]
theorem length_vals (arena : Arena V) : (vals arena).length = arena.length :=
  List.length_map _

@[simp]
theorem vals_append (arena : Arena V) (node : Node V) :
    vals (arena ++ [node]) = vals arena ++ [node.val] := by
  simp [vals]

@[simp]
theorem vals_setNext (arena : Arena V) (address : Nat) (link : Option Nat) :
    vals (arena.setNext address link) = vals arena := by
  induction arena generalizing address with
  | nil => simp [setNext]
  | cons node rest ih =>
      cases address with
      | zero => rfl
      | succ address => exact congrArg (node.val :: ·) (ih address)

theorem vals_setVal (arena : Arena V) (address : Nat) (val : V) :
    vals (arena.setVal address val) = (vals arena).set address val := by
  induction arena generalizing address with
  | nil => simp [setVal, vals]
  | cons node rest ih =>
      cases address with
      | zero => rfl
      | succ address => exact congrArg (node.val :: ·) (ih address)

theorem getElem?_vals {address : Nat} {node : Node V} (found : arena[address]? = some node) :
    (vals arena)[address]? = some node.val := by
  simp [vals, found]

end Arena

/-- The contents are those of all addresses. -/
theorem filterMap_getElem?_range {α : Type*} (values : List α) :
    (List.range values.length).filterMap (fun place => values[place]?) = values := by
  induction values with
  | nil => rfl
  | cons value rest ih =>
      simp only [List.length_cons, List.range_succ_eq_map, List.filterMap_cons,
        List.getElem?_cons_zero, List.filterMap_map, Function.comp_def, Nat.succ_eq_add_one,
        List.getElem?_cons_succ]
      rw [ih]

/-- One summand is exchanged for another. -/
theorem sum_set {values : List Nat} {place old : Nat} (found : values[place]? = some old)
    (new : Nat) : (values.set place new).sum + old = values.sum + new := by
  induction values generalizing place with
  | nil => cases found
  | cons value rest ih =>
      cases place with
      | zero =>
          cases found
          simp only [List.set_cons_zero, List.sum_cons]
          omega
      | succ place =>
          have here : rest[place]? = some old := by simpa using found
          have behind := ih here
          simp only [List.set_cons_succ, List.sum_cons]
          omega

/-! ## Lists of all nodes -/

namespace Visits

/-- As many nodes as there are in the arena are all of them. -/
theorem addresses_perm (visits : Visits arena pointer entries)
    (all : entries.length = arena.length) :
    (entries.map Prod.fst).Perm (List.range arena.length) := by
  have subset : entries.map Prod.fst ⊆ List.range arena.length := by
    intro place mem
    rcases List.mem_map.mp mem with ⟨entry, member, rfl⟩
    exact List.mem_range.mpr (visits.lt_length member)
  exact (visits.nodup.subperm subset).perm_of_length_le (by simp [all])

theorem mem_of_lt (visits : Visits arena pointer entries)
    (all : entries.length = arena.length) {address : Nat} (lt : address < arena.length) :
    address ∈ entries.map Prod.fst :=
  (visits.addresses_perm all).mem_iff.mpr (List.mem_range.mpr lt)

/-- The contents stand in the arena. -/
theorem filterMap_vals (visits : Visits arena pointer entries) :
    (entries.map Prod.fst).filterMap (fun address => (Arena.vals arena)[address]?) =
      entries.map Prod.snd := by
  induction entries generalizing pointer with
  | nil => rfl
  | cons first rest ih =>
      rcases visits with ⟨-, next, found, visits⟩
      rw [List.map_cons, List.filterMap_cons_some (Arena.getElem?_vals found), ih visits]
      rfl

/-- What is visited are the contents of the arena. -/
theorem vals_perm (visits : Visits arena pointer entries)
    (all : entries.length = arena.length) :
    (entries.map Prod.snd).Perm (Arena.vals arena) := by
  have perm := (visits.addresses_perm all).filterMap fun address =>
    (Arena.vals arena)[address]?
  rw [visits.filterMap_vals] at perm
  have whole := filterMap_getElem?_range (Arena.vals arena)
  rw [Arena.length_vals] at whole
  rwa [whole] at perm

/-- An assignment to the contents of a node. -/
theorem setVal (visits : Visits arena pointer entries) (address : Nat) (val : V) :
    Visits (arena.setVal address val) pointer
      (entries.map fun entry => if entry.1 = address then (entry.1, val) else entry) := by
  induction entries generalizing pointer with
  | nil => exact visits
  | cons first rest ih =>
      rcases visits with ⟨rfl, next, found, visits⟩
      by_cases here : first.1 = address
      · rw [List.map_cons, if_pos here]
        refine ⟨rfl, next, ?_, ih visits⟩
        rw [here] at found ⊢
        exact Arena.getElem?_setVal_self found val
      · rw [List.map_cons, if_neg here]
        refine ⟨rfl, next, ?_, ih visits⟩
        exact (Arena.getElem?_setVal_of_ne here val).trans found

/-- A node that was allocated and linked behind another one. -/
theorem insert (visits : Visits arena pointer entries) {node : Node V} {address : Nat}
    (found : arena[address]? = some node) (added : V) (mem : address ∈ entries.map Prod.fst) :
    ∃ others, Visits (Arena.setNext (arena ++ [⟨added, node.next⟩]) address (some arena.length))
        pointer others ∧ others.length = entries.length + 1 := by
  have below : address < arena.length := (List.getElem?_eq_some_iff.mp found).1
  have stays : ∀ place < arena.length, place ≠ address →
      (Arena.setNext (arena ++ [⟨added, node.next⟩]) address (some arena.length))[place]? =
        arena[place]? := by
    intro place lt ne
    rw [Arena.getElem?_setNext_of_ne ne]
    exact List.getElem?_append_left lt
  induction entries generalizing pointer with
  | nil => cases mem
  | cons first rest ih =>
      have distinct := visits.nodup
      have bounded : ∀ entry ∈ rest, entry.1 < arena.length := fun entry member =>
        visits.lt_length (List.mem_cons_of_mem _ member)
      rcases first with ⟨place, val⟩
      rcases visits with ⟨rfl, next, here, visits⟩
      by_cases same : place = address
      · subst same
        cases found.symm.trans here
        have fresh : place ∉ rest.map Prod.fst := (List.nodup_cons.mp distinct).1
        have behind : Visits (Arena.setNext (arena ++ [⟨added, next⟩]) place (some arena.length))
            next rest := by
          apply visits.congr
          intro entry member
          refine stays _ (bounded entry member) fun equal => fresh ?_
          rw [← equal]
          exact List.mem_map_of_mem member
        refine ⟨(place, val) :: (arena.length, added) :: rest, ⟨rfl, _, ?_, rfl, next, ?_, behind⟩,
          rfl⟩
        · exact Arena.getElem?_setNext_self ((List.getElem?_append_left below).trans here) _
        · rw [Arena.getElem?_setNext_of_ne (Nat.ne_of_gt below), List.getElem?_concat_length]
      · have later : address ∈ rest.map Prod.fst :=
          (List.mem_cons.mp mem).resolve_left (Ne.symm same)
        rcases ih visits later with ⟨others, visits, length_eq⟩
        have lt : place < arena.length := (List.getElem?_eq_some_iff.mp here).1
        refine ⟨(place, val) :: others, ⟨rfl, next, (stays place lt same).trans here, visits⟩, ?_⟩
        rw [List.length_cons, length_eq, List.length_cons]

end Visits

/-- The list holds all nodes. -/
def Owns (arena : Arena V) (pointer : Option Nat) : Prop :=
  ∃ entries, Visits arena pointer entries ∧ entries.length = arena.length

namespace Owns

theorem setVal (owns : Owns arena pointer) (address : Nat) (val : V) :
    Owns (arena.setVal address val) pointer := by
  rcases owns with ⟨entries, visits, all⟩
  exact ⟨_, visits.setVal address val, by rw [List.length_map, all, Arena.length_setVal]⟩

theorem insert (owns : Owns arena pointer) {node : Node V} {address : Nat}
    (found : arena[address]? = some node) (added : V) :
    Owns (Arena.setNext (arena ++ [⟨added, node.next⟩]) address (some arena.length)) pointer := by
  rcases owns with ⟨entries, visits, all⟩
  have mem := visits.mem_of_lt all (List.getElem?_eq_some_iff.mp found).1
  rcases visits.insert found added mem with ⟨others, visits, length_eq⟩
  refine ⟨others, visits, ?_⟩
  rw [length_eq, all, Arena.length_setNext, List.length_append, List.length_singleton]

/-- The list is empty when nothing was allocated. -/
theorem eq_none_iff (owns : Owns arena pointer) : pointer = none ↔ Arena.vals arena = [] := by
  rcases owns with ⟨entries, visits, all⟩
  rw [← List.length_eq_zero_iff, Arena.length_vals, ← all]
  cases entries with
  | nil => exact ⟨fun _ => rfl, fun _ => visits⟩
  | cons first rest =>
      constructor
      · rintro rfl
        cases visits.1
      · intro empty
        cases empty

end Owns

end NetPractice.Memory
