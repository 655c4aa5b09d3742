import Mathlib.Data.List.Basic
import Mathlib.Logic.Function.Basic

/-!
# Doubly linked lists in a heap

A heap is a partial map from addresses to cells.  A cell carries a datum and
the two pointers of a doubly linked list; `none` is the null pointer.  Reading
or writing through a null or dangling pointer is undefined.

`Segment heap before cells after` says that the addresses `cells` are linked in
this order, between the neighbours `before` and `after`.  Segments split and
join at every position, and survive every write outside of them, so that a
pointer program is followed one assignment at a time.
-/

namespace NetPractice.Memory

universe u

/-- A list cell: its datum and its two links. -/
structure Cell (A : Type u) (V : Type u) where
  val : V
  prev : Option A
  next : Option A
  deriving DecidableEq, Repr

/-- Allocated cells by address. -/
abbrev Heap (A : Type u) (V : Type u) := A → Option (Cell A V)

variable {A : Type u} {V : Type u}

namespace Heap

variable [DecidableEq A]

/-- Read the cell behind a pointer. -/
def load (heap : Heap A V) (pointer : Option A) : Option (Cell A V) :=
  pointer.bind heap

/-- Overwrite the cell behind a pointer. -/
def modify (heap : Heap A V) (pointer : Option A) (change : Cell A V → Cell A V) :
    Option (Heap A V) := do
  let address ← pointer
  let cell ← heap address
  pure (Function.update heap address (some (change cell)))

/-- The assignment `pointer->next = link`. -/
def setNext (heap : Heap A V) (pointer link : Option A) : Option (Heap A V) :=
  heap.modify pointer fun cell => { cell with next := link }

/-- The assignment `pointer->prev = link`. -/
def setPrev (heap : Heap A V) (pointer link : Option A) : Option (Heap A V) :=
  heap.modify pointer fun cell => { cell with prev := link }

/-- Release the cell behind a pointer. -/
def free (heap : Heap A V) (pointer : Option A) : Option (Heap A V) := do
  let address ← pointer
  let _ ← heap address
  pure (Function.update heap address none)

/-- The data in the heap, without the links. -/
def data (heap : Heap A V) (address : A) : Option V :=
  (heap address).map Cell.val

omit [DecidableEq A] in
@[simp]
theorem load_some (heap : Heap A V) (address : A) :
    heap.load (some address) = heap address :=
  rfl

omit [DecidableEq A] in
/-- `other` is `heap` with `cell` written at `address`. -/
structure Wrote (heap other : Heap A V) (address : A) (cell : Cell A V) : Prop where
  here : other address = some cell
  elsewhere : ∀ place, place ≠ address → other place = heap place

theorem modify_eq {heap : Heap A V} {address : A} {cell : Cell A V}
    (found : heap address = some cell) (change : Cell A V → Cell A V) :
    ∃ other, heap.modify (some address) change = some other ∧
      Wrote heap other address (change cell) :=
  ⟨Function.update heap address (some (change cell)), by simp [modify, found],
    Function.update_self _ _ _, fun _ different => Function.update_of_ne different _ _⟩

theorem setNext_eq {heap : Heap A V} {address : A} {cell : Cell A V}
    (found : heap address = some cell) (link : Option A) :
    ∃ other, heap.setNext (some address) link = some other ∧
      Wrote heap other address { cell with next := link } :=
  modify_eq found fun cell => { cell with next := link }

theorem setPrev_eq {heap : Heap A V} {address : A} {cell : Cell A V}
    (found : heap address = some cell) (link : Option A) :
    ∃ other, heap.setPrev (some address) link = some other ∧
      Wrote heap other address { cell with prev := link } :=
  modify_eq found fun cell => { cell with prev := link }

theorem free_eq {heap : Heap A V} {address : A} {cell : Cell A V}
    (found : heap address = some cell) :
    heap.free (some address) = some (Function.update heap address none) := by
  simp [free, found]

omit [DecidableEq A] in
/-- Writing a cell with the datum it had changes links only. -/
theorem Wrote.data_eq {heap other : Heap A V} {address : A} {cell old : Cell A V}
    (wrote : Wrote heap other address cell) (found : heap address = some old)
    (val_eq : cell.val = old.val) : other.data = heap.data := by
  funext place
  by_cases place_eq : place = address
  · subst place
    simp [data, found, wrote.here, val_eq]
  · simp [data, wrote.elsewhere place place_eq]

theorem Wrote.data_update {heap other : Heap A V} {address : A} {cell : Cell A V}
    (wrote : Wrote heap other address cell) :
    other.data = Function.update heap.data address (some cell.val) := by
  funext place
  by_cases place_eq : place = address
  · subst place
    simp [data, wrote.here]
  · simp [data, wrote.elsewhere place place_eq, Function.update_of_ne place_eq]

theorem data_update_none (heap : Heap A V) (address : A) :
    data (Function.update heap address none) = Function.update (data heap) address none := by
  funext place
  by_cases place_eq : place = address
  · subst place
    simp [data]
  · simp [data, Function.update_of_ne place_eq]

omit [DecidableEq A] in
theorem exists_cell_of_data {heap : Heap A V} {address : A} {val : V}
    (found : heap.data address = some val) :
    ∃ cell, heap address = some cell ∧ cell.val = val := by
  simpa [data] using found

end Heap

/-! ## Linked segments -/

/-- The addresses `cells` are linked in order from `before` to `after`. -/
def Segment (heap : Heap A V) : Option A → List A → Option A → Prop
  | _, [], _ => True
  | before, address :: rest, after =>
      (∃ cell, heap address = some cell ∧ cell.prev = before ∧
        cell.next = rest.head?.or after) ∧
      Segment heap (some address) rest after

@[simp]
theorem segment_nil (heap : Heap A V) (before after : Option A) :
    Segment heap before [] after :=
  trivial

theorem segment_cons (heap : Heap A V) (before after : Option A) (address : A)
    (rest : List A) :
    Segment heap before (address :: rest) after ↔
      (∃ cell, heap address = some cell ∧ cell.prev = before ∧
        cell.next = rest.head?.or after) ∧
      Segment heap (some address) rest after :=
  Iff.rfl

theorem segment_singleton (heap : Heap A V) (before after : Option A) (address : A) :
    Segment heap before [address] after ↔
      ∃ cell, heap address = some cell ∧ cell.prev = before ∧ cell.next = after := by
  simp [segment_cons]

/-- A segment is cut at any position into two segments that point at each
other. -/
theorem segment_append (heap : Heap A V) (before after : Option A) (first second : List A) :
    Segment heap before (first ++ second) after ↔
      Segment heap before first (second.head?.or after) ∧
        Segment heap (first.getLast?.or before) second after := by
  induction first generalizing before with
  | nil => simp
  | cons address first ih =>
      rw [List.cons_append, segment_cons, segment_cons, ih]
      have last_eq : (address :: first).getLast?.or before =
          first.getLast?.or (some address) := by
        cases first <;> simp [List.getLast?_cons]
      rw [last_eq, List.head?_append, Option.or_assoc, and_assoc]

/-- Every address of a segment is allocated. -/
theorem Segment.exists_cell {heap : Heap A V} {before after : Option A}
    {cells : List A} (segment : Segment heap before cells after) {address : A}
    (mem : address ∈ cells) : ∃ cell, heap address = some cell := by
  induction cells generalizing before with
  | nil => simp at mem
  | cons first rest ih =>
      rcases List.mem_cons.mp mem with rfl | mem
      · obtain ⟨⟨cell, found, _⟩, _⟩ := segment
        exact ⟨cell, found⟩
      · exact ih segment.2 mem

/-- A segment depends only on the cells at its own addresses. -/
theorem Segment.congr {heap other : Heap A V} {before after : Option A}
    {cells : List A} (segment : Segment heap before cells after)
    (agree : ∀ address ∈ cells, other address = heap address) :
    Segment other before cells after := by
  induction cells generalizing before with
  | nil => trivial
  | cons first rest ih =>
      obtain ⟨⟨cell, found, links⟩, tail⟩ := segment
      refine ⟨⟨cell, ?_, links⟩, ih tail fun address mem =>
        agree address (List.mem_cons_of_mem first mem)⟩
      rw [agree first List.mem_cons_self, found]

/-- A segment depends only on the links of its cells. -/
theorem Segment.congr_links {heap other : Heap A V} {before after : Option A}
    {cells : List A} (segment : Segment heap before cells after)
    (agree : ∀ address ∈ cells, ∀ cell, heap address = some cell →
      ∃ same, other address = some same ∧ same.prev = cell.prev ∧ same.next = cell.next) :
    Segment other before cells after := by
  induction cells generalizing before with
  | nil => trivial
  | cons first rest ih =>
      obtain ⟨⟨cell, found, prev_eq, next_eq⟩, tail⟩ := segment
      obtain ⟨same, sameFound, same_prev, same_next⟩ := agree first List.mem_cons_self cell found
      exact ⟨⟨same, sameFound, same_prev.trans prev_eq, same_next.trans next_eq⟩,
        ih tail fun address mem => agree address (List.mem_cons_of_mem first mem)⟩

/-- Overwriting a datum keeps every segment. -/
theorem Segment.wrote_val {heap other : Heap A V} {before after : Option A}
    {cells : List A} {address : A} {cell : Cell A V} {val : V}
    (segment : Segment heap before cells after) (found : heap address = some cell)
    (wrote : heap.Wrote other address { cell with val := val }) :
    Segment other before cells after := by
  refine segment.congr_links fun place _ old oldFound => ?_
  by_cases place_eq : place = address
  · subst place
    obtain rfl : cell = old := Option.some.inj (found.symm.trans oldFound)
    exact ⟨_, wrote.here, rfl, rfl⟩
  · exact ⟨old, (wrote.elsewhere place place_eq).trans oldFound, rfl, rfl⟩

/-- A write outside of a segment keeps it. -/
theorem Segment.frame {heap other : Heap A V} {before after : Option A}
    {cells : List A} {address : A} {cell : Cell A V}
    (segment : Segment heap before cells after)
    (wrote : heap.Wrote other address cell) (outside : address ∉ cells) :
    Segment other before cells after :=
  segment.congr fun place mem =>
    wrote.elsewhere place (by rintro rfl; exact outside mem)

/-- Redirecting the first cell's `prev` link moves the segment behind another
neighbour. -/
theorem Segment.setPrev_first {heap other : Heap A V} {before after link : Option A}
    {first : A} {rest : List A} {cell : Cell A V}
    (segment : Segment heap before (first :: rest) after)
    (found : heap first = some cell)
    (wrote : heap.Wrote other first { cell with prev := link })
    (outside : first ∉ rest) : Segment other link (first :: rest) after := by
  obtain ⟨⟨old, oldFound, _, next_eq⟩, tail⟩ := segment
  obtain rfl : cell = old := Option.some.inj (found.symm.trans oldFound)
  exact ⟨⟨_, wrote.here, rfl, next_eq⟩, tail.frame wrote outside⟩

/-- Redirecting the last cell's `next` link moves the segment in front of
another neighbour. -/
theorem Segment.setNext_last {heap other : Heap A V} {before after link : Option A}
    {last : A} {front : List A} {cell : Cell A V}
    (segment : Segment heap before (front ++ [last]) after)
    (found : heap last = some cell)
    (wrote : heap.Wrote other last { cell with next := link })
    (outside : last ∉ front) : Segment other before (front ++ [last]) link := by
  rw [segment_append, segment_singleton] at segment ⊢
  obtain ⟨start, old, oldFound, prev_eq, _⟩ := segment
  obtain rfl : cell = old := Option.some.inj (found.symm.trans oldFound)
  exact ⟨start.frame wrote outside, _, wrote.here, prev_eq, rfl⟩

/-- A segment is cut behind any of its cells. -/
theorem segment_split (heap : Heap A V) (before after : Option A) (front rest : List A)
    (address : A) :
    Segment heap before (front ++ address :: rest) after ↔
      Segment heap before (front ++ [address]) (rest.head?.or after) ∧
        Segment heap (some address) rest after := by
  rw [List.append_cons, segment_append]
  simp

/-- The links stored at a cell of a segment. -/
theorem Segment.links_eq {heap : Heap A V} {before after : Option A} {front rest : List A}
    {address : A} {cell : Cell A V}
    (segment : Segment heap before (front ++ address :: rest) after)
    (found : heap address = some cell) :
    cell.prev = front.getLast?.or before ∧ cell.next = rest.head?.or after := by
  obtain ⟨-, ⟨other, otherFound, prev_eq, next_eq⟩, -⟩ :=
    (segment_append _ _ _ _ _).mp segment
  obtain rfl : cell = other := Option.some.inj (found.symm.trans otherFound)
  exact ⟨prev_eq, next_eq⟩

/-- Following `next` from one address to NULL gives one list of cells. -/
theorem Segment.unique {heap : Heap A V} {before earlier : Option A} {cells others : List A}
    (segment : Segment heap before cells none) (again : Segment heap earlier others none)
    (first_eq : cells.head? = others.head?) : cells = others := by
  induction cells generalizing before earlier others with
  | nil => exact (List.head?_eq_none_iff.mp first_eq.symm).symm
  | cons address rest ih =>
      cases others with
      | nil => cases first_eq
      | cons other others =>
          cases first_eq
          rcases segment with ⟨⟨cell, found, -, next_eq⟩, tail⟩
          rcases again with ⟨⟨same, sameFound, -, same_next⟩, sameTail⟩
          cases found.symm.trans sameFound
          rw [Option.or_none] at next_eq same_next
          rw [ih tail sameTail (next_eq.symm.trans same_next)]

/-! ## Pointer programs on segments -/

variable [DecidableEq A]

/-- Releasing a cell outside of a segment keeps it. -/
theorem Segment.free {heap : Heap A V} {before after : Option A} {cells : List A}
    {address : A} (segment : Segment heap before cells after) (outside : address ∉ cells) :
    Segment (Function.update heap address none) before cells after :=
  segment.congr fun _ mem =>
    Function.update_of_ne (by rintro rfl; exact outside mem) _ _

/-- Linking a cell between two neighbours, with the assignments `left->next`,
`cell->next`, `right->prev` and `cell->prev`. -/
theorem Segment.insert_middle {heap : Heap A V} {before after : Option A}
    {front rest : List A} {left address right : A} {cell : Cell A V}
    (segment : Segment heap before (front ++ left :: right :: rest) after)
    (nodup : (front ++ left :: right :: rest).Nodup)
    (fresh : address ∉ front ++ left :: right :: rest)
    (found : heap address = some cell) :
    ∃ first second third fourth,
      heap.setNext (some left) (some address) = some first ∧
      first.setNext (some address) (some right) = some second ∧
      second.setPrev (some right) (some address) = some third ∧
      third.setPrev (some address) (some left) = some fourth ∧
      fourth.data = heap.data ∧
      Segment fourth before (front ++ left :: address :: right :: rest) after := by
  obtain ⟨leftSegment, rightSegment⟩ := (segment_split _ _ _ _ _ _).mp segment
  obtain ⟨leftCell, leftFound⟩ := segment.exists_cell (by simp : left ∈ _)
  obtain ⟨rightCell, rightFound⟩ := segment.exists_cell (by simp : right ∈ _)
  have leftOut : left ∉ front ∧ left ≠ right ∧ left ∉ right :: rest := by grind
  have rightOut : right ∉ front ++ [left] ∧ right ∉ rest := by grind
  have freshOut : address ≠ left ∧ address ≠ right ∧ address ∉ front ++ [left] ∧
      address ∉ right :: rest := by grind
  obtain ⟨first, firstEq, firstWrote⟩ := Heap.setNext_eq leftFound (some address)
  have firstFound := (firstWrote.elsewhere address freshOut.1).trans found
  obtain ⟨second, secondEq, secondWrote⟩ := Heap.setNext_eq firstFound (some right)
  have secondFound := (secondWrote.elsewhere right freshOut.2.1.symm).trans
    ((firstWrote.elsewhere right leftOut.2.1.symm).trans rightFound)
  obtain ⟨third, thirdEq, thirdWrote⟩ := Heap.setPrev_eq secondFound (some address)
  have thirdFound := (thirdWrote.elsewhere address freshOut.2.1).trans secondWrote.here
  obtain ⟨fourth, fourthEq, fourthWrote⟩ := Heap.setPrev_eq thirdFound (some left)
  refine ⟨first, second, third, fourth, firstEq, secondEq, thirdEq, fourthEq, ?_, ?_⟩
  · rw [fourthWrote.data_eq thirdFound rfl, thirdWrote.data_eq secondFound rfl,
      secondWrote.data_eq firstFound rfl, firstWrote.data_eq leftFound rfl]
  · have leftDone : Segment fourth before (front ++ [left]) (some address) :=
      (((leftSegment.setNext_last leftFound firstWrote leftOut.1).frame secondWrote
        freshOut.2.2.1).frame thirdWrote rightOut.1).frame fourthWrote freshOut.2.2.1
    have rightDone : Segment fourth (some address) (right :: rest) after :=
      ((((rightSegment.frame firstWrote leftOut.2.2).frame secondWrote
        freshOut.2.2.2).setPrev_first secondFound thirdWrote rightOut.2)).frame fourthWrote
          freshOut.2.2.2
    exact (segment_split _ _ _ _ _ _).mpr
      ⟨leftDone, ⟨_, fourthWrote.here, rfl, rfl⟩, rightDone⟩

/-- Linking a cell behind the last one, with the assignments `left->next`,
`cell->prev` and `cell->next`. -/
theorem Segment.insert_last {heap : Heap A V} {before after : Option A}
    {front : List A} {left address : A} {cell : Cell A V}
    (segment : Segment heap before (front ++ [left]) after)
    (outside : left ∉ front) (fresh : address ∉ front ++ [left])
    (found : heap address = some cell) (link : Option A) :
    ∃ first second third,
      heap.setNext (some left) (some address) = some first ∧
      first.setPrev (some address) (some left) = some second ∧
      second.setNext (some address) link = some third ∧
      third.data = heap.data ∧
      Segment third before (front ++ [left, address]) link := by
  obtain ⟨leftCell, leftFound⟩ := segment.exists_cell (by simp : left ∈ _)
  have freshLeft : address ≠ left := by grind
  obtain ⟨first, firstEq, firstWrote⟩ := Heap.setNext_eq leftFound (some address)
  have firstFound := (firstWrote.elsewhere address freshLeft).trans found
  obtain ⟨second, secondEq, secondWrote⟩ := Heap.setPrev_eq firstFound (some left)
  obtain ⟨third, thirdEq, thirdWrote⟩ := Heap.setNext_eq secondWrote.here link
  refine ⟨first, second, third, firstEq, secondEq, thirdEq, ?_, ?_⟩
  · rw [thirdWrote.data_eq secondWrote.here rfl, secondWrote.data_eq firstFound rfl,
      firstWrote.data_eq leftFound rfl]
  · have leftDone : Segment third before (front ++ [left]) (some address) :=
      ((segment.setNext_last leftFound firstWrote outside).frame secondWrote fresh).frame
        thirdWrote fresh
    rw [segment_split]
    exact ⟨leftDone, (segment_singleton _ _ _ _).mpr ⟨_, thirdWrote.here, rfl, rfl⟩⟩

/-- Linking a cell in front of the first one, with the assignments
`cell->next` and `first->prev`. -/
theorem Segment.insert_first {heap : Heap A V} {before after : Option A}
    {right address : A} {rest : List A} {cell : Cell A V}
    (segment : Segment heap before (right :: rest) after)
    (outside : right ∉ rest) (fresh : address ∉ right :: rest)
    (found : heap address = some cell) (prev_eq : cell.prev = before) :
    ∃ first second,
      heap.setNext (some address) (some right) = some first ∧
      first.setPrev (some right) (some address) = some second ∧
      second.data = heap.data ∧
      Segment second before (address :: right :: rest) after := by
  obtain ⟨rightCell, rightFound⟩ := segment.exists_cell (by simp : right ∈ _)
  have freshRight : address ≠ right := by grind
  obtain ⟨first, firstEq, firstWrote⟩ := Heap.setNext_eq found (some right)
  have firstFound := (firstWrote.elsewhere right freshRight.symm).trans rightFound
  obtain ⟨second, secondEq, secondWrote⟩ := Heap.setPrev_eq firstFound (some address)
  have addressFound := (secondWrote.elsewhere address freshRight).trans firstWrote.here
  refine ⟨first, second, firstEq, secondEq, ?_, ?_⟩
  · rw [secondWrote.data_eq firstFound rfl, firstWrote.data_eq found rfl]
  · exact ⟨⟨_, addressFound, prev_eq, rfl⟩,
      (segment.frame firstWrote fresh).setPrev_first firstFound secondWrote outside⟩

/-- Unlinking a cell between two neighbours, with the assignments
`left->next` and `right->prev`. -/
theorem Segment.unlink_middle {heap : Heap A V} {before after : Option A}
    {front rest : List A} {left address right : A}
    (segment : Segment heap before (front ++ left :: address :: right :: rest) after)
    (nodup : (front ++ left :: address :: right :: rest).Nodup) :
    ∃ first second,
      heap.setNext (some left) (some right) = some first ∧
      first.setPrev (some right) (some left) = some second ∧
      second.data = heap.data ∧ second address = heap address ∧
      Segment second before (front ++ left :: right :: rest) after := by
  obtain ⟨leftSegment, -, rightSegment⟩ := (segment_split _ _ _ _ _ _).mp segment
  obtain ⟨leftCell, leftFound⟩ := segment.exists_cell (by simp : left ∈ _)
  obtain ⟨rightCell, rightFound⟩ := segment.exists_cell (by simp : right ∈ _)
  have leftOut : left ∉ front ∧ left ≠ right ∧ left ∉ right :: rest ∧ address ≠ left := by
    grind
  have rightOut : right ∉ front ++ [left] ∧ right ∉ rest ∧ address ≠ right := by grind
  obtain ⟨first, firstEq, firstWrote⟩ := Heap.setNext_eq leftFound (some right)
  have firstFound := (firstWrote.elsewhere right leftOut.2.1.symm).trans rightFound
  obtain ⟨second, secondEq, secondWrote⟩ := Heap.setPrev_eq firstFound (some left)
  refine ⟨first, second, firstEq, secondEq, ?_, ?_, ?_⟩
  · rw [secondWrote.data_eq firstFound rfl, firstWrote.data_eq leftFound rfl]
  · rw [secondWrote.elsewhere address rightOut.2.2, firstWrote.elsewhere address leftOut.2.2.2]
  · exact (segment_split _ _ _ _ _ _).mpr
      ⟨(leftSegment.setNext_last leftFound firstWrote leftOut.1).frame secondWrote rightOut.1,
        (rightSegment.frame firstWrote leftOut.2.2.1).setPrev_first firstFound secondWrote
          rightOut.2.1⟩

/-- Unlinking the first cell, with the assignment `right->prev`. -/
theorem Segment.unlink_first {heap : Heap A V} {before after : Option A}
    {address right : A} {rest : List A}
    (segment : Segment heap before (address :: right :: rest) after)
    (nodup : (address :: right :: rest).Nodup) (link : Option A) :
    ∃ first, heap.setPrev (some right) link = some first ∧ first.data = heap.data ∧
      first address = heap address ∧ Segment first link (right :: rest) after := by
  obtain ⟨rightCell, rightFound⟩ := segment.exists_cell (by simp : right ∈ _)
  have rightOut : right ∉ rest ∧ address ≠ right := by grind
  obtain ⟨first, firstEq, firstWrote⟩ := Heap.setPrev_eq rightFound link
  exact ⟨first, firstEq, firstWrote.data_eq rightFound rfl,
    firstWrote.elsewhere address rightOut.2,
    segment.2.setPrev_first rightFound firstWrote rightOut.1⟩

/-- Unlinking the last cell, with the assignment `left->next`. -/
theorem Segment.unlink_last {heap : Heap A V} {before after : Option A}
    {front : List A} {left address : A}
    (segment : Segment heap before (front ++ [left, address]) after)
    (nodup : (front ++ [left, address]).Nodup) (link : Option A) :
    ∃ first, heap.setNext (some left) link = some first ∧ first.data = heap.data ∧
      first address = heap address ∧ Segment first before (front ++ [left]) link := by
  obtain ⟨leftSegment, -⟩ := (segment_split _ _ _ _ _ _).mp segment
  obtain ⟨leftCell, leftFound⟩ := segment.exists_cell (by simp : left ∈ _)
  have leftOut : left ∉ front ∧ address ≠ left := by grind
  obtain ⟨first, firstEq, firstWrote⟩ := Heap.setNext_eq leftFound link
  exact ⟨first, firstEq, firstWrote.data_eq leftFound rfl,
    firstWrote.elsewhere address leftOut.2,
    leftSegment.setNext_last leftFound firstWrote leftOut.1⟩

end NetPractice.Memory
