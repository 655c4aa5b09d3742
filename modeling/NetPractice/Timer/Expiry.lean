import NetPractice.Timer.Linked

/-!
# Expiry

`tick` works on the head only and stops at the first timer that is not due.  What
it has done by then is recorded in `Expired`, which composes over the iterations
of the loop.
-/

namespace NetPractice.Timer

open NetPractice.Memory

namespace SortTimerLst

/-- The callback invocation that `tick` makes for a timer. -/
def callOf (data : Addr → Option TimerData) (timer : Addr) : Nat × Nat :=
  (data timer).elim (0, 0) fun timerData => (timerData.cbFunc, timerData.userData)

/-- The timers `due` were called back in this order and deleted, and the list `rest`
was left.  Of all other timers, only the head of `rest` was written: its `prev` link is
NULL. -/
structure Expired (lst other : SortTimerLst) (due rest : List Addr) : Prop where
  calls_eq : other.calls = lst.calls ++ due.map (callOf lst.heap.data)
  allocated_eq : other.allocated = lst.allocated - due.length
  gone : ∀ timer ∈ due, other.heap timer = none
  head_eq : ∀ timer ∈ rest.head?,
    other.heap timer = (lst.heap timer).map fun cell => { cell with prev := none }
  kept : ∀ timer, timer ∉ due → timer ∉ rest.head? → other.heap timer = lst.heap timer

/-- Expiry leaves the data of every timer alone that is not due. -/
theorem Expired.data_eq {lst other : SortTimerLst} {due rest : List Addr}
    (expired : Expired lst other due rest) {timer : Addr} (notDue : timer ∉ due) :
    other.heap.data timer = lst.heap.data timer := by
  by_cases first : timer ∈ rest.head?
  · rw [Heap.data, expired.head_eq timer first, Heap.data]
    cases lst.heap timer <;> rfl
  · rw [Heap.data, expired.kept timer notDue first, Heap.data]

/-- A list whose head is not due is left as it is. -/
theorem Linked.expired_nil {lst : SortTimerLst} {cells : List Addr} (linked : Linked lst cells) :
    Expired lst lst [] cells where
  calls_eq := by simp
  allocated_eq := rfl
  gone := by simp
  head_eq := by
    cases cells with
    | nil => simp
    | cons first rest =>
        rcases linked.segment with ⟨⟨cell, found, prev_eq, -⟩, -⟩
        rintro timer ⟨⟩
        rw [found, Option.map_some, ← prev_eq]
  kept _ _ _ := rfl

/-- The expiry of the head is followed by that of timers behind it. -/
theorem Expired.cons {lst mid other : SortTimerLst} {timer : Addr} {due rest : List Addr}
    (nodup : (timer :: (due ++ rest)).Nodup)
    (first : Expired lst mid [timer] (due ++ rest)) (second : Expired mid other due rest) :
    Expired lst other (timer :: due) rest where
  calls_eq := by
    have agree : due.map (callOf mid.heap.data) = due.map (callOf lst.heap.data) := by
      apply List.map_congr_left
      intro place mem
      rw [callOf, first.data_eq (by grind), callOf]
    rw [second.calls_eq, first.calls_eq, agree]
    simp
  allocated_eq := by
    rw [second.allocated_eq, first.allocated_eq, Nat.sub_sub, Nat.add_comm]
    rfl
  gone := by
    intro place mem
    by_cases later : place ∈ due
    · exact second.gone place later
    · -- The deleted head is not the new one, so that nothing writes its cell again.
      obtain rfl : place = timer := by grind
      have notHead : place ∉ rest.head? := fun head => by
        have := List.mem_of_head? head
        grind
      rw [second.kept place later notHead]
      exact first.gone place (by simp)
  head_eq := by
    intro place mem
    have inRest := List.mem_of_head? mem
    rw [second.head_eq place mem]
    cases due with
    | nil =>
        rw [first.head_eq place mem]
        cases lst.heap place <;> rfl
    | cons next due =>
        rw [first.kept place (by grind) (by grind)]
  kept := by
    intro place notDue notHead
    rw [second.kept place (by grind) notHead]
    apply first.kept place (by grind)
    cases due with
    | nil => exact notHead
    | cons next due => grind

/-- One iteration of `tick` on a due head. -/
theorem tickLoop_due {cur : Int} (fuel : Nat) {lst : SortTimerLst} {timer : Addr}
    {rest : List Addr} (linked : Linked lst (timer :: rest))
    (due : expireAt lst.heap.data timer ≤ cur) :
    ∃ other, tickLoop cur (fuel + 1) (some timer) lst = tickLoop cur fuel other.head other ∧
      Linked other rest ∧ Expired lst other [timer] rest := by
  rcases linked.segment.exists_cell (by simp : timer ∈ _) with ⟨timerCell, timerFound⟩
  have segment : Segment lst.heap none ([] ++ timer :: rest) none := linked.segment
  have next_eq := (segment.links_eq timerFound).2
  have nodup := linked.nodup
  rw [expireAt_of_heap timerFound, ← Int.not_lt] at due
  have call_eq : callOf lst.heap.data timer =
      (timerCell.val.cbFunc, timerCell.val.userData) := by
    simp [callOf, Heap.data, timerFound]
  cases rest with
  | nil =>
      refine ⟨{ lst with
          heap := Function.update lst.heap timer none
          allocated := lst.allocated - 1
          head := none
          calls := lst.calls ++ [callOf lst.heap.data timer] }, ?_, ?_, ?_⟩
      · simp [tickLoop, timerFound, due, next_eq, delete, Heap.free_eq timerFound, call_eq]
      · exact ⟨trivial, List.nodup_nil, rfl, fun nonempty => absurd rfl nonempty⟩
      · refine ⟨rfl, rfl, ?_, by simp, ?_⟩
        · simp
        · intro place notDue _
          exact Function.update_of_ne (by simpa using notDue) _ _
  | cons right rest =>
      rcases linked.segment.exists_cell (by simp : right ∈ _) with ⟨rightCell, rightFound⟩
      have different : timer ≠ right ∧ right ∉ rest ∧ timer ∉ right :: rest := by grind
      rcases Heap.setPrev_eq rightFound none with ⟨first, firstEq, wrote⟩
      have firstTimer := (wrote.elsewhere timer different.1).trans timerFound
      refine ⟨{ lst with
          heap := Function.update first timer none
          allocated := lst.allocated - 1
          head := some right
          calls := lst.calls ++ [callOf lst.heap.data timer] }, ?_, ?_, ?_⟩
      · simp [tickLoop, timerFound, due, next_eq, setPrev, firstEq, delete,
          Heap.free_eq firstTimer, call_eq]
      · refine ⟨?_, (List.nodup_cons.mp nodup).2, rfl,
          fun _ => by simpa using linked.tail_eq (by simp)⟩
        exact (linked.segment.2.setPrev_first rightFound wrote different.2.1).free different.2.2
      · refine ⟨rfl, rfl, ?_, ?_, ?_⟩
        · simp
        · rintro place ⟨⟩
          rw [rightFound]
          exact (Function.update_of_ne different.1.symm _ _).trans wrote.here
        · intro place notDue notHead
          have notTimer : place ≠ timer := by simpa using notDue
          exact (Function.update_of_ne notTimer _ _).trans (wrote.elsewhere place (by grind))

/-- The loop of `tick` calls back and deletes the due timers, in list order, and stops at
the first timer that is not due; in an ascending list none is due behind that one. -/
theorem tickLoop_spec (cur : Int) {cells : List Addr} {fuel : Nat} {lst : SortTimerLst}
    (linked : Linked lst cells) (enough : cells.length ≤ fuel)
    (sorted : cells.Pairwise fun first second =>
      expireAt lst.heap.data first ≤ expireAt lst.heap.data second) :
    ∃ due rest other, cells = due ++ rest ∧
      tickLoop cur fuel lst.head lst = some other ∧ Linked other rest ∧
      Expired lst other due rest ∧
      (∀ timer ∈ due, expireAt lst.heap.data timer ≤ cur) ∧
      (∀ timer ∈ rest, cur < expireAt lst.heap.data timer) := by
  induction cells generalizing fuel lst with
  | nil =>
      refine ⟨[], [], lst, rfl, ?_, linked, linked.expired_nil, by simp, by simp⟩
      rw [linked.head_eq]
      cases fuel <;> rfl
  | cons timer cells ih =>
      rcases linked.segment.exists_cell (by simp : timer ∈ _) with ⟨timerCell, timerFound⟩
      obtain ⟨fuel, rfl⟩ : ∃ smaller, fuel = smaller + 1 :=
        Nat.exists_eq_succ_of_ne_zero (by simp at enough; omega)
      have head_eq : lst.head = some timer := linked.head_eq
      rcases List.pairwise_cons.mp sorted with ⟨first, restSorted⟩
      by_cases later : cur < expireAt lst.heap.data timer
      · refine ⟨[], timer :: cells, lst, rfl, ?_, linked, linked.expired_nil, by simp, ?_⟩
        · rw [expireAt_of_heap timerFound] at later
          simp [head_eq, tickLoop, timerFound, later]
        · intro place mem
          rcases List.mem_cons.mp mem with rfl | mem
          · exact later
          · exact Int.lt_of_lt_of_le later (first place mem)
      · rw [Int.not_lt] at later
        rcases tickLoop_due fuel linked later with ⟨mid, step_eq, midLinked, step⟩
        have same : ∀ place ∈ cells,
            expireAt mid.heap.data place = expireAt lst.heap.data place := by
          intro place mem
          have notFirst : place ∉ [timer] := by
            have := linked.nodup
            grind
          rw [expireAt, step.data_eq notFirst, expireAt]
        rcases ih midLinked (by simpa using enough) (sorted_congr restSorted same) with
          ⟨due, rest, other, rfl, loop_eq, otherLinked, expired, le, lt⟩
        refine ⟨timer :: due, rest, other, rfl, ?_, otherLinked,
          Expired.cons linked.nodup step expired, ?_, ?_⟩
        · rw [head_eq, step_eq, loop_eq]
        · intro place mem
          rcases List.mem_cons.mp mem with rfl | mem
          · exact later
          · rw [← same place (by simp [mem])]
            exact le place mem
        · intro place mem
          rw [← same place (by simp [mem])]
          exact lt place mem

/-- `tick` splits an ascending list at the current time. -/
theorem Ascending.tick (cur : Int) {cells : List Addr} {lst : SortTimerLst}
    (ascending : Ascending lst cells) :
    ∃ due rest other, cells = due ++ rest ∧ lst.tick cur = some other ∧ Linked other rest ∧
      Expired lst other due rest ∧
      (∀ timer ∈ due, expireAt lst.heap.data timer ≤ cur) ∧
      (∀ timer ∈ rest, cur < expireAt lst.heap.data timer) := by
  rcases tickLoop_spec cur ascending.toLinked ascending.enough ascending.sorted with
    ⟨due, rest, other, cells_eq, loop_eq, spec⟩
  refine ⟨due, rest, other, cells_eq, ?_, spec⟩
  by_cases none_eq : lst.head = none
  · rw [none_eq] at loop_eq
    rw [SortTimerLst.tick, if_pos none_eq, ← loop_eq]
    cases lst.allocated <;> rfl
  · rw [SortTimerLst.tick, if_neg none_eq, loop_eq]

/-- A list split at a bound is split by the two comparisons with it. -/
theorem filter_due {data : Addr → Option TimerData} {cur : Int} {due rest : List Addr}
    (le : ∀ timer ∈ due, expireAt data timer ≤ cur)
    (lt : ∀ timer ∈ rest, cur < expireAt data timer) :
    ((due ++ rest).filter fun timer => expireAt data timer ≤ cur) = due ∧
      ((due ++ rest).filter fun timer => cur < expireAt data timer) = rest := by
  constructor
  · rw [List.filter_append, List.filter_eq_self.mpr, List.filter_eq_nil_iff.mpr,
      List.append_nil]
    · intro timer mem
      simpa using lt timer mem
    · intro timer mem
      simpa using le timer mem
  · rw [List.filter_append, List.filter_eq_nil_iff.mpr, List.filter_eq_self.mpr,
      List.nil_append]
    · intro timer mem
      simpa using lt timer mem
    · intro timer mem
      simpa using le timer mem

/-- On every ascending list and at every time, `tick` returns; it calls back, in list
order, and deletes exactly the timers whose expiry time has been reached, and leaves the
others as an ascending list whose head has no predecessor. -/
theorem tick_expires_due (cur : Int) {cells : List Addr} {lst : SortTimerLst}
    (ascending : Ascending lst cells) :
    ∃ other, lst.tick cur = some other ∧
      Expired lst other (cells.filter fun timer => expireAt lst.heap.data timer ≤ cur)
        (cells.filter fun timer => cur < expireAt lst.heap.data timer) ∧
      ((cells.filter fun timer => expireAt lst.heap.data timer ≤ cur).Pairwise
        fun first second => expireAt lst.heap.data first ≤ expireAt lst.heap.data second) ∧
      Ascending other (cells.filter fun timer => cur < expireAt lst.heap.data timer) ∧
      (∀ head, other.head = some head →
        (other.heap head).map Cell.prev = some none) := by
  rcases ascending.tick cur with ⟨due, rest, other, rfl, tick_eq, linked, expired, le, lt⟩
  rcases filter_due le lt with ⟨due_eq, rest_eq⟩
  rcases List.pairwise_append.mp ascending.sorted with ⟨dueSorted, restSorted, -⟩
  rw [due_eq, rest_eq]
  have room : rest.length ≤ other.allocated := by
    have enough := ascending.enough
    rw [List.length_append] at enough
    rw [expired.allocated_eq]
    exact Nat.le_sub_of_add_le' enough
  have same : ∀ place ∈ rest,
      expireAt other.heap.data place = expireAt lst.heap.data place := by
    intro place mem
    have notDue : place ∉ due := by
      have := ascending.nodup
      grind
    rw [expireAt, expired.data_eq notDue, expireAt]
  refine ⟨other, tick_eq, expired, dueSorted, ⟨linked, room, sorted_congr restSorted same⟩, ?_⟩
  intro head head_eq
  rw [linked.head_eq] at head_eq
  cases rest with
  | nil => cases head_eq
  | cons first rest =>
      cases head_eq
      rcases linked.segment with ⟨⟨cell, found, prev_eq, -⟩, -⟩
      rw [found, Option.map_some, prev_eq]

/-- Two timers that expire at 5 and one that expires at 9. -/
def threeTimers : SortTimerLst where
  heap
    | 1 => some ⟨⟨5, 0, 7⟩, none, some 2⟩
    | 2 => some ⟨⟨5, 0, 8⟩, some 1, some 3⟩
    | 3 => some ⟨⟨9, 0, 9⟩, some 2, none⟩
    | _ => none
  allocated := 3
  head := some 1
  tail := some 3
  calls := []

theorem threeTimers_ascending : Ascending threeTimers [1, 2, 3] where
  segment := by simp [Segment, threeTimers]
  nodup := by decide
  head_eq := rfl
  tail_eq _ := rfl
  enough := by decide
  sorted := by decide

/-- At the time 5 the first two timers are expired and the third becomes the head. -/
theorem tick_expires_due_threeTimers :
    ∃ other, threeTimers.tick 5 = some other ∧
      Expired threeTimers other
        ([1, 2, 3].filter fun timer => expireAt threeTimers.heap.data timer ≤ 5)
        ([1, 2, 3].filter fun timer => 5 < expireAt threeTimers.heap.data timer) ∧
      (([1, 2, 3].filter fun timer => expireAt threeTimers.heap.data timer ≤ 5).Pairwise
        fun first second =>
          expireAt threeTimers.heap.data first ≤ expireAt threeTimers.heap.data second) ∧
      Ascending other
        ([1, 2, 3].filter fun timer => 5 < expireAt threeTimers.heap.data timer) ∧
      (∀ head, other.head = some head →
        (other.heap head).map Cell.prev = some none) :=
  tick_expires_due 5 threeTimers_ascending

end SortTimerLst

end NetPractice.Timer
