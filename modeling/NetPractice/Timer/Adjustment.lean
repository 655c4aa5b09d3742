import NetPractice.Timer.Linked

/-!
# Re-positioning a timer

`adjust_timer` looks at the timer's successor only.  It therefore moves a timer
that has become too late for its place, but leaves one in place that has become
too early.
-/

namespace NetPractice.Timer

open NetPractice.Memory

namespace SortTimerLst

/-- `adjust_timer` leaves the list alone when nothing behind the timer expires as early
as it does. -/
theorem Linked.adjustTimer_stays {lst : SortTimerLst} {timer : Addr} {front rest : List Addr}
    (linked : Linked lst (front ++ timer :: rest))
    (later : ∀ place ∈ rest.head?,
      expireAt lst.heap.data timer < expireAt lst.heap.data place) :
    lst.adjustTimer (some timer) = some lst := by
  rcases linked.segment.exists_cell (by simp : timer ∈ _) with ⟨timerCell, timerFound⟩
  rcases linked.segment.links_eq timerFound with ⟨-, next_eq⟩
  cases rest with
  | nil => simp [adjustTimer, timerFound, next_eq]
  | cons tmp rest =>
      rcases linked.segment.exists_cell (by simp : tmp ∈ _) with ⟨tmpCell, tmpFound⟩
      have earlier := later tmp rfl
      rw [expireAt_of_heap timerFound, expireAt_of_heap tmpFound] at earlier
      simp [adjustTimer, timerFound, tmpFound, next_eq, earlier]

/-- `adjust_timer` moves a timer that expires no earlier than the cells in
front of it to its place. -/
theorem Linked.adjustTimer {lst : SortTimerLst} {timer : Addr} {front rest : List Addr}
    (linked : Linked lst (front ++ timer :: rest))
    (enough : (front ++ timer :: rest).length ≤ lst.allocated)
    (sorted : (front ++ rest).Pairwise fun first second =>
      expireAt lst.heap.data first ≤ expireAt lst.heap.data second)
    (le : ∀ place ∈ front,
      expireAt lst.heap.data place ≤ expireAt lst.heap.data timer) :
    ∃ before after other, front ++ rest = before ++ after ∧
      lst.adjustTimer (some timer) = some other ∧ Relinked lst other ∧
      Linked other (before ++ timer :: after) ∧
      (∀ place ∈ before, expireAt lst.heap.data place ≤ expireAt lst.heap.data timer) ∧
      (∀ place ∈ after.head?, expireAt lst.heap.data timer < expireAt lst.heap.data place) := by
  by_cases later : ∀ place ∈ rest.head?,
      expireAt lst.heap.data timer < expireAt lst.heap.data place
  · exact ⟨front, rest, lst, rfl, linked.adjustTimer_stays later, ⟨rfl, rfl, rfl⟩, linked, le,
      later⟩
  cases rest with
  | nil => exact absurd (by simp) later
  | cons tmp rest =>
      rcases linked.segment.exists_cell (by simp : timer ∈ _) with ⟨timerCell, timerFound⟩
      rcases linked.segment.exists_cell (by simp : tmp ∈ _) with ⟨tmpCell, tmpFound⟩
      rcases linked.segment.links_eq timerFound with ⟨prev_eq, next_eq⟩
      have nodup := linked.nodup
      have start : expireAt lst.heap.data tmp ≤ expireAt lst.heap.data timer := by
        simpa using later
      have earlier : ¬ timerCell.val.expire < tmpCell.val.expire := by
        rwa [← expireAt_of_heap timerFound, ← expireAt_of_heap tmpFound, Int.not_lt]
      have fresh : timer ∉ front ++ tmp :: rest := by grind
      have room : rest.length ≤ lst.allocated := by
        simp only [List.length_append, List.length_cons] at enough
        omega
      rcases List.eq_nil_or_concat front with rfl | ⟨front, left, rfl⟩
      · -- The timer is the head: the list behind it is relinked first.
        rcases linked.unlink_first with ⟨first, firstEq, first_data, firstTimer, behind⟩
        have firstFound := firstTimer.trans timerFound
        rcases Heap.setNext_eq firstFound none with ⟨second, secondEq, secondWrote⟩
        have head_eq : lst.head = some timer := linked.head_eq
        have relinked : Relinked lst { lst with heap := second, head := some tmp } :=
          ⟨(secondWrote.data_eq firstFound rfl).trans first_data, rfl, rfl⟩
        have unlinked : Linked { lst with heap := second, head := some tmp }
            ([] ++ tmp :: rest) :=
          ⟨behind.segment.frame secondWrote fresh, behind.nodup, rfl, behind.tail_eq⟩
        rcases unlinked.addTimerFrom fresh secondWrote.here room (relinked.data_eq ▸ sorted)
          (relinked.data_eq ▸ start) with
          ⟨before, after, other, cells_eq, call_eq, again, otherLinked, spec⟩
        refine ⟨before, after, other, cells_eq, ?_, relinked.trans again, otherLinked,
          relinked.data_eq ▸ spec⟩
        simp only [SortTimerLst.adjustTimer, timerFound, tmpFound, next_eq, Option.bind_eq_bind,
          Option.bind_some, if_neg earlier, List.head?_cons, Option.some_or,
          if_pos head_eq, setPrev, setNext, firstEq, secondEq, Option.map_some]
        exact call_eq
      · -- The timer is in the middle: its neighbours are linked first.
        simp only [List.concat_eq_append, List.append_assoc, List.cons_append,
          List.nil_append] at linked fresh sorted prev_eq ⊢
        rcases linked.unlink_middle with
          ⟨first, second, firstEq, secondEq, second_data, secondTimer, unlinked⟩
        have notHead := linked.head_ne
        have relinked : Relinked lst { lst with heap := second } := ⟨second_data, rfl, rfl⟩
        rw [List.append_cons] at unlinked fresh sorted
        rcases unlinked.addTimerFrom fresh (secondTimer.trans timerFound) room
          (relinked.data_eq ▸ sorted) (relinked.data_eq ▸ start) with
          ⟨before, after, other, cells_eq, call_eq, again, otherLinked, spec⟩
        refine ⟨before, after, other, by simpa using cells_eq, ?_, relinked.trans again,
          otherLinked, relinked.data_eq ▸ spec⟩
        simp only [SortTimerLst.adjustTimer, timerFound, tmpFound, next_eq, Option.bind_eq_bind,
          Option.bind_some, if_neg earlier, List.head?_cons, Option.some_or, if_neg notHead,
          prev_eq, List.getLast?_append, List.getLast?_singleton, setPrev, setNext, firstEq,
          secondEq, Option.map_some]
        exact call_eq

/-- `other` is an ascending list of the same timers as `lst`, whose data it has left alone. -/
def Repositions (lst other : SortTimerLst) (cells : List Addr) : Prop :=
  Relinked lst other ∧ ∃ moved, moved.Perm cells ∧ Ascending other moved

/-- An ascending list has its cells in ascending order, whatever it is seen as. -/
theorem Linked.sorted_of_ascending {lst : SortTimerLst} {cells moved : List Addr}
    (linked : Linked lst cells) (ascending : Ascending lst moved) :
    cells.Pairwise fun first second =>
      expireAt lst.heap.data first ≤ expireAt lst.heap.data second := by
  have first_eq : cells.head? = moved.head? := linked.head_eq.symm.trans ascending.head_eq
  rw [linked.segment.unique ascending.segment first_eq]
  exact ascending.sorted

/-- On a list that is ascending apart from one timer, whatever its new expiry time,
`adjust_timer` makes the list ascending exactly when no timer stands in front of that one
or the one in front expires no later. -/
theorem adjustTimer_repositions_iff {lst : SortTimerLst} {timer : Addr}
    {front rest : List Addr} (linked : Linked lst (front ++ timer :: rest))
    (enough : (front ++ timer :: rest).length ≤ lst.allocated)
    (sorted : (front ++ rest).Pairwise fun first second =>
      expireAt lst.heap.data first ≤ expireAt lst.heap.data second) :
    (∃ other, lst.adjustTimer (some timer) = some other ∧
        Repositions lst other (front ++ timer :: rest)) ↔
      ∀ place ∈ front.getLast?,
        expireAt lst.heap.data place ≤ expireAt lst.heap.data timer := by
  constructor
  · rintro ⟨other, call_eq, -, moved, -, ascending⟩ left last
    rcases List.getLast?_eq_some_iff.mp last with ⟨front, rfl⟩
    by_contra tooEarly
    rw [Int.not_le] at tooEarly
    -- The timer is earlier than its successor too, so that the list is left as it is.
    have later : ∀ place ∈ rest.head?,
        expireAt lst.heap.data timer < expireAt lst.heap.data place := by
      intro place mem
      have ordered := (List.pairwise_append.mp sorted).2.2 left (by simp) place
        (List.mem_of_head? mem)
      exact Int.lt_of_lt_of_le tooEarly ordered
    cases (linked.adjustTimer_stays later).symm.trans call_eq
    have kept := linked.sorted_of_ascending ascending
    have ordered := (List.pairwise_append.mp kept).2.2 left (by simp) timer (by simp)
    exact Int.not_le.mpr tooEarly ordered
  · intro le
    have frontLe : ∀ place ∈ front,
        expireAt lst.heap.data place ≤ expireAt lst.heap.data timer := by
      rcases List.eq_nil_or_concat front with rfl | ⟨front, left, rfl⟩
      · simp
      · have leftLe := le left (by simp)
        intro place mem
        rcases List.mem_append.mp (List.concat_eq_append ▸ mem) with mem | mem
        · have frontSorted := (List.pairwise_append.mp sorted).1
          rw [List.concat_eq_append, List.pairwise_append] at frontSorted
          exact Int.le_trans (frontSorted.2.2 place mem left (by simp)) leftLe
        · rwa [List.mem_singleton.mp mem]
    rcases linked.adjustTimer enough sorted frontLe with
      ⟨before, after, other, cells_eq, call_eq, relinked, otherLinked, le, lt⟩
    have moved : (before ++ timer :: after).Perm (front ++ timer :: rest) :=
      (List.perm_middle.trans (cells_eq ▸ List.Perm.refl _)).trans List.perm_middle.symm
    refine ⟨other, call_eq, relinked, before ++ timer :: after, moved, otherLinked, ?_, ?_⟩
    · rwa [moved.length_eq, relinked.allocated_eq]
    · rw [relinked.data_eq]
      exact sorted_insert (cells_eq ▸ sorted) le lt

/-- Two linked timers with these expiry times. -/
def twoTimers (first second : Int) : SortTimerLst where
  heap
    | 1 => some ⟨⟨first, 0, 7⟩, none, some 2⟩
    | 2 => some ⟨⟨second, 0, 8⟩, some 1, none⟩
    | _ => none
  allocated := 2
  head := some 1
  tail := some 2
  calls := []

theorem twoTimers_linked (first second : Int) : Linked (twoTimers first second) [1, 2] where
  segment := by simp [Segment, twoTimers]
  nodup := by decide
  head_eq := rfl
  tail_eq _ := rfl

/-- The head, whose expiry time has become the last one, is moved to the end. -/
theorem adjustTimer_repositions_head :
    (∃ other, (twoTimers 12 9).adjustTimer (some 1) = some other ∧
        Repositions (twoTimers 12 9) other ([] ++ 1 :: [2])) ↔
      ∀ place ∈ ([] : List Addr).getLast?,
        expireAt (twoTimers 12 9).heap.data place ≤ expireAt (twoTimers 12 9).heap.data 1 :=
  adjustTimer_repositions_iff (twoTimers_linked 12 9) (by decide) (by decide)

/-- The second timer's expiry time has been set back from 9 to 3: its successor, which does
not exist, is all that `adjust_timer` looks at, and the list stays out of order. -/
theorem adjustTimer_ignores_setBack :
    Ascending (twoTimers 5 9) [1, 2] ∧ Linked (twoTimers 5 3) [1, 2] ∧
      ¬ ∃ other, (twoTimers 5 3).adjustTimer (some 2) = some other ∧
        Repositions (twoTimers 5 3) other [1, 2] := by
  refine ⟨⟨twoTimers_linked 5 9, by decide, by decide⟩, twoTimers_linked 5 3, ?_⟩
  rintro ⟨other, call_eq, -, moved, -, ascending⟩
  have linked : Linked (twoTimers 5 3) ([1] ++ 2 :: []) := twoTimers_linked 5 3
  cases (linked.adjustTimer_stays (by simp)).symm.trans call_eq
  have sorted := linked.sorted_of_ascending ascending
  revert sorted
  decide

end SortTimerLst

end NetPractice.Timer
