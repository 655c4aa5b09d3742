import NetPractice.Timer.Adjustment
import NetPractice.Timer.Expiry
import NetPractice.Transition.Core

/-!
# The timer list stays sorted and linked

`WellFormed` says of a linked list that its cells are exactly the live timers
and that their expiry times ascend.  Every operation finds or keeps this shape
without an invalid access, and so does every sequence of operations that its
user may perform.
-/

namespace NetPractice.Timer

open NetPractice.Memory
open NetPractice.Transition

namespace SortTimerLst

/-- The shape of the list between two calls: the linked cells are the live
timers, in ascending order of their expiry times. -/
structure WellFormed (lst : SortTimerLst) (cells : List Addr) : Prop
    extends Linked lst cells where
  live_iff : ∀ timer, (lst.heap.data timer).isSome ↔ timer ∈ cells
  allocated_eq : lst.allocated = cells.length
  sorted : cells.Pairwise fun first second =>
    expireAt lst.heap.data first ≤ expireAt lst.heap.data second

theorem WellFormed.ascending {lst : SortTimerLst} {cells : List Addr}
    (wellFormed : WellFormed lst cells) : Ascending lst cells :=
  ⟨wellFormed.toLinked, Nat.le_of_eq wellFormed.allocated_eq.symm, wellFormed.sorted⟩

/-- A timer that is allocated but not yet linked, next to the linked ones. -/
structure Detached (lst : SortTimerLst) (timer : Addr) (cells : List Addr) : Prop
    extends Linked lst cells where
  fresh : timer ∉ cells
  live_iff : ∀ place, (lst.heap.data place).isSome ↔ place = timer ∨ place ∈ cells
  allocated_eq : lst.allocated = cells.length + 1
  sorted : cells.Pairwise fun first second =>
    expireAt lst.heap.data first ≤ expireAt lst.heap.data second

/-- Linking the detached timer at its place makes the list well formed. -/
theorem Detached.wellFormed {lst other : SortTimerLst} {timer : Addr}
    {before after : List Addr} (detached : Detached lst timer (before ++ after))
    (relinked : Relinked lst other) (linked : Linked other (before ++ timer :: after))
    (le : ∀ place ∈ before,
      expireAt lst.heap.data place ≤ expireAt lst.heap.data timer)
    (lt : ∀ place ∈ after.head?,
      expireAt lst.heap.data timer < expireAt lst.heap.data place) :
    WellFormed other (before ++ timer :: after) where
  toLinked := linked
  live_iff place := by
    rw [relinked.data_eq, detached.live_iff]
    simp only [List.mem_append, List.mem_cons]
    tauto
  allocated_eq := by
    rw [relinked.allocated_eq, detached.allocated_eq]
    simp only [List.length_append, List.length_cons]
    omega
  sorted := by
    rw [relinked.data_eq]
    exact sorted_insert detached.sorted le lt

/-- The private `add_timer`, started at a cell that expires no later than the
timer, puts a detached timer at its place. -/
theorem Detached.addTimerFrom {lst : SortTimerLst} {timer : Addr} {timerCell : UtilTimer}
    {front rest : List Addr} {lstHead : Addr}
    (detached : Detached lst timer (front ++ lstHead :: rest))
    (found : lst.heap timer = some timerCell)
    (start : expireAt lst.heap.data lstHead ≤ timerCell.val.expire) :
    ∃ other cells, lst.addTimerFrom timer (some lstHead) = some other ∧
      Relinked lst other ∧ WellFormed other cells := by
  have enough : rest.length ≤ lst.allocated := by
    have := detached.allocated_eq
    simp only [List.length_append, List.length_cons] at this
    omega
  rw [← expireAt_of_heap found] at start
  rcases detached.toLinked.addTimerFrom detached.fresh found enough detached.sorted start with
    ⟨before, after, other, cells_eq, call_eq, relinked, linked, le, lt⟩
  exact ⟨other, before ++ timer :: after, call_eq, relinked,
    (cells_eq ▸ detached).wellFormed relinked linked le lt⟩

/-- `add_timer` puts a fresh timer at its place. -/
theorem Detached.addTimer {lst : SortTimerLst} {timer : Addr} {data : TimerData}
    {cells : List Addr} (detached : Detached lst timer cells)
    (found : lst.heap timer = some ⟨data, none, none⟩) :
    ∃ other cells, lst.addTimer (some timer) = some other ∧ Relinked lst other ∧
      WellFormed other cells := by
  have timerExpire := expireAt_of_heap found
  cases cells with
  | nil =>
      have head_eq : lst.head = none := detached.head_eq
      refine ⟨{ lst with head := some timer, tail := some timer }, [timer], ?_,
        ⟨rfl, rfl, rfl⟩, ?_⟩
      · simp [SortTimerLst.addTimer, head_eq]
      · refine (show Detached lst timer ([] ++ []) from detached).wellFormed ⟨rfl, rfl, rfl⟩ ?_
          (by simp) (by simp)
        exact ⟨(segment_singleton _ _ _ _).mpr ⟨_, found, rfl, rfl⟩, by simp, rfl,
          fun _ => rfl⟩
  | cons head rest =>
      have head_eq : lst.head = some head := detached.head_eq
      obtain ⟨headCell, headFound⟩ :=
        detached.segment.exists_cell (by simp : head ∈ _)
      have headExpire := expireAt_of_heap headFound
      by_cases earlier : data.expire < headCell.val.expire
      · have outside : head ∉ rest := (List.nodup_cons.mp detached.nodup).1
        obtain ⟨first, second, firstEq, secondEq, data_eq, segment⟩ :=
          detached.segment.insert_first outside detached.fresh found rfl
        have relinked : Relinked lst { lst with heap := second, head := some timer } :=
          ⟨data_eq, rfl, rfl⟩
        refine ⟨{ lst with heap := second, head := some timer }, timer :: head :: rest, ?_,
          relinked, ?_⟩
        · simp [SortTimerLst.addTimer, head_eq, found, headFound, earlier, setNext, setPrev,
            firstEq, secondEq]
        · refine (show Detached lst timer ([] ++ head :: rest) from detached).wellFormed relinked ?_
            (by simp) ?_
          · refine ⟨segment, ?_, rfl, fun _ => ?_⟩
            · exact List.nodup_cons.mpr ⟨detached.fresh, detached.nodup⟩
            · simpa using detached.tail_eq (by simp)
          · simpa [timerExpire, headExpire] using earlier
      · obtain ⟨other, cells, call_eq, relinked, wellFormed⟩ :=
          (show Detached lst timer ([] ++ head :: rest) from detached).addTimerFrom found (by
            simpa [headExpire] using earlier)
        refine ⟨other, cells, ?_, relinked, wellFormed⟩
        simp only [SortTimerLst.addTimer, head_eq, found, headFound, Option.bind_eq_bind,
          Option.bind_some, if_neg earlier]
        exact call_eq

/-! ## Adjustment -/

/-- `adjust_timer` makes the list well formed when the cells in front of the timer expire
no later than it. -/
theorem adjustTimer_spec {lst : SortTimerLst} {timer : Addr} {front rest : List Addr}
    (linked : Linked lst (front ++ timer :: rest))
    (live_iff : ∀ place, (lst.heap.data place).isSome ↔ place ∈ front ++ timer :: rest)
    (allocated_eq : lst.allocated = (front ++ timer :: rest).length)
    (sorted : (front ++ rest).Pairwise fun first second =>
      expireAt lst.heap.data first ≤ expireAt lst.heap.data second)
    (le : ∀ place ∈ front,
      expireAt lst.heap.data place ≤ expireAt lst.heap.data timer) :
    ∃ other cells, lst.adjustTimer (some timer) = some other ∧ Relinked lst other ∧
      WellFormed other cells := by
  rcases linked.adjustTimer (Nat.le_of_eq allocated_eq.symm) sorted le with
    ⟨before, after, other, cells_eq, call_eq, relinked, otherLinked, le, lt⟩
  have moved : (before ++ timer :: after).Perm (front ++ timer :: rest) :=
    (List.perm_middle.trans (cells_eq ▸ List.Perm.refl _)).trans List.perm_middle.symm
  refine ⟨other, before ++ timer :: after, call_eq, relinked, otherLinked, ?_, ?_, ?_⟩
  · intro place
    rw [relinked.data_eq, live_iff, moved.mem_iff]
  · rw [relinked.allocated_eq, allocated_eq, moved.length_eq]
  · rw [relinked.data_eq]
    exact sorted_insert (cells_eq ▸ sorted) le lt

/-! ## Removal -/

/-- Removing a timer leaves the others' expiry times alone. -/
theorem expireAt_update_of_ne (data : Addr → Option TimerData) {timer place : Addr}
    (different : place ≠ timer) (change : Option TimerData) :
    expireAt (Function.update data timer change) place = expireAt data place := by
  rw [expireAt, Function.update_of_ne different, expireAt]

/-- Changing one timer's datum keeps the order of any list without it. -/
theorem sorted_update {data : Addr → Option TimerData} {cells : List Addr} {timer : Addr}
    (sorted : cells.Pairwise fun first second =>
      expireAt data first ≤ expireAt data second)
    (outside : timer ∉ cells) (change : Option TimerData) :
    cells.Pairwise fun first second =>
      expireAt (Function.update data timer change) first ≤
        expireAt (Function.update data timer change) second := by
  refine sorted_congr sorted fun place mem => ?_
  exact expireAt_update_of_ne data (by rintro rfl; exact outside mem) change

theorem deleted_data {lst mid : SortTimerLst} (timer : Addr)
    (data_eq : mid.heap.data = lst.heap.data) :
    (mid.deleted timer).heap.data = Function.update lst.heap.data timer none := by
  rw [← data_eq]
  exact Heap.data_update_none _ _

/-- Releasing a timer that is already unlinked makes the list well formed. -/
theorem WellFormed.deleted {lst mid : SortTimerLst} {timer : Addr} {front rest : List Addr}
    (wellFormed : WellFormed lst (front ++ timer :: rest))
    (linked : Linked mid (front ++ rest)) (data_eq : mid.heap.data = lst.heap.data)
    (allocated_eq : mid.allocated = lst.allocated) :
    WellFormed (mid.deleted timer) (front ++ rest) := by
  have outside : timer ∉ front ++ rest := by
    have := wellFormed.nodup
    grind
  have other_data := deleted_data timer data_eq
  have sublist : (front ++ rest).Sublist (front ++ timer :: rest) :=
    (List.sublist_cons_self timer rest).append_left front
  refine ⟨⟨linked.segment.free outside, linked.nodup, linked.head_eq, linked.tail_eq⟩,
    fun place => ?_, ?_, ?_⟩
  · rw [other_data]
    by_cases place_eq : place = timer
    · subst place
      simpa using outside
    · rw [Function.update_of_ne place_eq, wellFormed.live_iff]
      simp [place_eq]
  · rw [SortTimerLst.deleted, allocated_eq, wellFormed.allocated_eq]
    simp only [List.length_append, List.length_cons]
    omega
  · rw [other_data]
    exact sorted_update (wellFormed.sorted.sublist sublist) outside none

/-- `del_timer` removes a timer of the list and nothing else. -/
theorem delTimer_spec {lst : SortTimerLst} {timer : Addr} {front rest : List Addr}
    (wellFormed : WellFormed lst (front ++ timer :: rest)) :
    ∃ other, lst.delTimer (some timer) = some other ∧ WellFormed other (front ++ rest) ∧
      other.heap.data = Function.update lst.heap.data timer none := by
  have linked := wellFormed.toLinked
  have nodup := linked.nodup
  have head_eq := linked.head_eq
  have tail_eq := linked.tail_eq (by simp)
  obtain ⟨timerCell, timerFound⟩ := linked.segment.exists_cell (by simp : timer ∈ _)
  obtain ⟨prev_eq, next_eq⟩ := linked.segment.links_eq timerFound
  rcases List.eq_nil_or_concat front with rfl | ⟨front, left, rfl⟩
  · cases rest with
    | nil =>
        have ends : lst.head = some timer ∧ lst.tail = some timer := ⟨head_eq, tail_eq⟩
        have empty : Linked { lst with head := none, tail := none } ([] ++ []) :=
          ⟨trivial, List.nodup_nil, rfl, fun nonempty => absurd rfl nonempty⟩
        refine ⟨_, ?_, wellFormed.deleted empty rfl rfl, deleted_data timer rfl⟩
        simp [delTimer, ends, delete_of_heap timerFound, SortTimerLst.deleted]
    | cons right rest =>
        have notLast : ¬ (lst.head = some timer ∧ lst.tail = some timer) := by
          rintro ⟨-, last⟩
          rw [tail_eq] at last
          have := List.mem_of_getLast? (by simpa using last : (right :: rest).getLast? = _)
          exact (List.nodup_cons.mp nodup).1 this
        obtain ⟨first, firstEq, first_data, firstTimer, unlinked⟩ := linked.unlink_first
        have removed := wellFormed.deleted (show Linked _ ([] ++ right :: rest) from unlinked)
          first_data rfl
        refine ⟨_, ?_, removed, deleted_data timer first_data⟩
        have headFound : lst.head = some timer := head_eq
        simp only [delTimer, if_neg notLast]
        simp only [headFound, if_true, Heap.load_some, timerFound, Option.bind_eq_bind,
          Option.bind_some, next_eq, List.head?_cons, Option.some_or, setPrev, firstEq,
          Option.map_some]
        exact delete_of_heap (firstTimer.trans timerFound)
  · simp only [List.concat_eq_append, List.append_assoc, List.cons_append,
      List.nil_append] at linked nodup wellFormed prev_eq ⊢
    have notHead := linked.head_ne
    have shape : front ++ left :: timer :: rest = (front ++ [left]) ++ timer :: rest := by simp
    cases rest with
    | nil =>
        have last : lst.tail = some timer := by simpa using tail_eq
        obtain ⟨first, firstEq, first_data, firstTimer, segment⟩ :=
          linked.segment.unlink_last nodup none
        have unlinked : Linked { lst with heap := first, tail := some left }
            ((front ++ [left]) ++ []) := by
          refine ⟨by simpa using segment, by grind, ?_, fun _ => by simp⟩
          have := linked.head_eq
          cases front <;> simpa using this
        have removed := (shape ▸ wellFormed).deleted unlinked first_data rfl
        rw [List.append_nil] at removed
        refine ⟨_, ?_, removed, deleted_data timer first_data⟩
        simp only [delTimer, notHead, last, false_and, if_false, if_true, Heap.load_some,
          timerFound, Option.bind_eq_bind, Option.bind_some, prev_eq, List.getLast?_append,
          List.getLast?_singleton, Option.some_or, setNext, firstEq, Option.map_some]
        exact delete_of_heap (firstTimer.trans timerFound)
    | cons right rest =>
        have notLast : lst.tail ≠ some timer := by
          rw [tail_eq]
          intro last
          have := List.mem_of_getLast? (by simpa using last : (right :: rest).getLast? = _)
          grind
        obtain ⟨first, second, firstEq, secondEq, second_data, secondTimer, unlinked⟩ :=
          linked.unlink_middle
        rw [List.append_cons] at unlinked
        have removed := (shape ▸ wellFormed).deleted unlinked second_data rfl
        rw [← List.append_cons] at removed
        refine ⟨_, ?_, removed, deleted_data timer second_data⟩
        simp only [delTimer, notHead, notLast, false_and, if_false, timerFound,
          Option.bind_eq_bind, Option.bind_some, prev_eq, next_eq, List.getLast?_append,
          List.getLast?_singleton, List.head?_cons, Option.some_or, setNext, setPrev,
          firstEq, secondEq, Option.map_some]
        exact delete_of_heap (secondTimer.trans timerFound)

/-! ## Every sequence of operations -/

/-- What a call does to the live timers. -/
def effect (data : Addr → Option TimerData) : Op → Addr → Option TimerData
  | .add timer new => Function.update data timer (some new)
  | .adjust timer expire =>
      Function.update data timer ((data timer).map fun old => { old with expire := expire })
  | .del timer => Function.update data timer none
  | .tick cur => fun timer => if expireAt data timer ≤ cur then none else data timer

theorem live_iff_data (lst : SortTimerLst) (timer : Addr) :
    lst.Live timer ↔ (lst.heap.data timer).isSome := by
  simp [Live, Heap.data]

theorem alloc_data (lst : SortTimerLst) (timer : Addr) (data : TimerData) :
    (lst.alloc timer data).heap.data = Function.update lst.heap.data timer (some data) := by
  have wrote : lst.heap.Wrote (lst.alloc timer data).heap timer ⟨data, none, none⟩ :=
    ⟨Function.update_self _ _ _, fun _ different => Function.update_of_ne different _ _⟩
  exact wrote.data_update

/-- A fresh timer is detached from the list it is allocated next to. -/
theorem WellFormed.alloc {lst : SortTimerLst} {cells : List Addr} {timer : Addr}
    (wellFormed : WellFormed lst cells) (notLive : ¬ lst.Live timer) (data : TimerData) :
    Detached (lst.alloc timer data) timer cells := by
  have fresh : timer ∉ cells := by
    rwa [← wellFormed.live_iff, ← live_iff_data]
  have wrote : lst.heap.Wrote (lst.alloc timer data).heap timer ⟨data, none, none⟩ :=
    ⟨Function.update_self _ _ _, fun _ different => Function.update_of_ne different _ _⟩
  refine ⟨⟨wellFormed.segment.frame wrote fresh, wellFormed.nodup, wellFormed.head_eq,
    wellFormed.tail_eq⟩, fresh, fun place => ?_, ?_, ?_⟩
  · rw [wrote.data_update]
    by_cases place_eq : place = timer
    · simp [place_eq]
    · rw [Function.update_of_ne place_eq, wellFormed.live_iff]
      simp [place_eq]
  · rw [SortTimerLst.alloc, wellFormed.allocated_eq]
  · rw [wrote.data_update]
    exact sorted_update wellFormed.sorted fresh _

/-- Increasing a timer's `expire` member and adjusting it keeps the list well
formed. -/
theorem WellFormed.adjust {lst : SortTimerLst} {cells : List Addr} {timer : Addr}
    {data : TimerData} {expire : Int} (wellFormed : WellFormed lst cells)
    (dataFound : lst.heap.data timer = some data) (le : data.expire ≤ expire) :
    ∃ other cells, lst.apply (.adjust timer expire) = some other ∧ WellFormed other cells ∧
      other.heap.data = effect lst.heap.data (.adjust timer expire) := by
  obtain ⟨cell, found, rfl⟩ := Heap.exists_cell_of_data dataFound
  obtain ⟨front, rest, rfl⟩ := List.append_of_mem
    ((wellFormed.live_iff timer).mp (by rw [dataFound]; rfl))
  obtain ⟨heap, write, wrote⟩ := Heap.modify_eq found fun cell =>
    { cell with val := { cell.val with expire := expire } }
  have outside : timer ∉ front ++ rest := by
    have := wellFormed.nodup
    grind
  have sublist : (front ++ rest).Sublist (front ++ timer :: rest) :=
    (List.sublist_cons_self timer rest).append_left front
  have linked : Linked { lst with heap := heap } (front ++ timer :: rest) :=
    ⟨wellFormed.segment.wrote_val found wrote, wellFormed.nodup, wellFormed.head_eq,
      wellFormed.tail_eq⟩
  have timerExpire : expireAt heap.data timer = expire := by
    rw [expireAt, wrote.data_update, Function.update_self]
    rfl
  obtain ⟨other, cells, adjust_eq, relinked, adjusted⟩ := adjustTimer_spec linked
    (fun place => by
      rw [wrote.data_update]
      by_cases place_eq : place = timer
      · simp [place_eq]
      · rw [Function.update_of_ne place_eq]
        exact wellFormed.live_iff place)
    wellFormed.allocated_eq
    (by
      rw [wrote.data_update]
      exact sorted_update (wellFormed.sorted.sublist sublist) outside _)
    (fun place mem => by
      have ordered := (List.pairwise_append.mp wellFormed.sorted).2.2 place mem timer (by simp)
      have timerOld := expireAt_of_heap found
      rw [timerExpire, wrote.data_update,
        expireAt_update_of_ne _ (by rintro rfl; exact outside (by simp [mem]))]
      omega)
  refine ⟨other, cells, by simp [apply, setExpire, write, adjust_eq], adjusted, ?_⟩
  rw [relinked.data_eq, wrote.data_update, effect, dataFound]
  rfl

/-- `tick` calls back and deletes the due timers and leaves the others as a well-formed
list. -/
theorem WellFormed.tick {lst : SortTimerLst} {cells : List Addr} (cur : Int)
    (wellFormed : WellFormed lst cells) :
    ∃ due rest other, cells = due ++ rest ∧ lst.apply (.tick cur) = some other ∧
      WellFormed other rest ∧ other.heap.data = effect lst.heap.data (.tick cur) ∧
      (∀ timer ∈ due, expireAt lst.heap.data timer ≤ cur) ∧
      other.calls = lst.calls ++ due.map (callOf lst.heap.data) := by
  rcases wellFormed.ascending.tick cur with
    ⟨due, rest, other, rfl, call_eq, linked, expired, le, lt⟩
  have nodup := wellFormed.nodup
  have other_data : other.heap.data = effect lst.heap.data (.tick cur) := by
    funext timer
    change other.heap.data timer =
      if expireAt lst.heap.data timer ≤ cur then none else lst.heap.data timer
    by_cases isDue : timer ∈ due
    · rw [if_pos (le timer isDue), Heap.data, expired.gone timer isDue]
      rfl
    · rw [expired.data_eq isDue]
      by_cases mem : timer ∈ rest
      · rw [if_neg (Int.not_le.mpr (lt timer mem))]
      · have absent : lst.heap.data timer = none := by
          rw [← Option.not_isSome_iff_eq_none, wellFormed.live_iff]
          simp [mem, isDue]
        rw [absent, ite_self]
  refine ⟨due, rest, other, rfl, call_eq, ⟨linked, ?_, ?_, ?_⟩, other_data, le,
    expired.calls_eq⟩
  · intro timer
    by_cases isDue : timer ∈ due
    · rw [Heap.data, expired.gone timer isDue]
      have outside : timer ∉ rest := by grind
      simp [outside]
    · rw [expired.data_eq isDue, wellFormed.live_iff]
      simp [isDue]
  · rw [expired.allocated_eq, wellFormed.allocated_eq, List.length_append,
      Nat.add_sub_cancel_left]
  · refine sorted_congr (List.pairwise_append.mp wellFormed.sorted).2.1 fun place mem => ?_
    have notDue : place ∉ due := by grind
    rw [expireAt, expired.data_eq notDue, expireAt]

/-- Every call that its user may make succeeds and keeps the list well formed. -/
theorem WellFormed.apply {lst : SortTimerLst} {cells : List Addr} {op : Op}
    (wellFormed : WellFormed lst cells) (allowed : lst.Allowed op) :
    ∃ other cells, lst.apply op = some other ∧ WellFormed other cells ∧
      other.heap.data = effect lst.heap.data op := by
  cases op with
  | add timer data =>
      obtain ⟨other, cells, call_eq, relinked, added⟩ :=
        (wellFormed.alloc allowed data).addTimer (Function.update_self _ _ _)
      exact ⟨other, cells, call_eq, added, relinked.data_eq.trans (alloc_data lst timer data)⟩
  | adjust timer expire =>
      obtain ⟨data, found, le⟩ := allowed
      exact wellFormed.adjust found le
  | del timer =>
      obtain ⟨front, rest, rfl⟩ := List.append_of_mem
        ((wellFormed.live_iff timer).mp ((live_iff_data lst timer).mp allowed))
      obtain ⟨other, call_eq, removed, data_eq⟩ := delTimer_spec wellFormed
      exact ⟨other, _, call_eq, removed, data_eq⟩
  | tick cur =>
      obtain ⟨-, rest, other, -, call_eq, remaining, data_eq, -⟩ := wellFormed.tick cur
      exact ⟨other, rest, call_eq, remaining, data_eq⟩

theorem wellFormed_empty : WellFormed empty [] :=
  ⟨⟨trivial, List.nodup_nil, rfl, fun nonempty => absurd rfl nonempty⟩,
    fun _ => by simp [empty, Heap.data], rfl, List.Pairwise.nil⟩

/-- Following `next` from `head` visits the linked cells. -/
theorem Linked.walk_eq {lst : SortTimerLst} {cells : List Addr} {before : Option Addr}
    (segment : Segment lst.heap before cells none) :
    lst.walk cells.length cells.head? = cells := by
  induction cells generalizing before with
  | nil => rfl
  | cons timer cells ih =>
      obtain ⟨⟨cell, found, -, next_eq⟩, rest⟩ := segment
      rw [Option.or_none] at next_eq
      simp only [List.length_cons, List.head?_cons, walk, found, Option.bind_some, next_eq,
        ih rest]

/-- A sequence of calls keeps the list well formed, and does to the timers what its calls
do one after the other. -/
theorem WellFormed.run {lst : SortTimerLst} {cells : List Addr} {ops : List Op}
    (wellFormed : WellFormed lst cells) (allowed : Meets SortTimerLst.apply Allowed lst ops) :
    ∃ other cells, Transition.run SortTimerLst.apply lst ops = some other ∧ WellFormed other cells ∧
      other.heap.data = ops.foldl effect lst.heap.data := by
  induction ops generalizing lst cells with
  | nil => exact ⟨lst, cells, rfl, wellFormed, rfl⟩
  | cons op ops ih =>
      rcases wellFormed.apply allowed.1 with ⟨middle, between, call_eq, kept, data_eq⟩
      rcases ih kept (allowed.2 middle call_eq) with ⟨other, cells, rest, last, fold_eq⟩
      refine ⟨other, cells, (run_cons_of_step call_eq ops).trans rest, last, ?_⟩
      rw [fold_eq, data_eq, List.foldl_cons]

/-- After every sequence of calls that the user of an initially empty list may
make, the live timers are those that the calls leave, and following `next` from `head`
visits each of them exactly once, ends at `tail`, has `prev` as its inverse, and meets
ascending expiry times. -/
theorem run_sorted_linked (ops : List Op) (allowed : Meets apply Allowed empty ops) :
    ∃ lst, Transition.run apply empty ops = some lst ∧
      lst.heap.data = ops.foldl effect (fun _ => none) ∧ ∃ cells,
      lst.walk lst.allocated lst.head = cells ∧ cells.Nodup ∧
      (∀ timer, timer ∈ cells ↔ lst.Live timer) ∧
      (lst.head ≠ none → cells.getLast? = lst.tail) ∧
      Segment lst.heap none cells none ∧
      cells.Pairwise fun first second =>
        expireAt lst.heap.data first ≤ expireAt lst.heap.data second := by
  rcases wellFormed_empty.run allowed with ⟨lst, cells, finished, wellFormed, data_eq⟩
  refine ⟨lst, finished, data_eq, cells, ?_, wellFormed.nodup, fun timer => ?_,
    fun nonempty => ?_, wellFormed.segment, wellFormed.sorted⟩
  · rw [wellFormed.allocated_eq, wellFormed.head_eq]
    exact Linked.walk_eq wellFormed.segment
  · rw [live_iff_data, wellFormed.live_iff]
  · refine (wellFormed.tail_eq ?_).symm
    rintro rfl
    exact nonempty wellFormed.head_eq

/-- Additions at both ends, a move to the back, an expiry and a deletion leave two of four
timers. -/
theorem run_sorted_linked_example :
    ∃ lst, Transition.run apply empty [.add 1 ⟨5, 0, 7⟩, .add 2 ⟨3, 0, 8⟩, .add 3 ⟨9, 0, 9⟩,
        .add 4 ⟨12, 0, 6⟩, .adjust 2 9, .tick 6, .del 3] = some lst ∧
      lst.heap.data 1 = none ∧ lst.heap.data 2 = some ⟨9, 0, 8⟩ ∧ lst.heap.data 3 = none ∧
      lst.heap.data 4 = some ⟨12, 0, 6⟩ ∧ ∃ cells,
      lst.walk lst.allocated lst.head = cells ∧ cells.Nodup ∧
      (∀ timer, timer ∈ cells ↔ lst.Live timer) ∧
      (lst.head ≠ none → cells.getLast? = lst.tail) ∧
      Segment lst.heap none cells none ∧
      cells.Pairwise fun first second =>
        expireAt lst.heap.data first ≤ expireAt lst.heap.data second := by
  rcases run_sorted_linked [.add 1 ⟨5, 0, 7⟩, .add 2 ⟨3, 0, 8⟩, .add 3 ⟨9, 0, 9⟩,
    .add 4 ⟨12, 0, 6⟩, .adjust 2 9, .tick 6, .del 3] (by decide) with
    ⟨lst, finished, data_eq, listed⟩
  refine ⟨lst, finished, ?_, ?_, ?_, ?_, listed⟩ <;> rw [data_eq] <;> rfl

end SortTimerLst

end NetPractice.Timer
