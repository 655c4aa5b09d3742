import NetPractice.Timer.Core

/-!
# The shape of the timer list

`Linked` is the shape of the list: `next` visits the cells from `head` to
`tail`, `prev` is its inverse, and both ends are NULL.  `Ascending` adds the
order of the expiry times.  Neither speaks about timers that are allocated but
not linked.  The insertion scan, which every operation that places a timer ends
with, is followed here.
-/

namespace NetPractice.Timer

open NetPractice.Memory

namespace SortTimerLst

/-- The expiry time stored at an address. -/
def expireAt (data : Addr → Option TimerData) (timer : Addr) : Int :=
  (data timer).elim 0 TimerData.expire

theorem expireAt_of_heap {lst : SortTimerLst} {timer : Addr} {cell : UtilTimer}
    (found : lst.heap timer = some cell) :
    expireAt lst.heap.data timer = cell.val.expire := by
  simp [expireAt, Heap.data, found]

/-- The list object holds the doubly linked list `cells`. -/
structure Linked (lst : SortTimerLst) (cells : List Addr) : Prop where
  segment : Segment lst.heap none cells none
  nodup : cells.Nodup
  head_eq : lst.head = cells.head?
  tail_eq : cells ≠ [] → lst.tail = cells.getLast?

/-- Only links, `head` and `tail` differ. -/
structure Relinked (lst other : SortTimerLst) : Prop where
  data_eq : other.heap.data = lst.heap.data
  allocated_eq : other.allocated = lst.allocated
  calls_eq : other.calls = lst.calls

theorem Relinked.trans {lst mid other : SortTimerLst} (first : Relinked lst mid)
    (second : Relinked mid other) : Relinked lst other where
  data_eq := second.data_eq.trans first.data_eq
  allocated_eq := second.allocated_eq.trans first.allocated_eq
  calls_eq := second.calls_eq.trans first.calls_eq

/-- The list without the cell of a timer. -/
def deleted (lst : SortTimerLst) (timer : Addr) : SortTimerLst :=
  { lst with
    heap := Function.update lst.heap timer none
    allocated := lst.allocated - 1 }

theorem delete_of_heap {lst : SortTimerLst} {timer : Addr} {cell : UtilTimer}
    (found : lst.heap timer = some cell) :
    lst.delete (some timer) = some (lst.deleted timer) := by
  simp [delete, deleted, Heap.free_eq found]

/-! ## Removal -/

/-- A timer behind another one is not the head. -/
theorem Linked.head_ne {lst : SortTimerLst} {timer left : Addr} {front rest : List Addr}
    (linked : Linked lst (front ++ left :: timer :: rest)) : lst.head ≠ some timer := by
  have nodup := linked.nodup
  rw [linked.head_eq]
  cases front <;> grind

/-- The list behind its head, once its first cell has no predecessor. -/
theorem Linked.unlink_first {lst : SortTimerLst} {timer right : Addr} {rest : List Addr}
    (linked : Linked lst (timer :: right :: rest)) :
    ∃ first, lst.heap.setPrev (some right) none = some first ∧
      first.data = lst.heap.data ∧ first timer = lst.heap timer ∧
      Linked { lst with heap := first, head := some right } (right :: rest) := by
  rcases linked.segment.unlink_first linked.nodup none with
    ⟨first, firstEq, first_data, firstTimer, segment⟩
  refine ⟨first, firstEq, first_data, firstTimer, segment, ?_, rfl, fun _ => ?_⟩
  · exact (List.nodup_cons.mp linked.nodup).2
  · simpa using linked.tail_eq (by simp)

/-- The list around a timer, once its neighbours are linked. -/
theorem Linked.unlink_middle {lst : SortTimerLst} {timer left right : Addr}
    {front rest : List Addr}
    (linked : Linked lst (front ++ left :: timer :: right :: rest)) :
    ∃ first second,
      lst.heap.setNext (some left) (some right) = some first ∧
      first.setPrev (some right) (some left) = some second ∧
      second.data = lst.heap.data ∧ second timer = lst.heap timer ∧
      Linked { lst with heap := second } (front ++ left :: right :: rest) := by
  have nodup := linked.nodup
  rcases linked.segment.unlink_middle nodup with
    ⟨first, second, firstEq, secondEq, second_data, secondTimer, segment⟩
  refine ⟨first, second, firstEq, secondEq, second_data, secondTimer, segment, by grind, ?_,
    fun _ => by simpa using linked.tail_eq (by simp)⟩
  rw [linked.head_eq]
  cases front <;> rfl

/-! ## Insertion -/

/-- The insertion scan links the timer behind the cells that expire no later,
and in front of the first cell that expires later. -/
theorem addTimerLoop_spec {timer : Addr} {timerCell : UtilTimer} {fuel : Nat}
    {lst : SortTimerLst} {front rest : List Addr} {prev : Addr}
    (linked : Linked lst (front ++ prev :: rest))
    (fresh : timer ∉ front ++ prev :: rest)
    (found : lst.heap timer = some timerCell) (enough : rest.length ≤ fuel) :
    ∃ before after other, rest = before ++ after ∧
      addTimerLoop timer fuel (some prev) rest.head? lst = some other ∧
      Linked other (front ++ prev :: (before ++ timer :: after)) ∧ Relinked lst other ∧
      (∀ place ∈ before, expireAt lst.heap.data place ≤ timerCell.val.expire) ∧
      (∀ place ∈ after.head?, timerCell.val.expire < expireAt lst.heap.data place) := by
  induction rest generalizing front prev fuel with
  | nil =>
      have outside : prev ∉ front := by
        have := linked.nodup
        grind
      obtain ⟨first, second, third, firstEq, secondEq, thirdEq, data_eq, segment⟩ :=
        linked.segment.insert_last outside fresh found none
      refine ⟨[], [], { lst with heap := third, tail := some timer }, rfl, ?_, ?_, ?_, ?_, ?_⟩
      · simp [addTimerLoop, setNext, setPrev, firstEq, secondEq, thirdEq]
      · refine ⟨by simpa using segment, ?_, ?_, fun _ => by simp⟩
        · have := linked.nodup
          grind
        · simpa using linked.head_eq
      · exact ⟨data_eq, rfl, rfl⟩
      · simp
      · simp
  | cons tmp rest ih =>
      obtain ⟨tmpCell, tmpFound⟩ := linked.segment.exists_cell (by simp : tmp ∈ _)
      obtain ⟨fuel, rfl⟩ : ∃ smaller, fuel = smaller + 1 :=
        Nat.exists_eq_succ_of_ne_zero (by simp at enough; omega)
      by_cases earlier : timerCell.val.expire < tmpCell.val.expire
      · -- The scan stops here: `timer` goes between `prev` and `tmp`.
        obtain ⟨first, second, third, fourth, firstEq, secondEq, thirdEq, fourthEq,
          data_eq, segment⟩ := linked.segment.insert_middle linked.nodup fresh found
        refine ⟨[], tmp :: rest, { lst with heap := fourth }, rfl, ?_, ?_, ?_, ?_, ?_⟩
        · simp [addTimerLoop, found, tmpFound, earlier, setNext, setPrev, firstEq,
            secondEq, thirdEq, fourthEq]
        · refine ⟨segment, ?_, ?_, fun _ => ?_⟩
          · have := linked.nodup
            grind
          · simpa using linked.head_eq
          · simpa using linked.tail_eq (by simp)
        · exact ⟨data_eq, rfl, rfl⟩
        · simp
        · simpa [expireAt_of_heap tmpFound] using earlier
      · -- The scan advances; the cell it passed expires no later.
        have shape : front ++ prev :: tmp :: rest = (front ++ [prev]) ++ tmp :: rest := by simp
        have tmpNext : tmpCell.next = rest.head? := by
          have links := (shape ▸ linked.segment).links_eq tmpFound
          simpa using links.2
        obtain ⟨before, after, other, rest_eq, loop_eq, otherLinked, relinked, le, lt⟩ :=
          ih (by simpa using linked : Linked lst ((front ++ [prev]) ++ tmp :: rest))
            (by simpa using fresh) (by simpa using enough)
        refine ⟨tmp :: before, after, other, by simp [rest_eq], ?_, by simpa using otherLinked,
          relinked, ?_, lt⟩
        · simp only [addTimerLoop, List.head?_cons, found, tmpFound, Option.bind_eq_bind,
            Option.bind_some, if_neg earlier, tmpNext]
          exact loop_eq
        · intro place mem
          rcases List.mem_cons.mp mem with rfl | mem
          · rw [expireAt_of_heap tmpFound]
            omega
          · exact le place mem

theorem addTimerFrom_spec {timer : Addr} {timerCell : UtilTimer} {lst : SortTimerLst}
    {front rest : List Addr} {lstHead : Addr}
    (linked : Linked lst (front ++ lstHead :: rest))
    (fresh : timer ∉ front ++ lstHead :: rest)
    (found : lst.heap timer = some timerCell) (enough : rest.length ≤ lst.allocated) :
    ∃ before after other, rest = before ++ after ∧
      lst.addTimerFrom timer (some lstHead) = some other ∧
      Linked other (front ++ lstHead :: (before ++ timer :: after)) ∧ Relinked lst other ∧
      (∀ place ∈ before, expireAt lst.heap.data place ≤ timerCell.val.expire) ∧
      (∀ place ∈ after.head?, timerCell.val.expire < expireAt lst.heap.data place) := by
  obtain ⟨headCell, headFound⟩ := linked.segment.exists_cell (by simp : lstHead ∈ _)
  have headNext := (linked.segment.links_eq headFound).2
  obtain ⟨before, after, other, rest_eq, loop_eq, spec⟩ :=
    addTimerLoop_spec linked fresh found enough
  refine ⟨before, after, other, rest_eq, ?_, spec⟩
  simp only [addTimerFrom, Heap.load_some, headFound, Option.bind_eq_bind, Option.bind_some,
    headNext, Option.or_none]
  exact loop_eq

/-- The order of a list depends on the expiry times of its own timers only. -/
theorem sorted_congr {data other : Addr → Option TimerData} {cells : List Addr}
    (sorted : cells.Pairwise fun first second => expireAt data first ≤ expireAt data second)
    (agree : ∀ place ∈ cells, expireAt other place = expireAt data place) :
    cells.Pairwise fun first second => expireAt other first ≤ expireAt other second := by
  refine sorted.imp_of_mem fun {first second} firstMem secondMem le => ?_
  rwa [agree first firstMem, agree second secondMem]

/-- Inserting between the earlier and the later cells keeps the order. -/
theorem sorted_insert {data : Addr → Option TimerData} {before after : List Addr}
    {timer : Addr}
    (sorted : (before ++ after).Pairwise fun first second =>
      expireAt data first ≤ expireAt data second)
    (le : ∀ place ∈ before, expireAt data place ≤ expireAt data timer)
    (lt : ∀ place ∈ after.head?, expireAt data timer < expireAt data place) :
    (before ++ timer :: after).Pairwise fun first second =>
      expireAt data first ≤ expireAt data second := by
  rw [List.pairwise_append] at sorted ⊢
  obtain ⟨beforeSorted, afterSorted, across⟩ := sorted
  have later : ∀ place ∈ after, expireAt data timer ≤ expireAt data place := by
    cases after with
    | nil => simp
    | cons first rest =>
        have first_lt := lt first (by simp)
        intro place mem
        rcases List.mem_cons.mp mem with rfl | mem
        · omega
        · have := (List.pairwise_cons.mp afterSorted).1 place mem
          omega
  refine ⟨beforeSorted, List.pairwise_cons.mpr ⟨later, afterSorted⟩, ?_⟩
  intro place placeMem other otherMem
  rcases List.mem_cons.mp otherMem with rfl | otherMem
  · exact le place placeMem
  · exact across place placeMem other otherMem

/-- The private `add_timer`, started at a cell of an ascending list that expires no
later than the timer, links the timer at its place. -/
theorem Linked.addTimerFrom {lst : SortTimerLst} {timer : Addr} {timerCell : UtilTimer}
    {front rest : List Addr} {lstHead : Addr}
    (linked : Linked lst (front ++ lstHead :: rest))
    (fresh : timer ∉ front ++ lstHead :: rest)
    (found : lst.heap timer = some timerCell) (enough : rest.length ≤ lst.allocated)
    (sorted : (front ++ lstHead :: rest).Pairwise fun first second =>
      expireAt lst.heap.data first ≤ expireAt lst.heap.data second)
    (start : expireAt lst.heap.data lstHead ≤ expireAt lst.heap.data timer) :
    ∃ before after other, front ++ lstHead :: rest = before ++ after ∧
      lst.addTimerFrom timer (some lstHead) = some other ∧ Relinked lst other ∧
      Linked other (before ++ timer :: after) ∧
      (∀ place ∈ before, expireAt lst.heap.data place ≤ expireAt lst.heap.data timer) ∧
      (∀ place ∈ after.head?, expireAt lst.heap.data timer < expireAt lst.heap.data place) := by
  rcases addTimerFrom_spec linked fresh found enough with
    ⟨before, after, other, rfl, call_eq, otherLinked, relinked, le, lt⟩
  rw [← expireAt_of_heap found] at le lt
  refine ⟨front ++ lstHead :: before, after, other, by simp, call_eq, relinked,
    by simpa using otherLinked, ?_, lt⟩
  intro place mem
  rcases List.mem_append.mp mem with mem | mem
  · -- The cells in front of `lstHead` expire no later than it does.
    have ordered := (List.pairwise_append.mp sorted).2.2 place mem lstHead (by simp)
    exact Int.le_trans ordered start
  · rcases List.mem_cons.mp mem with rfl | mem
    · exact start
    · exact le place mem

/-- A list object whose linked timers are in ascending order of their expiry times. -/
structure Ascending (lst : SortTimerLst) (cells : List Addr) : Prop
    extends Linked lst cells where
  enough : cells.length ≤ lst.allocated
  sorted : cells.Pairwise fun first second =>
    expireAt lst.heap.data first ≤ expireAt lst.heap.data second

end SortTimerLst

end NetPractice.Timer
