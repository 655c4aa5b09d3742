import NetPractice.Memory.LinkedList

/-!
# The ascending timer list

This module embeds `sort_timer_lst` of `ch11_timer/lst_timer.h`.  Timers are
heap cells; an invalid pointer access is an undefined result, so that a defined
result is also a memory-safety fact.  `tick` reads the clock once and calls the
timers' callbacks, which do not touch the list; the calls are recorded in order.
-/

namespace NetPractice.Timer

open NetPractice.Memory

/-- Addresses of `util_timer` objects. -/
abbrev Addr := Nat

/-- The data members of `util_timer` besides its two links.  `userData` names
the `client_data` object that is passed to the callback. -/
structure TimerData where
  expire : Int
  cbFunc : Nat
  userData : Nat
  deriving DecidableEq, Repr

/-- `util_timer`: its data and its `prev` and `next` links. -/
abbrev UtilTimer := Cell Addr TimerData

/-- The list object together with the heap of its timers.  `allocated` counts
the timers that are allocated and bounds the loops: a NULL-terminated walk
meets each of them at most once.  `calls` records the callback invocations. -/
structure SortTimerLst where
  heap : Heap Addr TimerData
  allocated : Nat
  head : Option Addr
  tail : Option Addr
  calls : List (Nat × Nat)

namespace SortTimerLst

/-- `sort_timer_lst()`, before any timer is allocated. -/
def empty : SortTimerLst where
  heap := fun _ => none
  allocated := 0
  head := none
  tail := none
  calls := []

/-- The assignment `pointer->next = link`. -/
def setNext (lst : SortTimerLst) (pointer link : Option Addr) : Option SortTimerLst :=
  (lst.heap.setNext pointer link).map fun heap => { lst with heap := heap }

/-- The assignment `pointer->prev = link`. -/
def setPrev (lst : SortTimerLst) (pointer link : Option Addr) : Option SortTimerLst :=
  (lst.heap.setPrev pointer link).map fun heap => { lst with heap := heap }

/-- `delete pointer`. -/
def delete (lst : SortTimerLst) (pointer : Option Addr) : Option SortTimerLst :=
  (lst.heap.free pointer).map fun heap =>
    { lst with heap := heap, allocated := lst.allocated - 1 }

/-- The `while` loop of the private `add_timer`, and the insertion at the end
when the loop runs off the list. -/
def addTimerLoop (timer : Addr) :
    Nat → Option Addr → Option Addr → SortTimerLst → Option SortTimerLst
  | _, prev, none, lst => do
      let lst ← lst.setNext prev (some timer)
      let lst ← lst.setPrev (some timer) prev
      let lst ← lst.setNext (some timer) none
      pure { lst with tail := some timer }
  | 0, _, some _, _ => none
  | fuel + 1, prev, some tmp, lst => do
      let timerCell ← lst.heap timer
      let tmpCell ← lst.heap tmp
      if timerCell.val.expire < tmpCell.val.expire then
        let lst ← lst.setNext prev (some timer)
        let lst ← lst.setNext (some timer) (some tmp)
        let lst ← lst.setPrev (some tmp) (some timer)
        lst.setPrev (some timer) prev
      else
        addTimerLoop timer fuel (some tmp) tmpCell.next lst

/-- The private `add_timer(timer, lst_head)`: insert behind `lst_head`. -/
def addTimerFrom (lst : SortTimerLst) (timer : Addr) (lstHead : Option Addr) :
    Option SortTimerLst := do
  let headCell ← lst.heap.load lstHead
  addTimerLoop timer lst.allocated lstHead headCell.next lst

/-- `add_timer(timer)`. -/
def addTimer (lst : SortTimerLst) : Option Addr → Option SortTimerLst
  | none => some lst
  | some timer =>
      match lst.head with
      | none => some { lst with head := some timer, tail := some timer }
      | some head => do
          let timerCell ← lst.heap timer
          let headCell ← lst.heap head
          if timerCell.val.expire < headCell.val.expire then
            let lst ← lst.setNext (some timer) (some head)
            let lst ← lst.setPrev (some head) (some timer)
            pure { lst with head := some timer }
          else
            lst.addTimerFrom timer (some head)

/-- `adjust_timer(timer)`. -/
def adjustTimer (lst : SortTimerLst) : Option Addr → Option SortTimerLst
  | none => some lst
  | some timer => do
      let timerCell ← lst.heap timer
      match timerCell.next with
      | none => some lst
      | some tmp =>
          let tmpCell ← lst.heap tmp
          if timerCell.val.expire < tmpCell.val.expire then
            some lst
          else if lst.head = some timer then
            -- `timer` is the head, so `head->next` is `timer->next`.
            let lst := { lst with head := timerCell.next }
            let lst ← lst.setPrev lst.head none
            let lst ← lst.setNext (some timer) none
            lst.addTimerFrom timer lst.head
          else
            let lst ← lst.setNext timerCell.prev timerCell.next
            let lst ← lst.setPrev timerCell.next timerCell.prev
            lst.addTimerFrom timer timerCell.next

/-- `del_timer(timer)`. -/
def delTimer (lst : SortTimerLst) : Option Addr → Option SortTimerLst
  | none => some lst
  | some timer =>
      if lst.head = some timer ∧ lst.tail = some timer then do
        let lst ← lst.delete (some timer)
        pure { lst with head := none, tail := none }
      else if lst.head = some timer then do
        let headCell ← lst.heap.load lst.head
        let lst := { lst with head := headCell.next }
        let lst ← lst.setPrev lst.head none
        lst.delete (some timer)
      else if lst.tail = some timer then do
        let tailCell ← lst.heap.load lst.tail
        let lst := { lst with tail := tailCell.prev }
        let lst ← lst.setNext lst.tail none
        lst.delete (some timer)
      else do
        let timerCell ← lst.heap timer
        let lst ← lst.setNext timerCell.prev timerCell.next
        let lst ← lst.setPrev timerCell.next timerCell.prev
        lst.delete (some timer)

/-- The `while` loop of `tick` at the time `cur`. -/
def tickLoop (cur : Int) : Nat → Option Addr → SortTimerLst → Option SortTimerLst
  | _, none, lst => some lst
  | 0, some _, _ => none
  | fuel + 1, some tmp, lst => do
      let tmpCell ← lst.heap tmp
      if cur < tmpCell.val.expire then
        some lst
      else
        let lst := { lst with
          calls := lst.calls ++ [(tmpCell.val.cbFunc, tmpCell.val.userData)]
          head := tmpCell.next }
        let lst ← if lst.head = none then some lst else lst.setPrev lst.head none
        let lst ← lst.delete (some tmp)
        tickLoop cur fuel lst.head lst

/-- `tick()`, where `time(NULL)` returns `cur`. -/
def tick (lst : SortTimerLst) (cur : Int) : Option SortTimerLst :=
  if lst.head = none then some lst else tickLoop cur lst.allocated lst.head lst

/-! ## What a user of the list does -/

/-- One call on the list by its user.  `add` allocates the timer with `new` and
fills it in, and `adjust` first assigns the timer's `expire` member. -/
inductive Op where
  | add (timer : Addr) (data : TimerData)
  | adjust (timer : Addr) (expire : Int)
  | del (timer : Addr)
  | tick (cur : Int)
  deriving DecidableEq, Repr

/-- `new util_timer`, followed by the assignments of the data members. -/
def alloc (lst : SortTimerLst) (timer : Addr) (data : TimerData) : SortTimerLst :=
  { lst with
    heap := Function.update lst.heap timer (some ⟨data, none, none⟩)
    allocated := lst.allocated + 1 }

/-- The assignment `timer->expire = expire`. -/
def setExpire (lst : SortTimerLst) (timer : Addr) (expire : Int) : Option SortTimerLst :=
  (lst.heap.modify (some timer) fun cell =>
    { cell with val := { cell.val with expire := expire } }).map
      fun heap => { lst with heap := heap }

/-- The effect of one call. -/
def apply (lst : SortTimerLst) : Op → Option SortTimerLst
  | .add timer data => (lst.alloc timer data).addTimer (some timer)
  | .adjust timer expire => do
      let lst ← lst.setExpire timer expire
      lst.adjustTimer (some timer)
  | .del timer => lst.delTimer (some timer)
  | .tick cur => lst.tick cur

/-- The timers that are live: allocated and not yet deleted. -/
def Live (lst : SortTimerLst) (timer : Addr) : Prop :=
  (lst.heap timer).isSome

/-- What the user of the list owes it: an added timer is fresh, an adjusted or
deleted one is live, and an adjusted timer's `expire` does not decrease. -/
def Allowed (lst : SortTimerLst) : Op → Prop
  | .add timer _ => ¬ lst.Live timer
  | .adjust timer expire =>
      ∃ data, lst.heap.data timer = some data ∧ data.expire ≤ expire
  | .del timer => lst.Live timer
  | .tick _ => True

instance (lst : SortTimerLst) : ∀ op, Decidable (lst.Allowed op)
  | .add timer _ => inferInstanceAs (Decidable (¬ (lst.heap timer).isSome))
  | .adjust timer expire =>
      match found : lst.heap.data timer with
      | none => isFalse (by simp [Allowed, found])
      | some data => decidable_of_iff (data.expire ≤ expire) (by simp [Allowed, found])
  | .del timer => inferInstanceAs (Decidable (lst.heap timer).isSome)
  | .tick _ => isTrue trivial

/-- The addresses visited by following `next` from a pointer. -/
def walk (lst : SortTimerLst) : Nat → Option Addr → List Addr
  | 0, _ | _, none => []
  | fuel + 1, some timer =>
      timer :: lst.walk fuel ((lst.heap timer).bind Cell.next)

end SortTimerLst

end NetPractice.Timer
