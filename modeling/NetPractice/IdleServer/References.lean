import NetPractice.IdleServer.Correspondence
import NetPractice.IdleServer.Frames

/-!
# References to timers

A timer is referred to by its neighbours, by the two ends of the list and by the entry
of its client in `users`.  Neither `tick` nor `del_timer` clears `users[fd].timer`,
and `tick` leaves `tail` alone when it deletes the last timer, which `del_timer` does
not.  So the references are right at a return to `epoll_wait` only as long as every
connection that was closed has been replaced by a new one with its descriptor, and no
timer has expired.
-/

namespace NetPractice.Timer.SortTimerLst

/-- Nothing happens in `tick` when no timer is due. -/
theorem WellFormed.tick_notDue {lst : SortTimerLst} {cells : List Addr} {cur : Int}
    (wellFormed : WellFormed lst cells)
    (notDue : ∀ timer ∈ cells, cur < expireAt lst.heap.data timer) :
    lst.tick cur = some lst := by
  unfold SortTimerLst.tick
  cases cells with
  | nil => exact if_pos wellFormed.head_eq
  | cons timer rest =>
      rcases wellFormed.segment.exists_cell List.mem_cons_self with ⟨cell, found⟩
      have later := notDue timer List.mem_cons_self
      rw [expireAt_of_heap found] at later
      have head : lst.head = some timer := wellFormed.head_eq
      have some_ne : lst.head ≠ none := by
        rw [head]
        exact Option.some_ne_none timer
      rw [if_neg some_ne, head, wellFormed.allocated_eq, List.length_cons, tickLoop, found]
      exact if_pos later

theorem WellFormed.head_ne_none {lst : SortTimerLst} {cells : List Addr} {timer : Addr}
    (wellFormed : WellFormed lst cells) (live : (lst.heap.data timer).isSome) :
    lst.head ≠ none := by
  have mem := (wellFormed.live_iff timer).mp live
  rw [wellFormed.head_eq]
  cases cells with
  | nil => cases mem
  | cons first rest => exact Option.some_ne_none first

/-- Every call but `tick` clears `tail` when it empties the list. -/
theorem WellFormed.ends_of_apply {lst other : SortTimerLst} {cells : List Addr} {op : Op}
    (wellFormed : WellFormed lst cells) (allowed : lst.Allowed op)
    (notTick : ∀ cur, op ≠ .tick cur) (step : lst.apply op = some other)
    (noHead : other.head = none) : other.tail = none := by
  rcases wellFormed.apply allowed with ⟨same, after, step', afterFormed, data_eq⟩
  obtain rfl : other = same := Option.some.inj (step.symm.trans step')
  cases op with
  | add timer data =>
      have live : (other.heap.data timer).isSome := by
        rw [data_eq, effect, Function.update_self]
        rfl
      exact absurd noHead (afterFormed.head_ne_none live)
  | adjust timer expire =>
      rcases allowed with ⟨data, found, -⟩
      have live : (other.heap.data timer).isSome := by
        rw [data_eq, effect, Function.update_self, found]
        rfl
      exact absurd noHead (afterFormed.head_ne_none live)
  | del timer =>
      have mem := (wellFormed.live_iff timer).mp ((live_iff_data lst timer).mp allowed)
      rcases List.append_of_mem mem with ⟨front, rest, rfl⟩
      rcases delTimer_spec wellFormed with ⟨removed, call_eq, left, -⟩
      obtain rfl : other = removed := Option.some.inj (step.symm.trans call_eq)
      have empty : front ++ rest = [] := by
        have head_eq := left.head_eq
        rw [noHead] at head_eq
        exact List.head?_eq_none_iff.mp head_eq.symm
      rcases List.append_eq_nil_iff.mp empty with ⟨rfl, rfl⟩
      have head : lst.head = some timer := wellFormed.head_eq
      have tail : lst.tail = some timer := wellFormed.tail_eq (List.cons_ne_nil timer [])
      change lst.delTimer (some timer) = some other at step
      rw [delTimer, if_pos ⟨head, tail⟩] at step
      rcases Option.bind_eq_some_iff.mp step with ⟨middle, -, cleared⟩
      cases cleared
      rfl
  | tick cur => exact absurd rfl (notTick cur)

end NetPractice.Timer.SortTimerLst

namespace NetPractice.IdleServer

open NetPractice.Timer
open NetPractice.Transition

namespace Server

/-- Every stored pointer to a timer is NULL or points to the timer that it was stored
for, which has not been deleted. -/
structure LiveReferences (s : Server) : Prop where
  head : ∀ timer ∈ s.timerLst.head, s.timerLst.Live timer
  tail : ∀ timer ∈ s.timerLst.tail, s.timerLst.Live timer
  users : ∀ fd user, s.users fd = some user → ∀ timer ∈ user.timer,
    ∃ data, s.timerLst.heap.data timer = some data ∧ data.userData = fd
  ends : s.timerLst.head = none ↔ s.timerLst.tail = none

/-- At `timer_handler`, every entry of `users` is that of an open connection that is not
due. -/
def KeepsReferences (s : Server) : Event → Prop
  | .tick now => ∀ fd, s.users fd ≠ none → fd ∈ s.clients ∧ now < s.heard fd + 3 * TIMESLOT
  | _ => True

/-- The invariant behind `LiveReferences`. -/
structure Referenced (s : Server) : Prop extends Inv s where
  tailCleared : s.timerLst.head = none → s.timerLst.tail = none
  named : ∀ fd user, s.users fd = some user → ∃ timer, user.timer = some timer
  recorded : s.pending = none → ∀ fd, s.users fd ≠ none → fd ∈ s.clients

variable {s t : Server}

theorem Referenced.liveReferences (referenced : Referenced s) (waits : s.pending = none) :
    LiveReferences s := by
  rcases referenced.cells with ⟨cells, wellFormed⟩
  have live : ∀ timer ∈ cells, s.timerLst.Live timer := by
    intro timer mem
    rw [SortTimerLst.live_iff_data]
    exact (wellFormed.live_iff timer).mpr mem
  have tail_eq : ∀ timer ∈ s.timerLst.tail, cells ≠ [] := by
    rintro timer mem rfl
    rw [referenced.tailCleared wellFormed.head_eq] at mem
    cases mem
  constructor
  · intro timer mem
    rw [wellFormed.head_eq] at mem
    exact live timer (List.mem_of_mem_head? mem)
  · intro timer mem
    have nonempty := tail_eq timer mem
    rw [wellFormed.tail_eq nonempty] at mem
    exact live timer (List.mem_of_mem_getLast? mem)
  · intro fd user stored timer mem
    have client := referenced.recorded waits fd (by rw [stored]; exact Option.some_ne_none user)
    rcases referenced.matched.owns fd client with ⟨owned, pair⟩
    obtain rfl := Option.some.inj (stored.symm.trans pair.user)
    cases mem
    exact ⟨_, pair.data, rfl⟩
  · constructor
    · exact referenced.tailCleared
    · intro noTail
      rw [wellFormed.head_eq]
      cases cells with
      | nil => rfl
      | cons first rest =>
          have last := wellFormed.tail_eq (List.cons_ne_nil first rest)
          rw [noTail, List.getLast?_eq_getLast_of_ne_nil (List.cons_ne_nil first rest)] at last
          cases last

/-! ## Steps that keep the references -/

/-- The call that a branch makes on the list. -/
theorem Inv.receive_call {fd : Nat} {ret : Int} {again : Bool} (inv : Inv s)
    (mem : fd ∈ s.clients) {heard : Nat → Int}
    (step : ({ s with heard := heard } : Server).receive fd ret again s.now = some t) :
    t.timerLst = s.timerLst ∨ ∃ op, s.timerLst.Allowed op ∧ (∀ cur, op ≠ .tick cur) ∧
      s.timerLst.apply op = some t.timerLst := by
  rcases inv.matched.owns fd mem with ⟨timer, pair⟩
  have live : s.timerLst.Live timer := by
    rw [SortTimerLst.live_iff_data, pair.data]
    rfl
  have closes : (({ s with heard := heard } : Server).cbFunc fd).bind
        (fun s => s.delTimer (some timer)) = some t →
      ∃ op, s.timerLst.Allowed op ∧ (∀ cur, op ≠ .tick cur) ∧
        s.timerLst.apply op = some t.timerLst := by
    intro closed
    rcases Option.bind_eq_some_iff.mp closed with ⟨middle, called, deleted⟩
    rcases Option.bind_eq_some_iff.mp called with ⟨user, -, taken⟩
    cases taken
    rcases Option.map_eq_some_iff.mp deleted with ⟨lst, apply_eq, rfl⟩
    exact ⟨.del timer, live, fun _ => SortTimerLst.Op.noConfusion, apply_eq⟩
  unfold Server.receive at step
  dsimp only at step
  rw [pair.user] at step
  simp only [Option.bind_eq_bind, Option.bind_some] at step
  split at step
  · split at step
    · cases step
      exact Or.inl rfl
    · exact Or.inr (closes step)
  · split at step
    · exact Or.inr (closes step)
    · rcases Option.bind_eq_some_iff.mp step with ⟨lst, apply_eq, taken⟩
      cases taken
      have later := Int.add_le_add_right (inv.heard fd mem) (3 * TIMESLOT)
      exact Or.inr ⟨.adjust timer _, ⟨_, pair.data, later⟩,
        fun _ => SortTimerLst.Op.noConfusion, apply_eq⟩

theorem Inv.tailCleared {op : SortTimerLst.Op} (inv : Inv s) (allowed : s.timerLst.Allowed op)
    (notTick : ∀ cur, op ≠ .tick cur) {lst : SortTimerLst}
    (step : s.timerLst.apply op = some lst) (noHead : lst.head = none) : lst.tail = none := by
  rcases inv.cells with ⟨cells, wellFormed⟩
  exact wellFormed.ends_of_apply allowed notTick step noHead

/-- `timer_handler` changes nothing when no client is due. -/
theorem Inv.timerHandler_notDue {now : Int} (inv : Inv s)
    (notDue : ∀ fd ∈ s.clients, now < s.heard fd + 3 * TIMESLOT) :
    ({ s with pending := none, now := now } : Server).timerHandler now =
      some { s with pending := none, now := now } := by
  rcases inv.cells with ⟨cells, wellFormed⟩
  have ticked : s.timerLst.tick now = some s.timerLst := by
    apply wellFormed.tick_notDue
    intro timer mem
    rcases inv.matched.owned timer ((wellFormed.live_iff timer).mpr mem) with ⟨fd, client, pair⟩
    rw [← Int.not_le, pair.due_iff, Int.not_le]
    exact notDue fd client
  unfold Server.timerHandler
  change (s.timerLst.tick now).bind _ = _
  rw [ticked, Option.bind_some, List.drop_length]
  rfl

/-- A new connection gets an entry with its timer. -/
theorem Referenced.accept {connfd : Nat} {timer : Addr} {now : Int} {rest : List Report}
    (referenced : Referenced s) (inv : Inv t) (below : connfd < FD_LIMIT)
    (notLive : ¬ s.timerLst.Live timer)
    {heard : Nat → Int}
    (step : ({ s with pending := some rest, now := now, heard := heard } : Server).accept connfd
      timer now = some t) : Referenced t := by
  have frame := accept_frame step
  unfold Server.accept at step
  rw [if_pos below] at step
  rcases Option.map_eq_some_iff.mp step with ⟨lst, added, rfl⟩
  refine ⟨inv, ?_, ?_, ?_⟩
  · intro noHead
    have addable : s.timerLst.Allowed
        (.add timer ⟨now + 3 * TIMESLOT, cb_func, connfd⟩) := notLive
    exact referenced.toInv.tailCleared addable (fun _ => SortTimerLst.Op.noConfusion) added noHead
  · intro fd user stored
    change Function.update s.users connfd _ fd = some user at stored
    rw [Function.update_apply] at stored
    split at stored
    · cases stored
      exact ⟨timer, rfl⟩
    · exact referenced.named fd user stored
  · intro waits
    cases frame.pending_eq.symm.trans waits

/-- The branch of a client leaves the entries alone. -/
theorem Referenced.receive {fd : Nat} {ret : Int} {again : Bool} {now : Int}
    {rest : List Report} (referenced : Referenced s) (inv : Inv t)
    (advanced : Inv { s with pending := some rest, now := now }) (client : fd ∈ s.clients)
    {heard : Nat → Int}
    (step : ({ s with pending := some rest, now := now, heard := heard } : Server).receive fd ret
      again now = some t) : Referenced t := by
  have frame := receive_frame step
  refine ⟨inv, ?_, ?_, ?_⟩
  · intro noHead
    rcases advanced.receive_call client step with same | ⟨op, opAllowed, notTick, apply_eq⟩
    · rw [same] at noHead ⊢
      exact referenced.tailCleared noHead
    · exact referenced.toInv.tailCleared opAllowed notTick apply_eq noHead
  · intro fd user stored
    rw [frame.users_eq] at stored
    exact referenced.named fd user stored
  · intro waits
    cases frame.pending_eq.symm.trans waits

/-- A step of the program that the environment allows keeps the invariant when it keeps
the references. -/
theorem Referenced.next {event : Event} (referenced : Referenced s) (allowed : s.Allowed event)
    (keeps : s.KeepsReferences event) (step : s.next event = some t) : Referenced t := by
  have inv : Inv t := by
    rcases referenced.toInv.next allowed with ⟨same, step', inv⟩
    obtain rfl : t = same := Option.some.inj (step.symm.trans step')
    exact inv
  rcases allowed with ⟨-, answers⟩
  cases event with
  | wait reports =>
      simp only [Server.next, Option.ite_none_right_eq_some, Option.some.injEq] at step
      rcases step with ⟨-, rfl⟩
      exact ⟨inv, referenced.tailCleared, referenced.named, fun waits => by cases waits⟩
  | accept connfd timer now =>
      rcases Server.next_accept step with ⟨report, rest, -, -, accepted⟩
      rcases answers with ⟨below, -, -, -, notLive, -⟩
      exact referenced.accept inv below notLive accepted
  | signals received =>
      rcases Server.next_signals step with ⟨report, rest, -, -, taken⟩
      cases taken
      exact ⟨inv, referenced.tailCleared, referenced.named, fun waits => by cases waits⟩
  | recv ret again now =>
      rcases Server.next_recv step with ⟨report, rest, pending, branch, received⟩
      have client := (referenced.reports _ pending).client branch
      exact referenced.receive inv (referenced.toInv.advance pending answers) client received
  | other =>
      rcases Server.next_other step with ⟨report, rest, -, -, taken⟩
      cases taken
      exact ⟨inv, referenced.tailCleared, referenced.named, fun waits => by cases waits⟩
  | tick now =>
      have ticked := (Server.next_tick step).2
      have notDue : ∀ fd ∈ s.clients, now < s.heard fd + 3 * TIMESLOT := by
        intro fd client
        rcases referenced.matched.owns fd client with ⟨timer, pair⟩
        exact (keeps fd (by rw [pair.user]; exact Option.some_ne_none _)).2
      rw [referenced.toInv.timerHandler_notDue notDue] at ticked
      cases ticked
      exact ⟨inv, referenced.tailCleared, referenced.named, fun _ fd stored => (keeps fd stored).1⟩

/-- The entry of a connection that is closed or due loses its timer. -/
theorem Referenced.dangles {event : Event} (referenced : Referenced s)
    (allowed : s.Allowed event) (loses : ¬ s.KeepsReferences event)
    (step : s.next event = some t) : ¬ (t.pending = none → LiveReferences t) := by
  rcases referenced.toInv.next allowed with ⟨same, step', inv⟩
  obtain rfl : t = same := Option.some.inj (step.symm.trans step')
  cases event with
  | wait | accept | signals | recv | other => exact absurd trivial loses
  | tick now =>
      simp only [KeepsReferences, not_forall] at loses
      rcases loses with ⟨fd, stored, lost⟩
      have frame := timerHandler_frame (Server.next_tick step).2
      have waits : t.pending = none := frame.pending_eq
      intro references
      rcases Option.ne_none_iff_exists'.mp stored with ⟨user, user_eq⟩
      rcases referenced.named fd user user_eq with ⟨timer, timer_eq⟩
      have kept : t.users fd = some user := (congrFun frame.users_eq fd).trans user_eq
      rcases (references waits).users fd user kept timer timer_eq with ⟨data, found, owner⟩
      rcases inv.matched.owned timer (by rw [found]; rfl) with ⟨client, mem, pair⟩
      obtain rfl : data = ⟨_, _, _⟩ := Option.some.inj (found.symm.trans pair.data)
      obtain rfl : client = fd := owner
      have fresh := inv.fresh waits client mem
      rw [frame.now_eq, frame.heard_eq] at fresh
      exact lost ⟨frame.clients mem, fresh⟩

theorem start_referenced (listenfd pipefd : Nat) (now : Int) :
    Referenced (start listenfd pipefd now) where
  toInv := start_inv listenfd pipefd now
  tailCleared _ := rfl
  named _ _ stored := by cases stored
  recorded _ _ stored := absurd rfl stored

/-! ## Runs -/

/-- At every return to `epoll_wait` the stored pointers are NULL or live exactly as long
as each turn ends with entries of open connections only, none of which is due. -/
theorem liveReferences_along_iff (listenfd pipefd : Nat) (now : Int) {events : List Event}
    (allowed : Meets next Allowed (start listenfd pipefd now) events) :
    Along next (fun s => s.pending = none → LiveReferences s) (start listenfd pipefd now) events ↔
      Meets next KeepsReferences (start listenfd pipefd now) events := by
  rcases corresponds_of_allowed listenfd pipefd now allowed with ⟨t, finished, -⟩
  exact along_iff_meets_of_allowed
    (fun _ _ _ referenced guarded step => referenced.next guarded.1 guarded.2 step)
    (fun _ referenced => referenced.liveReferences)
    (fun _ _ _ referenced allowed loses step => referenced.dangles allowed loses step)
    (start_referenced listenfd pipefd now) allowed finished

/-! ## Clients that stay -/

/-- Only these descriptors have been given to clients. -/
def Among (fds : List Nat) (s : Server) : Prop :=
  ∀ fd, s.users fd ≠ none → fd ∈ fds

/-- As `KeepsReferences`, where only these descriptors are given to clients. -/
def KeepsAmong (fds : List Nat) (s : Server) : Event → Prop
  | .accept connfd _ _ => connfd ∈ fds
  | .tick now =>
      ∀ fd ∈ fds, s.users fd ≠ none → fd ∈ s.clients ∧ now < s.heard fd + 3 * TIMESLOT
  | _ => True

instance (fds : List Nat) (s : Server) : ∀ event, Decidable (KeepsAmong fds s event)
  | .accept connfd _ _ => inferInstanceAs (Decidable (connfd ∈ fds))
  | .tick _ => inferInstanceAs (Decidable (∀ _ ∈ fds, _))
  | .wait _ | .signals _ | .recv _ _ _ | .other => isTrue trivial

theorem among_preserved (fds : List Nat) : Preserves next (KeepsAmong fds) (Among fds) := by
  intro s event t among keeps step fd stored
  cases event with
  | wait reports =>
      simp only [Server.next, Option.ite_none_right_eq_some, Option.some.injEq] at step
      rcases step with ⟨-, rfl⟩
      exact among fd stored
  | accept connfd timer now =>
      rcases Server.next_accept step with ⟨report, rest, -, -, accepted⟩
      unfold Server.accept at accepted
      rcases Option.ite_none_right_eq_some.mp accepted with ⟨-, added⟩
      rcases Option.map_eq_some_iff.mp added with ⟨lst, -, rfl⟩
      by_cases here : fd = connfd
      · rw [here]
        exact keeps
      · dsimp only at stored
        rw [Function.update_of_ne here] at stored
        exact among fd stored
  | signals received =>
      rcases Server.next_signals step with ⟨report, rest, -, -, taken⟩
      cases taken
      exact among fd stored
  | recv ret again now =>
      rcases Server.next_recv step with ⟨report, rest, -, -, received⟩
      rw [(receive_frame received).users_eq] at stored
      exact among fd stored
  | other =>
      rcases Server.next_other step with ⟨report, rest, -, -, taken⟩
      cases taken
      exact among fd stored
  | tick now =>
      rw [(timerHandler_frame (Server.next_tick step).2).users_eq] at stored
      exact among fd stored

theorem Among.keepsReferences {fds : List Nat} {event : Event} (among : Among fds s)
    (keeps : KeepsAmong fds s event) : s.KeepsReferences event := by
  cases event with
  | tick now => exact fun fd stored => keeps fd (among fd stored) stored
  | wait | accept | signals | recv | other => trivial

/-- The client 7 sends something, and is not due at 1016. -/
def renewing : List Event :=
  [.wait [⟨3, true⟩], .accept 7 100 1000, .tick 1000,
    .wait [⟨3, true⟩, ⟨7, true⟩], .accept 8 101 1003, .recv 5 false 1004, .tick 1004,
    .wait [], .tick 1016]

theorem liveReferences_renewing :
    Along next (fun s => s.pending = none → LiveReferences s) (start 3 4 1000) renewing := by
  apply (liveReferences_along_iff 3 4 1000 (by decide +kernel)).mpr
  have keeps : Meets next (KeepsAmong [7, 8]) (start 3 4 1000) renewing := by decide +kernel
  exact (among_preserved [7, 8]).meets (fun _ _ among keeps => among.keepsReferences keeps)
    (fun _ stored => absurd rfl stored) keeps

/-! ## Clients that leave -/

/-- A client connects and stays. -/
def oneClient : List Event :=
  [.wait [⟨3, true⟩], .accept 7 100 1000, .tick 1000]

/-- A client closes its connection: its entry still points to its deleted timer.  A
client is silent for three time slots: `tail` still points to the deleted timer, and
`head` is NULL. -/
theorem closed_dangles :
    ((run next (start 3 4 1000) (oneClient ++
        [.wait [⟨7, true⟩], .recv 0 false 1010, .tick 1010])).map fun s =>
      (s.users 7, (s.timerLst.heap 100).isSome)) = some (some ⟨7, some 100⟩, false) ∧
    ((run next (start 3 4 1000) (oneClient ++ [.wait [], .tick 1018])).map fun s =>
      (s.timerLst.head, s.timerLst.tail, (s.timerLst.heap 100).isSome)) =
        some (none, some 100, false) ∧
    ¬ Along next (fun s => s.pending = none → LiveReferences s) (start 3 4 1000)
      (oneClient ++ [.wait [], .tick 1018]) := by
  have silent : ((run next (start 3 4 1000) (oneClient ++ [.wait [], .tick 1018])).map fun s =>
      (s.pending, s.timerLst.head, s.timerLst.tail)) = some (none, none, some 100) := by
    decide +kernel
  refine ⟨by decide +kernel, by decide +kernel, fun along => ?_⟩
  rcases Option.map_eq_some_iff.mp silent with ⟨s, finished, values⟩
  simp only [Prod.mk.injEq] at values
  rcases values with ⟨waits, head, tail⟩
  have noTail := ((along.last finished) waits).ends.mp head
  rw [tail] at noTail
  cases noTail

end Server

end NetPractice.IdleServer
