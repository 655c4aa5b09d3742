import NetPractice.ReliableUdp.Correctness
import Mathlib.Data.Rat.Floor
import Mathlib.Tactic.Linarith
import Mathlib.Tactic.NormNum

/-!
# The bounds of the retransmission timer

With exact rationals, `rtt_stop` and `rtt_init` leave the estimators non-negative and the
timeout within its bounds.  `rtt_timeout` doubles the timeout behind `rtt_minmax`: it stays
above the minimum, and exceeds the maximum exactly when it was more than half of it.
-/

namespace NetPractice.ReliableUdp

open NetPractice.Transition

/-! ## One update -/

/-- A step towards a non-negative value, by a fraction of the distance. -/
theorem smoothed_nonneg {old new : Rat} (oldNonneg : 0 ≤ old) (newNonneg : 0 ≤ new) {gain : Rat}
    (most : 1 ≤ gain) : 0 ≤ old + (new - old) / gain := by
  have positive : 0 < gain := by linarith
  have part : (old - new) / gain ≤ old := by
    rw [div_le_iff₀ positive]
    nlinarith
  have opposite : (new - old) / gain = -((old - new) / gain) := by ring
  linarith

theorem truncate_eq_floor {x : Rat} (nonneg : 0 ≤ x) : CFloat.truncate x = ⌊x⌋ := by
  change x.num.tdiv x.den = ⌊x⌋
  rw [Int.tdiv_eq_ediv_of_nonneg (Rat.num_nonneg.mpr nonneg)]
  exact Rat.floor_def'.symm

theorem rttMinmax_bounds (rto : Rat) :
    RTT_RXTMIN ≤ rttMinmax rto ∧ rttMinmax rto ≤ RTT_RXTMAX := by
  have order : (RTT_RXTMIN : Rat) ≤ RTT_RXTMAX := by
    unfold RTT_RXTMIN RTT_RXTMAX
    norm_num
  unfold rttMinmax
  split
  · exact ⟨le_refl _, order⟩
  · next above =>
    split
    · exact ⟨order, le_refl _⟩
    · next below =>
      exact ⟨not_lt.mp fun less => above (decide_eq_true less),
        not_lt.mp fun less => below (decide_eq_true less)⟩

namespace RttInfo

/-- The estimators are not negative, and the timeout is not below its minimum. -/
structure Positive (ptr : RttInfo Rat) : Prop where
  srtt : 0 ≤ ptr.srtt
  rttvar : 0 ≤ ptr.rttvar
  least : RTT_RXTMIN ≤ ptr.rto

/-- The timeout is not above its maximum, either. -/
structure InBounds (ptr : RttInfo Rat) : Prop extends Positive ptr where
  most : ptr.rto ≤ RTT_RXTMAX

variable {ptr : RttInfo Rat}

theorem inBounds_init (ptr : RttInfo Rat) (tv : Timeval) : (ptr.init tv).InBounds where
  srtt := by
    change (0 : Rat) ≤ 0.0
    norm_num
  rttvar := by
    change (0 : Rat) ≤ 0.75
    norm_num
  least := (rttMinmax_bounds _).1
  most := (rttMinmax_bounds _).2

theorem Positive.stop (positive : ptr.Positive) (ms : UInt32) : (ptr.stop ms).InBounds where
  srtt := by
    change (0 : Rat) ≤ ptr.srtt + ((ms.toNat : Rat) / 1000.0 - ptr.srtt) / 8.0
    apply smoothed_nonneg positive.srtt
    · positivity
    · norm_num
  rttvar := by
    change (0 : Rat) ≤
      ptr.rttvar + ((if CFloat.less (_ : Rat) 0.0 then - _ else _) - ptr.rttvar) / 4.0
    apply smoothed_nonneg positive.rttvar
    · split
      · next negative =>
        have below := of_decide_eq_true negative
        norm_num at below ⊢
        linarith
      · next notNegative =>
        have above := not_lt.mp fun less => notNegative (decide_eq_true less)
        norm_num at above ⊢
        linarith
    · norm_num
  least := (rttMinmax_bounds _).1
  most := (rttMinmax_bounds _).2

theorem timeout_rto (ptr : RttInfo Rat) : ptr.timeout.1.rto = ptr.rto * 2 := by
  change ptr.rto * 2.0 = ptr.rto * 2
  norm_num

theorem Positive.timeout (positive : ptr.Positive) : ptr.timeout.1.Positive where
  srtt := positive.srtt
  rttvar := positive.rttvar
  least := by
    have least := positive.least
    unfold RTT_RXTMIN at least ⊢
    rw [timeout_rto]
    norm_num at least ⊢
    linarith

theorem InBounds.timeout_iff (inBounds : ptr.InBounds) :
    ptr.timeout.1.InBounds ↔ 2 * ptr.rto ≤ RTT_RXTMAX := by
  rw [mul_comm, ← timeout_rto]
  constructor
  · exact fun after => after.most
  · exact fun most => ⟨inBounds.toPositive.timeout, most⟩

/-- `(int) (rtt_rto + 0.5)`. -/
theorem Positive.start_eq (positive : ptr.Positive) : ptr.start = ⌊ptr.rto + 1 / 2⌋ := by
  have least := positive.least
  unfold RTT_RXTMIN at least
  have half : (0.5 : Rat) = 1 / 2 := by norm_num
  change CFloat.truncate (ptr.rto + 0.5) = _
  rw [truncate_eq_floor, half]
  norm_num at least ⊢
  linarith

theorem Positive.start_pos (positive : ptr.Positive) : 0 < ptr.start := by
  have least := positive.least
  unfold RTT_RXTMIN at least
  rw [positive.start_eq, Int.lt_iff_add_one_le, Int.le_floor]
  norm_num at least ⊢
  linarith

theorem InBounds.start_le (inBounds : ptr.InBounds) : (ptr.start : Rat) ≤ RTT_RXTMAX := by
  have most := inBounds.most
  have below : ptr.start < 61 := by
    unfold RTT_RXTMAX at most
    rw [inBounds.toPositive.start_eq, Int.floor_lt]
    norm_num at most ⊢
    linarith
  have atMost : (ptr.start : Rat) ≤ 60 := by exact_mod_cast Int.lt_add_one_iff.mp below
  unfold RTT_RXTMAX
  norm_num
  exact atMost

end RttInfo

/-! ## Every call of the functions -/

namespace Client

section Keeps

variable {F : Type} [CFloat F] {P : RttInfo F → Prop} {c d : Client F}

/-- What all functions but `rtt_timeout` establish or keep. -/
structure Stable (P : RttInfo F → Prop) : Prop where
  init : ∀ ptr tv, P (RttInfo.init ptr tv)
  newpack : ∀ ptr, P ptr → P ptr.newpack
  stop : ∀ ptr ms, P ptr → P (ptr.stop ms)

/-- What holds of the estimators behind the first `rtt_init`, and the timer that was set
with them. -/
structure Keeps (P : RttInfo F → Prop) (c : Client F) : Prop where
  called : c.rttinit = true → c.calls ≠ []
  holds : c.calls ≠ [] → P c.rttinfo
  timer : ∀ call, c.phase.call = some call → c.timer = c.rttinfo.start

theorem keeps_start : (start (F := F)).Keeps P where
  called set := by cases set
  holds called := absurd rfl called
  timer _ current := by cases current

omit [CFloat F] in
theorem calls_ne_nil {call : Call F} (current : c.phase.call = some call) : c.calls ≠ [] :=
  List.ne_nil_of_mem (mem_calls current)

/-- A call begins or sends again. -/
theorem keeps_sendAgain (call : Call F) (tv : Timeval) (holds : P c.rttinfo) :
    (c.sendAgain call tv).Keeps P where
  called _ := calls_ne_nil (c := c.sendAgain call tv) rfl
  holds _ := holds
  timer _ _ := rfl

/-- A call has returned. -/
theorem keeps_ended {call : Call F} {result : Result}
    (past : d.past = c.past ++ [⟨call, result⟩]) (idle : d.phase = .idle)
    (holds : P d.rttinfo) : d.Keeps P where
  called _ := by
    rw [calls_of_idle idle, past, List.map_append]
    exact List.append_ne_nil_of_right_ne_nil _ (List.cons_ne_nil _ _)
  holds _ := holds
  timer _ current := by
    rw [idle] at current
    cases current

/-- A step keeps what the functions keep that it calls. -/
theorem Keeps.next {event : Event} (keeps : c.Keeps P) (stable : Stable P)
    (timeout : ∀ tv, event = .alarm tv → P c.rttinfo → P c.rttinfo.timeout.1)
    (step : c.next event = some d) : d.Keeps P := by
  have timedOut : ∀ call tv, c.phase.call = some call → event = .alarm tv →
      (c.timedOut call tv).Keeps P := by
    intro call tv current isAlarm
    have doubled := timeout tv isAlarm (keeps.holds (calls_ne_nil current))
    unfold Client.timedOut
    dsimp only
    split
    · exact keeps_ended rfl rfl doubled
    · exact keeps_sendAgain call tv doubled
  unfold Client.next at step
  rcases Option.ite_none_left_eq_some.mp step with ⟨-, taken⟩
  split at taken
  next outbuff inbytes inittv tv idle =>
    cases taken
    apply keeps_sendAgain
    apply stable.newpack
    split
    · next set => exact keeps.holds (keeps.called set)
    · exact stable.init _ _
  next call datagram waiting =>
    cases taken
    have current : c.phase.call = some call := congrArg Phase.call waiting
    have stays : (c.recvmsg call datagram).phase.call = some call := by
      unfold Client.recvmsg
      dsimp only
      split <;> rfl
    constructor
    · exact fun _ => calls_ne_nil stays
    · exact fun _ => keeps.holds (calls_ne_nil current)
    · exact fun _ _ => keeps.timer call current
  next call tv waiting =>
    rcases guarded_eq_some_iff.mp taken with ⟨-, rfl⟩
    exact timedOut call tv (congrArg Phase.call waiting) rfl
  next call n inbuff datagram tv arrived =>
    rcases guarded_eq_some_iff.mp taken with ⟨-, rfl⟩
    exact timedOut call tv (congrArg Phase.call arrived) rfl
  next call n inbuff datagram tv arrived =>
    cases taken
    have current : c.phase.call = some call := congrArg Phase.call arrived
    exact keeps_ended rfl rfl (stable.stop _ _ (keeps.holds (calls_ne_nil current)))
  next =>
    cases taken
    exact ⟨keeps.called, keeps.holds, keeps.timer⟩
  next =>
    cases taken
    exact ⟨keeps.called, keeps.holds, keeps.timer⟩
  next => cases taken

end Keeps

/-! ## The timer -/

variable {c d : Client Rat}

theorem stable_positive : Stable RttInfo.Positive where
  init ptr tv := (RttInfo.inBounds_init ptr tv).toPositive
  newpack _ positive := ⟨positive.srtt, positive.rttvar, positive.least⟩
  stop _ ms positive := (positive.stop ms).toPositive

theorem stable_inBounds : Stable RttInfo.InBounds where
  init := RttInfo.inBounds_init
  newpack _ inBounds := ⟨stable_positive.newpack _ inBounds.toPositive, inBounds.most⟩
  stop _ ms inBounds := inBounds.toPositive.stop ms

/-- Behind the first `rtt_init`: the estimators are not negative, the timeout is not below
its minimum, and `alarm` is not called with 0. -/
structure NeverZero (c : Client Rat) : Prop where
  rttinfo : c.calls ≠ [] → c.rttinfo.Positive ∧ 0 < c.rttinfo.start
  timer : ∀ call, c.phase.call = some call → 0 < c.timer

/-- The timeout is within its bounds, too, and `alarm` is not called with more than the
maximum. -/
structure TimerInBounds (c : Client Rat) : Prop extends NeverZero c where
  rto : c.calls ≠ [] → RTT_RXTMIN ≤ c.rttinfo.rto ∧ c.rttinfo.rto ≤ RTT_RXTMAX
  start : c.calls ≠ [] → (c.rttinfo.start : Rat) ≤ RTT_RXTMAX
  most : ∀ call, c.phase.call = some call → (c.timer : Rat) ≤ RTT_RXTMAX

theorem Keeps.neverZero (keeps : c.Keeps RttInfo.Positive) : NeverZero c where
  rttinfo called := ⟨keeps.holds called, (keeps.holds called).start_pos⟩
  timer call current := by
    rw [keeps.timer call current]
    exact (keeps.holds (calls_ne_nil current)).start_pos

theorem Keeps.positive (keeps : c.Keeps RttInfo.InBounds) : c.Keeps RttInfo.Positive :=
  ⟨keeps.called, fun called => (keeps.holds called).toPositive, keeps.timer⟩

theorem Keeps.timerInBounds (keeps : c.Keeps RttInfo.InBounds) : TimerInBounds c where
  toNeverZero := keeps.positive.neverZero
  rto called := ⟨(keeps.holds called).least, (keeps.holds called).most⟩
  start called := (keeps.holds called).start_le
  most call current := by
    rw [keeps.timer call current]
    exact (keeps.holds (calls_ne_nil current)).start_le

/-- A timer expires only when the timeout is at most half of the maximum. -/
def DoublesInBounds (c : Client Rat) : Event → Prop
  | .alarm _ => 2 * c.rttinfo.rto ≤ RTT_RXTMAX
  | .call _ _ _ _ | .datagram _ | .stop _ | .fails => True

instance (c : Client Rat) : ∀ event, Decidable (DoublesInBounds c event)
  | .alarm _ => inferInstanceAs (Decidable (_ ≤ _))
  | .call _ _ _ _ | .datagram _ | .stop _ | .fails => isTrue trivial

theorem Keeps.next_doubles {event : Event} (keeps : c.Keeps RttInfo.InBounds)
    (doubles : DoublesInBounds c event) (step : c.next event = some d) :
    d.Keeps RttInfo.InBounds := by
  apply keeps.next stable_inBounds _ step
  rintro tv rfl inBounds
  exact inBounds.timeout_iff.mpr doubles

/-- Behind a timeout, the estimators are those that `rtt_timeout` leaves. -/
theorem timedOut_spec {F : Type} [CFloat F] (c : Client F) (call : Call F) (tv : Timeval) :
    (c.timedOut call tv).rttinfo = c.rttinfo.timeout.1 ∧ (c.timedOut call tv).calls ≠ [] := by
  unfold Client.timedOut
  dsimp only
  split
  · refine ⟨rfl, ?_⟩
    rw [calls_of_idle rfl, List.map_append]
    exact List.append_ne_nil_of_right_ne_nil _ (List.cons_ne_nil _ _)
  · exact ⟨rfl, calls_ne_nil rfl⟩

/-- Any other timer leaves a timeout above the maximum. -/
theorem not_timerInBounds {event : Event} (exceeds : ¬ DoublesInBounds c event)
    (step : c.next event = some d) : ¬ TimerInBounds d := by
  intro inBounds
  have doubled : ∀ call tv, ¬ 2 * c.rttinfo.rto ≤ RTT_RXTMAX → c.timedOut call tv = d → False := by
    rintro call tv exceeds rfl
    rcases timedOut_spec c call tv with ⟨rttinfo, called⟩
    have most := (inBounds.rto called).2
    rw [rttinfo, RttInfo.timeout_rto, mul_comm] at most
    exact exceeds most
  unfold Client.next at step
  rcases Option.ite_none_left_eq_some.mp step with ⟨-, taken⟩
  cases event with
  | alarm tv =>
      cases phase : c.phase with
      | idle =>
          rw [phase] at taken
          cases taken
      | waiting call | arrived call n inbuff datagram =>
          rw [phase] at taken
          rcases guarded_eq_some_iff.mp taken with ⟨-, after⟩
          exact doubled call tv exceeds after
  | call outbuff inbytes inittv tv | datagram bytes | stop tv | fails => exact exceeds trivial

end Client

/-- In every run, the estimators are not negative, the timeout is at least its minimum, and
`alarm` is never called with 0. -/
theorem neverZero_along {events : List Event} {c : Client Rat}
    (finished : run Client.next Client.start events = some c) : Client.NeverZero c := by
  have keeps : c.Keeps RttInfo.Positive := by
    apply invariant_run _ Client.keeps_start finished
    intro state event target keeps step
    exact keeps.next Client.stable_positive (fun _ _ positive => positive.timeout) step
  exact keeps.neverZero

/-- The estimators, the timeout and the timer stay in their bounds exactly as long as no
timer expires while the timeout is more than half of its maximum. -/
theorem timerInBounds_along_iff {events : List Event} {c : Client Rat}
    (finished : run Client.next Client.start events = some c) :
    Along Client.next Client.TimerInBounds Client.start events ↔
      Meets Client.next Client.DoublesInBounds Client.start events :=
  along_iff_meets (fun _ _ _ keeps doubles step => Client.Keeps.next_doubles keeps doubles step)
    (fun _ keeps => keeps.timerInBounds)
    (fun _ _ _ _ exceeds step => Client.not_timerInBounds exceeds step)
    Client.keeps_start finished

/-- The reply to the first request comes after 30 seconds, behind three timeouts. -/
def slowReply : List Event :=
  [.call [97] 10 ⟨0, 0⟩ ⟨0, 0⟩, .alarm ⟨3, 0⟩, .alarm ⟨9, 0⟩, .alarm ⟨21, 0⟩,
    .datagram [1, 0, 0, 0, 0, 0, 0, 0, 97], .stop ⟨30, 0⟩]

theorem timerInBounds_slowReply :
    Along Client.next Client.TimerInBounds Client.start slowReply := by
  have replied : (run Client.next (Client.start : Client Rat) slowReply).isSome = true := by
    decide +kernel
  rcases Option.isSome_iff_exists.mp replied with ⟨c, finished⟩
  exact (timerInBounds_along_iff finished).mpr (by decide +kernel)

/-- That makes the timeout 36 seconds; when the next request is not answered in this time,
`alarm` is called with 72. -/
theorem slowReply_exceeds :
    (run Client.next (Client.start : Client Rat)
        (slowReply ++ [.call [98] 10 ⟨0, 0⟩ ⟨40, 0⟩, .alarm ⟨76, 0⟩])).map
      (fun c => (c.calls.length, c.rttinfo.rto, c.timer)) = some (2, 72, 72) ∧
    ¬ Along Client.next Client.TimerInBounds Client.start
        (slowReply ++ [.call [98] 10 ⟨0, 0⟩ ⟨40, 0⟩, .alarm ⟨76, 0⟩]) := by
  have outcome : (run Client.next (Client.start : Client Rat)
      (slowReply ++ [.call [98] 10 ⟨0, 0⟩ ⟨40, 0⟩, .alarm ⟨76, 0⟩])).map
        (fun c => (c.calls.length, c.rttinfo.rto, c.timer)) = some (2, 72, 72) := by
    decide +kernel
  refine ⟨outcome, fun along => ?_⟩
  rcases Option.map_eq_some_iff.mp outcome with ⟨c, finished, fields⟩
  rcases Prod.mk.inj fields with ⟨calls, rest⟩
  rcases Prod.mk.inj rest with ⟨rto, -⟩
  have called : c.calls ≠ [] := by
    intro none
    rw [none] at calls
    cases calls
  have most := ((along.last finished).rto called).2
  rw [rto] at most
  exact absurd most (by decide +kernel)

end NetPractice.ReliableUdp
