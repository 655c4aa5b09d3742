import NetPractice.MixedEcho.Core

/-!
# What the echo server sends back

The result of `send` is not looked at, the loop of a connection calls `close` again behind
an end of file, every reply on `udpfd` has the size of the buffer, and a report of `udpfd`
is answered by one call of `recvfrom`.  A run that avoids all of these is faithful, and any
other one is not.
-/

namespace NetPractice.MixedEcho

open NetPractice.Socket
open NetPractice.Text
open NetPractice.Transition

universe u v

variable {ι : Type u} {A : Type v}

/-! ## Replies -/

theorem reply_length (datagram : Datagram A) :
    (reply datagram).data.length = UDP_BUFFER_SIZE - 1 := by
  have short := List.length_take_le (UDP_BUFFER_SIZE - 1) datagram.data
  rw [reply, List.length_append, List.length_replicate]
  exact Nat.add_sub_of_le short

/-- A datagram comes back as it was when it fills the buffer. -/
theorem reply_eq_iff {datagram : Datagram A} (short : datagram.Short) :
    reply datagram = datagram ↔ datagram.data.length = UDP_BUFFER_SIZE - 1 := by
  constructor
  · intro same
    rw [← reply_length datagram, same]
  · intro full
    have whole : datagram.data.take (UDP_BUFFER_SIZE - 1) = datagram.data :=
      List.take_of_length_le short
    rw [reply, whole, full, Nat.sub_self, List.replicate_zero, List.append_nil]

theorem answer_eq_iff {datagram : Datagram A} (short : datagram.Short) (sendto : Bool) :
    (if datagram.data ≠ [] ∧ sendto then some (reply datagram) else none) = some datagram ↔
      datagram.data.length = UDP_BUFFER_SIZE - 1 ∧ sendto = true := by
  rw [Option.ite_none_right_eq_some, Option.some.injEq, reply_eq_iff short]
  constructor
  · rintro ⟨⟨-, sent⟩, full⟩
    exact ⟨full, sent⟩
  · rintro ⟨full, sent⟩
    refine ⟨⟨?_, sent⟩, full⟩
    intro empty
    rw [empty] at full
    cases full

/-! ## Bytes -/

/-- `send` takes all that it is given, or sends too little. -/
theorem sentOf_eq_iff {send : Send} {bytes : List Byte} (nonempty : bytes ≠ [])
    (atMost : send.AtMost bytes.length) :
    sentOf send bytes = bytes ↔ send = .taken bytes.length := by
  constructor
  · intro whole
    cases send with
    | taken count =>
        have length_eq := congrArg List.length whole
        rw [sentOf, List.length_take] at length_eq
        have most : count ≤ bytes.length := atMost count rfl
        rw [Nat.min_eq_left most] at length_eq
        rw [length_eq]
    | again | gone => exact absurd whole.symm nonempty
  · rintro rfl
    exact List.take_length

namespace World

variable {w v : World ι A}

theorem tcp_injective : Function.Injective (Source.tcp : ι → Source ι) := by
  intro c d same
  cases same
  rfl

theorem recvfrom_spec {sendto : Bool} (step : w.recvfrom sendto = some v) :
    ∃ rest, w.batch = .udp :: rest ∧
      (w.datagrams = [] ∧ v = { w with batch := rest } ∨
        ∃ datagram datagrams, w.datagrams = datagram :: datagrams ∧
          v = { w with
            datagrams := datagrams
            answers := w.answers ++
              [(datagram, if datagram.data ≠ [] ∧ sendto then some (reply datagram) else none)]
            batch := rest }) := by
  unfold recvfrom at step
  split at step
  · rename_i rest reported
    refine ⟨rest, reported, ?_⟩
    split at step
    · rename_i none
      cases step
      exact .inl ⟨none, rfl⟩
    · rename_i datagram datagrams waiting
      cases step
      exact .inr ⟨datagram, datagrams, waiting, rfl⟩
  · cases step
  · cases step

variable [DecidableEq ι]

theorem recv_spec {count : Nat} {send : Send} (step : w.recv count send = some v) :
    ∃ sockfd rest answer s, w.batch = .tcp sockfd :: rest ∧
      (w.conn sockfd).recv (TCP_BUFFER_SIZE - 1) count = some (answer, s) ∧
      (∀ bytes ∈ answer.bytes, send.AtMost bytes.length) ∧
      v = { (w.setConn sockfd (s.drained answer).1).echo sockfd answer send with
        batch := if (s.drained answer).2 then .tcp sockfd :: rest else rest } := by
  unfold recv at step
  split at step
  · rename_i sockfd rest reported
    rcases Option.bind_eq_some_iff.mp step with ⟨⟨answer, s⟩, called, later⟩
    rcases guarded_eq_some_iff.mp later with ⟨atMost, rfl⟩
    exact ⟨sockfd, rest, answer, s, reported, called, atMost, rfl⟩
  · cases step
  · cases step

/-- The reports are handled, and nothing was lost so far. -/
structure Inv (w : World ι A) : Prop where
  reported : Reports Source.tcp w.conn w.batch
  echoed : ∀ c, w.sent c = (w.conn c).received
  closes : ∀ c, (w.conn c).closes ≤ 1
  replies : ∀ answer ∈ w.answers, answer.1.Short → answer.2 = some answer.1
  awaited : ∀ i datagram, w.datagrams[i]? = some datagram → datagram.Short → i < w.reports

theorem inv_start : (start : World ι A).Inv where
  reported := Reports.start
  echoed _ := rfl
  closes _ := Nat.zero_le 1
  replies := nofun
  awaited _ _ found := nomatch found

/-- A connection that changes without being read. -/
theorem Inv.setConn (inv : w.Inv) {c : ι} {s : Stream}
    (reported : s.Edged (.tcp c ∈ w.batch.tail) (w.batch.head? = some (.tcp c)))
    (received : s.received = (w.conn c).received) (closes : s.closes = (w.conn c).closes) :
    (w.setConn c s).Inv where
  reported := inv.reported.update reported
  echoed := (Function.forall_update_iff w.conn fun d s => w.sent d = s.received).mpr
    ⟨(inv.echoed c).trans received.symm, fun d _ => inv.echoed d⟩
  closes := (Function.forall_update_iff w.conn fun _ s => s.closes ≤ 1).mpr
    ⟨closes ▸ inv.closes c, fun d _ => inv.closes d⟩
  replies := inv.replies
  awaited := inv.awaited

theorem wait_reports {batch : List (Source ι)} (handled : w.batch = []) (nodup : batch.Nodup)
    (pending : ∀ source ∈ batch, w.Pending source) : (w.wait batch).reports = w.reports := by
  unfold reports
  rw [handled, List.count_nil]
  by_cases udp : .udp ∈ batch
  · have edge : w.edge = true := (pending .udp udp).1
    have noEdge : (w.wait batch).edge = false := by
      rw [World.wait, decide_eq_true udp, Bool.not_true, Bool.and_false]
    rw [edge, noEdge, if_neg Bool.false_ne_true, if_pos rfl]
    exact (Nat.zero_add _).trans (nodup.count.trans (if_pos udp))
  · have sameEdge : (w.wait batch).edge = w.edge := by
      rw [World.wait, decide_eq_false udp, Bool.not_false, Bool.and_true]
    rw [sameEdge]
    exact congrArg _ (List.count_eq_zero_of_not_mem udp)

theorem wait_kept {batch : List (Source ι)} (c : ι) :
    ((w.wait batch).conn c).received = (w.conn c).received ∧
      ((w.wait batch).conn c).closes = (w.conn c).closes := by
  unfold World.wait
  dsimp only
  split
  · exact ⟨rfl, rfl⟩
  · exact ⟨rfl, rfl⟩

theorem Inv.wait (inv : w.Inv) {batch : List (Source ι)} (handled : w.batch = [])
    (nodup : batch.Nodup) (pending : ∀ source ∈ batch, w.Pending source) :
    (w.wait batch).Inv where
  reported := by
    have idle : Reports Source.tcp w.conn [] := handled ▸ inv.reported
    exact idle.wait nodup fun c mem => (pending (.tcp c) mem).1
  echoed c := (inv.echoed c).trans (wait_kept c).1.symm
  closes c := Nat.le_trans (Nat.le_of_eq (wait_kept c).2) (inv.closes c)
  replies := inv.replies
  awaited := by
    rw [wait_reports handled nodup pending]
    exact inv.awaited

/-! ## The branch for `udpfd` -/

theorem recvfrom_reports {rest : List (Source ι)} (reported : w.batch = .udp :: rest) :
    w.reports = (if w.edge then 1 else 0) + rest.count .udp + 1 := by
  rw [reports, reported, List.count_cons_self, Nat.add_assoc]

theorem Inv.recvfrom (inv : w.Inv) {sendto : Bool} (proper : w.Proper (.recvfrom sendto))
    (step : w.recvfrom sendto = some v) : v.Inv := by
  rcases recvfrom_spec step with ⟨rest, reported, ⟨none, rfl⟩ |
    ⟨datagram, datagrams, waiting, rfl⟩⟩
  · have behind : Reports Source.tcp w.conn (.udp :: rest) := reported ▸ inv.reported
    refine ⟨behind.skip nofun, inv.echoed, inv.closes, inv.replies, ?_⟩
    intro i datagram found
    rw [none] at found
    cases found
  · have behind : Reports Source.tcp w.conn (.udp :: rest) := reported ▸ inv.reported
    refine ⟨behind.skip nofun, inv.echoed, inv.closes, ?_, ?_⟩
    · intro answer mem short
      rcases List.mem_append.mp mem with before | last
      · exact inv.replies answer before short
      · cases List.mem_singleton.mp last
        exact (answer_eq_iff short sendto).mpr (proper datagram (by rw [waiting]; rfl) short)
    · intro i later found short
      have before := inv.awaited (i + 1) later (by rw [waiting]; exact found) short
      rw [recvfrom_reports reported] at before
      exact Nat.lt_of_succ_lt_succ before

/-- A reply that is not the datagram. -/
theorem recvfrom_loses {sendto : Bool} (improper : ¬ w.Proper (.recvfrom sendto))
    (step : w.recvfrom sendto = some v) : ¬ v.Faithful := by
  intro faithful
  apply improper
  intro datagram head short
  rcases recvfrom_spec step with ⟨rest, reported, ⟨none, rfl⟩ |
    ⟨first, datagrams, waiting, rfl⟩⟩
  · rw [none] at head
    cases head
  · rw [waiting] at head
    cases head
    apply (answer_eq_iff short sendto).mp
    exact faithful.replies _ (List.mem_append_right _ List.mem_cons_self) short

/-! ## The branch for a connection -/

theorem setConn_conn (w : World ι A) (c : ι) (s : Stream) :
    (w.setConn c s).conn = Function.update w.conn c s :=
  rfl

theorem setConn_sent (w : World ι A) (c : ι) (s : Stream) : (w.setConn c s).sent = w.sent :=
  rfl

@[simp]
theorem echo_conn (w : World ι A) (sockfd : ι) (answer : Recv) (send : Send) :
    (w.echo sockfd answer send).conn = w.conn := by
  cases answer <;> rfl

@[simp]
theorem echo_edge (w : World ι A) (sockfd : ι) (answer : Recv) (send : Send) :
    (w.echo sockfd answer send).edge = w.edge := by
  cases answer <;> rfl

@[simp]
theorem echo_datagrams (w : World ι A) (sockfd : ι) (answer : Recv) (send : Send) :
    (w.echo sockfd answer send).datagrams = w.datagrams := by
  cases answer <;> rfl

@[simp]
theorem echo_answers (w : World ι A) (sockfd : ι) (answer : Recv) (send : Send) :
    (w.echo sockfd answer send).answers = w.answers := by
  cases answer <;> rfl

/-- The reports of `udpfd` stay when another one is handled. -/
theorem count_udp_drained (more : Bool) (sockfd : ι) (rest : List (Source ι)) :
    (if more then .tcp sockfd :: rest else rest).count Source.udp =
      (Source.tcp sockfd :: rest).count .udp := by
  have differ : Source.tcp sockfd ≠ Source.udp := nofun
  have other : (Source.tcp sockfd :: rest).count .udp = rest.count .udp :=
    List.count_cons_of_ne differ
  cases more with
  | true => rfl
  | false => exact other.symm

theorem echo_sent (w : World ι A) (sockfd : ι) (answer : Recv) (send : Send) :
    (w.echo sockfd answer send).sent =
      Function.update w.sent sockfd (w.sent sockfd ++ answer.bytes.elim [] (sentOf send)) := by
  cases answer with
  | data bytes => rfl
  | eof | again | fail => exact (by simp [echo, Recv.bytes])

/-- Nothing is lost when `send` takes all that it is given. -/
theorem lossless_iff {s t : Stream} {limit count : Nat} {answer : Recv} {send : Send}
    (called : s.recv limit count = some (answer, t))
    (atMost : ∀ bytes ∈ answer.bytes, send.AtMost bytes.length) :
    answer.bytes.elim [] (sentOf send) = answer.bytes.getD [] ↔
      ∀ bytes, answer = .data bytes → send = .taken bytes.length := by
  cases Stream.recv_spec called with
  | data bytes rest _ nonempty =>
      have whole := sentOf_eq_iff nonempty (atMost bytes rfl)
      constructor
      · intro same other equal
        cases equal
        exact whole.mp same
      · exact fun all => whole.mpr (all bytes rfl)
  | again | eof | reset | closed => exact iff_of_true rfl nofun

theorem Inv.recv (inv : w.Inv) {count : Nat} {send : Send} (proper : w.Proper (.recv count send))
    (step : w.recv count send = some v) : v.Inv := by
  rcases recv_spec step with ⟨sockfd, rest, answer, s, reported, called, atMost, rfl⟩
  rcases proper sockfd (congrArg List.head? reported) with ⟨isOpen, whole⟩
  have running : Reports Source.tcp w.conn (.tcp sockfd :: rest) := reported ▸ inv.reported
  have unclosed := running.first.unclosed isOpen
  constructor
  · rw [echo_conn]
    exact running.drain tcp_injective called
  · rw [echo_conn, echo_sent, setConn_conn, setConn_sent]
    have lossless := (lossless_iff called atMost).mpr fun bytes data =>
      whole bytes s (data ▸ called)
    intro c
    by_cases same : c = sockfd
    · subst same
      rw [Function.update_self, Function.update_self, Stream.drained_received called,
        lossless]
      exact congrArg (· ++ _) (inv.echoed c)
    · rw [Function.update_of_ne same, Function.update_of_ne same]
      exact inv.echoed c
  · rw [echo_conn]
    apply (Function.forall_update_iff w.conn fun _ s => s.closes ≤ 1).mpr
    refine ⟨?_, fun d _ => inv.closes d⟩
    have once := Stream.drained_closes_le called
    rwa [unclosed] at once
  · rw [echo_answers]
    exact inv.replies
  · rw [echo_datagrams, reports, echo_edge, count_udp_drained, ← reported]
    exact inv.awaited

/-- Bytes that `send` has not taken, or a second `close`. -/
theorem Inv.recv_loses (inv : w.Inv) {count : Nat} {send : Send}
    (improper : ¬ w.Proper (.recv count send)) (step : w.recv count send = some v) :
    ¬ v.Faithful := by
  rcases recv_spec step with ⟨sockfd, rest, answer, s, reported, called, atMost, rfl⟩
  have running : Reports Source.tcp w.conn (.tcp sockfd :: rest) := reported ▸ inv.reported
  intro faithful
  have echoed : ((w.setConn sockfd (s.drained answer).1).echo sockfd answer send).sent sockfd =
      (((w.setConn sockfd (s.drained answer).1).echo sockfd answer send).conn sockfd).received :=
    faithful.echoed sockfd
  have closes : (((w.setConn sockfd (s.drained answer).1).echo sockfd answer send).conn
      sockfd).closes ≤ 1 := faithful.closes sockfd
  rw [echo_conn, setConn_conn, Function.update_self] at echoed closes
  rw [echo_sent, setConn_sent, Function.update_self, Stream.drained_received called] at echoed
  have same := (congrArg (· ++ _) (inv.echoed sockfd)).symm.trans echoed
  have lossless := List.append_cancel_left same
  apply improper
  intro other head
  rw [reported] at head
  cases head
  constructor
  · by_contra notOpen
    have isClosed := Bool.eq_false_iff.mpr notOpen
    rcases running.first.closed isClosed with ⟨-, ⟨idle, -⟩ | ⟨-, -, once⟩⟩
    · exact idle trivial
    · have answered := Stream.recv_closed isClosed (TCP_BUFFER_SIZE - 1) count
      cases called.symm.trans answered
      change (w.conn sockfd).closes + 1 ≤ 1 at closes
      rw [once] at closes
      exact Nat.not_succ_le_self 1 closes
  · intro bytes t again
    cases called.symm.trans again
    exact (lossless_iff called atMost).mp lossless bytes rfl

/-! ## Runs -/

/-- A datagram that arrives, and the event of `udpfd`. -/
theorem datagram_reports (w : World ι A) (datagram : Datagram A) :
    { w with datagrams := w.datagrams ++ [datagram], edge := true }.reports =
      w.batch.count .udp + 1 := by
  rw [reports, if_pos rfl, Nat.add_comm]

theorem reports_le (w : World ι A) : w.reports ≤ w.batch.count .udp + 1 := by
  rw [reports, Nat.add_comm]
  apply Nat.add_le_add_left
  split
  · exact Nat.le_refl 1
  · exact Nat.zero_le 1

theorem Inv.datagram (inv : w.Inv) {datagram : Datagram A}
    (proper : w.Proper (.datagram datagram)) :
    { w with datagrams := w.datagrams ++ [datagram], edge := true }.Inv := by
  refine ⟨inv.reported, inv.echoed, inv.closes, inv.replies, ?_⟩
  intro i waiting found short
  rw [datagram_reports]
  rcases Nat.lt_or_ge i w.datagrams.length with before | behind
  · rw [List.getElem?_append_left before] at found
    exact Nat.lt_of_lt_of_le (inv.awaited i waiting found short) w.reports_le
  · rw [List.getElem?_append_right behind] at found
    rcases List.getElem?_eq_some_iff.mp found with ⟨last, equal⟩
    have index : i = w.datagrams.length :=
      Nat.le_antisymm (Nat.sub_eq_zero_iff_le.mp (Nat.lt_one_iff.mp last)) behind
    subst index
    rw [List.getElem_singleton] at equal
    subst equal
    exact Nat.lt_succ_of_le (proper short)

/-- A datagram for which no report is left. -/
theorem datagram_loses {datagram : Datagram A} (improper : ¬ w.Proper (.datagram datagram)) :
    ¬ { w with datagrams := w.datagrams ++ [datagram], edge := true }.Faithful := by
  intro faithful
  apply improper
  intro short
  have less := faithful.awaited w.datagrams.length datagram List.getElem?_concat_length short
  rw [datagram_reports] at less
  exact Nat.le_of_lt_succ less

/-- Nothing is pending: everything is answered. -/
theorem Inv.faithful (inv : w.Inv) : w.Faithful := by
  refine ⟨inv.echoed, inv.closes, inv.replies, inv.awaited, ?_⟩
  rintro ⟨handled, quiet⟩
  constructor
  · intro datagram mem short
    rcases List.getElem?_of_mem mem with ⟨i, found⟩
    have less := inv.awaited i datagram found short
    have noEdge : ¬ w.edge = true := fun edge => quiet .udp ⟨edge, List.ne_nil_of_mem mem⟩
    rw [reports, handled, List.count_nil, if_neg noEdge] at less
    exact Nat.not_lt_zero i less
  · intro c
    have idle : Reports Source.tcp w.conn [] := handled ▸ inv.reported
    rcases (idle.idle c).settled (quiet (.tcp c)) with ⟨received, closes⟩
    have unfinished := inv.closes c
    rw [closes, Stream.drainCloses_le_one_iff] at unfinished
    exact ⟨received, closes.trans ((Stream.drainCloses_once_iff _).mpr unfinished)⟩

theorem Inv.next (inv : w.Inv) {event : Event ι A} (proper : w.Proper event)
    (step : w.next event = some v) : v.Inv := by
  cases event with
  | arrive c bytes =>
      rcases guarded_eq_some_iff.mp step with ⟨live, rfl⟩
      exact inv.setConn ((inv.reported.edged c).arrive live bytes) rfl rfl
  | finish c ending =>
      rcases guarded_eq_some_iff.mp step with ⟨live, rfl⟩
      exact inv.setConn ((inv.reported.edged c).finish live ending) rfl rfl
  | datagram datagram =>
      cases step
      exact inv.datagram proper
  | wait batch =>
      rcases guarded_eq_some_iff.mp step with ⟨⟨-, handled, -, nodup, -, pending⟩, rfl⟩
      exact inv.wait handled nodup pending
  | recv count send => exact inv.recv proper (Option.ite_none_left_eq_some.mp step).2
  | recvfrom sendto => exact inv.recvfrom proper (Option.ite_none_left_eq_some.mp step).2

/-- Every other step loses something. -/
theorem Inv.next_loses (inv : w.Inv) {event : Event ι A} (improper : ¬ w.Proper event)
    (step : w.next event = some v) : ¬ v.Faithful := by
  cases event with
  | arrive c bytes => exact absurd trivial improper
  | finish c ending => exact absurd trivial improper
  | datagram datagram =>
      cases step
      exact datagram_loses improper
  | wait batch => exact absurd trivial improper
  | recv count send => exact inv.recv_loses improper (Option.ite_none_left_eq_some.mp step).2
  | recvfrom sendto => exact recvfrom_loses improper (Option.ite_none_left_eq_some.mp step).2

/-- The server is faithful all along a run if and only if every step of the run is proper. -/
theorem faithful_along_iff {events : List (Event ι A)}
    (possible : (Transition.run next (start : World ι A) events).isSome) :
    Along next Faithful start events ↔ Meets next Proper start events :=
  along_iff_meets_of_isSome (fun _ _ _ inv proper step => inv.next proper step)
    (fun _ inv => inv.faithful) (fun _ _ _ inv improper step => inv.next_loses improper step)
    inv_start possible

end World

/-- Three bytes and a full datagram are echoed. -/
def echoes : List (Event Bool Unit) :=
  [.arrive true [97, 98, 99], .wait [.tcp true], .recv 3 (.taken 3), .recv 0 .again,
    .datagram ⟨(), List.replicate 1023 98⟩, .wait [.udp], .recvfrom true]

theorem faithful_along_echoes :
    Along World.next World.Faithful World.start echoes :=
  (World.faithful_along_iff (by decide +kernel)).mpr (by decide +kernel)

/-- The socket takes one of two bytes. -/
def shortSend : List (Event Bool Unit) :=
  [.arrive true [97, 98], .wait [.tcp true], .recv 2 (.taken 1)]

/-- A datagram that does not fill the buffer. -/
def shortDatagram : List (Event Bool Unit) :=
  [.datagram ⟨(), [104, 105]⟩, .wait [.udp], .recvfrom true]

/-- The client closes its connection, and the loop goes on behind the end of file. -/
def endOfFile : List (Event Bool Unit) :=
  [.finish true .finished, .wait [.tcp true], .recv 0 .again, .recv 0 .again]

theorem echoes_not_faithful :
    (∃ w, run World.next World.start shortSend = some w ∧ w.sent true = [97] ∧
      (w.conn true).received = [97, 98] ∧ ¬ w.Faithful) ∧
    (∃ w, run World.next World.start shortDatagram = some w ∧
      w.answers.map (fun answer => answer.2.map fun reply => reply.data.length) = [some 1023] ∧
      ¬ w.Faithful) ∧
    ∃ w, run World.next World.start endOfFile = some w ∧ (w.conn true).closes = 2 ∧
      ¬ w.Faithful := by
  refine ⟨⟨_, rfl, rfl, rfl, ?_⟩, ⟨_, rfl, by decide +kernel, ?_⟩, ⟨_, rfl, rfl, ?_⟩⟩
  · intro faithful
    exact absurd (faithful.echoed true) (by decide)
  · intro faithful
    have short : (⟨(), [104, 105]⟩ : Datagram Unit).Short := by decide
    have same := faithful.replies _ List.mem_cons_self short
    exact absurd ((answer_eq_iff short true).mp same).1 (by decide)
  · intro faithful
    exact absurd (faithful.closes true) (by decide)

end NetPractice.MixedEcho
