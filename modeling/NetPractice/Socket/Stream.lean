import Mathlib.Logic.Function.Basic
import NetPractice.Socket.Core

/-!
# Connections and their reports

The receiving side of a connection, with the reports of `epoll` about it: a level-triggered
registration is reported as long as there is something to read, and an edge-triggered one
once for what has arrived since the last report.

The rules below carry what a server may rely on through one call of `recv` for each report,
and through a loop that reads until `EAGAIN`.
-/

namespace NetPractice.Socket

open NetPractice.Text

/-- How the other side ends a connection. -/
inductive Ending where
  | finished
  | reset
  deriving DecidableEq, Repr

/-- The receiving side of a connection, and what the program has done with it.  `edge` is an
event that was not yet reported; `closes` counts the calls of `close`. -/
structure Stream where
  arrived : List Byte
  received : List Byte
  queue : List Byte
  ending : Option Ending
  isOpen : Bool
  edge : Bool
  closes : Nat
  deriving DecidableEq, Repr

namespace Stream

/-- Nothing has arrived. -/
def start : Stream where
  arrived := []
  received := []
  queue := []
  ending := none
  isOpen := true
  edge := false
  closes := 0

/-- Bytes arrive. -/
def arrive (s : Stream) (bytes : List Byte) : Stream :=
  { s with arrived := s.arrived ++ bytes, queue := s.queue ++ bytes, edge := true }

/-- The other side ends the connection. -/
def finish (s : Stream) (ending : Ending) : Stream :=
  { s with ending := some ending, edge := true }

/-- The event is reported. -/
def report (s : Stream) : Stream :=
  { s with edge := false }

/-- `close(sockfd)`; the call fails when the descriptor is closed. -/
def close (s : Stream) : Stream :=
  { s with isOpen := false, closes := s.closes + 1 }

/-- `recv` does not answer `EAGAIN`. -/
def Readable (s : Stream) : Prop :=
  s.queue ≠ [] ∨ s.ending ≠ none

instance (s : Stream) : Decidable s.Readable :=
  inferInstanceAs (Decidable (_ ∨ _))

/-- `recv(sockfd, buf, limit, 0)`, which takes so and so many bytes if there are some.  A
closed descriptor gives `EBADF`. -/
def recv (limit count : Nat) (s : Stream) : Option (Recv × Stream) :=
  if s.isOpen then
    if s.queue = [] then
      match s.ending with
      | none => some (.again, s)
      | some .finished => some (.eof, s)
      | some .reset => some (.fail, s)
    else if 0 < count ∧ count ≤ limit ∧ count ≤ s.queue.length then
      some (.data (s.queue.take count),
        { s with received := s.received ++ s.queue.take count, queue := s.queue.drop count })
    else none
  else some (.fail, s)

/-- What is done with an answer of `recv` in one call for each report. -/
def served (answer : Recv) (s : Stream) : Stream :=
  match answer with
  | .data _ => s
  | .eof | .again | .fail => s.close

/-- What is done with an answer in a loop that reads until `EAGAIN`, and whether the loop
goes on: it does so behind an end of file. -/
def drained (answer : Recv) (s : Stream) : Stream × Bool :=
  match answer with
  | .data _ => (s, true)
  | .eof => (s.close, true)
  | .again => (s, false)
  | .fail => (s.close, false)

/-- The answers of `recv`. -/
inductive Receives (s : Stream) : Recv → Stream → Prop
  | data (bytes rest : List Byte) (isOpen : s.isOpen = true) (nonempty : bytes ≠ [])
      (split_eq : s.queue = bytes ++ rest) :
      Receives s (.data bytes) { s with received := s.received ++ bytes, queue := rest }
  | again (isOpen : s.isOpen = true) (nothing : ¬ s.Readable) : Receives s .again s
  | eof (isOpen : s.isOpen = true) (empty : s.queue = []) (finished : s.ending = some .finished) :
      Receives s .eof s
  | reset (isOpen : s.isOpen = true) (empty : s.queue = []) (gone : s.ending = some .reset) :
      Receives s .fail s
  | closed (notOpen : s.isOpen = false) : Receives s .fail s

variable {limit count : Nat} {s t : Stream} {answer : Recv}

theorem recv_spec (called : s.recv limit count = some (answer, t)) : s.Receives answer t := by
  unfold recv at called
  split at called
  · rename_i isOpen
    split at called
    · rename_i empty
      split at called
      · rename_i none
        cases called
        exact .again isOpen fun readable => readable.elim (· empty) (· none)
      · rename_i finished
        cases called
        exact .eof isOpen empty finished
      · rename_i gone
        cases called
        exact .reset isOpen empty gone
    · rename_i some
      rw [Option.ite_none_right_eq_some] at called
      rcases called with ⟨⟨positive, -, within⟩, equal⟩
      cases equal
      refine .data _ _ isOpen ?_ (List.take_append_drop count s.queue).symm
      intro none
      have length_eq := congrArg List.length none
      rw [List.length_take, Nat.min_eq_left within] at length_eq
      exact Nat.ne_of_gt positive length_eq
  · rename_i notOpen
    cases called
    exact .closed (Bool.not_eq_true _ ▸ notOpen)

theorem recv_closed (isClosed : s.isOpen = false) (limit count : Nat) :
    s.recv limit count = some (.fail, s) := by
  rw [recv, isClosed, if_neg Bool.false_ne_true]

/-- What the other side has done stays. -/
theorem recv_kept (called : s.recv limit count = some (answer, t)) :
    t.arrived = s.arrived ∧ t.ending = s.ending := by
  cases recv_spec called with
  | data | again | eof | reset | closed => exact ⟨rfl, rfl⟩

theorem served_kept (answer : Recv) (s : Stream) :
    (served answer s).arrived = s.arrived ∧ (served answer s).ending = s.ending := by
  cases answer with
  | data | eof | again | fail => exact ⟨rfl, rfl⟩

theorem drained_kept (answer : Recv) (s : Stream) :
    (drained answer s).1.arrived = s.arrived ∧ (drained answer s).1.ending = s.ending := by
  cases answer with
  | data | eof | again | fail => exact ⟨rfl, rfl⟩

theorem drained_received (called : s.recv limit count = some (answer, t)) :
    (drained answer t).1.received = s.received ++ answer.bytes.getD [] := by
  cases recv_spec called with
  | data => rfl
  | again | eof | reset | closed => exact (List.append_nil _).symm

theorem drained_closes_le (called : s.recv limit count = some (answer, t)) :
    (drained answer t).1.closes ≤ s.closes + 1 := by
  cases recv_spec called with
  | data | again => exact Nat.le_succ _
  | eof | reset | closed => exact Nat.le_refl _

/-! ## Level-triggered reports -/

/-- What a server with one `recv` for each report keeps.  `reported` says that a report is
not yet handled. -/
structure Leveled (s : Stream) (reported : Prop) : Prop where
  whole : s.received ++ s.queue = s.arrived
  unclosed : s.isOpen = true → s.closes = 0
  closed : s.isOpen = false → s.queue = [] ∧ s.ending ≠ none ∧ s.closes = 1
  pending : reported → s.isOpen = true ∧ s.Readable

namespace Leveled

variable {reported other : Prop}

theorem of_iff (inv : s.Leveled reported) (same : reported ↔ other) : s.Leveled other :=
  propext same ▸ inv

theorem start : Stream.start.Leveled False where
  whole := rfl
  unclosed _ := rfl
  closed isClosed := nomatch isClosed
  pending := False.elim

/-- Nothing arrives when the connection has ended, so that it is open before. -/
theorem isOpen (inv : s.Leveled reported) (live : s.ending = none) : s.isOpen = true := by
  by_contra notOpen
  exact (inv.closed (Bool.eq_false_iff.mpr notOpen)).2.1 live

theorem arrive (inv : s.Leveled reported) (live : s.ending = none) (bytes : List Byte) :
    (s.arrive bytes).Leveled reported where
  whole := by
    rw [Stream.arrive, ← inv.whole, List.append_assoc]
  unclosed := inv.unclosed
  closed isClosed := absurd (inv.isOpen live) (Bool.eq_false_iff.mp isClosed)
  pending waits := by
    rcases inv.pending waits with ⟨isOpen, readable⟩
    exact ⟨isOpen, readable.imp_left (List.append_ne_nil_of_left_ne_nil · bytes)⟩

theorem finish (inv : s.Leveled reported) (live : s.ending = none) (ending : Ending) :
    (s.finish ending).Leveled reported where
  whole := inv.whole
  unclosed := inv.unclosed
  closed isClosed := absurd (inv.isOpen live) (Bool.eq_false_iff.mp isClosed)
  pending waits := ⟨(inv.pending waits).1, .inr (Option.some_ne_none ending)⟩

/-- The report is made for a connection that can be read. -/
theorem report (inv : s.Leveled False) (isOpen : s.isOpen = true) (readable : s.Readable) :
    s.report.Leveled True where
  whole := inv.whole
  unclosed := inv.unclosed
  closed isClosed := absurd isOpen (Bool.eq_false_iff.mp isClosed)
  pending _ := ⟨isOpen, readable⟩

/-- The call of `recv` for a report. -/
theorem served (inv : s.Leveled True) (called : s.recv limit count = some (answer, t)) :
    (served answer t).Leveled False := by
  rcases inv.pending trivial with ⟨isOpen, readable⟩
  have closedOnce : ∀ {ending}, s.queue = [] → s.ending = some ending →
      s.close.Leveled False := by
    intro ending empty ended
    have isEnded : s.ending ≠ none := ended ▸ Option.some_ne_none ending
    exact {
      whole := inv.whole
      unclosed := fun isOpen => nomatch isOpen
      closed := fun _ => ⟨empty, isEnded, congrArg (· + 1) (inv.unclosed isOpen)⟩
      pending := False.elim }
  cases recv_spec called with
  | data bytes rest _ _ split_eq =>
      have whole := inv.whole
      rw [split_eq, ← List.append_assoc] at whole
      exact ⟨whole, inv.unclosed, fun isClosed => absurd isOpen (Bool.eq_false_iff.mp isClosed),
        False.elim⟩
  | again _ nothing => exact absurd readable nothing
  | eof _ empty finished => exact closedOnce empty finished
  | reset _ empty gone => exact closedOnce empty gone
  | closed notOpen => exact absurd isOpen (Bool.eq_false_iff.mp notOpen)

/-- Nothing is pending: everything was read, and a connection that has ended was closed. -/
theorem settled (inv : s.Leveled False) (quiet : ¬ (s.isOpen = true ∧ s.Readable)) :
    s.received = s.arrived ∧ s.closes = if s.ending = none then 0 else 1 := by
  have whole := inv.whole
  by_cases isOpen : s.isOpen = true
  · have nothing : ¬ s.Readable := fun readable => quiet ⟨isOpen, readable⟩
    rcases not_or.mp nothing with ⟨empty, live⟩
    rw [not_ne_iff.mp empty, List.append_nil] at whole
    rw [if_pos (not_ne_iff.mp live)]
    exact ⟨whole, inv.unclosed isOpen⟩
  · rcases inv.closed (Bool.eq_false_iff.mpr isOpen) with ⟨empty, ended, once⟩
    rw [empty, List.append_nil] at whole
    rw [if_neg ended]
    exact ⟨whole, once⟩

end Leveled

/-! ## Edge-triggered reports -/

/-- How often `close` is called for a connection that ends: a loop that goes on behind an
end of file calls it again, for the `EBADF` of the next `recv`. -/
def drainCloses : Ending → Nat
  | .finished => 2
  | .reset => 1

/-- `close` is called once exactly for a connection that ends without an end of file. -/
theorem drainCloses_once_iff (ended : Option Ending) :
    ended.elim 0 drainCloses = (if ended = none then 0 else 1) ↔ ended ≠ some .finished := by
  cases ended with
  | none => exact iff_of_true rfl nofun
  | some ending =>
      cases ending with
      | finished => exact iff_of_false (by decide) fun other => other rfl
      | reset => exact iff_of_true rfl (by decide)

theorem drainCloses_le_one_iff (ended : Option Ending) :
    ended.elim 0 drainCloses ≤ 1 ↔ ended ≠ some .finished := by
  cases ended with
  | none => exact iff_of_true (Nat.zero_le 1) nofun
  | some ending =>
      cases ending with
      | finished => exact iff_of_false (by decide) fun other => other rfl
      | reset => exact iff_of_true (Nat.le_refl 1) (by decide)

/-- What a server that reads until `EAGAIN` keeps.  `reported` says that a report waits
behind others, and `draining` that its loop is running. -/
structure Edged (s : Stream) (reported draining : Prop) : Prop where
  whole : s.received ++ s.queue = s.arrived
  unclosed : s.isOpen = true → s.closes = 0
  closed : s.isOpen = false → s.queue = [] ∧
    ((¬ draining ∧ ∃ ending, s.ending = some ending ∧ s.closes = drainCloses ending) ∨
      draining ∧ s.ending = some .finished ∧ s.closes = 1)
  awake : s.isOpen = true → s.Readable → s.edge = true ∨ reported ∨ draining
  pending : reported → s.isOpen = true

namespace Edged

variable {reported draining reported' draining' : Prop}

theorem of_iff (inv : s.Edged reported draining) (waits : reported ↔ reported')
    (drains : draining ↔ draining') : s.Edged reported' draining' :=
  propext waits ▸ propext drains ▸ inv

theorem start : Stream.start.Edged False False where
  whole := rfl
  unclosed _ := rfl
  closed isClosed := nomatch isClosed
  awake _ readable := absurd readable (by decide)
  pending := False.elim

/-- Nothing arrives when the connection has ended, so that it is open before. -/
theorem isOpen (inv : s.Edged reported draining) (live : s.ending = none) : s.isOpen = true := by
  by_contra notOpen
  rcases (inv.closed (Bool.eq_false_iff.mpr notOpen)).2 with ⟨-, ending, ended, -⟩ | ⟨-, ended, -⟩
  · exact Option.some_ne_none ending (ended.symm.trans live)
  · exact Option.some_ne_none _ (ended.symm.trans live)

theorem arrive (inv : s.Edged reported draining) (live : s.ending = none) (bytes : List Byte) :
    (s.arrive bytes).Edged reported draining where
  whole := by
    rw [Stream.arrive, ← inv.whole, List.append_assoc]
  unclosed := inv.unclosed
  closed isClosed := absurd (inv.isOpen live) (Bool.eq_false_iff.mp isClosed)
  awake _ _ := .inl rfl
  pending := inv.pending

theorem finish (inv : s.Edged reported draining) (live : s.ending = none) (ending : Ending) :
    (s.finish ending).Edged reported draining where
  whole := inv.whole
  unclosed := inv.unclosed
  closed isClosed := absurd (inv.isOpen live) (Bool.eq_false_iff.mp isClosed)
  awake _ _ := .inl rfl
  pending := inv.pending

/-- The event becomes a report. -/
theorem report (inv : s.Edged False False) (isOpen : s.isOpen = true) (next : reported ∨ draining) :
    s.report.Edged reported draining where
  whole := inv.whole
  unclosed := inv.unclosed
  closed isClosed := absurd isOpen (Bool.eq_false_iff.mp isClosed)
  awake _ _ := .inr next
  pending _ := isOpen

/-- The report is the next one that is handled. -/
theorem turn (inv : s.Edged True False) : s.Edged False True where
  whole := inv.whole
  unclosed := inv.unclosed
  closed isClosed := absurd (inv.pending trivial) (Bool.eq_false_iff.mp isClosed)
  awake _ _ := .inr (.inr trivial)
  pending := False.elim

section Batch

variable {κ : Type*} {batch : List κ} {source : κ}

/-- A connection of a batch that `epoll_wait` returns. -/
theorem enter (inv : s.Edged False False) (isOpen : s.isOpen = true) (mem : source ∈ batch) :
    s.report.Edged (source ∈ batch.tail) (batch.head? = some source) := by
  apply inv.report isOpen
  cases batch with
  | nil => cases mem
  | cons first rest =>
      exact (List.mem_cons.mp mem).symm.imp_right fun same => congrArg some same.symm

theorem absent (inv : s.Edged False False) (notMem : source ∉ batch) :
    s.Edged (source ∈ batch.tail) (batch.head? = some source) := by
  apply inv.of_iff
  · exact iff_of_false id fun mem => notMem (List.mem_of_mem_tail mem)
  · exact iff_of_false id fun first => notMem (List.mem_of_mem_head? first)

/-- The reports in front of it are handled. -/
theorem shift (inv : s.Edged (source ∈ batch) False) (nodup : batch.Nodup) :
    s.Edged (source ∈ batch.tail) (batch.head? = some source) := by
  cases batch with
  | nil => exact inv.of_iff Iff.rfl (iff_of_false id nofun)
  | cons first rest =>
      by_cases same : first = source
      · subst same
        have turned := (inv.of_iff (iff_true_intro List.mem_cons_self) Iff.rfl).turn
        exact turned.of_iff (iff_of_false id (List.nodup_cons.mp nodup).1) (iff_of_true trivial rfl)
      · apply inv.of_iff
        · exact ⟨fun mem => (List.mem_cons.mp mem).resolve_left (Ne.symm same),
            List.mem_cons_of_mem first⟩
        · exact iff_of_false id fun equal => same (Option.some.inj equal)

end Batch

/-- The loop goes on. -/
theorem goes (inv : s.Edged False True) (called : s.recv limit count = some (answer, t))
    (more : (drained answer t).2 = true) : (drained answer t).1.Edged False True := by
  cases recv_spec called with
  | data bytes rest isOpen _ split_eq =>
      have whole := inv.whole
      rw [split_eq, ← List.append_assoc] at whole
      exact ⟨whole, inv.unclosed, fun isClosed => absurd isOpen (Bool.eq_false_iff.mp isClosed),
        fun _ _ => .inr (.inr trivial), False.elim⟩
  | again => cases more
  | eof isOpen empty finished =>
      have once : s.close.closes = 1 := congrArg (· + 1) (inv.unclosed isOpen)
      exact {
        whole := inv.whole
        unclosed := fun isOpen => nomatch isOpen
        closed := fun _ => ⟨empty, .inr ⟨trivial, finished, once⟩⟩
        awake := fun isOpen => nomatch isOpen
        pending := False.elim }
  | reset => cases more
  | closed => cases more

/-- The loop ends. -/
theorem stops (inv : s.Edged False True) (called : s.recv limit count = some (answer, t))
    (last : (drained answer t).2 = false) : (drained answer t).1.Edged False False := by
  have closed : ∀ {ending}, s.queue = [] → s.ending = some ending →
      s.close.closes = drainCloses ending → s.close.Edged False False := by
    intro ending empty ended count
    exact {
      whole := inv.whole
      unclosed := fun isOpen => nomatch isOpen
      closed := fun _ => ⟨empty, .inl ⟨id, ending, ended, count⟩⟩
      awake := fun isOpen => nomatch isOpen
      pending := False.elim }
  cases recv_spec called with
  | data => cases last
  | again isOpen nothing =>
      exact ⟨inv.whole, inv.unclosed, fun isClosed => absurd isOpen (Bool.eq_false_iff.mp isClosed),
        fun _ readable => absurd readable nothing, False.elim⟩
  | eof => cases last
  | reset isOpen empty gone =>
      have once : s.close.closes = drainCloses .reset := congrArg (· + 1) (inv.unclosed isOpen)
      exact closed empty gone once
  | closed notOpen =>
      rcases inv.closed notOpen with ⟨empty, ⟨notDraining, -⟩ | ⟨-, finished, once⟩⟩
      · exact absurd trivial notDraining
      · exact closed empty finished (congrArg (· + 1) once)

/-- Nothing is pending: everything was read, and `close` was called for a connection that
has ended. -/
theorem settled (inv : s.Edged False False)
    (quiet : ¬ (s.isOpen = true ∧ s.edge = true ∧ s.Readable)) :
    s.received = s.arrived ∧ s.closes = s.ending.elim 0 drainCloses := by
  have whole := inv.whole
  by_cases isOpen : s.isOpen = true
  · have nothing : ¬ s.Readable := by
      intro readable
      rcases inv.awake isOpen readable with edge | none | none
      · exact quiet ⟨isOpen, edge, readable⟩
      · exact none
      · exact none
    rcases not_or.mp nothing with ⟨empty, live⟩
    rw [not_ne_iff.mp empty, List.append_nil] at whole
    rw [not_ne_iff.mp live]
    exact ⟨whole, inv.unclosed isOpen⟩
  · rcases inv.closed (Bool.eq_false_iff.mpr isOpen) with ⟨empty, ⟨-, ending, ended, count⟩ | none⟩
    · rw [empty, List.append_nil] at whole
      rw [ended]
      exact ⟨whole, count⟩
    · exact none.1.elim

end Edged

end Stream

/-! ## The reports of a server -/

section Reports

variable {ι κ : Type*}

/-- The connections of a server that reads until `EAGAIN`, with the reports of `epoll_wait`
that it has not handled; its loop runs for the first one. -/
structure Reports (source : ι → κ) (conn : ι → Stream) (batch : List κ) : Prop where
  nodup : batch.Nodup
  edged : ∀ c, (conn c).Edged (source c ∈ batch.tail) (batch.head? = some (source c))

namespace Reports

variable {source : ι → κ} {conn : ι → Stream} {batch rest : List κ} {c : ι} {s : Stream}

theorem start : Reports source (fun _ => .start) [] where
  nodup := List.nodup_nil
  edged _ := Stream.Edged.start.of_iff (iff_of_false id List.not_mem_nil) (iff_of_false id nofun)

theorem idle (inv : Reports source conn []) (c : ι) : (conn c).Edged False False :=
  (inv.edged c).of_iff (iff_of_false List.not_mem_nil id) (iff_of_false nofun id)

/-- The loop runs for the first report. -/
theorem first (inv : Reports source conn (source c :: rest)) : (conn c).Edged False True :=
  (inv.edged c).of_iff (iff_of_false (List.nodup_cons.mp inv.nodup).1 id) (iff_true_intro rfl)

/-- The reports behind one that is not about a connection. -/
theorem skip {other : κ} (inv : Reports source conn (other :: rest))
    (notConn : ∀ c, source c ≠ other) : Reports source conn rest where
  nodup := (List.nodup_cons.mp inv.nodup).2
  edged c := by
    have waiting : (conn c).Edged (source c ∈ rest) False :=
      (inv.edged c).of_iff Iff.rfl
        (iff_of_false (fun same => notConn c (Option.some.inj same).symm) id)
    exact waiting.shift (List.nodup_cons.mp inv.nodup).2

theorem wait [DecidableEq κ] (inv : Reports source conn []) (nodup : batch.Nodup)
    (isOpen : ∀ c, source c ∈ batch → (conn c).isOpen = true) :
    Reports source (fun c => if source c ∈ batch then (conn c).report else conn c) batch where
  nodup := nodup
  edged c := by
    by_cases mem : source c ∈ batch
    · rw [if_pos mem]
      exact (inv.idle c).enter (isOpen c mem) mem
    · rw [if_neg mem]
      exact (inv.idle c).absent mem

variable [DecidableEq ι]

theorem update (inv : Reports source conn batch)
    (edged : s.Edged (source c ∈ batch.tail) (batch.head? = some (source c))) :
    Reports source (Function.update conn c s) batch where
  nodup := inv.nodup
  edged := (Function.forall_update_iff conn fun d s =>
    s.Edged (source d ∈ batch.tail) (batch.head? = some (source d))).mpr
      ⟨edged, fun d _ => inv.edged d⟩

/-- An iteration of the loop for the first report. -/
theorem drain (inv : Reports source conn (source c :: rest)) (injective : Function.Injective source)
    {limit count : Nat} {answer : Recv} (called : (conn c).recv limit count = some (answer, s)) :
    Reports source (Function.update conn c (s.drained answer).1)
      (if (s.drained answer).2 then source c :: rest else rest) := by
  rcases List.nodup_cons.mp inv.nodup with ⟨notMem, nodup⟩
  cases more : (s.drained answer).2 with
  | true =>
      rw [if_pos rfl]
      apply inv.update
      exact (inv.first.goes called more).of_iff (iff_of_false id notMem) (iff_of_true trivial rfl)
  | false =>
      rw [if_neg Bool.false_ne_true]
      refine ⟨nodup, ?_⟩
      apply (Function.forall_update_iff conn fun d s =>
        s.Edged (source d ∈ rest.tail) (rest.head? = some (source d))).mpr
      constructor
      · exact (inv.first.stops called more).absent notMem
      · intro d other
        have waiting : (conn d).Edged (source d ∈ rest) False := by
          apply (inv.edged d).of_iff Iff.rfl (iff_of_false _ id)
          exact fun same => other (injective (Option.some.inj same).symm)
        exact waiting.shift nodup

end Reports

end Reports

end NetPractice.Socket
