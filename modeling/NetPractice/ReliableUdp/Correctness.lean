import NetPractice.ReliableUdp.Core
import NetPractice.Transition.Core
import Mathlib.Data.List.Nodup

/-!
# Replies belong to their requests

Every call takes the next sequence number, so that fewer than 2^32 calls have different
ones.  A call only returns a datagram with its own sequence number; a late reply to another
call carries another one.
-/

namespace NetPractice.ReliableUdp

open NetPractice.Memory
open NetPractice.Text
open NetPractice.Transition

variable {F : Type} [CFloat F]

/-! ## Headers -/

theorem loadWord_seq (seq : UInt32) : UInt32.ofNat (loadWord (storeWord 4 seq.toNat)) = seq := by
  rw [loadWord_storeWord seq.toNat_lt]
  exact UInt32.ofNat_toNat

@[simp]
theorem Hdr.length_bytes (hdr : Hdr) : hdr.bytes.length = HDR := by
  simp [Hdr.bytes, HDR]

/-- The header is read back from the front of what was sent, or echoed. -/
theorem Hdr.ofBytes_append (hdr : Hdr) (rest : List Byte) :
    Hdr.ofBytes (hdr.bytes ++ rest) = hdr := by
  have seq : (hdr.bytes ++ rest).take 4 = storeWord 4 hdr.seq.toNat := by
    rw [Hdr.bytes, List.append_assoc]
    exact List.take_left' (length_storeWord 4 _)
  have ts : ((hdr.bytes ++ rest).drop 4).take 4 = storeWord 4 hdr.ts.toNat := by
    rw [Hdr.bytes, List.append_assoc, List.drop_left' (length_storeWord 4 _)]
    exact List.take_left' (length_storeWord 4 _)
  rw [Hdr.ofBytes, seq, ts, loadWord_seq, loadWord_seq]

/-- The bytes behind the header do not matter. -/
theorem Hdr.ofBytes_take (bytes : List Byte) :
    Hdr.ofBytes (bytes.take HDR) = Hdr.ofBytes bytes := by
  have seq : (bytes.take HDR).take 4 = bytes.take 4 := by
    rw [List.take_take]
    rfl
  have ts : ((bytes.take HDR).drop 4).take 4 = (bytes.drop 4).take 4 := by
    rw [List.drop_take, List.take_take]
    rfl
  rw [Hdr.ofBytes, Hdr.ofBytes, seq, ts]

/-- A datagram that is not short replaces the whole header. -/
theorem Hdr.overwrite_of_le (hdr : Hdr) {datagram : List Byte} (long : HDR ≤ datagram.length) :
    hdr.overwrite datagram = Hdr.ofBytes datagram := by
  have none : hdr.bytes.drop datagram.length = [] := by
    apply List.drop_eq_nil_of_le
    rw [Hdr.length_bytes]
    exact long
  rw [Hdr.overwrite, none, List.append_nil, Hdr.ofBytes_take]

/-! ## What holds of every call -/

/-- The estimators behind `rtt_init` and `rtt_newpack`. -/
def RttInfo.Fresh (ptr : RttInfo F) : Prop :=
  ∃ tv : Timeval, ptr =
    { rtt := 0.0
      srtt := 0.0
      rttvar := 0.75
      rto := rttMinmax (CFloat.narrow (0.0 + 4.0 * 0.75))
      nrexmt := 0
      base := .ofInt tv.sec }

theorem RttInfo.fresh_init (ptr : RttInfo F) (tv : Timeval) : (ptr.init tv).newpack.Fresh :=
  ⟨tv, rfl⟩

/-- All transmissions of a call are copies of one request, under the number of the call. -/
def Call.Copies (call : Call F) : Prop :=
  ∀ sent ∈ call.sent, sent.hdr.seq = call.seq ∧ sent.outbuff = call.outbuff

/-- The datagram has the number of the call, and `inbuff` its payload, as far as there is
room; `n` counts it together with the header. -/
def Call.Accepts (call : Call F) (n : Nat) (inbuff datagram : List Byte) : Prop :=
  HDR ≤ datagram.length ∧ (Hdr.ofBytes datagram).seq = call.seq ∧
    inbuff = (datagram.drop HDR).take call.inbytes ∧ n = HDR + inbuff.length

/-- The call that has not returned. -/
def Phase.call : Phase F → Option (Call F)
  | .idle => none
  | .waiting call | .arrived call _ _ _ => some call

/-- All calls. -/
def Client.calls (c : Client F) : List (Call F) :=
  c.past.map Done.call ++ c.phase.call.toList

/-- Calls return replies to their own requests, send at most four copies of them, and a call
behind one that has returned -1 begins afresh; no call accepts a late reply to another. -/
structure Reliable (c : Client F) : Prop where
  received : ∀ done ∈ c.past, 0 ≤ done.result.ret → ∃ n inbuff datagram,
    done.result = .received n inbuff datagram ∧ done.call.Accepts n inbuff datagram ∧
      done.result.ret = inbuff.length
  copies : ∀ call ∈ c.calls, call.sent.length ≤ RTT_MAXNREXMT + 1 ∧ call.Copies
  renewed : ∀ (i : Nat) (done : Done F) (after : Call F), c.past[i]? = some done →
    done.result.ret = -1 → c.calls[i + 1]? = some after → after.rttinfo.Fresh
  distinct : (c.calls.map Call.seq).Nodup
  late : ∀ (i j : Nat) (call : Call F) (sent : Sent) (done : Done F) (n : Nat)
    (inbuff datagram : List Byte), c.calls[i]? = some call → sent ∈ call.sent →
      c.past[j]? = some done → done.result = .received n inbuff datagram →
      sent.hdr.bytes <+: datagram → i = j

/-! ## The invariant -/

namespace Client

variable {c d : Client F}

/-- What is known in the phases of a call. -/
def AtPhase (c : Client F) : Phase F → Prop
  | .idle => ∀ done ∈ c.past.getLast?, done.result = .timedOut → c.rttinit = false
  | .waiting call => call.seq = c.sendhdr.seq ∧ call.sent.length = c.rttinfo.nrexmt + 1
  | .arrived call n inbuff datagram =>
      call.seq = c.sendhdr.seq ∧ call.sent.length = c.rttinfo.nrexmt + 1 ∧
        call.Accepts n inbuff datagram

/-- The invariant behind the calls. -/
structure Inv (c : Client F) : Prop where
  seq : c.sendhdr.seq = .ofNat c.calls.length
  numbered : c.calls.map Call.seq =
    (List.range c.calls.length).map fun i => UInt32.ofNat (i + 1)
  copies : ∀ call ∈ c.calls, call.sent.length ≤ RTT_MAXNREXMT + 1 ∧ call.Copies
  received : ∀ done ∈ c.past, ∀ n inbuff datagram,
    done.result = .received n inbuff datagram → done.call.Accepts n inbuff datagram
  renewed : ∀ (i : Nat) (done : Done F) (after : Call F), c.past[i]? = some done →
    done.result = .timedOut → c.calls[i + 1]? = some after → after.rttinfo.Fresh
  atPhase : c.AtPhase c.phase

theorem ofNat_inj {m n : Nat} (first : m < 2 ^ 32) (second : n < 2 ^ 32)
    (equal : UInt32.ofNat m = UInt32.ofNat n) : m = n := by
  have toNat := congrArg UInt32.toNat equal
  rw [UInt32.toNat_ofNat_of_lt' first, UInt32.toNat_ofNat_of_lt' second] at toNat
  exact toNat

theorem Inv.seq_of_getElem? {i : Nat} {call : Call F} (inv : c.Inv)
    (present : c.calls[i]? = some call) : i < c.calls.length ∧ call.seq = .ofNat (i + 1) := by
  rcases List.getElem?_eq_some_iff.mp present with ⟨inside, -⟩
  have seq : (c.calls.map Call.seq)[i]? = some call.seq := by
    rw [List.getElem?_map, present]
    rfl
  rw [inv.numbered, List.getElem?_map, List.getElem?_range inside] at seq
  exact ⟨inside, (Option.some.inj seq).symm⟩

omit [CFloat F] in
theorem calls_of_past {i : Nat} {done : Done F} (present : c.past[i]? = some done) :
    c.calls[i]? = some done.call := by
  have inside := (List.getElem?_eq_some_iff.mp present).1
  rw [calls, List.getElem?_append_left (by rwa [List.length_map]), List.getElem?_map, present]
  rfl

theorem Inv.reliable (inv : c.Inv) (few : c.calls.length < 2 ^ 32) : Reliable c where
  received done mem returns := by
    rcases result : done.result with _ | ⟨n, inbuff, datagram⟩
    · rw [result] at returns
      exact absurd returns (by decide)
    · have accepts := inv.received done mem n inbuff datagram result
      refine ⟨n, inbuff, datagram, rfl, accepts, ?_⟩
      rw [Result.ret, accepts.2.2.2]
      omega
  copies := inv.copies
  renewed i done after present returns := by
    apply inv.renewed i done after present
    rcases result : done.result with _ | ⟨n, inbuff, datagram⟩
    · rfl
    · have accepts := inv.received done (List.mem_of_getElem? present) n inbuff datagram result
      rw [result, Result.ret, accepts.2.2.2] at returns
      omega
  distinct := by
    rw [inv.numbered]
    apply List.Nodup.map_on _ List.nodup_range
    intro i iMem j jMem equal
    have iLt := List.mem_range.mp iMem
    have jLt := List.mem_range.mp jMem
    exact Nat.succ.inj (ofNat_inj (by omega) (by omega) equal)
  late i j call sent done n inbuff datagram isCall mem isDone result echo := by
    have accepts := inv.received done (List.mem_of_getElem? isDone) n inbuff datagram result
    rcases inv.seq_of_getElem? isCall with ⟨iLt, callSeq⟩
    rcases inv.seq_of_getElem? (calls_of_past isDone) with ⟨jLt, doneSeq⟩
    have copied := ((inv.copies call (List.mem_of_getElem? isCall)).2 sent mem).1
    rcases echo with ⟨rest, rfl⟩
    have same := accepts.2.1
    rw [Hdr.ofBytes_append, copied, callSeq, doneSeq] at same
    exact Nat.succ.inj (ofNat_inj (by omega) (by omega) same)

/-! ## Every step keeps the invariant -/

theorem start_inv : (start (F := F)).Inv where
  seq := rfl
  numbered := rfl
  copies _ mem := absurd mem List.not_mem_nil
  received _ mem := absurd mem List.not_mem_nil
  renewed _ _ _ present := by cases present
  atPhase _ mem := by cases mem

omit [CFloat F] in
theorem calls_of_call {call : Call F} (current : c.phase.call = some call) :
    c.calls = c.past.map Done.call ++ [call] := by
  rw [calls, current]
  rfl

omit [CFloat F] in
theorem mem_calls {call : Call F} (current : c.phase.call = some call) : call ∈ c.calls := by
  rw [calls_of_call current]
  exact List.mem_append_right _ (List.mem_singleton.mpr rfl)

omit [CFloat F] in
theorem calls_of_idle (idle : c.phase = .idle) : c.calls = c.past.map Done.call := by
  rw [calls, idle]
  exact List.append_nil _

/-- A step in a call, which may send another copy. -/
theorem Inv.stays {call new : Call F} (inv : c.Inv) (current : c.phase.call = some call)
    (past : d.past = c.past) (sendhdr : d.sendhdr.seq = c.sendhdr.seq)
    (goes : d.phase.call = some new) (seq : new.seq = call.seq)
    (rttinfo : new.rttinfo = call.rttinfo)
    (copies : new.sent.length ≤ RTT_MAXNREXMT + 1 ∧ new.Copies) (atPhase : d.AtPhase d.phase) :
    d.Inv := by
  have before := calls_of_call current
  have behind := calls_of_call goes
  rw [past] at behind
  have seqs : d.calls.map Call.seq = c.calls.map Call.seq := by
    rw [before, behind, List.map_append, List.map_append, List.map_singleton,
      List.map_singleton, seq]
  have lengths : d.calls.length = c.calls.length := by
    simpa using congrArg List.length seqs
  constructor
  · rw [sendhdr, lengths]
    exact inv.seq
  · rw [seqs, lengths]
    exact inv.numbered
  · intro other mem
    rw [behind] at mem
    rcases List.mem_append.mp mem with old | current
    · apply inv.copies other
      rw [before]
      exact List.mem_append_left _ old
    · rw [List.mem_singleton.mp current]
      exact copies
  · rw [past]
    exact inv.received
  · intro i done after isDone timedOut isAfter
    rw [past] at isDone
    rw [behind] at isAfter
    by_cases last : i + 1 = (c.past.map Done.call).length
    · rw [last, List.getElem?_concat_length] at isAfter
      rw [← Option.some.inj isAfter, rttinfo]
      apply inv.renewed i done call isDone timedOut
      rw [before, last, List.getElem?_concat_length]
    · have inside := (List.getElem?_eq_some_iff.mp isDone).1
      have old : i + 1 < (c.past.map Done.call).length := by
        rw [List.length_map] at last ⊢
        omega
      apply inv.renewed i done after isDone timedOut
      rw [before, List.getElem?_append_left old]
      rw [List.getElem?_append_left old] at isAfter
      exact isAfter
  · exact atPhase

/-- The end of a call. -/
theorem Inv.ends {call : Call F} {result : Result} (inv : c.Inv)
    (current : c.phase.call = some call) (past : d.past = c.past ++ [⟨call, result⟩])
    (idle : d.phase = .idle) (sendhdr : d.sendhdr = c.sendhdr)
    (received : ∀ n inbuff datagram, result = .received n inbuff datagram →
      call.Accepts n inbuff datagram)
    (gaveUp : result = .timedOut → d.rttinit = false) : d.Inv := by
  have before := calls_of_call current
  have same : d.calls = c.calls := by
    rw [calls_of_idle idle, past, before, List.map_append]
    rfl
  constructor
  · rw [sendhdr, same]
    exact inv.seq
  · rw [same]
    exact inv.numbered
  · rw [same]
    exact inv.copies
  · intro done mem
    rw [past] at mem
    rcases List.mem_append.mp mem with old | new
    · exact inv.received done old
    · rw [List.mem_singleton.mp new]
      exact received
  · intro i done after isDone timedOut isAfter
    rw [same] at isAfter
    apply inv.renewed i done after _ timedOut isAfter
    have inside := (List.getElem?_eq_some_iff.mp isAfter).1
    rw [before, List.length_append, List.length_map, List.length_singleton] at inside
    rw [past, List.getElem?_append_left (by omega)] at isDone
    exact isDone
  · rw [idle]
    intro done mem timedOut
    rw [past, List.getLast?_concat] at mem
    rw [← Option.some.inj mem] at timedOut
    exact gaveUp timedOut

/-- The number of the next call. -/
theorem Inv.seq_succ (inv : c.Inv) : c.sendhdr.seq + 1 = .ofNat (c.calls.length + 1) := by
  rw [inv.seq, UInt32.ofNat_add]
  rfl

/-- The beginning of a call. -/
theorem Inv.enter (inv : c.Inv) (idle : c.phase = .idle) (outbuff : List Byte) (inbytes : Nat)
    (inittv tv : Timeval) : (c.enter outbuff inbytes inittv tv).Inv := by
  have before := calls_of_idle idle
  have forgets := inv.atPhase
  rw [idle] at forgets
  generalize began : c.enter outbuff inbytes inittv tv = d
  let rttinfo := (if c.rttinit then c.rttinfo else c.rttinfo.init inittv).newpack
  let hdr : Hdr := ⟨c.sendhdr.seq + 1, rttinfo.ts tv⟩
  let new : Call F := ⟨outbuff, inbytes, c.sendhdr.seq + 1, rttinfo, [⟨hdr, outbuff⟩]⟩
  have past : d.past = c.past := began ▸ rfl
  have goes : d.phase = .waiting new := began ▸ rfl
  have sendhdr : d.sendhdr = hdr := began ▸ rfl
  have nrexmt : d.rttinfo = rttinfo := began ▸ rfl
  have behind : d.calls = c.calls ++ [new] := by
    rw [calls_of_call (congrArg Phase.call goes), past, before]
  have length : d.calls.length = c.calls.length + 1 := by
    rw [behind, List.length_append, List.length_singleton]
  constructor
  · rw [sendhdr, length]
    exact inv.seq_succ
  · rw [length, List.range_succ, List.map_append, ← inv.numbered, behind, List.map_append]
    exact congrArg (_ ++ [·]) inv.seq_succ
  · intro call mem
    rw [behind] at mem
    rcases List.mem_append.mp mem with old | isNew
    · exact inv.copies call old
    · rw [List.mem_singleton.mp isNew]
      constructor
      · exact Nat.succ_le_succ (Nat.zero_le RTT_MAXNREXMT)
      · intro sent isSent
        rw [List.mem_singleton.mp isSent]
        exact ⟨rfl, rfl⟩
  · rw [past]
    exact inv.received
  · intro i done after isDone timedOut isAfter
    rw [past] at isDone
    rw [behind] at isAfter
    by_cases last : i + 1 = c.calls.length
    · rw [last, List.getElem?_concat_length] at isAfter
      rw [← Option.some.inj isAfter]
      have isLast : c.past.getLast? = some done := by
        rw [List.getLast?_eq_getElem?, ← isDone]
        congr 1
        rw [before, List.length_map] at last
        omega
      have zero := forgets done isLast timedOut
      change (RttInfo.newpack (if c.rttinit then _ else _)).Fresh
      rw [zero]
      exact RttInfo.fresh_init c.rttinfo inittv
    · have inside := (List.getElem?_eq_some_iff.mp isDone).1
      rw [before, List.length_map] at last
      rw [before, List.getElem?_append_left (by rw [List.length_map]; omega), ← before] at isAfter
      exact inv.renewed i done after isDone timedOut isAfter
  · rw [goes]
    exact ⟨congrArg Hdr.seq sendhdr.symm, congrArg (·.nrexmt + 1) nrexmt.symm⟩

theorem Inv.recvmsg {call : Call F} (inv : c.Inv) (waiting : c.phase = .waiting call)
    (datagram : List Byte) : (c.recvmsg call datagram).Inv := by
  have current : c.phase.call = some call := congrArg Phase.call waiting
  have atPhase := inv.atPhase
  rw [waiting] at atPhase
  have copies := inv.copies call (mem_calls current)
  by_cases rejected : min datagram.length (HDR + call.inbytes) < HDR ∨
      (c.recvhdr.overwrite datagram).seq ≠ c.sendhdr.seq
  · have goes : (c.recvmsg call datagram).phase = .waiting call := if_pos rejected
    apply inv.stays current
    · rfl
    · rfl
    · exact congrArg Phase.call goes
    · rfl
    · rfl
    · exact copies
    · rw [goes]
      exact atPhase
  · have goes : (c.recvmsg call datagram).phase = .arrived call
        (min datagram.length (HDR + call.inbytes))
        ((datagram.drop HDR).take call.inbytes) datagram := if_neg rejected
    rcases not_or.mp rejected with ⟨notShort, same⟩
    have long : HDR ≤ datagram.length := by omega
    rw [c.recvhdr.overwrite_of_le long, not_not] at same
    apply inv.stays current
    · rfl
    · rfl
    · exact congrArg Phase.call goes
    · rfl
    · rfl
    · exact copies
    · rw [goes]
      refine ⟨atPhase.1, atPhase.2, long, same.trans atPhase.1.symm, rfl, ?_⟩
      rw [List.length_take, List.length_drop]
      omega

theorem Inv.timedOut {call : Call F} (inv : c.Inv) (current : c.phase.call = some call)
    (seq : call.seq = c.sendhdr.seq) (sent : call.sent.length = c.rttinfo.nrexmt + 1)
    (tv : Timeval) : (c.timedOut call tv).Inv := by
  have copies := inv.copies call (mem_calls current)
  by_cases givesUp : RTT_MAXNREXMT < c.rttinfo.nrexmt + 1
  · have returns : c.timedOut call tv = { c with
        rttinfo := c.rttinfo.timeout.1
        rttinit := false
        timer := 0
        phase := .idle
        past := c.past ++ [⟨call, .timedOut⟩] } := if_pos (decide_eq_true givesUp)
    rw [returns]
    apply inv.ends current
    · rfl
    · rfl
    · rfl
    · nofun
    · exact fun _ => rfl
  · have again : c.timedOut call tv =
        Client.sendAgain { c with rttinfo := c.rttinfo.timeout.1 } call tv :=
      if_neg (by rw [decide_eq_true_iff]; exact givesUp)
    rw [again]
    apply inv.stays current
    · rfl
    · rfl
    · rfl
    · rfl
    · rfl
    · constructor
      · rw [List.length_append, List.length_singleton]
        omega
      · intro copy mem
        rcases List.mem_append.mp mem with old | new
        · exact copies.2 copy old
        · rw [List.mem_singleton.mp new]
          exact ⟨seq.symm, rfl⟩
    · refine ⟨seq, ?_⟩
      rw [List.length_append, sent]
      rfl

/-- An error ends the process. -/
theorem Inv.quits (inv : c.Inv) : Inv { c with quit := true } :=
  ⟨inv.seq, inv.numbered, inv.copies, inv.received, inv.renewed, inv.atPhase⟩

theorem Inv.next {event : Event} (inv : c.Inv) (step : c.next event = some d) : d.Inv := by
  have atPhase := inv.atPhase
  unfold Client.next at step
  rcases Option.ite_none_left_eq_some.mp step with ⟨-, taken⟩
  split at taken
  next outbuff inbytes inittv tv idle =>
    cases taken
    exact inv.enter idle outbuff inbytes inittv tv
  next call datagram waiting =>
    cases taken
    exact inv.recvmsg waiting datagram
  next call tv waiting =>
    rw [waiting] at atPhase
    rcases guarded_eq_some_iff.mp taken with ⟨-, rfl⟩
    exact inv.timedOut (congrArg Phase.call waiting) atPhase.1 atPhase.2 tv
  next call n inbuff datagram tv arrived =>
    rw [arrived] at atPhase
    rcases guarded_eq_some_iff.mp taken with ⟨-, rfl⟩
    exact inv.timedOut (congrArg Phase.call arrived) atPhase.1 atPhase.2.1 tv
  next call n inbuff datagram tv arrived =>
    rw [arrived] at atPhase
    cases taken
    apply inv.ends (congrArg Phase.call arrived)
    · rfl
    · rfl
    · rfl
    · intro n inbuff datagram equal
      cases equal
      exact atPhase.2.2
    · nofun
  next =>
    cases taken
    exact inv.quits
  next =>
    cases taken
    exact inv.quits
  next => cases taken

end Client

/-- For every behaviour of the network and of the timer, and for every arithmetic of the
estimators: fewer than 2^32 calls only return replies to their own requests, send at most
four copies of a request under one sequence number, and after a -1 the next call begins
with new estimators and another number. -/
theorem dgSendRecv_reliable {events : List Event} {c : Client F}
    (finished : run Client.next Client.start events = some c) (few : c.calls.length < 2 ^ 32) :
    Reliable c :=
  (invariant_run (fun _ _ _ inv step => inv.next step) Client.start_inv finished).reliable few

/-- Exact arithmetic. -/
instance : CFloat Rat where
  less a b := decide (a < b)
  ofUInt32 n := n.toNat
  narrow a := a
  truncate a := a.num.tdiv a.den

/-- The first timeout is three seconds. -/
example : ((⟨0, 0, 0, 0, 0, 0⟩ : RttInfo Rat).init ⟨0, 0⟩).start = 3 := by
  decide +kernel

/-- A call that gives up, and another one, which gets a late reply to the first one, a short
datagram and a reply of its own. -/
def lateReply : List Event :=
  [.call [97] 10 ⟨5, 0⟩ ⟨5, 0⟩, .alarm ⟨8, 0⟩, .alarm ⟨14, 0⟩, .alarm ⟨26, 0⟩, .alarm ⟨50, 0⟩,
    .call [98] 10 ⟨60, 0⟩ ⟨60, 0⟩, .datagram [1, 0, 0, 0, 0, 0, 0, 0, 97], .datagram [2, 0],
    .datagram [2, 0, 0, 0, 0, 0, 0, 0, 98], .stop ⟨61, 0⟩]

theorem lateReply_reliable :
    ∃ c : Client Rat, run Client.next Client.start lateReply = some c ∧
      c.past.map Done.result =
        [.timedOut, .received 9 [98] [2, 0, 0, 0, 0, 0, 0, 0, 98]] ∧ Reliable c := by
  have results : (run Client.next (Client.start : Client Rat) lateReply).map
      (fun c => (c.calls.length, c.past.map Done.result)) =
        some (2, [.timedOut, .received 9 [98] [2, 0, 0, 0, 0, 0, 0, 0, 98]]) := by
    decide +kernel
  rcases Option.map_eq_some_iff.mp results with ⟨c, finished, fields⟩
  rcases Prod.mk.inj fields with ⟨two, equal⟩
  refine ⟨c, finished, equal, dgSendRecv_reliable finished ?_⟩
  rw [two]
  decide

end NetPractice.ReliableUdp
