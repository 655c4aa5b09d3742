import NetPractice.Icmpd.Core

/-!
# Who gets the errors of a port

`readable_listen` fills in the descriptor of a slot, and leaves the family and the port of the
client that had the slot before.  They belong to the new client as soon as it has passed a
descriptor; until then an error for that port goes to the wrong client.
-/

namespace NetPractice.Icmpd

open NetPractice.Memory
open NetPractice.Socket
open NetPractice.Transition

namespace Daemon

/-- Every ICMPv4 error that was written to a client is about a port of a descriptor that the
client had passed on its connection. -/
def OwnersOnly (s : Daemon) : Prop :=
  ∀ report ∈ s.reports, report.err.dest.family = .inet → (report.sport : Int) ∈ report.passed

instance (s : Daemon) : Decidable s.OwnersOnly :=
  inferInstanceAs (Decidable (∀ report ∈ s.reports, _))

/-- A client has passed no descriptor yet, and its slot has the port from a client before. -/
def Left (s : Daemon) (sport i : Nat) : Prop :=
  0 ≤ s.slot i ∧ s.passed (s.slot i) = [] ∧ (s.client i).family = .inet ∧
    (s.client i).lport = sport

instance (s : Daemon) (sport i : Nat) : Decidable (s.Left sport i) :=
  inferInstanceAs (Decidable (_ ∧ _ ∧ _ ∧ _))

/-- When an ICMPv4 error arrives, its port is not one that is left in a slot. -/
def NotLeft (s : Daemon) : Event → Prop
  | .icmp4 buf n =>
      match parseV4 buf n with
      | .error sport _ => ∀ i ∈ s.indices, ¬ s.Left sport i
      | .quit | .ignored => True
  | _ => True

instance (s : Daemon) (event : Event) : Decidable (s.NotLeft event) := by
  unfold NotLeft
  split
  · split <;> infer_instance
  · infer_instance

/-- A client that has passed a descriptor has one of its ports in its slot. -/
structure Inv (s : Daemon) : Prop where
  owners : s.OwnersOnly
  watched : ∀ i, i < FD_SETSIZE → 0 ≤ s.slot i → s.slot i ∈ s.allset
  distinct : Distinct FD_SETSIZE s.slot
  last : s.maxi < FD_SETSIZE
  registered : ∀ i, i < FD_SETSIZE → 0 ≤ s.slot i → s.passed (s.slot i) ≠ [] →
    (s.client i).lport ∈ s.passed (s.slot i)

section Steps

variable {s t : Daemon} {i : Nat} {fd : Fd}

/-- The invariant does not depend on where the main loop is. -/
theorem Inv.congr (inv : Inv s) (client : t.client = s.client) (allset : t.allset = s.allset)
    (maxi : t.maxi = s.maxi) (passed : t.passed = s.passed) (reports : t.reports = s.reports) :
    Inv t := by
  have slot : t.slot = s.slot := by
    funext i
    exact congrArg (fun client => (client i).connfd) client
  constructor
  · unfold OwnersOnly
    rw [reports]
    exact inv.owners
  · rw [slot, allset]
    exact inv.watched
  · rw [slot]
    exact inv.distinct
  · rw [maxi]
    exact inv.last
  · rw [slot, passed, client]
    exact inv.registered

theorem Inv.proceed (inv : Inv s) (phase : Phase) : Inv (s.proceed phase) :=
  inv.congr rfl rfl rfl rfl rfl

/-! ## One slot -/

/-- A slot is filled or freed, and the others keep what they have. -/
theorem Inv.replace (inv : Inv s) {c : Client} (client : t.client = Function.update s.client i c)
    (reports : t.reports = s.reports) (last : t.maxi < FD_SETSIZE)
    (distinct : Distinct FD_SETSIZE (Function.update s.slot i c.connfd))
    (new : 0 ≤ c.connfd →
      c.connfd ∈ t.allset ∧ (t.passed c.connfd ≠ [] → c.lport ∈ t.passed c.connfd))
    (old : ∀ j, j < FD_SETSIZE → j ≠ i → 0 ≤ s.slot j →
      s.slot j ∈ t.allset ∧ t.passed (s.slot j) = s.passed (s.slot j)) : Inv t := by
  have self : t.client i = c := by
    rw [client, Function.update_self]
  have self_slot : t.slot i = c.connfd := congrArg Client.connfd self
  have other : ∀ j, j ≠ i → t.client j = s.client j := by
    intro j ne
    rw [client, Function.update_of_ne ne]
  have other_slot : ∀ j, j ≠ i → t.slot j = s.slot j := fun j ne =>
    congrArg Client.connfd (other j ne)
  have slot : t.slot = Function.update s.slot i c.connfd := by
    funext j
    by_cases same : j = i
    · rw [same, self_slot, Function.update_self]
    · rw [other_slot j same, Function.update_of_ne same]
  constructor
  · unfold OwnersOnly
    rw [reports]
    exact inv.owners
  · intro j below used
    by_cases same : j = i
    · rw [same, self_slot] at used ⊢
      exact (new used).1
    · rw [other_slot j same] at used ⊢
      exact (old j below same used).1
  · rw [slot]
    exact distinct
  · exact last
  · intro j below used some
    by_cases same : j = i
    · rw [same, self_slot] at used some ⊢
      rw [self]
      exact (new used).2 some
    · rw [other_slot j same] at used some ⊢
      rw [(old j below same used).2] at some ⊢
      rw [other j same]
      exact inv.registered j below used some

theorem Inv.slot_ne (inv : Inv s) {j : Nat} (inside : i < FD_SETSIZE) (below : j < FD_SETSIZE)
    (used : 0 ≤ s.slot j) (ne : j ≠ i) : s.slot j ≠ s.slot i :=
  fun equal => ne (inv.distinct j i below inside used equal)

/-- A new client has passed nothing. -/
theorem Inv.readableListen (inv : Inv s) (nonneg : 0 ≤ fd) (fresh : fd ∉ s.allset) :
    Inv (s.readableListen fd) := by
  unfold Daemon.readableListen
  cases found : firstFree FD_SETSIZE s.slot with
  | none => exact inv.congr rfl rfl rfl rfl rfl
  | some k =>
      rcases firstFree_spec found with ⟨inside, free⟩
      have other : ∀ j, j < FD_SETSIZE → 0 ≤ s.slot j → s.slot j ≠ fd := fun j below used equal =>
        fresh (equal ▸ inv.watched j below used)
      dsimp only
      refine inv.replace (i := k) (c := ⟨fd, (s.client k).family, (s.client k).lport⟩) rfl rfl
        ?_ ?_ ?_ ?_
      · exact last_occupy inv.last inside
      · apply inv.distinct.occupy nonneg
        rintro ⟨-, j, below, equal⟩
        exact other j below (equal ▸ nonneg) equal
      · intro _
        dsimp only
        rw [Function.update_self]
        exact ⟨Finset.mem_insert_self fd s.allset, fun some => absurd rfl some⟩
      · intro j below _ used
        dsimp only
        rw [Function.update_of_ne (other j below used)]
        exact ⟨Finset.mem_insert_of_mem (inv.watched j below used), rfl⟩

/-- Whatever else a slot holds, it is free without a descriptor. -/
theorem Inv.vacate (inv : Inv s) (inside : i < FD_SETSIZE) {c : Client}
    (client : t.client = Function.update s.client i c) (free : c.connfd = -1)
    (allset : t.allset = s.allset.erase (s.slot i)) (maxi : t.maxi = s.maxi)
    (passed : t.passed = s.passed) (reports : t.reports = s.reports) : Inv t := by
  apply inv.replace client reports
  · rw [maxi]
    exact inv.last
  · rw [free]
    exact inv.distinct.vacate
  · intro used
    rw [free] at used
    exact absurd used (by decide)
  · intro j below ne used
    rw [allset, passed]
    exact ⟨Finset.mem_erase.mpr
      ⟨inv.slot_ne inside below used ne, inv.watched j below used⟩, rfl⟩

/-- A descriptor that is taken leaves its port in the slot. -/
theorem Inv.accepted (inv : Inv s) (inside : i < FD_SETSIZE) (used : 0 ≤ s.slot i)
    (family : Family) (lport : Int) : Inv ((s.setPort i family lport).accepted i) := by
  have slot_eq : (s.setPort i family lport).slot i = s.slot i := by
    unfold slot setPort
    dsimp only
    rw [Function.update_self]
    rfl
  have client_eq : (s.setPort i family lport).client i = ⟨s.slot i, family, lport⟩ :=
    Function.update_self i _ s.client
  have passed_eq : ((s.setPort i family lport).accepted i).passed =
      Function.update s.passed (s.slot i) (s.passed (s.slot i) ++ [lport]) := by
    unfold Daemon.accepted
    rw [slot_eq, client_eq]
    rfl
  refine inv.replace (i := i) (c := ⟨s.slot i, family, lport⟩) rfl rfl ?_ ?_ ?_ ?_
  · exact inv.last
  · rw [Function.update_eq_self]
    exact inv.distinct
  · intro _
    dsimp only
    rw [passed_eq, Function.update_self]
    exact ⟨inv.watched i inside used, fun _ => List.mem_append_right _ List.mem_cons_self⟩
  · intro j below ne usedJ
    rw [passed_eq, Function.update_of_ne (inv.slot_ne inside below usedJ ne)]
    exact ⟨inv.watched j below usedJ, rfl⟩

theorem Inv.readableConn (inv : Inv s) (inside : i < FD_SETSIZE) (used : 0 ≤ s.slot i)
    (answer : Answer) : Inv (s.readableConn i answer) := by
  have done : Inv (s.clientDone i) :=
    inv.vacate inside rfl rfl rfl rfl rfl rfl
  cases answer with
  | closed => exact done
  | noDescriptor => exact done
  | noName => exact done
  | descriptor family port bound =>
      unfold Daemon.readableConn
      dsimp only
      split
      · split
        · refine inv.vacate (c := ⟨-1, family, sockBindWild family bound⟩) inside ?_ rfl ?_
            rfl rfl rfl
          · unfold clientDone setPort
            dsimp only
            rw [Function.update_self, Function.update_idem]
          · unfold clientDone setPort slot
            dsimp only
            rw [Function.update_self]
        · exact inv.accepted inside used family _
      · exact inv.accepted inside used family _

/-! ## ICMP messages -/

theorem mem_owners {family : Family} {sport : Nat} : i ∈ s.owners family sport ↔
    i ∈ s.indices ∧ 0 ≤ s.slot i ∧ (s.client i).family = family ∧
      (s.client i).lport = sport := by
  unfold owners
  rw [List.mem_filter, decide_eq_true_iff]
  rfl

/-- The error goes to clients that have passed a descriptor, so that the port is theirs. -/
theorem Inv.deliver (inv : Inv s) {sport : Nat} {err : IcmpdErr}
    (notLeft : err.dest.family = .inet → ∀ i ∈ s.indices, ¬ s.Left sport i) :
    Inv (s.deliver sport err) := by
  refine ⟨?_, inv.watched, inv.distinct, inv.last, inv.registered⟩
  intro report mem inet
  rcases List.mem_append.mp mem with old | new
  · exact inv.owners report old inet
  · rcases List.mem_map.mp new with ⟨i, owner, rfl⟩
    dsimp only at inet ⊢
    rw [inet] at owner
    rcases mem_owners.mp owner with ⟨inTable, used, family, lport⟩
    have some : s.passed (s.slot i) ≠ [] := fun nothing =>
      notLeft inet i inTable ⟨used, nothing, family, lport⟩
    rw [← lport]
    exact inv.registered i (lt_of_mem_range inv.last inTable) used some

/-- The parsers build errors of their own family. -/
theorem parseV4_family {buf : Nat → Text.Byte} {n sport : Nat} {err : IcmpdErr}
    (parsed : parseV4 buf n = .error sport err) : err.dest.family = .inet := by
  unfold parseV4 at parsed
  dsimp only at parsed
  split_ifs at parsed
  cases parsed
  rfl

theorem parseV6_family {buf : Nat → Text.Byte} {n sport : Nat} {err : IcmpdErr}
    (parsed : parseV6 buf n = .error sport err) : err.dest.family = .inet6 := by
  unfold parseV6 at parsed
  dsimp only at parsed
  split_ifs at parsed
  cases parsed
  rfl

theorem Inv.handleMessage (inv : Inv s) {verdict : Verdict}
    (notLeft : ∀ sport err, verdict = .error sport err → err.dest.family = .inet →
      ∀ i ∈ s.indices, ¬ s.Left sport i)
    (handled : s.handleMessage verdict = some t) : Inv t := by
  cases verdict with
  | quit => exact absurd handled (by exact nofun)
  | ignored =>
      cases handled
      exact inv.congr rfl rfl rfl rfl rfl
  | error sport err =>
      cases handled
      exact (inv.deliver (notLeft sport err rfl)).congr rfl rfl rfl rfl rfl

/-! ## The main loop -/

theorem Inv.skip (inv : Inv s) (step : s.skip = some t) : Inv t := by
  unfold Daemon.skip at step
  split at step
  · cases step
  all_goals
    rcases refused_eq_some_iff.mp step with ⟨-, rfl⟩
    exact inv.congr rfl rfl rfl rfl rfl

/-- The invariant survives every event at which no port is left from a client before. -/
theorem preserves_inv : Preserves next NotLeft Inv := by
  intro s event t inv notLeft step
  cases event with
  | select ready =>
      rcases guarded_eq_some_iff.mp step with ⟨-, rfl⟩
      exact inv.congr rfl rfl rfl rfl rfl
  | listen connfd =>
      rcases guarded_eq_some_iff.mp step with ⟨⟨-, -, nonneg, fresh⟩, rfl⟩
      exact (inv.readableListen nonneg fresh).proceed .icmp4
  | icmp4 buf n =>
      rcases Option.ite_none_right_eq_some.mp step with ⟨-, step⟩
      rcases Option.map_eq_some_iff.mp step with ⟨u, handled, rfl⟩
      apply Inv.proceed
      apply inv.handleMessage _ handled
      intro sport err parsed _
      unfold NotLeft at notLeft
      dsimp only at notLeft
      rw [parsed] at notLeft
      exact notLeft
  | icmp6 buf n =>
      rcases Option.ite_none_right_eq_some.mp step with ⟨-, step⟩
      rcases Option.map_eq_some_iff.mp step with ⟨u, handled, rfl⟩
      apply Inv.proceed
      apply inv.handleMessage _ handled
      intro sport err parsed inet
      rw [parseV6_family parsed] at inet
      cases inet
  | conn answer =>
      unfold Daemon.next at step
      dsimp only at step
      split at step
      next i _ =>
        rcases guarded_eq_some_iff.mp step with ⟨⟨bound, used, -⟩, rfl⟩
        have last := inv.last
        have inside : i < FD_SETSIZE := by omega
        exact (inv.readableConn inside used answer).proceed (.clients (i + 1))
      next => cases step
  | skip => exact inv.skip step

/-- An error for a port that is left from a client before goes to a client that has passed
nothing. -/
theorem not_ownersOnly_of_left {event : Event} (left : ¬ s.NotLeft event)
    (step : s.next event = some t) : ¬ t.OwnersOnly := by
  cases event with
  | icmp4 buf n =>
      rcases Option.ite_none_right_eq_some.mp step with ⟨-, step⟩
      rcases Option.map_eq_some_iff.mp step with ⟨u, handled, rfl⟩
      unfold readableV4 at handled
      unfold NotLeft at left
      dsimp only at left
      cases parsed : parseV4 buf n with
      | quit =>
          rw [parsed] at left
          exact absurd trivial left
      | ignored =>
          rw [parsed] at left
          exact absurd trivial left
      | error sport err =>
          rw [parsed] at left handled
          dsimp only at left
          push Not at left
          rcases left with ⟨i, inTable, used, nothing, family, lport⟩
          have owner : i ∈ s.owners .inet sport := mem_owners.mpr ⟨inTable, used, family, lport⟩
          cases handled
          intro only
          have inet := parseV4_family parsed
          have written : (⟨s.slot i, sport, err, s.passed (s.slot i)⟩ : Report) ∈
              (s.deliver sport err).reports := by
            apply List.mem_append_right
            rw [inet]
            exact List.mem_map_of_mem owner
          have isPassed := only _ written inet
          dsimp only at isPassed
          rw [nothing] at isPassed
          exact absurd isPassed List.not_mem_nil
  | select _ => exact absurd trivial left
  | listen _ => exact absurd trivial left
  | icmp6 _ _ => exact absurd trivial left
  | conn _ => exact absurd trivial left
  | skip => exact absurd trivial left

end Steps

theorem initial_inv (fd4 fd6 listenfd : Fd) : Inv (initial fd4 fd6 listenfd) := by
  have unused : ∀ i, ¬ 0 ≤ (initial fd4 fd6 listenfd).slot i := by
    intro i
    change ¬ (0 : Int) ≤ -1
    decide
  constructor
  · exact fun _ mem => absurd mem List.not_mem_nil
  · exact fun i _ used => absurd used (unused i)
  · exact fun i _ _ _ used _ => absurd used (unused i)
  · change (-1 : Int) < FD_SETSIZE
    decide
  · exact fun i _ used _ => absurd used (unused i)

/-- In every run of the daemon, ICMPv4 errors are written only to clients that have passed a
descriptor with that port on their connection, exactly when no error arrives for a port that
an earlier client has left in the slot of one that has passed nothing yet. -/
theorem ownersOnly_along_iff (fd4 fd6 listenfd : Fd) (events : List Event)
    (possible : (run next (initial fd4 fd6 listenfd) events).isSome) :
    Along next OwnersOnly (initial fd4 fd6 listenfd) events ↔
      Meets next NotLeft (initial fd4 fd6 listenfd) events :=
  along_iff_meets_of_isSome preserves_inv (fun _ inv => inv.owners)
    (fun _ _ _ _ left step => not_ownersOnly_of_left left step)
    (initial_inv fd4 fd6 listenfd) possible

/-! ## A slot that is used again -/

/-- Port 7 of some host is unreachable for the UDP socket with port 5000. -/
def unreachable (k : Nat) : Text.Byte :=
  ([0x45, 0, 0, 56, 0, 0, 0, 0, 64, 1, 0, 0, 10, 0, 0, 2, 10, 0, 0, 1,
    3, 3, 0, 0, 0, 0, 0, 0,
    0x45, 0, 0, 28, 0, 0, 0, 0, 64, 17, 0, 0, 10, 0, 0, 1, 10, 0, 0, 2,
    19, 136, 0, 7, 0, 8, 0, 0] : List Text.Byte).getD k 0

/-- `Select` reports one client, the only one, and `readable_conn` is called for it. -/
def fromClient (connfd : Fd) (answer : Answer) : List Event :=
  [.select {connfd}, .skip, .skip, .skip, .conn answer]

/-- A client passes a socket with port 5000; the error for it arrives. -/
def registeredClient : List Event :=
  [.select {5}, .listen 6] ++ fromClient 6 (.descriptor .inet 5000 none) ++
    [.select {3}, .skip, .icmp4 unreachable 56]

theorem ownersOnly_along_registeredClient :
    ((run next (initial 3 4 5) registeredClient).map fun s =>
        s.reports.map fun report => (report.connfd, report.sport, report.passed)) =
      some [(6, 5000, [5000])] ∧
    Along next OwnersOnly (initial 3 4 5) registeredClient :=
  ⟨by decide +kernel,
    (ownersOnly_along_iff 3 4 5 registeredClient (by decide +kernel)).mpr (by decide +kernel)⟩

/-- The client leaves, the next one gets its slot, and the error arrives before that client
has passed a descriptor. -/
def nextClient : List Event :=
  [.select {5}, .listen 6] ++ fromClient 6 (.descriptor .inet 5000 none) ++ fromClient 6 .closed ++
    [.select {5}, .listen 6, .select {3}, .skip, .icmp4 unreachable 56]

theorem nextClient_gets_report :
    ((run next (initial 3 4 5) nextClient).map fun s =>
        s.reports.map fun report => (report.connfd, report.sport, report.passed)) =
      some [(6, 5000, [])] ∧
    ¬ Along next OwnersOnly (initial 3 4 5) nextClient := by
  constructor
  · decide +kernel
  · intro along
    have outcome : ((run next (initial 3 4 5) nextClient).map fun s => decide s.OwnersOnly) =
        some false := by
      decide +kernel
    rcases Option.map_eq_some_iff.mp outcome with ⟨t, finished, lost⟩
    exact of_decide_eq_false lost (along.last finished)

end Daemon

end NetPractice.Icmpd
