import NetPractice.ShmChat.Segments

/-!
# Shutting down the shared-memory chat room

A `SIGTERM` or `SIGINT` that arrives while there are clients is passed on to
their children, and sets `terminate`; the `waitpid` loop sets `stop_server` once
`terminate` is set and no child is left.  The branch of the listening socket does
not look at `terminate`: a client that is let in meanwhile has a child that was
never told to end, and the program goes on for as long as that child does.
-/

namespace NetPractice.ShmChat

open NetPractice.Socket
open NetPractice.Transition

namespace Server

/-- The event processes a `SIGTERM` or a `SIGINT` while there are clients. -/
def shutsDown (s : Server) : Event → Bool
  | .signal =>
      match s.task with
      | .signals (.term :: _) | .signals (.int :: _) => s.userCount ≠ 0
      | _ => false
  | _ => false

/-- The parent stops, or it is in the last round of the `waitpid` loop, behind
which it will. -/
def Ending (s : Server) : Prop :=
  s.stopServer = true ∨
    (∃ rest, s.task = .reaping rest) ∧ s.terminate = true ∧ s.userCount = 0

end Server

/-! ## What has happened since the signal -/

/-- What has happened since a signal: how many children were created, how often
`user_count` grew, and which of the children of that moment are not reaped. -/
structure Watch where
  forked : Nat
  rises : Nat
  left : Pid → Bool

namespace Watch

/-- A watch begins at the signal, with the children that there are. -/
def start (s : Server) : Watch where
  forked := 0
  rises := 0
  left := fun pid => (s.children pid).isSome

/-- A step from `s` to `t`. -/
def next (watch : Watch) (s : Server) (event : Event) (t : Server) : Watch where
  forked := if s.Forks event then watch.forked + 1 else watch.forked
  rises := if s.userCount < t.userCount then watch.rises + 1 else watch.rises
  left :=
    match event with
    | .waitpid (some pid) => Function.update watch.left pid false
    | _ => watch.left

end Watch

/-- The program, with one record for each signal that was processed while there
were clients. -/
structure Watched where
  server : Server
  watches : List Watch

namespace Watched

/-- In front of the first `epoll_wait`, without watches. -/
def initial (users : Nat → ClientData) : Watched where
  server := Server.initial users
  watches := []

/-- The server and the watches go on. -/
def next (w : Watched) (event : Event) : Option Watched :=
  (w.server.next event).map fun server =>
    let watches := w.watches.map (·.next w.server event server)
    { server := server
      watches := if w.server.shutsDown event then Watch.start server :: watches else watches }

end Watched

/-- Since every signal that was processed while there were clients, no child was
created and `user_count` did not grow; and once the children of that moment are
reaped, the parent stops. -/
def ShutDown (w : Watched) : Prop :=
  ∀ watch ∈ w.watches, watch.forked = 0 ∧ watch.rises = 0 ∧
    ((∀ pid, watch.left pid = false) → w.server.Ending)

/-- No client is let in once `terminate` is set. -/
def NoneJoins (w : Watched) (event : Event) : Prop :=
  w.server.terminate = true → ¬ w.server.Forks event

instance (w : Watched) (event : Event) : Decidable (NoneJoins w event) :=
  inferInstanceAs (Decidable (_ → _))

/-! ## What a step does to the flags -/

namespace Server

theorem onAccept_flags (s : Server) (answer : Option Accepted) :
    (s.onAccept answer).terminate = s.terminate ∧
      (s.onAccept answer).stopServer = s.stopServer := by
  cases answer with
  | none => exact ⟨rfl, rfl⟩
  | some accepted =>
      simp only [onAccept]
      split
      · exact ⟨rfl, rfl⟩
      · split <;> exact ⟨rfl, rfl⟩

/-- The steps that neither accept nor process a signal nor wait for a child keep
the flags, and they do not leave the `waitpid` loop. -/
theorem next_flags {s t : Server} {event : Event} (step : s.next event = some t)
    (notAccept : ∀ answer, event ≠ .accept answer) (notSignal : event ≠ .signal)
    (notWaitpid : ∀ pid, event ≠ .waitpid pid) :
    t.terminate = s.terminate ∧ t.stopServer = s.stopServer ∧
      ∀ rest, s.task = .reaping rest → t.task = .reaping rest := by
  cases event with
  | accept answer => exact absurd rfl (notAccept answer)
  | signal => exact absurd rfl notSignal
  | waitpid pid => exact absurd rfl (notWaitpid pid)
  | wait batch =>
      rcases guarded_eq_some_iff.mp step with ⟨-, rfl⟩
      exact ⟨rfl, rfl, fun _ => id⟩
  | signals received =>
      simp only [next] at step
      split at step
      · rename_i inLoop _
        obtain rfl := Option.some.inj step
        refine ⟨rfl, rfl, fun rest reaping => ?_⟩
        rw [inLoop] at reaping
        contradiction
      · contradiction
  | pipe =>
      simp only [next] at step
      split at step
      · rename_i inLoop _
        obtain rfl := Option.some.inj step
        have away : ∀ rest, s.task ≠ .reaping rest := fun rest reaping => by
          rw [inLoop] at reaping
          contradiction
        simp only [onPipe]
        split
        · exact ⟨rfl, rfl, fun rest reaping => absurd reaping (away rest)⟩
        · split
          · exact ⟨rfl, rfl, fun rest reaping => absurd reaping (away rest)⟩
          · split <;> exact ⟨rfl, rfl, fun rest reaping => absurd reaping (away rest)⟩
      · contradiction
  | relay sent =>
      simp only [next] at step
      split at step
      · rename_i inRelay
        have away : ∀ rest, s.task ≠ .reaping rest := fun rest reaping => by
          rw [inRelay] at reaping
          contradiction
        split at step
        · obtain rfl := Option.some.inj step
          simp only [relay]
          split
          · exact ⟨rfl, rfl, fun rest reaping => absurd reaping (away rest)⟩
          · split
            · split <;> exact ⟨rfl, rfl, fun rest reaping => absurd reaping (away rest)⟩
            · exact ⟨rfl, rfl, fun rest reaping => absurd reaping (away rest)⟩
        · obtain rfl := Option.some.inj step
          exact ⟨rfl, rfl, fun rest reaping => absurd reaping (away rest)⟩
      · contradiction
  | arrive pid =>
      rcases Option.map_eq_some_iff.mp step with ⟨c, -, rfl⟩
      exact ⟨rfl, rfl, fun _ => id⟩
  | child pid taken =>
      rcases Option.bind_eq_some_iff.mp step with ⟨c, -, step⟩
      rcases Option.map_eq_some_iff.mp step with ⟨after, -, rfl⟩
      exact ⟨rfl, rfl, fun _ => id⟩

/-- A step of the loop over the received signals. -/
theorem next_signal {s t : Server} (step : s.next .signal = some t) :
    (s.task = .signals [] ∧ t = { s with task := .loop }) ∨
      ∃ signal rest, s.task = .signals (signal :: rest) ∧ t = s.onSignal rest signal := by
  simp only [next] at step
  split at step
  · rename_i task_eq
    exact Or.inl ⟨task_eq, (Option.some.inj step).symm⟩
  · rename_i signal rest task_eq
    exact Or.inr ⟨signal, rest, task_eq, (Option.some.inj step).symm⟩
  · contradiction

/-- The end of the `waitpid` loop. -/
theorem next_endReaping {s t : Server} (step : s.next (.waitpid none) = some t) :
    ∃ rest, s.task = .reaping rest ∧ t = s.endReaping rest := by
  simp only [next] at step
  split at step
  · rename_i rest task_eq
    exact ⟨rest, task_eq, (Option.some.inj step).symm⟩
  · contradiction

theorem reap_flags (s : Server) (pid : Pid) :
    (s.reap pid).terminate = s.terminate ∧ (s.reap pid).stopServer = s.stopServer ∧
      (s.reap pid).task = s.task := by
  simp only [reap]
  split <;> exact ⟨rfl, rfl, rfl⟩

/-- Only a signal that is processed while there are clients sets
`terminate`. -/
theorem next_terminate {s t : Server} {event : Event} (step : s.next event = some t) :
    t.terminate = (s.terminate || s.shutsDown event) := by
  by_cases accepts : ∃ answer, event = .accept answer
  · rcases accepts with ⟨answer, rfl⟩
    rcases next_accept step with ⟨batch, -, -, -, rfl⟩
    rw [(onAccept_flags _ answer).1]
    exact (Bool.or_false _).symm
  by_cases signals : event = .signal
  · subst signals
    rcases next_signal step with ⟨task_eq, rfl⟩ | ⟨signal, rest, task_eq, rfl⟩
    · simp only [shutsDown, task_eq, Bool.or_false]
    · by_cases empty : s.userCount = 0 <;> cases signal <;>
        simp [shutsDown, task_eq, onSignal, empty]
  by_cases waits : ∃ pid, event = .waitpid pid
  · rcases waits with ⟨pid, rfl⟩
    refine Eq.trans ?_ (Bool.or_false _).symm
    cases pid with
    | none =>
        rcases next_endReaping step with ⟨rest, -, rfl⟩
        rfl
    | some pid =>
        rcases next_reap step with ⟨-, c, -, -, -, rfl⟩
        exact (reap_flags s pid).1
  have calm : s.shutsDown event = false := by
    cases event with
    | signal => exact absurd rfl signals
    | _ => rfl
  rw [(next_flags step (not_exists.mp accepts) signals (not_exists.mp waits)).1, calm,
    Bool.or_false]

/-- Once `terminate` is set, the last entry goes in the `waitpid` loop, and the
end of that loop sets `stop_server`. -/
theorem next_ends {s t : Server} {event : Event}
    (step : s.next event = some t)
    (ends : s.terminate = true → s.userCount = 0 →
      s.stopServer = true ∨ ∃ rest, s.task = .reaping rest)
    (terminating : t.terminate = true) (empty : t.userCount = 0) :
    t.stopServer = true ∨ ∃ rest, t.task = .reaping rest := by
  by_cases accepts : ∃ answer, event = .accept answer
  · rcases accepts with ⟨answer, rfl⟩
    rcases next_accept step with ⟨batch, -, -, fresh, rfl⟩
    rcases onAccept_flags { s with batch := batch } answer with ⟨terminate_eq, stop_eq⟩
    rw [terminate_eq] at terminating
    rcases onAccept_spec (s := { s with batch := batch }) fresh with
      ⟨accepted, pid, rfl, -, letIn⟩ | ⟨-, refused⟩
    · rw [letIn.userCount_eq] at empty
      exact absurd empty (Nat.succ_ne_zero _)
    · rw [refused.userCount_eq] at empty
      rw [stop_eq, refused.task_eq]
      exact ends terminating empty
  by_cases signals : event = .signal
  · subst signals
    have inSignals : ∀ {rest}, s.task = .signals rest → s.terminate = true →
        s.userCount = 0 → s.stopServer = true := by
      intro rest task_eq terminating empty
      rcases ends terminating empty with stops | ⟨other, reaping⟩
      · exact stops
      · rw [task_eq] at reaping
        contradiction
    rcases next_signal step with ⟨task_eq, rfl⟩ | ⟨signal, rest, task_eq, rfl⟩
    · exact Or.inl (inSignals task_eq terminating empty)
    · cases signal with
      | chld => exact Or.inr ⟨rest, rfl⟩
      | other => exact Or.inl (inSignals task_eq terminating empty)
      | term | int =>
          by_cases none : s.userCount = 0
          · simp only [onSignal, if_pos none]
            exact Or.inl trivial
          · simp only [onSignal, if_neg none] at empty
            exact absurd empty none
  by_cases waits : ∃ pid, event = .waitpid pid
  · rcases waits with ⟨pid, rfl⟩
    cases pid with
    | none =>
        rcases next_endReaping step with ⟨rest, -, rfl⟩
        left
        change (s.stopServer || (s.terminate && decide (s.userCount = 0))) = true
        rw [show s.terminate = true from terminating, show s.userCount = 0 from empty]
        exact Bool.or_true _
    | some pid =>
        rcases next_reap step with ⟨rest, c, reaping, -, -, rfl⟩
        exact Or.inr ⟨rest, (reap_flags s pid).2.2.trans reaping⟩
  · have notReap : ∀ pid, event ≠ .waitpid (some pid) := fun pid => not_exists.mp waits (some pid)
    have refresh := next_refresh step (not_exists.mp accepts) notReap
    rcases next_flags step (not_exists.mp accepts) signals (not_exists.mp waits) with
      ⟨terminate_eq, stop_eq, reaping_of⟩
    rw [terminate_eq] at terminating
    rw [refresh.userCount_eq] at empty
    rcases ends terminating empty with stops | ⟨rest, reaping⟩
    · exact Or.inl (stop_eq.trans stops)
    · exact Or.inr ⟨rest, reaping_of rest reaping⟩

/-- The last round of the `waitpid` loop finds no child, and its end sets
`stop_server`. -/
theorem Ending.waitpid {s t : Server} (enrolled : Enrolled s) (ending : s.Ending)
    {pid : Option Pid} (step : s.next (.waitpid pid) = some t) : t.stopServer = true := by
  cases pid with
  | none =>
      rcases next_endReaping step with ⟨rest, -, rfl⟩
      change (s.stopServer || (s.terminate && decide (s.userCount = 0))) = true
      rcases ending with stops | ⟨-, terminating, empty⟩
      · rw [stops, Bool.true_or]
      · rw [terminating, empty]
        exact Bool.or_true _
  | some pid =>
      rcases next_reap step with ⟨-, c, -, child, -, rfl⟩
      rcases ending with stops | ⟨-, -, empty⟩
      · exact (reap_flags s pid).2.1.trans stops
      · rcases enrolled.listed pid c child with ⟨i, below, -⟩
        rw [empty] at below
        exact absurd below (Nat.not_lt_zero i)

end Server

/-! ## What the records say while nobody joins -/

namespace Watch

/-- Nothing was created, nothing grew, and the children are of the moment of the
signal. -/
structure Quiet (watch : Watch) (s : Server) : Prop where
  forked : watch.forked = 0
  rises : watch.rises = 0
  left : ∀ pid, (s.children pid).isSome → watch.left pid = true

theorem start_quiet (s : Server) : (start s).Quiet s :=
  ⟨rfl, rfl, fun _ => id⟩

/-- A step that leaves the entries and the children alone. -/
theorem Quiet.refresh {watch : Watch} {s t : Server} (quiet : watch.Quiet s)
    (refresh : Refresh s t) {event : Event} (noChild : ¬ s.Forks event)
    (notReap : ∀ pid, event ≠ .waitpid (some pid)) : (watch.next s event t).Quiet t := by
  constructor
  · exact (if_neg noChild).trans quiet.forked
  · have same : ¬ s.userCount < t.userCount := by
      rw [refresh.userCount_eq]
      exact Nat.lt_irrefl _
    exact (if_neg same).trans quiet.rises
  · intro pid present
    have before : (s.children pid).isSome := by
      rcases Option.isSome_iff_exists.mp present with ⟨d, child⟩
      rcases refresh.came child with ⟨c, child, -⟩
      exact Option.isSome_iff_exists.mpr ⟨c, child⟩
    have left := quiet.left pid before
    cases event with
    | waitpid reaped =>
        cases reaped with
        | none => exact left
        | some reaped => exact absurd rfl (notReap reaped)
    | _ => exact left

theorem Quiet.next {watch : Watch} {s t : Server} (enrolled : Enrolled s)
    (quiet : watch.Quiet s) {event : Event} (noChild : ¬ s.Forks event)
    (step : s.next event = some t) : (watch.next s event t).Quiet t := by
  rcases enrolled.next_cases step with ⟨accepted, pid, batch, rfl, forked, -, letIn⟩ |
    ⟨answer, batch, rfl, -, -, -, refused⟩ | ⟨pid, i, rfl, -, -, reaped⟩ |
    ⟨-, notReap, untouched⟩
  · exact absurd ⟨letIn.below, Option.isSome_iff_exists.mpr ⟨pid, forked⟩⟩ noChild
  · have refresh : Refresh s t := { refused.refresh with }
    exact quiet.refresh refresh noChild (fun _ => by intro; contradiction)
  · constructor
    · exact quiet.forked
    · have fewer : ¬ s.userCount < t.userCount := by
        rw [reaped.userCount_eq]
        exact Nat.not_lt.mpr (Nat.sub_le _ _)
      exact (if_neg fewer).trans quiet.rises
    · intro p present
      rcases Option.isSome_iff_exists.mp present with ⟨d, after⟩
      rcases reaped.survivor after with ⟨other, before⟩
      have left := quiet.left p (Option.isSome_iff_exists.mpr ⟨d, before⟩)
      exact (Function.update_of_ne other _ _).trans left
  · exact quiet.refresh untouched.refresh noChild notReap

end Watch

/-! ## The runs that shut down -/

/-- The invariant behind `ShutDown`. -/
structure Orderly (w : Watched) : Prop where
  enrolled : Enrolled w.server
  signalled : w.server.terminate = true ↔ w.watches ≠ []
  quiet : ∀ watch ∈ w.watches, watch.Quiet w.server
  ends : w.server.terminate = true → w.server.userCount = 0 →
    w.server.stopServer = true ∨ ∃ rest, w.server.task = .reaping rest

theorem Orderly.initial (users : Nat → ClientData) : Orderly (Watched.initial users) where
  enrolled := Enrolled.initial users
  signalled := by simp [Watched.initial, Server.initial]
  quiet _ listed := absurd listed List.not_mem_nil
  ends terminating := by contradiction

theorem Orderly.shutDown {w : Watched} (orderly : Orderly w) : ShutDown w := by
  intro watch listed
  have quiet := orderly.quiet watch listed
  refine ⟨quiet.forked, quiet.rises, fun allLeft => ?_⟩
  have terminating := orderly.signalled.mpr (List.ne_nil_of_mem listed)
  have empty : w.server.userCount = 0 := by
    by_contra nonempty
    rcases orderly.enrolled.entry 0 (Nat.pos_of_ne_zero nonempty) with ⟨c, child⟩
    have left := quiet.left _ (Option.isSome_iff_exists.mpr ⟨c, child⟩)
    rw [allLeft] at left
    contradiction
  rcases orderly.ends terminating empty with stops | reaping
  · exact Or.inl stops
  · exact Or.inr ⟨reaping, terminating, empty⟩

theorem Watched.next_eq_some {w w' : Watched} {event : Event} (step : w.next event = some w') :
    ∃ t, w.server.next event = some t ∧ w'.server = t ∧
      w'.watches = if w.server.shutsDown event
        then Watch.start t :: w.watches.map (·.next w.server event t)
        else w.watches.map (·.next w.server event t) := by
  rcases Option.map_eq_some_iff.mp step with ⟨t, taken, rfl⟩
  exact ⟨t, taken, rfl, rfl⟩

theorem Orderly.next {w w' : Watched} (orderly : Orderly w) {event : Event}
    (guard : NoneJoins w event) (step : w.next event = some w') : Orderly w' := by
  rcases Watched.next_eq_some step with ⟨t, taken, rfl, watches_eq⟩
  constructor
  · exact orderly.enrolled.next taken
  · rw [Server.next_terminate taken, watches_eq]
    cases w.server.shutsDown event with
    | true => simp
    | false => simpa using orderly.signalled
  · have kept : ∀ watch ∈ w.watches, (watch.next w.server event w'.server).Quiet w'.server := by
      intro watch listed
      have terminating := orderly.signalled.mpr (List.ne_nil_of_mem listed)
      exact (orderly.quiet watch listed).next orderly.enrolled (guard terminating) taken
    rw [watches_eq]
    intro watch listed
    split at listed
    · rcases List.mem_cons.mp listed with rfl | listed
      · exact Watch.start_quiet _
      · rcases List.mem_map.mp listed with ⟨before, wasListed, rfl⟩
        exact kept before wasListed
    · rcases List.mem_map.mp listed with ⟨before, wasListed, rfl⟩
      exact kept before wasListed
  · exact Server.next_ends taken orderly.ends

theorem orderly_preserved : Preserves Watched.next NoneJoins Orderly :=
  fun _ _ _ orderly guard step => orderly.next guard step

/-- A client that is let in behind the signal. -/
theorem Orderly.unquiet {w w' : Watched} (orderly : Orderly w) {event : Event}
    (unguarded : ¬ NoneJoins w event) (step : w.next event = some w') : ¬ ShutDown w' := by
  rcases Watched.next_eq_some step with ⟨t, taken, rfl, watches_eq⟩
  rcases Classical.not_imp.mp unguarded with ⟨terminating, joins⟩
  rcases List.exists_mem_of_ne_nil _ (orderly.signalled.mp terminating) with ⟨watch, listed⟩
  intro shutDown
  have after : watch.next w.server event w'.server ∈ w'.watches := by
    have mapped := List.mem_map_of_mem (f := (·.next w.server event w'.server)) listed
    rw [watches_eq]
    split
    · exact List.mem_cons_of_mem _ mapped
    · exact mapped
  have counted : (if w.server.Forks event then watch.forked + 1 else watch.forked) = 0 :=
    (shutDown _ after).1
  rw [if_pos (not_not.mp joins)] at counted
  exact Nat.succ_ne_zero _ counted

/-- In every run, no child is created and `user_count` does not grow behind a
signal, and the parent stops when the children of that moment are reaped, exactly
as long as no client is let in once `terminate` is set. -/
theorem shutDown_along_iff_noneJoins (users : Nat → ClientData) (events : List Event)
    (possible : (run Watched.next (Watched.initial users) events).isSome) :
    Along Watched.next ShutDown (Watched.initial users) events ↔
      Meets Watched.next NoneJoins (Watched.initial users) events :=
  along_iff_meets_of_isSome orderly_preserved (fun _ orderly => orderly.shutDown)
    (fun _ _ _ orderly unguarded step => orderly.unquiet unguarded step)
    (Orderly.initial users) possible

/-! ## A signal, and a client behind it -/

/-- The parent processes a `SIGTERM`. -/
def termRound : List Event :=
  [.wait [.signal], .signals (some [.term]), .signal, .signal]

/-- The signal reaches a child, which exits and is reaped. -/
def endRound (pid : Pid) : List Event :=
  [.child pid .term, .child pid .exit, .wait [.signal], .signals (some [.chld]), .signal,
    .waitpid (some pid), .waitpid none, .signal]

/-- Two clients, and a signal behind which nobody joins. -/
theorem shutDown_along_twoClients :
    Along Watched.next ShutDown (Watched.initial noUsers)
      (joinRound 100 7 8 9 ++ joinRound 101 7 9 10 ++ termRound ++ endRound 101 ++
        endRound 100) :=
  (shutDown_along_iff_noneJoins noUsers _ (by decide)).mpr (by decide)

/-- A client joins between the signal and the end of the last child: its own
child is not told to end, and the parent does not stop. -/
theorem joinsLate_goesOn :
    (run Watched.next (Watched.initial noUsers)
        (joinRound 100 7 8 9 ++ termRound ++ joinRound 101 7 9 10 ++ endRound 100)).map (fun w =>
      (w.server.stopServer, w.server.userCount,
        (w.server.children 101).map (·.stopChild),
        w.watches.map fun watch => (watch.forked, watch.left 100))) =
      some (false, 1, some false, [(1, false)]) ∧
    ¬ Along Watched.next ShutDown (Watched.initial noUsers)
      (joinRound 100 7 8 9 ++ termRound ++ joinRound 101 7 9 10 ++ endRound 100) := by
  have outcome : (run Watched.next (Watched.initial noUsers)
      (joinRound 100 7 8 9 ++ termRound ++ joinRound 101 7 9 10 ++ endRound 100)).map (fun w =>
        (w.server.stopServer, w.server.userCount,
          (w.server.children 101).map (·.stopChild),
          w.watches.map fun watch => (watch.forked, watch.left 100))) =
      some (false, 1, some false, [(1, false)]) := by
    decide
  constructor
  · exact outcome
  · intro along
    rcases Option.map_eq_some_iff.mp outcome with ⟨w, finished, values⟩
    simp only [Prod.mk.injEq] at values
    rcases List.map_eq_cons_iff.mp values.2.2.2 with ⟨watch, rest, watches_eq, counts, -⟩
    have listed : watch ∈ w.watches := by
      rw [watches_eq]
      exact List.mem_cons_self
    have forked := (along.last finished watch listed).1
    simp only [forked, Prod.mk.injEq] at counts
    exact absurd counts.1 (by decide)

end NetPractice.ShmChat
