import NetPractice.IdleServer.Core

/-!
# What the branches of the event loop leave alone
-/

namespace NetPractice.IdleServer

open NetPractice.Timer

namespace Server

variable {s t u : Server}

/-! ## The report that a step handles -/

theorem next_accept {connfd : Nat} {timer : Addr} {now : Int}
    (step : s.next (.accept connfd timer now) = some t) :
    ∃ report rest, s.pending = some (report :: rest) ∧ s.branch report = .accept ∧
      ({ s with
        pending := some rest
        now := now
        heard := Function.update s.heard connfd now } : Server).accept connfd timer now =
        some t := by
  simp only [Server.next] at step
  split at step
  · rename_i report rest pending
    exact ⟨report, rest, pending, Option.ite_none_right_eq_some.mp step⟩
  · contradiction

theorem next_signals {received : List Signal} (step : s.next (.signals received) = some t) :
    ∃ report rest, s.pending = some (report :: rest) ∧ s.branch report = .signals ∧
      some ({ s with pending := some rest }.catchSignals received) = some t := by
  simp only [Server.next] at step
  split at step
  · rename_i report rest pending
    exact ⟨report, rest, pending, Option.ite_none_right_eq_some.mp step⟩
  · contradiction

theorem next_recv {ret : Int} {again : Bool} {now : Int}
    (step : s.next (.recv ret again now) = some t) :
    ∃ report rest, s.pending = some (report :: rest) ∧ s.branch report = .recv ∧
      ({ s with
        pending := some rest
        now := now
        heard := s.heardBehind report.sockfd ret now } : Server).receive
          report.sockfd ret again now = some t := by
  simp only [Server.next] at step
  split at step
  · rename_i report rest pending
    exact ⟨report, rest, pending, Option.ite_none_right_eq_some.mp step⟩
  · contradiction

theorem next_other (step : s.next .other = some t) :
    ∃ report rest, s.pending = some (report :: rest) ∧ s.branch report = .other ∧
      some { s with pending := some rest } = some t := by
  simp only [Server.next] at step
  split at step
  · rename_i report rest pending
    exact ⟨report, rest, pending, Option.ite_none_right_eq_some.mp step⟩
  · contradiction

theorem next_tick {now : Int} (step : s.next (.tick now) = some t) :
    s.pending = some [] ∧
      ({ s with pending := none, now := now } : Server).timerHandler now = some t :=
  Option.ite_none_right_eq_some.mp step

/-! ## Frames -/

/-- A branch touches neither the batch nor the listening socket, and reads the clock
that its event carries. -/
structure Frame (s t : Server) : Prop where
  listenfd_eq : t.listenfd = s.listenfd
  pending_eq : t.pending = s.pending
  now_eq : t.now = s.now

/-- A branch that accepts nothing leaves `users` alone. -/
structure UsersFrame (s t : Server) : Prop extends Frame s t where
  users_eq : t.users = s.users

/-- Closing connections. -/
structure ClosingFrame (s t : Server) : Prop extends UsersFrame s t where
  heard_eq : t.heard = s.heard
  clients : t.clients ⊆ s.clients

theorem ClosingFrame.refl (s : Server) : ClosingFrame s s :=
  ⟨⟨⟨rfl, rfl, rfl⟩, rfl⟩, rfl, List.Subset.refl _⟩

theorem ClosingFrame.trans (first : ClosingFrame s t) (second : ClosingFrame t u) :
    ClosingFrame s u where
  listenfd_eq := second.listenfd_eq.trans first.listenfd_eq
  pending_eq := second.pending_eq.trans first.pending_eq
  now_eq := second.now_eq.trans first.now_eq
  users_eq := second.users_eq.trans first.users_eq
  heard_eq := second.heard_eq.trans first.heard_eq
  clients := List.Subset.trans second.clients first.clients

theorem accept_frame {connfd : Nat} {timer : Addr} {cur : Int}
    (step : s.accept connfd timer cur = some t) : Frame s t := by
  unfold Server.accept at step
  split at step
  · rcases Option.map_eq_some_iff.mp step with ⟨lst, -, rfl⟩
    exact ⟨rfl, rfl, rfl⟩
  · contradiction

theorem cbFunc_frame {userData : Nat} (step : s.cbFunc userData = some t) : ClosingFrame s t := by
  rcases Option.bind_eq_some_iff.mp step with ⟨user, -, taken⟩
  cases taken
  exact ⟨⟨⟨rfl, rfl, rfl⟩, rfl⟩, rfl, List.erase_subset⟩

theorem delTimer_frame {timer : Option Addr} (step : s.delTimer timer = some t) :
    ClosingFrame s t := by
  cases timer with
  | none =>
      obtain rfl := Option.some.inj step
      exact .refl s
  | some timer =>
      rcases Option.map_eq_some_iff.mp step with ⟨lst, -, rfl⟩
      exact ⟨⟨⟨rfl, rfl, rfl⟩, rfl⟩, rfl, List.Subset.refl _⟩

theorem receive_frame {sockfd : Nat} {ret : Int} {again : Bool} {cur : Int}
    (step : s.receive sockfd ret again cur = some t) : UsersFrame s t := by
  rcases Option.bind_eq_some_iff.mp step with ⟨user, -, taken⟩
  have closes : ∀ {u : Server}, (s.cbFunc sockfd).bind (fun s => s.delTimer user.timer) = some u →
      UsersFrame s u := by
    intro u closed
    rcases Option.bind_eq_some_iff.mp closed with ⟨middle, called, deleted⟩
    exact ((cbFunc_frame called).trans (delTimer_frame deleted)).toUsersFrame
  split at taken
  · split at taken
    · cases taken
      exact (ClosingFrame.refl s).toUsersFrame
    · exact closes taken
  · split at taken
    · exact closes taken
    · split at taken
      · cases taken
        exact ⟨⟨rfl, rfl, rfl⟩, rfl⟩
      · rcases Option.bind_eq_some_iff.mp taken with ⟨lst, -, adjusted⟩
        cases adjusted
        exact ⟨⟨rfl, rfl, rfl⟩, rfl⟩

theorem expire_frame {cur : Int} {call : Nat × Nat} (step : expire cur s call = some t) :
    ClosingFrame s t := by
  rcases Option.bind_eq_some_iff.mp step with ⟨user, -, taken⟩
  dsimp only at taken
  split at taken
  · rcases Option.bind_eq_some_iff.mp taken with ⟨closed, called, recorded⟩
    cases recorded
    have frame := cbFunc_frame called
    exact ⟨⟨⟨frame.listenfd_eq, frame.pending_eq, frame.now_eq⟩, frame.users_eq⟩, frame.heard_eq,
      frame.clients⟩
  · contradiction

theorem foldlM_expire_frame {cur : Int} {calls : List (Nat × Nat)}
    (step : calls.foldlM (expire cur) s = some t) : ClosingFrame s t := by
  induction calls generalizing s with
  | nil =>
      obtain rfl := Option.some.inj step
      exact .refl s
  | cons call calls ih =>
      rcases Option.bind_eq_some_iff.mp step with ⟨middle, expired, rest⟩
      exact (expire_frame expired).trans (ih rest)

theorem timerHandler_frame {cur : Int} (step : s.timerHandler cur = some t) :
    ClosingFrame s t := by
  rcases Option.bind_eq_some_iff.mp step with ⟨lst, -, taken⟩
  have frame := foldlM_expire_frame taken
  exact ⟨⟨⟨frame.listenfd_eq, frame.pending_eq, frame.now_eq⟩, frame.users_eq⟩, frame.heard_eq,
    frame.clients⟩

end Server

end NetPractice.IdleServer
