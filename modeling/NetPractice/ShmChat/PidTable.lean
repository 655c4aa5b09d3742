import NetPractice.Memory.IndexTable
import NetPractice.ShmChat.Segments

/-!
# The pid table of the shared-memory chat room

`sub_process` is the index of `users`: it finds the entry of a child from the
process id that `waitpid` returns.  The parent removes an entry by moving the
last one into its place, and then writes the position of the moved entry.  When
the removed entry is itself the last one, this writes the index of the child that
was just reaped again.
-/

namespace NetPractice.ShmChat

open NetPractice.Memory
open NetPractice.Socket
open NetPractice.Transition

/-- `sub_process` is the index of the first `user_count` entries of `users`, and
`user_count` is the number of children that are forked and not reaped. -/
structure PidTable (s : Server) : Prop where
  indexed : Indexed (fun i => (s.users i).pid) s.userCount s.subProcess
  limit : s.userCount ≤ USER_LIMIT
  live : {p | (s.children p).isSome}.encard = s.userCount

/-- The invariant behind `PidTable`: the children that are not reaped are those
that `sub_process` finds. -/
structure Listed (s : Server) : Prop where
  indexed : Indexed (fun i => (s.users i).pid) s.userCount s.subProcess
  limit : s.userCount ≤ USER_LIMIT
  listed : ∀ p, (s.children p).isSome ↔ 0 ≤ s.subProcess p

theorem Listed.pidTable {s : Server} (table : Listed s) : PidTable s where
  indexed := table.indexed
  limit := table.limit
  live := by
    simp only [table.listed]
    exact table.indexed.encard_keys

/-- The reaped child is not that of the last entry. -/
def LeavesGap (s : Server) : Event → Prop
  | .waitpid (some pid) => pid ≠ (s.users (s.userCount - 1)).pid
  | _ => True

instance (s : Server) : ∀ event, Decidable (LeavesGap s event)
  | .waitpid (some _) => inferInstanceAs (Decidable (_ ≠ _))
  | .waitpid none | .wait _ | .accept _ | .signals _ | .signal | .pipe | .relay _ | .arrive _
  | .child _ _ => isTrue trivial

theorem leavesGap_of_notReap {s : Server} {event : Event}
    (notReap : ∀ pid, event ≠ .waitpid (some pid)) : LeavesGap s event := by
  cases event with
  | waitpid pid =>
      cases pid with
      | none => trivial
      | some pid => exact absurd rfl (notReap pid)
  | _ => trivial

theorem Listed.enrolled {s : Server} (table : Listed s) : Enrolled s where
  limit := table.limit
  entry i below := by
    apply Option.isSome_iff_exists.mp
    rw [table.listed, table.indexed.index_key below]
    exact Int.natCast_nonneg i
  found _ below := table.indexed.index_key below
  listed p c child :=
    (table.indexed.nonneg_iff p).mp ((table.listed p).mp (Option.isSome_iff_exists.mpr ⟨c, child⟩))

/-! ## Every step keeps the table -/

theorem Listed.initial (users : Nat → ClientData) : Listed (Server.initial users) where
  indexed := Indexed.empty _
  limit := Nat.zero_le _
  listed p := by simp [Server.initial]

theorem Listed.refresh {s t : Server} (table : Listed s) (refresh : Refresh s t) : Listed t where
  indexed := by
    rw [refresh.userCount_eq, refresh.subProcess_eq]
    apply table.indexed.congr
    intro i below
    rw [refresh.entry_eq i below]
  limit := refresh.userCount_eq ▸ table.limit
  listed p := by
    rw [refresh.subProcess_eq, ← table.listed p, Option.isSome_iff_exists,
      Option.isSome_iff_exists]
    constructor
    · rintro ⟨d, after⟩
      rcases refresh.came after with ⟨c, before, -⟩
      exact ⟨c, before⟩
    · rintro ⟨c, before⟩
      exact refresh.kept before

/-- A new child gets the position behind the last entry. -/
theorem Listed.letIn {s t : Server} (table : Listed s) {answer : Accepted} {pid : Pid}
    (letIn : s.LetIn t answer pid) (fresh : s.children pid = none) : Listed t where
  indexed := by
    have unlisted : s.subProcess pid < 0 := by
      by_contra nonneg
      have child := (table.listed pid).mpr (by omega)
      rw [fresh] at child
      contradiction
    rw [letIn.userCount_eq, letIn.subProcess_eq]
    apply (table.indexed.push unlisted).congr
    intro i below
    by_cases last : i = s.userCount
    · rw [last, Function.update_self, letIn.last_eq]
    · rw [Function.update_of_ne last, letIn.entry_eq i (by omega)]
  limit := by
    rw [letIn.userCount_eq]
    exact letIn.below
  listed p := by
    rw [letIn.children_eq, letIn.subProcess_eq]
    by_cases is_new : p = pid
    · subst is_new
      simp
    · rw [Function.update_of_ne is_new, Function.update_of_ne is_new]
      exact table.listed p

/-- What reaping the child of entry `i` makes of the index. -/
theorem Server.Reaped.removed_eq {s t : Server} {pid : Pid} {i : Nat}
    (reaped : s.Reaped t pid i) (owner : (s.users i).pid = pid) :
    t.subProcess =
      Indexed.removed (fun i => (s.users i).pid) s.userCount s.subProcess i := by
  rw [reaped.subProcess_eq, Indexed.removed, owner]

theorem Listed.reaped {s t : Server} (table : Listed s) {pid : Pid} {i : Nat}
    (below : i < s.userCount) (owner : (s.users i).pid = pid) (reaped : s.Reaped t pid i)
    (gap : pid ≠ (s.users (s.userCount - 1)).pid) : Listed t where
  indexed := by
    have notLast : i ≠ s.userCount - 1 := by
      rintro rfl
      exact gap owner.symm
    rw [reaped.userCount_eq, reaped.removed_eq owner]
    apply (table.indexed.swapRemove (by omega)).congr
    intro j _
    rw [reaped.users_eq]
    by_cases moved : j = i
    · rw [moved, Function.update_self, Function.update_self]
    · rw [Function.update_of_ne moved, Function.update_of_ne moved]
  limit := by
    rw [reaped.userCount_eq]
    exact (Nat.sub_le _ _).trans table.limit
  listed p := by
    rw [reaped.children_eq, reaped.subProcess_eq]
    by_cases moved : p = (s.users (s.userCount - 1)).pid
    · rw [moved, Function.update_of_ne (Ne.symm gap), Function.update_self, table.listed,
        table.indexed.index_key (by omega)]
      constructor <;> intro _ <;> exact Int.natCast_nonneg _
    · rw [Function.update_of_ne moved]
      by_cases gone : p = pid
      · subst gone
        simp
      · rw [Function.update_of_ne gone, Function.update_of_ne gone]
        exact table.listed p

/-! ## The runs that keep the table -/

theorem Listed.next {s t : Server} (table : Listed s) {event : Event}
    (guard : LeavesGap s event) (step : s.next event = some t) : Listed t := by
  have start : ∀ batch, Listed { s with batch := batch } := fun _ => { table with }
  rcases table.enrolled.next_cases step with ⟨accepted, pid, batch, -, forked, fresh, letIn⟩ |
    ⟨-, batch, -, -, -, -, refused⟩ | ⟨pid, i, rfl, below, owner, reaped⟩ | ⟨-, -, untouched⟩
  · exact (start batch).letIn letIn (fresh.unborn forked)
  · exact (start batch).refresh refused.refresh
  · exact table.reaped below owner reaped guard
  · exact table.refresh untouched.refresh

theorem listed_preserved : Preserves Server.next LeavesGap Listed :=
  fun _ _ _ table guard step => table.next guard step

/-- Reaping the child of the last entry leaves its process id in
`sub_process`. -/
theorem Listed.stale {s t : Server} (table : Listed s) {event : Event}
    (unguarded : ¬ LeavesGap s event) (step : s.next event = some t) : ¬ PidTable t := by
  rcases table.enrolled.next_cases step with ⟨_, _, _, rfl, -⟩ | ⟨_, _, rfl, -⟩ |
    ⟨pid, i, rfl, below, owner, reaped⟩ | ⟨-, notReap, -⟩
  · exact absurd trivial unguarded
  · exact absurd trivial unguarded
  · have last : pid = (s.users (s.userCount - 1)).pid := not_not.mp unguarded
    have at_last : i = s.userCount - 1 :=
      table.indexed.key_injective below (by omega) (owner.trans last)
    intro after
    have indexed := after.indexed
    rw [reaped.userCount_eq, reaped.removed_eq owner, at_last] at indexed
    exact Indexed.not_swapRemove_last _ _ _ _ indexed
  · exact absurd (leavesGap_of_notReap notReap) unguarded

/-- In every run, `sub_process` and `users` agree, and `user_count` is the number
of children, exactly as long as no child of the last entry is reaped. -/
theorem pidTable_along_iff_leavesGap (users : Nat → ClientData) (events : List Event)
    (possible : (run Server.next (Server.initial users) events).isSome) :
    Along Server.next PidTable (Server.initial users) events ↔
      Meets Server.next LeavesGap (Server.initial users) events :=
  along_iff_meets_of_isSome listed_preserved (fun _ table => table.pidTable)
    (fun _ _ _ table unguarded step => table.stale unguarded step)
    (Listed.initial users) possible

/-- The older of two clients leaves, and the table stays right. -/
theorem pidTable_along_replaceRun :
    Along Server.next PidTable (Server.initial noUsers) (replaceRun 100) :=
  (pidTable_along_iff_leavesGap noUsers (replaceRun 100) (by decide)).mpr (by decide)

/-- The newer of two clients leaves: no child is left with its process id, no
entry of the one client is at its position, and `sub_process` still maps it
there. -/
theorem lastLeaves_stale :
    (run Server.next (Server.initial noUsers)
        (joinRound 100 7 8 9 ++ joinRound 101 7 9 10 ++ leaveRound 101)).map (fun s =>
      (s.subProcess 101, s.userCount, (s.children 101).isSome)) = some (1, 1, false) ∧
    ¬ Along Server.next PidTable (Server.initial noUsers)
      (joinRound 100 7 8 9 ++ joinRound 101 7 9 10 ++ leaveRound 101) := by
  have outcome : (run Server.next (Server.initial noUsers)
      (joinRound 100 7 8 9 ++ joinRound 101 7 9 10 ++ leaveRound 101)).map (fun s =>
        (s.subProcess 101, s.userCount, (s.children 101).isSome)) = some (1, 1, false) := by
    decide
  constructor
  · exact outcome
  · intro along
    rcases Option.map_eq_some_iff.mp outcome with ⟨s, finished, values⟩
    simp only [Prod.mk.injEq] at values
    rcases values with ⟨stale, count, -⟩
    have position := ((along.last finished).indexed.found 101 1).mp stale
    rw [count] at position
    exact Nat.lt_irrefl 1 position.1

end NetPractice.ShmChat
