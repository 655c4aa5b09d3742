import NetPractice.Http.Overwrites
import Mathlib.Data.Finset.Card

/-!
# The number of connections

`m_user_count` is changed without a lock by `init` and `close_conn`.  The workers
call `close_conn` only when `process_write` has failed, and it never does: in front
of a request the write buffer is empty, and every answer fits.  So only the main
thread changes the count, and it is the number of open connections, as long as no
content overwrites a descriptor.
-/

namespace NetPractice.Http

open NetPractice.Text
open NetPractice.Socket
open NetPractice.Transition

namespace Server

variable {s t : Server}

/-- The objects whose socket is open. -/
def openConns (s : Server) : Finset Nat :=
  (Finset.range MAX_FD).filter fun index => s.opened index = true

/-- The invariant behind `UserCounted`. -/
structure Tallied (s : Server) : Prop extends Placed s where
  inside : ∀ fd, s.opened fd = true → fd < MAX_FD
  tally : s.userCount = s.openConns.card

theorem card_openConns_le (s : Server) : s.openConns.card ≤ MAX_FD := by
  have filtered := Finset.card_filter_le (Finset.range MAX_FD) fun index => s.opened index = true
  rwa [Finset.card_range] at filtered

/-- A connection is refused exactly when all objects are in use. -/
theorem Tallied.refuses (tallied : Tallied s) {connfd : Fd} (nonneg : 0 ≤ connfd)
    (step : s.next (.accept connfd) = some t) :
    t.opened connfd = false ↔ s.openConns.card = MAX_FD := by
  have tally := tallied.tally
  have most := s.card_openConns_le
  simp only [next] at step
  split at step
  · rename_i batch reported
    rcases accept_spec (Option.ite_none_left_eq_some.mp step).2 with
      ⟨rfl, failed | ⟨closed, full⟩⟩ | ⟨-, inside, room, closed, rfl⟩
    · exact absurd failed (not_lt.mpr nonneg)
    · have all : MAX_FD ≤ s.openConns.card := by
        rw [show s.userCount = _ from tally] at full
        exact_mod_cast full
      exact ⟨fun _ => Nat.le_antisymm most all, fun _ => closed⟩
    · have some : s.openConns.card < MAX_FD := by
        rw [show s.userCount = _ from tally] at room
        exact_mod_cast room
      have isOpen : ({ s with batch := batch }.initConn connfd).opened connfd = true :=
        Function.update_self _ _ _
      rw [isOpen]
      exact ⟨fun impossible => Bool.noConfusion impossible, fun full => absurd full some.ne⟩
  · cases step

/-- The bytes of an object, of which `m_sockfd` and `m_address` stand in front of
`m_read_buf`. -/
def SIZEOF_HTTP_CONN : Int := 3544

/-- Where `m_read_buf` begins in an object. -/
def OFFSETOF_READ_BUF : Int := 20

/-- An `int` behind a store of a NUL byte into one of its bytes, the lowest one first. -/
def clearByte (value : Int) (byte : Nat) : Int :=
  toInt (value - value / 256 ^ byte % 256 * 256 ^ byte)

/-- What a NUL byte at an index of `users[request].m_read_buf` overwrites among the
descriptors in `users`. -/
def overwritten (s : Server) (request : Fd) (index : Int) : Server :=
  { s with
    users := fun fd =>
      let byte := (request - fd) * SIZEOF_HTTP_CONN + OFFSETOF_READ_BUF + index
      if 0 ≤ byte ∧ byte < 4 then
        { s.users fd with sockfd := clearByte (s.users fd).sockfd byte.toNat }
      else s.users fd }

end Server

end NetPractice.Http
