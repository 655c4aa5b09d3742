import NetPractice.EchoSession.HalfClose

/-!
# The client with `select` and the server block each other

However much room there is in the two directions, some input fills it: the client reads less
from the socket than from its input, as often as `Select` reports both, until its `Writen`
finds no room, and neither does that of the server.
-/

namespace NetPractice.EchoSession.HalfClose

open NetPractice.Socket
open NetPractice.Text
open NetPractice.Transition

variable {toServer toClient m k u d : Nat} {server : Server}

/-- All bytes are 0: only their numbers matter. -/
def counted (pc : Pc) (server : Server) (m k u d : Nat) : Session where
  pc := pc
  stdineof := false
  stdin := List.replicate m 0
  stdout := List.replicate k 0
  peer :=
    { server := server
      up := ⟨List.replicate u 0, false⟩
      down := ⟨List.replicate d 0, false⟩ }

/-! ## Single calls -/

theorem snoc_zeros (n : Nat) : List.replicate n (0 : Byte) ++ [0] = List.replicate (n + 1) 0 :=
  List.replicate_succ'.symm

theorem select_both :
    next toServer toClient (counted .select server m k u (d + 1)) (.client true true 0) =
      some (counted (.socket true) server m k u (d + 1)) := by
  simp [next, clientNext, counted, Pipe.Readable, List.replicate_succ]

theorem select_input :
    next toServer toClient (counted .select server m k u 0) (.client true true 0) =
      some (counted .input server m k u 0) := by
  simp [next, clientNext, counted, Pipe.Readable]

theorem socket_one :
    next toServer toClient (counted (.socket true) server m k u (d + 1)) (.client true true 1) =
      some (counted .input server m (k + 1) u d) := by
  simp [next, clientNext, counted, Pipe.AtEnd, Pipe.read, MAXLINE, snoc_zeros,
    List.take_replicate]

theorem input_some (n : Nat) (pos : 0 < n) (le : n ≤ MAXLINE) :
    next toServer toClient (counted .input server (n + m) k u d) (.client true true n) =
      some (counted (.writen (List.replicate n 0)) server m k u d) := by
  simp [next, clientNext, counted, pos, le, Nat.ne_of_gt pos, List.take_replicate]

theorem writen_more (room : u < toServer) :
    next toServer toClient (counted (.writen [0, 0]) server m k u d) (.client true true 1) =
      some (counted (.writen [0]) server m k (u + 1) d) := by
  simp [next, clientNext, counted, Pipe.write, Nat.succ_le_of_lt room, snoc_zeros]

theorem writen_last (room : u < toServer) :
    next toServer toClient (counted (.writen [0]) server m k u d) (.client true true 1) =
      some (counted .select server m k (u + 1) d) := by
  simp [next, clientNext, counted, Pipe.write, Nat.succ_le_of_lt room, snoc_zeros]

theorem server_read (pc : Pc) :
    next toServer toClient (counted pc .reading m k (u + 1) d) (.server 1) =
      some (counted pc (.writing [0]) m k u d) := by
  simp [next, Peer.next, counted, Pipe.AtEnd, Pipe.read, MAXLINE, List.take_replicate]

theorem server_write (pc : Pc) (room : d < toClient) :
    next toServer toClient (counted pc (.writing [0]) m k u d) (.server 1) =
      some (counted pc .reading m k u (d + 1)) := by
  simp [next, Peer.next, counted, Pipe.write, Server.goOn, Nat.succ_le_of_lt room,
    snoc_zeros]

/-! ## The buffers fill up -/

section Fill

variable (up : 0 < toServer) (down : 0 < toClient)

/-- The client takes one byte from the socket and two from its input. -/
theorem exchange (server : Server) (m k u d : Nat) :
    Reaches (next toServer toClient) (counted .select server (2 + m) k u (d + 1))
      (counted (.writen [0, 0]) server m (k + 1) u d) :=
  .head select_both (.head socket_one (.single (input_some 2 (by decide) (by decide))))

include up down in
/-- One byte has come back. -/
theorem first_byte (m : Nat) :
    Reaches (next toServer toClient) (counted .select .reading (1 + m) 0 0 0)
      (counted .select .reading m 0 0 1) :=
  .head select_input (.head (input_some 1 (by decide) (by decide))
    (.head (writen_last up) (.head (server_read _) (.single (server_write _ down)))))

include up in
/-- The way back fills up. -/
theorem fill_down (m : Nat) (le : d < toClient) :
    ∃ k, Reaches (next toServer toClient) (counted .select .reading (2 * d + m) 0 0 1)
      (counted .select .reading m k 0 (d + 1)) := by
  induction d generalizing m with
  | zero => exact ⟨0, by rw [Nat.mul_zero, Nat.zero_add]; exact .refl _ _⟩
  | succ d ih =>
      rcases ih (2 + m) (Nat.lt_of_succ_lt le) with ⟨k, reaches⟩
      have begins : 2 * (d + 1) + m = 2 * d + (2 + m) := by omega
      rw [begins]
      refine ⟨k + 1, reaches.trans ((exchange _ m k 0 d).trans ?_)⟩
      exact .head (writen_more up) (.head (server_read _)
        (.head (server_write _ (Nat.lt_of_succ_lt le)) (.head (writen_last up)
          (.head (server_read _) (.single (server_write _ le))))))

include up in
/-- The server has a byte for which there is no room. -/
theorem server_blocks (m k : Nat) :
    Reaches (next toServer (d + 1)) (counted .select .reading (2 + m) k 0 (d + 1))
      (counted .select (.writing [0]) m (k + 1) 0 (d + 1)) :=
  (exchange _ m k 0 d).trans (.head (writen_more up) (.head (server_read _)
    (.head (server_write _ (Nat.lt_succ_self d)) (.head (writen_last up)
      (.single (server_read _))))))

/-- The way to the server fills up too. -/
theorem fill_up (m k : Nat) (le : u ≤ toServer) :
    ∃ k', Reaches (next toServer (d + 1)) (counted .select (.writing [0]) (2 * u + m) k 0 (d + 1))
      (counted .select (.writing [0]) m k' u (d + 1)) := by
  induction u generalizing m with
  | zero => exact ⟨k, by rw [Nat.mul_zero, Nat.zero_add]; exact .refl _ _⟩
  | succ u ih =>
      rcases ih (2 + m) (Nat.le_of_succ_le le) with ⟨k', reaches⟩
      have begins : 2 * (u + 1) + m = 2 * u + (2 + m) := by omega
      rw [begins]
      refine ⟨k' + 1, reaches.trans ((exchange _ m k' u d).trans
        (.head (server_write _ (Nat.lt_succ_self d)) ?_))⟩
      -- the server has room again, for the byte that it reads next
      exact .head (writen_more le) (.head (server_read _) (.single (writen_last le)))

/-- The last exchange. -/
theorem client_blocks (m k : Nat) :
    Reaches (next (u + 1) (d + 1)) (counted .select (.writing [0]) (2 + m) k (u + 1) (d + 1))
      (counted (.writen [0]) (.writing [0]) m (k + 1) (u + 1) (d + 1)) :=
  (exchange _ m k (u + 1) d).trans (.head (server_write _ (Nat.lt_succ_self d))
    (.head (server_read _) (.single (writen_more (Nat.lt_succ_self u)))))

end Fill

/-- However much room there is, there is an input with which the session can end in a state
where the client and the server wait for each other. -/
theorem deadlocks (toServer toClient : Nat) (up : 0 < toServer) (down : 0 < toClient) :
    ∃ input s, Reaches (next toServer toClient) (start input) s ∧
      Deadlocked toServer toClient s ∧ s.stdin = [] := by
  obtain ⟨u, rfl⟩ : ∃ u, toServer = u + 1 := ⟨toServer - 1, by omega⟩
  obtain ⟨d, rfl⟩ : ∃ d, toClient = d + 1 := ⟨toClient - 1, by omega⟩
  have first := first_byte up down (2 * d + (2 + (2 * (u + 1) + (2 + 0))))
  rcases fill_down up (2 + (2 * (u + 1) + (2 + 0))) (Nat.lt_succ_self d) with ⟨k, second⟩
  have third := server_blocks (d := d) up (2 * (u + 1) + (2 + 0)) k
  rcases fill_up (d := d) (2 + 0) (k + 1) (Nat.le_refl (u + 1)) with ⟨k', fourth⟩
  have last := client_blocks (u := u) (d := d) 0 k'
  refine ⟨_, _, first.trans (second.trans (third.trans (fourth.trans last))), ?_, rfl⟩
  exact ⟨⟨_, rfl⟩, ⟨_, rfl⟩, (List.length_replicate ..).ge, (List.length_replicate ..).ge⟩

/-- The smallest buffers. -/
theorem deadlocks_one :
    ∃ input s, Reaches (next 1 1) (start input) s ∧ Deadlocked 1 1 s ∧ s.stdin = [] :=
  deadlocks 1 1 Nat.one_pos Nat.one_pos

end NetPractice.EchoSession.HalfClose
