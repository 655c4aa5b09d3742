import NetPractice.SumSession.Core

/-!
# The sum session in lock-step

However the two structures are cut on their way, `readn` and `writen` move each of them as a
whole.  The client sends the next numbers only when it has printed the last sum, so that the
server is never in the middle of a structure when the connection is closed.
-/

namespace NetPractice.SumSession

open NetPractice.EchoSession.Lines
open NetPractice.Memory
open NetPractice.Socket
open NetPractice.Text
open NetPractice.Transition

/-! ## The structures -/

@[simp]
theorem length_storeLong (order : ByteOrder) (value : Int) : (storeLong order value).length = 8 :=
  ByteOrder.length_store 8 _

@[simp]
theorem length_storeArgs (order : ByteOrder) (args : Int × Int) :
    (storeArgs order args).length = SIZEOF_ARGS := by
  rw [storeArgs, List.length_append, length_storeLong, length_storeLong, SIZEOF_ARGS]

@[simp]
theorem length_sumBytes (order : ByteOrder) (args : List Byte) :
    (sumBytes order args).length = SIZEOF_RESULT :=
  length_storeLong order _

/-- A number that the same host stores and loads. -/
theorem loadLong_storeLong (order : ByteOrder) (value : Int) :
    loadLong order (storeLong order value) = value.bmod (2 ^ 64) := by
  have nonneg : 0 ≤ value % 2 ^ 64 := Int.emod_nonneg value (by decide)
  have fits : (value % 2 ^ 64).toNat < 256 ^ 8 := by
    have lt := Int.emod_lt_of_pos value (show (0 : Int) < 2 ^ 64 by decide)
    omega
  unfold loadLong storeLong
  rw [ByteOrder.load_store fits, Int.toNat_of_nonneg nonneg]
  exact Int.emod_bmod value (2 ^ 64)

/-- What is printed where both hosts have the same byte order. -/
theorem answer_same (order : ByteOrder) (line : List Byte) :
    answer order order line =
      match sscanf line with
      | none => .invalid (cstr line)
      | some args => .sum ((args.1 + args.2).bmod (2 ^ 64)) := by
  unfold answer
  cases sscanf line with
  | none => rfl
  | some args =>
      have first : (storeArgs order args).take 8 = storeLong order args.1 :=
        List.take_left' (length_storeLong order args.1)
      have second : ((storeArgs order args).drop 8).take 8 = storeLong order args.2 := by
        rw [storeArgs, List.drop_left' (length_storeLong order args.1),
          List.take_of_length_le (length_storeLong order args.2).le]
      dsimp only
      rw [sumBytes, first, second, loadLong_storeLong, loadLong_storeLong, loadLong_storeLong,
        ← Int.add_bmod]

/-! ## The invariant -/

/-- What is to be written. -/
def Server.hand : Server → List Byte
  | .writen buf => buf
  | _ => []

/-- Where the session is, with the lines that were answered. -/
inductive Stage (client server : ByteOrder) (input : List Byte) (s : Session)
    (done : List (List Byte)) : Prop
  | fgets (pc : s.pc = .fgets) (left : lines input = done ++ lines s.stdin)
      (reading : s.peer.server = .readn []) (up : s.peer.up = .empty) (down : s.peer.down = .empty)
  | asking {buf line stored : List Byte} {args : Int × Int} (pc : s.pc = .writen buf)
      (left : lines input = done ++ line :: lines s.stdin) (scanned : sscanf line = some args)
      (reading : s.peer.server = .readn stored)
      (sent : stored ++ s.peer.up.bytes ++ buf = storeArgs client args) (nonempty : buf ≠ [])
      (opened : s.peer.up.closed = false) (down : s.peer.down = .empty)
  | asked {line stored : List Byte} {args : Int × Int} (pc : s.pc = .readn [])
      (left : lines input = done ++ line :: lines s.stdin) (scanned : sscanf line = some args)
      (reading : s.peer.server = .readn stored)
      (sent : stored ++ s.peer.up.bytes = storeArgs client args)
      (short : stored.length < SIZEOF_ARGS) (opened : s.peer.up.closed = false)
      (down : s.peer.down = .empty)
  | answering {line stored : List Byte} {args : Int × Int} (pc : s.pc = .readn stored)
      (left : lines input = done ++ line :: lines s.stdin) (scanned : sscanf line = some args)
      (writing : s.peer.server = .readn [] ∨
        ∃ buf, s.peer.server = .writen buf ∧ buf ≠ [])
      (sent : stored ++ s.peer.down.bytes ++ s.peer.server.hand =
        sumBytes server (storeArgs client args))
      (short : stored.length < SIZEOF_RESULT) (up : s.peer.up = .empty)
      (opened : s.peer.down.closed = false)
  | returned (pc : s.pc = .returned) (left : lines input = done)
      (up : s.peer.up.AtEnd) (down : s.peer.down.bytes = [])
      (server : s.peer.server = .readn [] ∧ s.peer.down.closed = false ∨
        s.peer.server = .returned)

/-- The invariant. -/
def Inv (client server : ByteOrder) (input : List Byte) (s : Session) : Prop :=
  ∃ done, s.stdout = done.map (answer client server) ∧ Stage client server input s done

/-- What the client has not yet written. -/
def Pc.hand : Pc → List Byte
  | .writen buf => buf
  | _ => []

/-- Whether the client is still to return. -/
def Pc.rank : Pc → Nat
  | .fgets | .writen _ | .readn _ => 1
  | .returned | .quit => 0

/-- How much the server has still to do. -/
def Server.work : Server → Nat
  | .readn stored => stored.length + 1
  | .writen buf => 2 * buf.length + 1
  | .returned => 0

/-- How much is still to be done. -/
def Session.measure (s : Session) : Nat :=
  49 * (lines s.stdin).length + 3 * s.pc.hand.length + 2 * s.peer.up.bytes.length +
    s.peer.server.work + s.peer.down.bytes.length + s.pc.rank

variable {client server : ByteOrder} {toServer toClient n : Nat} {input args result : List Byte}
  {s t : Session}

theorem inv_start (args result input : List Byte) :
    Inv client server input (start args result input) :=
  ⟨[], rfl, .fgets rfl rfl rfl rfl rfl⟩

/-! ## The client -/

theorem step_fgets (inv : Inv client server input s) (pc : s.pc = .fgets)
    (step : clientNext client toServer n s = some t) :
    Inv client server input t ∧ t.measure < s.measure := by
  rcases inv with ⟨done, stdout, stage⟩
  cases stage with
  | fgets _ left reading up down =>
      unfold clientNext at step
      rw [pc] at step
      by_cases empty : s.stdin = []
      · rw [if_pos empty] at step
        cases step
        rw [empty, lines_nil, List.append_nil] at left
        refine ⟨⟨done, stdout, .returned rfl left ⟨?_, rfl⟩ ?_ (.inl ⟨reading, ?_⟩)⟩, ?_⟩
        · exact congrArg Pipe.bytes up
        · exact congrArg Pipe.bytes down
        · exact congrArg Pipe.closed down
        · unfold Session.measure
          rw [pc]
          simp only [Pc.hand, Pc.rank, Pipe.shut]
          omega
      · have next_line := lines_of_ne_nil empty
        have count := congrArg List.length next_line
        rw [List.length_cons] at count
        rw [next_line] at left
        rw [if_neg empty] at step
        dsimp only at step
        split at step
        · next scanned =>
            cases step
            refine ⟨⟨done ++ [fgets s.stdin], ?_, .fgets rfl ?_ reading up down⟩, ?_⟩
            · rw [List.map_append, List.map_singleton, ← stdout, answer, scanned]
            · rw [left, List.append_assoc, List.singleton_append]
            · unfold Session.measure
              rw [count, pc]
              dsimp only
              omega
        · next numbers scanned =>
            cases step
            have whole := length_storeArgs client numbers
            refine ⟨⟨done, stdout, .asking rfl left scanned reading ?_ ?_ ?_ down⟩, ?_⟩
            · rw [up]
              rfl
            · exact List.ne_nil_of_length_eq_add_one whole
            · exact congrArg Pipe.closed up
            · unfold Session.measure
              rw [count, pc]
              simp only [Pc.hand, Pc.rank, whole, SIZEOF_ARGS, List.length_nil]
              omega
  | asking other => exact Pc.noConfusion (pc.symm.trans other)
  | asked other => exact Pc.noConfusion (pc.symm.trans other)
  | answering other => exact Pc.noConfusion (pc.symm.trans other)
  | returned other => exact Pc.noConfusion (pc.symm.trans other)

theorem step_writen {buf : List Byte} (inv : Inv client server input s) (pc : s.pc = .writen buf)
    (step : clientNext client toServer n s = some t) :
    Inv client server input t ∧ t.measure < s.measure := by
  rcases inv with ⟨done, stdout, stage⟩
  cases stage with
  | @asking _ line stored numbers same left scanned reading sent nonempty opened down =>
      cases pc.symm.trans same
      unfold clientNext at step
      rw [pc] at step
      rcases Option.map_eq_some_iff.mp step with ⟨⟨rest, up⟩, written, rfl⟩
      have wrote := Pipe.wrote_of_write written
      have order : stored ++ up.bytes ++ rest = storeArgs client numbers := by
        rw [List.append_assoc, wrote.bytes, ← List.append_assoc, sent]
      have lengths := wrote.length
      have less := wrote.rest_length
      have pos := wrote.pos
      have opened' := wrote.closed.trans opened
      dsimp only
      by_cases nothing : rest = []
      · rw [if_pos nothing]
        rw [nothing, List.append_nil] at order
        have whole := congrArg List.length order
        rw [List.length_append, length_storeArgs, lengths] at whole
        refine ⟨⟨done, stdout, .asked rfl left scanned reading order (by omega) opened' down⟩, ?_⟩
        unfold Session.measure
        rw [pc]
        simp only [Pc.hand, Pc.rank, List.length_nil]
        omega
      · rw [if_neg nothing]
        refine ⟨⟨done, stdout,
          .asking rfl left scanned reading order nothing opened' down⟩, ?_⟩
        unfold Session.measure
        rw [pc]
        simp only [Pc.hand, Pc.rank]
        omega
  | fgets other => exact Pc.noConfusion (pc.symm.trans other)
  | asked other => exact Pc.noConfusion (pc.symm.trans other)
  | answering other => exact Pc.noConfusion (pc.symm.trans other)
  | returned other => exact Pc.noConfusion (pc.symm.trans other)

/-- The calls of `read` by the client: at the end of file it returns, and else it takes some
bytes. -/
theorem clientNext_readn {stored : List Byte} (pc : s.pc = .readn stored)
    (step : clientNext client toServer n s = some t) :
    (s.peer.down.AtEnd ∧
        t = if stored = [] then { s with pc := .quit } else s.print client stored) ∨
      ∃ chunk down, Pipe.Got n s.peer.down chunk down ∧
        t = if (stored ++ chunk).length = SIZEOF_RESULT then
            { s with peer := { s.peer with down := down } }.print client (stored ++ chunk)
          else { s with pc := .readn (stored ++ chunk), peer := { s.peer with down := down } } := by
  unfold clientNext at step
  rw [pc] at step
  dsimp only at step
  split at step
  · next atEnd =>
      refine .inl ⟨atEnd.1, ?_⟩
      by_cases empty : stored = []
      · rw [if_pos empty] at step ⊢
        exact (Option.some.inj step).symm
      · rw [if_neg empty] at step ⊢
        exact (Option.some.inj step).symm
  · split at step
    · rcases Option.map_eq_some_iff.mp step with ⟨⟨chunk, down⟩, taken, rfl⟩
      exact .inr ⟨chunk, down, Pipe.got_of_read taken, rfl⟩
    · cases step

/-- The whole result has come back, and nothing else is on its way. -/
theorem print_whole {done : List (List Byte)} {line stored chunk : List Byte} {numbers : Int × Int}
    {down : Pipe} (stdout : s.stdout = done.map (answer client server)) (pc : s.pc = .readn stored)
    (left : lines input = done ++ line :: lines s.stdin) (scanned : sscanf line = some numbers)
    (writing : s.peer.server = .readn [] ∨ ∃ buf, s.peer.server = .writen buf ∧ buf ≠ [])
    (sent : stored ++ chunk ++ down.bytes ++ s.peer.server.hand =
      sumBytes server (storeArgs client numbers))
    (up : s.peer.up = .empty) (opened : down.closed = false)
    (got : Pipe.Got n s.peer.down chunk down)
    (complete : (stored ++ chunk).length = SIZEOF_RESULT) :
    Inv client server input
        ({ s with peer := { s.peer with down := down } }.print client (stored ++ chunk)) ∧
      Session.measure ({ s with peer := { s.peer with down := down } }.print client
        (stored ++ chunk)) < s.measure := by
  have all := congrArg List.length sent
  have lengths := got.length
  have pos := got.pos
  rw [List.length_append, List.length_append, length_sumBytes, complete] at all
  have nothing : down.bytes = [] := List.length_eq_zero_iff.mp (by omega)
  have hand : s.peer.server.hand = [] := List.length_eq_zero_iff.mp (by omega)
  have reading : s.peer.server = .readn [] := by
    rcases writing with reading | ⟨buf, writes, nonempty⟩
    · exact reading
    · rw [writes] at hand
      exact absurd hand nonempty
  rw [nothing, hand, List.append_nil, List.append_nil] at sent
  refine ⟨⟨done ++ [line], ?_, .fgets rfl ?_ reading up ?_⟩, ?_⟩
  · have shown : (stored ++ chunk ++ s.result.drop (stored ++ chunk).length).take 8 =
        sumBytes server (storeArgs client numbers) := by
      rw [sent]
      exact List.take_left' (length_sumBytes server _)
    simp only [Session.print, List.map_append, List.map_singleton, stdout]
    rw [shown, answer, scanned]
  · dsimp only [Session.print]
    rw [left, List.append_assoc, List.singleton_append]
  · dsimp only [Session.print]
    cases down
    cases nothing
    cases opened
    rfl
  · unfold Session.measure Session.print
    rw [pc]
    simp only [Pc.hand, Pc.rank]
    omega

theorem step_readn {stored : List Byte} (inv : Inv client server input s)
    (pc : s.pc = .readn stored) (step : clientNext client toServer n s = some t) :
    Inv client server input t ∧ t.measure < s.measure := by
  rcases inv with ⟨done, stdout, stage⟩
  cases stage with
  | @answering line _ numbers same left scanned writing sent short up opened =>
      cases pc.symm.trans same
      rcases clientNext_readn pc step with ⟨atEnd, -⟩ | ⟨chunk, down, got, rfl⟩
      · exact absurd (atEnd.2.symm.trans opened) (by decide)
      have order : stored ++ chunk ++ down.bytes ++ s.peer.server.hand =
          sumBytes server (storeArgs client numbers) := by
        rw [← sent, ← got.bytes]
        simp only [List.append_assoc]
      have opened' := got.closed.trans opened
      by_cases complete : (stored ++ chunk).length = SIZEOF_RESULT
      · rw [if_pos complete]
        exact print_whole stdout pc left scanned writing order up opened' got complete
      · rw [if_neg complete]
        have lengths := got.length
        have pos := got.pos
        have all := congrArg List.length order
        rw [List.length_append, List.length_append, length_sumBytes] at all
        refine ⟨⟨done, stdout, .answering rfl left scanned writing order (by omega) up opened'⟩, ?_⟩
        unfold Session.measure
        rw [pc]
        simp only [Pc.hand, Pc.rank]
        omega
  | asked same left scanned reading sent short opened down =>
      -- nothing has come back yet
      rcases clientNext_readn pc step with ⟨atEnd, -⟩ | ⟨chunk, down', got, -⟩
      · exact absurd (atEnd.2.symm.trans (congrArg Pipe.closed down)) (by decide)
      · exact (got.ne_empty down).elim
  | fgets other => exact Pc.noConfusion (pc.symm.trans other)
  | asking other => exact Pc.noConfusion (pc.symm.trans other)
  | returned other => exact Pc.noConfusion (pc.symm.trans other)

/-! ## The server -/

/-- The sum does not see what is behind the structure. -/
theorem sumBytes_append (order : ByteOrder) {args : List Byte} (whole : args.length = SIZEOF_ARGS)
    (rest : List Byte) : sumBytes order (args ++ rest) = sumBytes order args := by
  unfold SIZEOF_ARGS at whole
  unfold sumBytes
  rw [List.take_append_of_le_length (by omega), List.drop_append_of_le_length (by omega),
    List.take_append_of_le_length (by rw [List.length_drop]; omega)]

/-- The calls of `read` by the server: at the end of file it returns, and else it takes some
bytes. -/
theorem Peer.next_readn {stored : List Byte} {p q : Peer} (reading : p.server = .readn stored)
    (step : p.next server toClient n = some q) :
    (p.up.AtEnd ∧
        q = if stored = [] then { p with server := .returned, down := p.down.shut }
          else p.reply server stored) ∨
      ∃ chunk up, Pipe.Got n p.up chunk up ∧
        q = if (stored ++ chunk).length = SIZEOF_ARGS then
            { p with up := up }.reply server (stored ++ chunk)
          else { p with server := .readn (stored ++ chunk), up := up } := by
  unfold Peer.next at step
  rw [reading] at step
  dsimp only at step
  split at step
  · next atEnd =>
      refine .inl ⟨atEnd.1, ?_⟩
      by_cases empty : stored = []
      · rw [if_pos empty] at step ⊢
        exact (Option.some.inj step).symm
      · rw [if_neg empty] at step ⊢
        exact (Option.some.inj step).symm
  · split at step
    · rcases Option.map_eq_some_iff.mp step with ⟨⟨chunk, up⟩, taken, rfl⟩
      exact .inr ⟨chunk, up, Pipe.got_of_read taken, rfl⟩
    · cases step

/-- The client is still writing the structure, so that the server does not have it. -/
theorem read_asking {done : List (List Byte)} {buf line stored chunk : List Byte}
    {numbers : Int × Int} {up : Pipe} (stdout : s.stdout = done.map (answer client server))
    (pc : s.pc = .writen buf) (left : lines input = done ++ line :: lines s.stdin)
    (scanned : sscanf line = some numbers) (reading : s.peer.server = .readn stored)
    (sent : stored ++ chunk ++ up.bytes ++ buf = storeArgs client numbers) (nonempty : buf ≠ [])
    (opened : up.closed = false) (down : s.peer.down = .empty)
    (got : Pipe.Got n s.peer.up chunk up) :
    (stored ++ chunk).length ≠ SIZEOF_ARGS ∧
      Inv client server input
        { s with peer := { s.peer with server := .readn (stored ++ chunk), up := up } } ∧
      { s with peer := { s.peer with server := .readn (stored ++ chunk), up := up } :
        Session }.measure < s.measure := by
  have chunkLength := got.chunk_length
  have lengths := got.length
  have pos := got.pos
  have mine := List.length_pos_iff.mpr nonempty
  have all := congrArg List.length sent
  rw [List.length_append, List.length_append, length_storeArgs] at all
  refine ⟨by omega, ⟨done, stdout, .asking pc left scanned rfl sent nonempty opened down⟩, ?_⟩
  unfold Session.measure
  rw [reading]
  simp only [Server.work, List.length_append]
  omega

/-- The structure is there, and the server answers. -/
theorem reply_whole {done : List (List Byte)} {line stored chunk : List Byte}
    {numbers : Int × Int} {up : Pipe} (stdout : s.stdout = done.map (answer client server))
    (pc : s.pc = .readn []) (left : lines input = done ++ line :: lines s.stdin)
    (scanned : sscanf line = some numbers) (reading : s.peer.server = .readn stored)
    (sent : stored ++ chunk ++ up.bytes = storeArgs client numbers) (opened : up.closed = false)
    (down : s.peer.down = .empty) (got : Pipe.Got n s.peer.up chunk up)
    (complete : (stored ++ chunk).length = SIZEOF_ARGS) :
    Inv client server input
        { s with peer := { s.peer with up := up }.reply server (stored ++ chunk) } ∧
      { s with peer := { s.peer with up := up }.reply server (stored ++ chunk) :
        Session }.measure < s.measure := by
  have all := congrArg List.length sent
  have length := complete
  have chunkLength := got.chunk_length
  have lengths := got.length
  have pos := got.pos
  rw [List.length_append, length_storeArgs] at all
  rw [List.length_append] at length
  have nothing : up.bytes = [] := List.length_eq_zero_iff.mp (by omega)
  rw [nothing, List.append_nil] at sent
  have result : sumBytes server (stored ++ chunk ++ s.peer.args.drop (stored ++ chunk).length) =
      sumBytes server (storeArgs client numbers) := by
    rw [sumBytes_append server complete, sent]
  have bytes := length_sumBytes server (storeArgs client numbers)
  refine ⟨⟨done, stdout, .answering pc left scanned (.inr ⟨_, rfl, ?_⟩) ?_ (by decide) ?_ ?_⟩, ?_⟩
  · rw [result]
    exact List.ne_nil_of_length_eq_add_one bytes
  · dsimp only [Peer.reply, Server.hand]
    rw [result, down]
    rfl
  · dsimp only [Peer.reply]
    cases up
    cases nothing
    cases opened
    rfl
  · exact congrArg Pipe.closed down
  · unfold Session.measure
    rw [reading]
    simp only [Peer.reply, Server.work, result, bytes]
    unfold SIZEOF_RESULT SIZEOF_ARGS at *
    omega

/-- A part of the structure is there, and the server reads on. -/
theorem read_asked {done : List (List Byte)} {line stored chunk : List Byte}
    {numbers : Int × Int} {up : Pipe} (stdout : s.stdout = done.map (answer client server))
    (pc : s.pc = .readn []) (left : lines input = done ++ line :: lines s.stdin)
    (scanned : sscanf line = some numbers) (reading : s.peer.server = .readn stored)
    (sent : stored ++ chunk ++ up.bytes = storeArgs client numbers) (opened : up.closed = false)
    (down : s.peer.down = .empty) (got : Pipe.Got n s.peer.up chunk up)
    (incomplete : (stored ++ chunk).length ≠ SIZEOF_ARGS) :
    Inv client server input
        { s with peer := { s.peer with server := .readn (stored ++ chunk), up := up } } ∧
      { s with peer := { s.peer with server := .readn (stored ++ chunk), up := up } :
        Session }.measure < s.measure := by
  have chunkLength := got.chunk_length
  have lengths := got.length
  have pos := got.pos
  have all := congrArg List.length sent
  rw [List.length_append, length_storeArgs] at all
  refine ⟨⟨done, stdout, .asked pc left scanned rfl sent (by omega) opened down⟩, ?_⟩
  unfold Session.measure
  rw [reading]
  simp only [Server.work, List.length_append]
  omega

/-- The calls of `read` by the server. -/
theorem server_readn {stored : List Byte} {peer : Peer} (inv : Inv client server input s)
    (reading : s.peer.server = .readn stored) (step : s.peer.next server toClient n = some peer) :
    Inv client server input { s with peer := peer } ∧
      { s with peer := peer : Session }.measure < s.measure := by
  rcases inv with ⟨done, stdout, stage⟩
  have moves := Peer.next_readn reading step
  -- where there is nothing to read, and no FIN, the server waits
  have waits : s.peer.up = .empty → False := by
    intro empty
    rcases moves with ⟨atEnd, -⟩ | ⟨chunk, up, got, -⟩
    · exact absurd (atEnd.2.symm.trans (congrArg Pipe.closed empty)) (by decide)
    · exact got.ne_empty empty
  cases stage with
  | fgets _ _ _ up _ => exact (waits up).elim
  | answering _ _ _ _ _ _ up _ => exact (waits up).elim
  | returned pc left up down server' =>
      rcases server' with ⟨none, opened⟩ | returned
      · cases reading.symm.trans none
        rcases moves with ⟨-, rfl⟩ | ⟨chunk, up', got, -⟩
        · rw [if_pos rfl]
          refine ⟨⟨done, stdout, .returned pc left up down (.inr rfl)⟩, ?_⟩
          unfold Session.measure
          rw [reading]
          simp only [Server.work, List.length_nil, Pipe.shut]
          omega
        · exact (got.bytes_ne_nil up.1).elim
      · exact Server.noConfusion (reading.symm.trans returned)
  | @asking buf line _ numbers pc left scanned same sent nonempty opened down =>
      cases reading.symm.trans same
      rcases moves with ⟨atEnd, -⟩ | ⟨chunk, up, got, rfl⟩
      · exact absurd (atEnd.2.symm.trans opened) (by decide)
      have order : stored ++ chunk ++ up.bytes ++ buf = storeArgs client numbers := by
        rw [← sent, ← got.bytes]
        simp only [List.append_assoc]
      rcases read_asking stdout pc left scanned reading order nonempty (got.closed.trans opened)
        down got with ⟨incomplete, kept⟩
      rw [if_neg incomplete]
      exact kept
  | @asked line _ numbers pc left scanned same sent short opened down =>
      cases reading.symm.trans same
      rcases moves with ⟨atEnd, -⟩ | ⟨chunk, up, got, rfl⟩
      · exact absurd (atEnd.2.symm.trans opened) (by decide)
      have order : stored ++ chunk ++ up.bytes = storeArgs client numbers := by
        rw [← sent, ← got.bytes, List.append_assoc]
      have opened' := got.closed.trans opened
      by_cases complete : (stored ++ chunk).length = SIZEOF_ARGS
      · rw [if_pos complete]
        exact reply_whole stdout pc left scanned reading order opened' down got complete
      · rw [if_neg complete]
        exact read_asked stdout pc left scanned reading order opened' down got complete

theorem server_writen {buf : List Byte} {peer : Peer} (inv : Inv client server input s)
    (writing : s.peer.server = .writen buf) (step : s.peer.next server toClient n = some peer) :
    Inv client server input { s with peer := peer } ∧
      { s with peer := peer : Session }.measure < s.measure := by
  rcases inv with ⟨done, stdout, stage⟩
  cases stage with
  | @answering line stored numbers pc left scanned _ sent short up opened =>
      unfold Peer.next at step
      rw [writing] at step
      rcases Option.map_eq_some_iff.mp step with ⟨⟨rest, down⟩, written, rfl⟩
      have wrote := Pipe.wrote_of_write written
      have order : stored ++ down.bytes ++ rest = sumBytes server (storeArgs client numbers) := by
        rw [List.append_assoc, wrote.bytes, ← sent, writing]
        simp only [Server.hand, List.append_assoc]
      have lengths := wrote.length
      have less := wrote.rest_length
      have pos := wrote.pos
      have opened' := wrote.closed.trans opened
      dsimp only
      by_cases nothing : rest = []
      · rw [if_pos nothing]
        rw [nothing] at order
        refine ⟨⟨done, stdout, .answering pc left scanned (.inl rfl) order short up opened'⟩, ?_⟩
        unfold Session.measure
        rw [writing]
        simp only [Server.work, List.length_nil]
        omega
      · rw [if_neg nothing]
        refine ⟨⟨done, stdout,
          .answering pc left scanned (.inr ⟨_, rfl, nothing⟩) order short up opened'⟩, ?_⟩
        unfold Session.measure
        rw [writing]
        simp only [Server.work]
        omega
  | fgets _ _ reading => exact Server.noConfusion (writing.symm.trans reading)
  | asking _ _ _ reading => exact Server.noConfusion (writing.symm.trans reading)
  | asked _ _ _ reading => exact Server.noConfusion (writing.symm.trans reading)
  | returned _ _ _ _ other =>
      rcases other with ⟨reading, -⟩ | returned
      · exact Server.noConfusion (writing.symm.trans reading)
      · exact Server.noConfusion (writing.symm.trans returned)

/-- Every step keeps the invariant, and leaves less to be done. -/
theorem lowers (client server : ByteOrder) (input : List Byte) :
    Lowers (next client server toServer toClient) (Inv client server input) Session.measure := by
  intro s event t inv step
  cases event with
  | client n =>
      cases pc : s.pc with
      | fgets => exact step_fgets inv pc step
      | writen buf => exact step_writen inv pc step
      | readn stored => exact step_readn inv pc step
      | returned | quit =>
          simp only [next, clientNext, pc] at step
          cases step
  | server n =>
      rcases Option.map_eq_some_iff.mp step with ⟨peer, moves, rfl⟩
      cases state : s.peer.server with
      | readn stored => exact server_readn inv state moves
      | writen buf => exact server_writen inv state moves
      | returned =>
          simp only [Peer.next, state] at moves
          cases moves

/-! ## Where the session stops -/

theorem exists_server_read (server : ByteOrder) (size : Nat) {stored : List Byte} {p : Peer}
    (reading : p.server = .readn stored) (short : stored.length < SIZEOF_ARGS)
    (more : p.up.bytes ≠ []) : ∃ n, p.next server size n ≠ none := by
  rcases Pipe.exists_read more with ⟨out, taken⟩
  have notAtEnd : ¬ p.up.AtEnd := fun atEnd => more atEnd.1
  refine ⟨1, ?_⟩
  unfold Peer.next
  rw [reading]
  simp [notAtEnd, taken, Nat.sub_ne_zero_of_lt short]

theorem exists_server_write (server : ByteOrder) {size : Nat} {buf : List Byte} {p : Peer}
    (writing : p.server = .writen buf) (nonempty : buf ≠ []) (opened : p.down.closed = false)
    (free : p.down.bytes.length < size) : ∃ n, p.next server size n ≠ none := by
  rcases Pipe.exists_write nonempty opened free with ⟨out, written⟩
  refine ⟨1, ?_⟩
  unfold Peer.next
  rw [writing]
  simp [written]

/-- While the client writes, it has room, or the server has bytes to read. -/
theorem moves_asking {buf stored : List Byte} {numbers : Int × Int} (up : 0 < toServer)
    (pc : s.pc = .writen buf) (reading : s.peer.server = .readn stored)
    (sent : stored ++ s.peer.up.bytes ++ buf = storeArgs client numbers) (nonempty : buf ≠ [])
    (opened : s.peer.up.closed = false) :
    (∃ n, clientNext client toServer n s ≠ none) ∨
      ∃ n, s.peer.next server toClient n ≠ none := by
  by_cases empty : s.peer.up.bytes = []
  · have free : s.peer.up.bytes.length < toServer := by
      rw [empty, List.length_nil]
      exact up
    rcases Pipe.exists_write nonempty opened free with ⟨out, written⟩
    refine .inl ⟨1, ?_⟩
    rw [clientNext, pc]
    simp [written]
  · have all := congrArg List.length sent
    have mine := List.length_pos_iff.mpr nonempty
    rw [List.length_append, List.length_append, length_storeArgs] at all
    exact .inr (exists_server_read server toClient reading (by omega) empty)

/-- While the client reads, it finds bytes, or the server has some to write. -/
theorem moves_answering {stored : List Byte} {numbers : Int × Int} (down : 0 < toClient)
    (pc : s.pc = .readn stored)
    (writing : s.peer.server = .readn [] ∨ ∃ buf, s.peer.server = .writen buf ∧ buf ≠ [])
    (sent : stored ++ s.peer.down.bytes ++ s.peer.server.hand =
      sumBytes server (storeArgs client numbers))
    (short : stored.length < SIZEOF_RESULT) (opened : s.peer.down.closed = false) :
    (∃ n, clientNext client toServer n s ≠ none) ∨
      ∃ n, s.peer.next server toClient n ≠ none := by
  by_cases empty : s.peer.down.bytes = []
  · rcases writing with reading | ⟨buf, writes, nonempty⟩
    · have all := congrArg List.length sent
      rw [reading, empty] at all
      simp only [Server.hand, List.append_nil, length_sumBytes] at all
      omega
    · have free : s.peer.down.bytes.length < toClient := by
        rw [empty, List.length_nil]
        exact down
      exact .inr (exists_server_write server writes nonempty opened free)
  · rcases Pipe.exists_read empty with ⟨out, taken⟩
    have notAtEnd : ¬ s.peer.down.AtEnd := fun atEnd => empty atEnd.1
    refine .inl ⟨1, ?_⟩
    rw [clientNext, pc]
    simp [notAtEnd, taken, Nat.sub_ne_zero_of_lt short]

/-- Nothing moves any more just when both functions have returned. -/
theorem halted_iff (inv : Inv client server input s) (up : 0 < toServer) (down : 0 < toClient) :
    Halted (next client server toServer toClient) s ↔
      s.pc = .returned ∧ s.peer.server = .returned := by
  constructor
  · intro halted
    have client_none : ∀ n, clientNext client toServer n s = none := fun n => halted (.client n)
    have server_none : ∀ n, s.peer.next server toClient n = none :=
      fun n => Option.map_eq_none_iff.mp (halted (.server n))
    have stuck : ¬ ((∃ n, clientNext client toServer n s ≠ none) ∨
        ∃ n, s.peer.next server toClient n ≠ none) := by
      rintro (⟨n, moves⟩ | ⟨n, moves⟩)
      · exact moves (client_none n)
      · exact moves (server_none n)
    rcases inv with ⟨done, -, stage⟩
    cases stage with
    | fgets pc =>
        have moves := client_none 0
        rw [clientNext, pc] at moves
        dsimp only at moves
        split at moves
        · cases moves
        · split at moves <;> cases moves
    | asking pc left scanned reading sent nonempty opened _ =>
        exact (stuck (moves_asking up pc reading sent nonempty opened)).elim
    | asked pc left scanned reading sent short opened _ =>
        have more : s.peer.up.bytes ≠ [] := by
          intro empty
          have all := congrArg List.length sent
          rw [empty, List.append_nil, length_storeArgs] at all
          omega
        exact (stuck (.inr (exists_server_read server toClient reading short more))).elim
    | answering pc left scanned writing sent short _ opened =>
        exact (stuck (moves_answering down pc writing sent short opened)).elim
    | returned pc left atEnd _ server' =>
        refine ⟨pc, ?_⟩
        rcases server' with ⟨reading, -⟩ | returned
        · have moves := server_none 0
          rw [Peer.next, reading] at moves
          simp [atEnd] at moves
        · exact returned
  · rintro ⟨pc, returned⟩ (n | n)
    · simp only [next, clientNext, pc]
    · simp only [next, Peer.next, returned, Option.map_none]

theorem Inv.of_run {events : List Event}
    (finished : run (next client server toServer toClient) (start args result input) events =
      some s) : Inv client server input s :=
  invariant_run (fun _ _ _ inv step => (lowers client server input inv step).1)
    (inv_start args result input) finished

theorem Inv.stdout_eq (inv : Inv client server input s) (returned : s.pc = .returned) :
    s.stdout = (lines input).map (answer client server) := by
  rcases inv with ⟨done, stdout, stage⟩
  cases stage with
  | returned _ left => rw [left, stdout]
  | fgets other => exact Pc.noConfusion (returned.symm.trans other)
  | asking other => exact Pc.noConfusion (returned.symm.trans other)
  | asked other => exact Pc.noConfusion (returned.symm.trans other)
  | answering other => exact Pc.noConfusion (returned.symm.trans other)

/-- What a session does, in any order of the calls and with any cut of the bytes, whatever the
two structures held before: the lines are answered in order, the client never takes the server
for one that has gone away, and after at most 49 calls for each line the session stops, where
both functions have returned and all lines are answered. -/
theorem answers {events : List Event} (up : 0 < toServer) (down : 0 < toClient)
    (finished : run (next client server toServer toClient) (start args result input) events =
      some s) :
    (∃ done, done <+: lines input ∧ s.stdout = done.map (answer client server)) ∧
      s.pc ≠ .quit ∧ events.length ≤ 49 * (lines input).length + 2 ∧
      (Halted (next client server toServer toClient) s ↔
        s.pc = .returned ∧ s.peer.server = .returned) ∧
      (s.pc = .returned → s.stdout = (lines input).map (answer client server)) := by
  have inv := Inv.of_run finished
  have bound := (lowers client server input).length_le (inv_start args result input) finished
  refine ⟨?_, ?_, ?_, halted_iff inv up down, inv.stdout_eq⟩
  · rcases inv with ⟨done, stdout, stage⟩
    refine ⟨done, ?_, stdout⟩
    cases stage with
    | fgets _ left => exact ⟨_, left.symm⟩
    | asking _ left => exact ⟨_, left.symm⟩
    | asked _ left => exact ⟨_, left.symm⟩
    | answering _ left => exact ⟨_, left.symm⟩
    | returned _ left => exact left ▸ List.prefix_refl _
  · rcases inv with ⟨done, -, stage⟩
    intro quit
    cases stage with
    | fgets pc => exact Pc.noConfusion (quit.symm.trans pc)
    | asking pc => exact Pc.noConfusion (quit.symm.trans pc)
    | asked pc => exact Pc.noConfusion (quit.symm.trans pc)
    | answering pc => exact Pc.noConfusion (quit.symm.trans pc)
    | returned pc => exact Pc.noConfusion (quit.symm.trans pc)
  · have first : (start args result input).measure = 49 * (lines input).length + 2 := by
      unfold Session.measure
      simp only [start, Pc.hand, Pc.rank, Pipe.empty, Server.work, List.length_nil]
    omega

/-- One line, on hosts with different byte orders. -/
theorem answers_swapped :
    ∃ s, run (next .little .big 20 20) (start [] [] (ascii "1 2"))
        [.client 0, .client 16, .server 9, .server 7, .server 8, .client 3, .client 5, .client 0,
          .server 0] = some s ∧
      s.stdout = (lines (ascii "1 2")).map (answer .little .big) := by
  have returned : (run (next .little .big 20 20) (start [] [] (ascii "1 2"))
      [.client 0, .client 16, .server 9, .server 7, .server 8, .client 3, .client 5, .client 0,
        .server 0]).map Session.pc = some .returned := by decide +kernel
  rcases Option.map_eq_some_iff.mp returned with ⟨s, finished, pc⟩
  exact ⟨s, finished, (answers (by decide) (by decide) finished).2.2.2.2 pc⟩

/-- The sum that the user has asked for. -/
def sumOf (line : List Byte) : Output :=
  match sscanf line with
  | none => .invalid (cstr line)
  | some args => .sum ((args.1 + args.2).bmod (2 ^ 64))

/-- Every session that comes to its end prints the sums of its lines, if and only if the two
hosts have the same byte order. -/
theorem stdout_eq_sums_iff (client server : ByteOrder) :
    (∀ toServer toClient args result input events s,
        run (next client server toServer toClient) (start args result input) events = some s →
        s.pc = .returned → s.stdout = (lines input).map sumOf) ↔ client = server := by
  constructor
  · intro right
    by_contra differ
    -- a session with one line, where a carry gets lost
    rcases (@lowers 1 1 client server (ascii "1 255")).exists_halted
      (inv_start [] [] (ascii "1 255")) with ⟨s, ⟨events, finished⟩, inv, halted⟩
    have returned := ((halted_iff inv Nat.one_pos Nat.one_pos).mp halted).1
    have printed := right 1 1 [] [] _ events s finished returned
    rw [inv.stdout_eq returned] at printed
    have one : lines (ascii "1 255") = [ascii "1 255"] := by
      rw [lines_of_ne_nil (by decide), show fgets (ascii "1 255") = ascii "1 255" by decide +kernel,
        List.drop_length, lines_nil]
    rw [one, List.map_singleton, List.map_singleton, List.singleton_inj] at printed
    revert printed
    cases client <;> cases server
    · exact absurd rfl differ
    · decide +kernel
    · decide +kernel
    · exact absurd rfl differ
  · rintro rfl toServer toClient args result input events s finished returned
    rw [(Inv.of_run finished).stdout_eq returned]
    exact List.map_congr_left fun line _ => answer_same client line

end NetPractice.SumSession
