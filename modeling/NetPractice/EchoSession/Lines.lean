import NetPractice.EchoSession.Core
import NetPractice.LineReader.Stream

/-!
# The client that waits for each line

This module embeds `str_cli` of `lib/str_cli.c` with the server.  The client sends a line,
and reads a line back before it sends the next one.  `Fgets` takes at most `MAXLINE - 1` bytes,
`Writen` sends them up to the first NUL, and `Readline` waits for a newline or for
`MAXLINE - 1` bytes.  The connection is closed when the client returns.

A step of the client is one call of `write` or `read`, or one byte that `my_read` returns from
its buffer.  The wrappers exit when their call fails.
-/

namespace NetPractice.EchoSession.Lines

open NetPractice.LineReader (takeLine newline)
open NetPractice.Socket
open NetPractice.Text
open NetPractice.Transition

/-- The statements of the loop.  `writen` has the rest of the line, `readline` what `Readline`
has stored. -/
inductive Pc
  | fgets
  | writen (buf : List Byte)
  | readline (stored : List Byte)
  | returned
  | quit
  deriving DecidableEq, Repr

/-- The client with its input that is not yet read, its output, and what is left in the
buffer of `my_read`. -/
structure Session where
  pc : Pc
  readBuf : List Byte
  stdin : List Byte
  stdout : List Byte
  peer : Peer
  deriving DecidableEq, Repr

/-- The session in front of the first `Fgets`. -/
def start (stdin : List Byte) : Session where
  pc := .fgets
  readBuf := []
  stdin := stdin
  stdout := []
  peer := .start

/-- `client` is the next step of the client, `server` that of the server; a `read` or `write`
moves `n` bytes. -/
inductive Event
  | client (n : Nat)
  | server (n : Nat)
  deriving DecidableEq, Repr

/-- What `Fgets` stores. -/
def fgets (stdin : List Byte) : List Byte :=
  takeLine (MAXLINE - 1) stdin

/-- `Writen` of a string; without any bytes it makes no call. -/
def Pc.send (buf : List Byte) : Pc :=
  if buf = [] then .readline [] else .writen buf

variable (toServer toClient : Nat)

/-- The next step of the client. -/
def clientNext (n : Nat) (s : Session) : Option Session :=
  match s.pc with
  | .fgets =>
      if s.stdin = [] then
        some { s with pc := .returned, peer := { s.peer with up := s.peer.up.shut } }
      else
        let sendline := fgets s.stdin
        some { s with pc := .send (cstr sendline), stdin := s.stdin.drop sendline.length }
  | .writen buf =>
      (s.peer.up.write toServer n buf).map fun (rest, up) =>
        { s with pc := .send rest, peer := { s.peer with up := up } }
  | .readline stored =>
      match s.readBuf with
      | c :: readBuf =>
          let stored := stored ++ [c]
          if c = newline ∨ stored.length = MAXLINE - 1 then
            some { s with pc := .fgets, readBuf := readBuf, stdout := s.stdout ++ cstr stored }
          else some { s with pc := .readline stored, readBuf := readBuf }
      | [] =>
          if s.peer.down.AtEnd ∧ n = 0 then
            if stored = [] then some { s with pc := .quit }
            else some { s with pc := .fgets, stdout := s.stdout ++ cstr stored }
          else if n ≤ MAXLINE then
            (s.peer.down.read n).map fun (chunk, down) =>
              { s with readBuf := chunk, peer := { s.peer with down := down } }
          else none
  | .returned | .quit => none

/-- `toServer` and `toClient` are the room in the two directions. -/
def next : Step Session Event
  | s, .client n => clientNext toServer n s
  | s, .server n => (s.peer.next toClient n).map fun peer => { s with peer := peer }

/-! ## The lines of an input -/

theorem fgets_ne_nil {stdin : List Byte} (more : stdin ≠ []) : fgets stdin ≠ [] := by
  cases stdin with
  | nil => exact absurd rfl more
  | cons c rest =>
      unfold fgets MAXLINE
      by_cases ends : c = newline
      · rw [ends, LineReader.takeLine_cons_newline]
        exact List.cons_ne_nil _ _
      · rw [LineReader.takeLine_cons_of_ne ends]
        exact List.cons_ne_nil _ _

theorem fgets_append (stdin : List Byte) :
    fgets stdin ++ stdin.drop (fgets stdin).length = stdin := by
  have front : fgets stdin <+: stdin :=
    LineReader.takeLine_isPrefix_stream _ _
  exact List.prefix_iff_eq_append.mp front

theorem length_fgets_le (stdin : List Byte) : (fgets stdin).length ≤ MAXLINE - 1 :=
  (LineReader.takeLine_isPrefix _ _).length_le.trans (List.length_take_le _ _)

theorem length_sub_fgets_lt {stdin : List Byte} (more : stdin ≠ []) :
    stdin.length - (fgets stdin).length < stdin.length :=
  Nat.sub_lt (List.length_pos_iff.mpr more) (List.length_pos_iff.mpr (fgets_ne_nil more))

/-- What the calls of `Fgets` return. -/
def lines (stdin : List Byte) : List (List Byte) :=
  if more : stdin = [] then []
  else
    have := length_sub_fgets_lt more
    fgets stdin :: lines (stdin.drop (fgets stdin).length)
termination_by stdin.length

/-- `Readline` sees the end of the line when it comes back. -/
def Answered (line : List Byte) : Prop :=
  0 ∉ line ∧ (newline ∈ line ∨ line.length = MAXLINE - 1)

instance (line : List Byte) : Decidable (Answered line) :=
  inferInstanceAs (Decidable (_ ∧ _))

theorem lines_nil : lines [] = [] := by
  rw [lines, dif_pos rfl]

theorem lines_of_ne_nil {stdin : List Byte} (more : stdin ≠ []) :
    lines stdin = fgets stdin :: lines (stdin.drop (fgets stdin).length) := by
  rw [lines, dif_neg more]

theorem flatten_lines (stdin : List Byte) : (lines stdin).flatten = stdin := by
  induction stdin using lines.induct with
  | case1 => rw [lines_nil, List.flatten_nil]
  | case2 stdin more _ ih => rw [lines_of_ne_nil more, List.flatten_cons, ih, fgets_append]

/-- A newline is the last byte of what `Fgets` stores. -/
theorem takeLine_eq_of_append {limit : Nat} {stream front back : List Byte}
    (split : takeLine limit stream = front ++ newline :: back) : back = [] := by
  induction limit generalizing stream front with
  | zero => cases front <;> cases split
  | succ limit ih =>
      cases stream with
      | nil => cases front <;> cases split
      | cons c rest =>
          by_cases ends : c = newline
          · rw [ends, LineReader.takeLine_cons_newline] at split
            cases front with
            | nil => exact (List.cons.inj split).2.symm
            | cons first front => exact absurd (List.cons.inj split).2.symm (by simp)
          · rw [LineReader.takeLine_cons_of_ne ends] at split
            cases front with
            | nil => exact absurd (List.cons.inj split).1 ends
            | cons first front => exact ih (List.cons.inj split).2

/-- A line of the input: at most one newline, at its end. -/
structure IsLine (line : List Byte) : Prop where
  ends : ∀ front back, line = front ++ newline :: back → back = []
  length_le : line.length ≤ MAXLINE - 1

theorem isLine_fgets (stdin : List Byte) : IsLine (fgets stdin) where
  ends _ _ := takeLine_eq_of_append
  length_le := length_fgets_le stdin

/-- What is sent of a line, up to a first newline, is the whole line. -/
theorem IsLine.eq_of_newline {line front back : List Byte} (isLine : IsLine line)
    (sent : front ++ newline :: back = cstr line) : back = [] ∧ line = front ++ [newline] := by
  rcases List.takeWhile_prefix (l := line) (· ≠ 0) with ⟨rest, split⟩
  change cstr line ++ rest = line at split
  rw [← sent, List.append_assoc, List.cons_append] at split
  have nothing := isLine.ends front (back ++ rest) split.symm
  rcases List.append_eq_nil_iff.mp nothing with ⟨rfl, rfl⟩
  exact ⟨rfl, split.symm⟩

/-- As many bytes as a line can have are the whole line. -/
theorem IsLine.eq_of_length {line front back : List Byte} (isLine : IsLine line)
    (sent : front ++ back = cstr line) (full : front.length = MAXLINE - 1) :
    back = [] ∧ line = front := by
  rcases List.takeWhile_prefix (l := line) (· ≠ 0) with ⟨rest, split⟩
  change cstr line ++ rest = line at split
  have lengths := congrArg List.length split
  have le := isLine.length_le
  rw [← sent] at lengths split
  rw [List.length_append, List.length_append] at lengths
  have backNil : back = [] := List.length_eq_zero_iff.mp (by omega)
  have restNil : rest = [] := List.length_eq_zero_iff.mp (by omega)
  rw [backNil, restNil, List.append_nil, List.append_nil] at split
  exact ⟨backNil, split.symm⟩

theorem answered_of_cstr_eq {line : List Byte} (whole : cstr line = line)
    (ends : newline ∈ line ∨ line.length = MAXLINE - 1) : Answered line :=
  ⟨whole ▸ zero_notMem_cstr line, ends⟩

/-! ## Steps -/

/-- Where the session is, with the lines that have come back. -/
inductive Stage (input : List Byte) (s : Session) (done : List (List Byte)) : Prop
  | fgets (pc : s.pc = .fgets) (left : lines input = done ++ lines s.stdin)
      (readBuf : s.readBuf = []) (idle : s.peer.inFlight = [])
      (opened : s.peer.up.closed = false)
  | writen {buf line : List Byte} (pc : s.pc = .writen buf)
      (left : lines input = done ++ line :: lines s.stdin) (isLine : IsLine line)
      (readBuf : s.readBuf = []) (sent : s.peer.inFlight ++ buf = cstr line) (nonempty : buf ≠ [])
      (opened : s.peer.up.closed = false)
  | readline {stored line : List Byte} (pc : s.pc = .readline stored)
      (left : lines input = done ++ line :: lines s.stdin) (isLine : IsLine line)
      (sent : stored ++ s.readBuf ++ s.peer.inFlight = cstr line)
      (noNewline : newline ∉ stored) (short : stored.length < MAXLINE - 1)
      (opened : s.peer.up.closed = false)
  | returned (pc : s.pc = .returned) (left : lines input = done) (stdin : s.stdin = [])
      (readBuf : s.readBuf = []) (idle : s.peer.inFlight = [])
      (closed : s.peer.up.closed = true)

/-- The invariant. -/
structure Inv (input : List Byte) (s : Session) : Prop where
  sound : s.peer.Sound
  stage : ∃ done, (∀ line ∈ done, Answered line) ∧ s.stdout = done.flatten ∧ Stage input s done

/-- Whether the client is still to return. -/
def Pc.rank : Pc → Nat
  | .fgets | .writen _ | .readline _ => 1
  | .returned | .quit => 0

/-- What `Writen` has not yet sent. -/
def Pc.hand : Pc → List Byte
  | .writen buf => buf
  | _ => []

/-- How much is still to be done. -/
def Session.measure (s : Session) : Nat :=
  2 * (6 * s.stdin.length + 5 * s.pc.hand.length + (s.peer.work + s.peer.inFlight.length) +
    s.readBuf.length) + s.pc.rank + (if s.peer.server = .returned then 0 else 1)

variable {toServer toClient n : Nat} {input : List Byte} {s t : Session}

theorem inv_start (input : List Byte) : Inv input (start input) where
  sound := Peer.sound_start
  stage := ⟨[], nofun, rfl, .fgets rfl rfl rfl rfl rfl⟩

@[simp]
theorem hand_send (buf : List Byte) : (Pc.send buf).hand = buf := by
  unfold Pc.send
  split
  · next empty => exact empty.symm
  · rfl

@[simp]
theorem rank_send (buf : List Byte) : (Pc.send buf).rank = 1 := by
  unfold Pc.send
  split <;> rfl

/-- Behind `Writen`, or inside of it. -/
theorem stage_send {done : List (List Byte)} {buf line : List Byte} (pc : s.pc = .send buf)
    (left : lines input = done ++ line :: lines s.stdin) (isLine : IsLine line)
    (readBuf : s.readBuf = []) (sent : s.peer.inFlight ++ buf = cstr line)
    (opened : s.peer.up.closed = false) : Stage input s done := by
  unfold Pc.send at pc
  by_cases empty : buf = []
  · rw [if_pos empty] at pc
    refine .readline pc left isLine ?_ List.not_mem_nil (by decide) opened
    rw [readBuf, List.nil_append, List.nil_append, ← sent, empty, List.append_nil]
  · rw [if_neg empty] at pc
    exact .writen pc left isLine readBuf sent empty opened

/-! ## The server -/

/-- A step of the server leaves the client as it is. -/
theorem Inv.server {peer : Peer} (inv : Inv input s) (moved : Peer.Moved toClient s.peer peer) :
    Inv input { s with peer := peer } where
  sound := moved.sound inv.sound
  stage := by
    rcases inv.stage with ⟨done, answered, stdout, stage⟩
    have inFlight := moved.inFlight_eq
    have closed := moved.closed_eq
    refine ⟨done, answered, stdout, ?_⟩
    cases stage with
    | fgets pc left readBuf idle opened =>
        exact .fgets pc left readBuf (inFlight.trans idle) (closed.trans opened)
    | writen pc left isLine readBuf sent nonempty opened =>
        exact .writen pc left isLine readBuf (inFlight ▸ sent) nonempty (closed.trans opened)
    | readline pc left isLine sent noNewline short opened =>
        exact .readline pc left isLine (inFlight ▸ sent) noNewline short (closed.trans opened)
    | returned pc left stdin readBuf idle shut =>
        exact .returned pc left stdin readBuf (inFlight.trans idle) (closed.trans shut)

theorem measure_server {peer : Peer} (moved : Peer.Moved toClient s.peer peer) :
    { s with peer := peer : Session }.measure < s.measure := by
  unfold Session.measure
  rw [moved.inFlight_eq]
  rcases moved.work_lt with nearer | ⟨reading, returned, same⟩
  · have alive : (if peer.server = .returned then 0 else 1) ≤ 1 := by
      split <;> omega
    dsimp only
    omega
  · simp only [returned, reading, same, reduceCtorEq, if_true, if_false]
    omega

/-! ## The client -/

/-- While the client has not sent its FIN, the server does not send one. -/
theorem Inv.not_atEnd (inv : Inv input s) (opened : s.peer.up.closed = false) :
    ¬ s.peer.down.AtEnd := by
  intro atEnd
  have shut := (inv.sound.drained (inv.sound.returned_iff.mpr atEnd.2)).2
  exact absurd (shut.symm.trans opened) (by decide)

theorem Inv.step_fgets (inv : Inv input s) (pc : s.pc = .fgets)
    (step : clientNext toServer n s = some t) : Inv input t ∧ t.measure < s.measure := by
  rcases inv with ⟨sound, done, answered, stdout, stage⟩
  cases stage with
  | fgets _ left readBuf idle opened =>
      unfold clientNext at step
      rw [pc] at step
      by_cases empty : s.stdin = []
      · -- the client returns, and the connection is closed
        rw [if_pos empty] at step
        cases step
        rw [empty, lines_nil, List.append_nil] at left
        refine ⟨⟨⟨sound.hand_ne_nil, sound.returned_iff, fun finished =>
          ⟨(sound.drained finished).1, rfl⟩⟩, done, answered, stdout,
          .returned rfl left empty readBuf idle rfl⟩, ?_⟩
        have same : Peer.work { s.peer with up := s.peer.up.shut } = s.peer.work := rfl
        have flight : Peer.inFlight { s.peer with up := s.peer.up.shut } = s.peer.inFlight := rfl
        unfold Session.measure
        rw [pc, same, flight]
        simp only [Pc.hand, Pc.rank]
        omega
      · rw [if_neg empty] at step
        cases step
        have left' := left
        rw [lines_of_ne_nil empty] at left'
        refine ⟨⟨sound, done, answered, stdout, stage_send rfl left' (isLine_fgets _) readBuf ?_
          opened⟩, ?_⟩
        · rw [show s.peer.inFlight = [] from idle, List.nil_append]
        · have shorter := length_sub_fgets_lt empty
          have cut : (cstr (fgets s.stdin)).length ≤ (fgets s.stdin).length :=
            (List.takeWhile_prefix _).length_le
          have all := congrArg List.length (fgets_append s.stdin)
          rw [List.length_append] at all
          unfold Session.measure
          rw [pc]
          dsimp only
          rw [hand_send, rank_send]
          simp only [Pc.hand, Pc.rank, List.length_drop, List.length_nil] at all ⊢
          omega
  | writen other => exact Pc.noConfusion (pc.symm.trans other)
  | readline other => exact Pc.noConfusion (pc.symm.trans other)
  | returned other => exact Pc.noConfusion (pc.symm.trans other)

theorem Inv.step_writen {buf : List Byte} (inv : Inv input s) (pc : s.pc = .writen buf)
    (step : clientNext toServer n s = some t) : Inv input t ∧ t.measure < s.measure := by
  rcases inv with ⟨sound, done, answered, stdout, stage⟩
  cases stage with
  | writen same left isLine readBuf sent nonempty opened =>
      cases pc.symm.trans same
      unfold clientNext at step
      rw [pc] at step
      rcases Option.map_eq_some_iff.mp step with ⟨⟨rest, up⟩, written, rfl⟩
      have wrote := Pipe.wrote_of_write written
      have order : Peer.inFlight { s.peer with up := up } ++ rest = s.peer.inFlight ++ buf := by
        unfold Peer.inFlight
        rw [List.append_assoc _ _ rest, wrote.bytes, List.append_assoc _ _ buf]
      refine ⟨⟨⟨sound.hand_ne_nil, sound.returned_iff, fun finished => ?_⟩, done, answered, stdout,
        stage_send rfl left isLine readBuf (order.trans sent) (wrote.closed.trans opened)⟩, ?_⟩
      · exact absurd ((sound.drained finished).2.symm.trans opened) (by decide)
      · have lengths := wrote.length
        have more := wrote.rest_length
        have pos := wrote.pos
        unfold Session.measure Peer.work Peer.inFlight
        rw [pc]
        dsimp only
        rw [hand_send, rank_send]
        simp only [Pc.hand, Pc.rank, List.length_append]
        omega
  | fgets other => exact Pc.noConfusion (pc.symm.trans other)
  | readline other => exact Pc.noConfusion (pc.symm.trans other)
  | returned other => exact Pc.noConfusion (pc.symm.trans other)

/-- One byte from the buffer of `my_read`. -/
theorem Inv.step_byte {stored readBuf : List Byte} {c : Byte} (inv : Inv input s)
    (pc : s.pc = .readline stored) (filled : s.readBuf = c :: readBuf)
    (step : clientNext toServer n s = some t) : Inv input t ∧ t.measure < s.measure := by
  rcases inv with ⟨sound, done, answered, stdout, stage⟩
  cases stage with
  | @readline _ line same left isLine sent noNewline short opened =>
      cases pc.symm.trans same
      unfold clientNext at step
      rw [pc] at step
      simp only [filled] at step
      rw [filled] at sent
      have split : stored ++ [c] ++ readBuf ++ s.peer.inFlight = cstr line := by
        rw [← sent, List.append_cons stored c readBuf]
      have shorter : (s.readBuf.length = readBuf.length + 1) := by
        rw [filled, List.length_cons]
      have less : ∀ pc' stdout', pc'.rank = 1 → pc'.hand = [] →
          (Session.mk pc' readBuf s.stdin stdout' s.peer).measure < s.measure := by
        intro pc' stdout' rank hand
        unfold Session.measure
        rw [pc]
        dsimp only
        rw [rank, hand, shorter]
        simp only [Pc.hand, Pc.rank]
        omega
      split at step
      · next complete =>
          cases step
          -- nothing of the line is left, and the line has no NUL
          have whole : readBuf ++ s.peer.inFlight = [] ∧ line = stored ++ [c] := by
            rw [List.append_assoc] at split
            rcases complete with rfl | full
            · rw [List.append_assoc, List.singleton_append] at split
              exact isLine.eq_of_newline split
            · exact isLine.eq_of_length split full
          rcases List.append_eq_nil_iff.mp whole.1 with ⟨rfl, idle⟩
          rw [idle, List.append_nil, List.append_nil, ← whole.2] at split
          have isAnswered : Answered line := by
            refine answered_of_cstr_eq split.symm ?_
            rw [whole.2]
            exact complete.imp (fun eq => by simp [eq]) id
          refine ⟨⟨sound, done ++ [line], ?_, ?_, .fgets rfl ?_ rfl idle opened⟩,
            less .fgets _ rfl rfl⟩
          · intro other member
            rcases List.mem_append.mp member with before | last
            · exact answered other before
            · exact List.mem_singleton.mp last ▸ isAnswered
          · dsimp only
            rw [stdout, List.flatten_append, List.flatten_singleton, ← whole.2, ← split]
          · rw [left, List.append_assoc, List.singleton_append]
      · next incomplete =>
          cases step
          rcases not_or.mp incomplete with ⟨ne, notFull⟩
          refine ⟨⟨sound, done, answered, stdout, .readline rfl left isLine split ?_ ?_ opened⟩,
            less (.readline _) _ rfl rfl⟩
          · intro member
            rcases List.mem_append.mp member with before | last
            · exact noNewline before
            · exact ne (List.mem_singleton.mp last).symm
          · rw [List.length_append, List.length_singleton] at notFull ⊢
            omega
  | fgets other => exact Pc.noConfusion (pc.symm.trans other)
  | writen other => exact Pc.noConfusion (pc.symm.trans other)
  | returned other => exact Pc.noConfusion (pc.symm.trans other)

/-- The buffer of `my_read` is filled again. -/
theorem Inv.step_fill {stored : List Byte} (inv : Inv input s)
    (pc : s.pc = .readline stored) (drained : s.readBuf = [])
    (step : clientNext toServer n s = some t) : Inv input t ∧ t.measure < s.measure := by
  have notAtEnd := inv.not_atEnd
  rcases inv with ⟨sound, done, answered, stdout, stage⟩
  cases stage with
  | readline same left isLine sent noNewline short opened =>
      cases pc.symm.trans same
      unfold clientNext at step
      rw [pc] at step
      simp only [drained] at step
      rw [if_neg fun both => notAtEnd opened both.1] at step
      split at step
      · rcases Option.map_eq_some_iff.mp step with ⟨⟨chunk, down⟩, taken, rfl⟩
        have got := Pipe.got_of_read taken
        refine ⟨⟨⟨sound.hand_ne_nil, ?_, sound.drained⟩, done, answered, stdout,
          .readline rfl left isLine ?_ noNewline short opened⟩, ?_⟩
        · rw [got.closed]
          exact sound.returned_iff
        · rw [← sent, drained]
          unfold Peer.inFlight
          rw [← got.bytes]
          simp only [List.append_assoc, List.nil_append]
        · have lengths := got.length
          have chunkLength := got.chunk_length
          have pos := got.pos
          unfold Session.measure Peer.work Peer.inFlight
          rw [pc, drained]
          simp only [Pc.hand, Pc.rank, List.length_append, List.length_nil]
          omega
      · cases step
  | fgets other => exact Pc.noConfusion (pc.symm.trans other)
  | writen other => exact Pc.noConfusion (pc.symm.trans other)
  | returned other => exact Pc.noConfusion (pc.symm.trans other)

/-- Every step keeps the invariant, and leaves less to be done. -/
theorem lowers (input : List Byte) :
    Lowers (next toServer toClient) (Inv input) Session.measure := by
  intro s event t inv step
  cases event with
  | client n =>
      cases pc : s.pc with
      | fgets => exact inv.step_fgets pc step
      | writen buf => exact inv.step_writen pc step
      | readline stored =>
          cases filled : s.readBuf with
          | nil => exact inv.step_fill pc filled step
          | cons c readBuf => exact inv.step_byte pc filled step
      | returned | quit =>
          simp only [next, clientNext, pc] at step
          cases step
  | server n =>
      rcases Option.map_eq_some_iff.mp step with ⟨peer, moves, rfl⟩
      have moved := Peer.moved_of_next moves
      exact ⟨inv.server moved, measure_server moved⟩

/-! ## Where the session stops -/

/-- In a session that stops, the client has returned, or it waits for the rest of a line of
which nothing is on its way. -/
theorem Inv.halted (inv : Inv input s) (up : 0 < toServer) (down : 0 < toClient)
    (room : MAXLINE ≤ toServer + toClient + 2) (halted : Halted (next toServer toClient) s) :
    ∃ done, (∀ line ∈ done, Answered line) ∧ s.stdout = done.flatten ∧
      (s.pc = .returned ∧ lines input = done ∨
        s.pc ≠ .returned ∧ ∃ line rest, lines input = done ++ line :: rest ∧ ¬ Answered line) := by
  have client : ∀ n, clientNext toServer n s = none := fun n => halted (.client n)
  have server := (Peer.next_eq_none_iff inv.sound).mp fun n =>
    Option.map_eq_none_iff.mp (halted (.server n))
  have notAtEnd := inv.not_atEnd
  rcases inv with ⟨sound, done, answered, stdout, stage⟩
  refine ⟨done, answered, stdout, ?_⟩
  cases stage with
  | returned pc left stdin readBuf idle closed => exact .inl ⟨pc, left⟩
  | fgets pc left readBuf idle opened =>
      have moves := client 0
      rw [clientNext, pc] at moves
      dsimp only at moves
      split at moves <;> cases moves
  | @writen buf line pc left isLine readBuf sent nonempty opened =>
      exfalso
      have fullUp : toServer ≤ s.peer.up.bytes.length := by
        by_contra notFull
        rcases Pipe.exists_write nonempty opened (Nat.lt_of_not_le notFull) with ⟨out, written⟩
        have moves := client 1
        rw [clientNext, pc] at moves
        simp [written] at moves
      rcases server with returned | ⟨reading, waits⟩ | ⟨⟨hand, writing⟩, fullDown⟩
      · exact absurd ((sound.drained returned).2.symm.trans opened) (by decide)
      · refine waits (.inl fun empty => ?_)
        rw [empty, List.length_nil] at fullUp
        omega
      · -- both sides write: the line does not fit into the buffers
        have mine := List.length_pos_iff.mpr nonempty
        have its := List.length_pos_iff.mpr (sound.hand_ne_nil hand writing)
        have cut : (cstr line).length ≤ line.length := (List.takeWhile_prefix _).length_le
        have le := isLine.length_le
        have all := congrArg List.length sent
        unfold Peer.inFlight at all
        rw [writing] at all
        simp only [Server.hand, List.length_append] at all
        unfold MAXLINE at le room
        omega
  | @readline stored line pc left isLine sent noNewline short opened =>
      refine .inr ⟨by rw [pc]; exact Pc.noConfusion, line, lines s.stdin, left, ?_⟩
      have drained : s.readBuf = [] := by
        by_contra filled
        rcases List.exists_cons_of_ne_nil filled with ⟨c, readBuf, eq⟩
        have moves := client 0
        rw [clientNext, pc] at moves
        simp only [eq] at moves
        split at moves <;> cases moves
      have nothing : s.peer.down.bytes = [] := by
        by_contra more
        rcases Pipe.exists_read more with ⟨out, taken⟩
        have moves := client 1
        rw [clientNext, pc] at moves
        simp [drained, taken, MAXLINE] at moves
      have idle : s.peer.inFlight = [] := by
        unfold Peer.inFlight
        rcases server with returned | ⟨reading, waits⟩ | ⟨-, fullDown⟩
        · exact absurd ((sound.drained returned).2.symm.trans opened) (by decide)
        · have empty : s.peer.up.bytes = [] := not_not.mp fun more => waits (.inl more)
          rw [nothing, reading, empty]
          rfl
        · rw [nothing, List.length_nil] at fullDown
          omega
      rintro ⟨noNul, ends⟩
      rw [drained, idle, List.append_nil, List.append_nil, cstr_of_notMem noNul] at sent
      rcases ends with newlineIn | full
      · exact noNewline (sent ▸ newlineIn)
      · rw [← sent] at full
        omega

theorem takeWhile_answered {done : List (List Byte)} {line : List Byte} {rest : List (List Byte)}
    (answered : ∀ line ∈ done, Answered line) (not : ¬ Answered line) :
    (done ++ line :: rest).takeWhile (Answered ·) = done := by
  rw [List.takeWhile_append_of_pos fun line member => decide_eq_true (answered line member),
    List.takeWhile_cons_of_neg (by simpa using not), List.append_nil]

/-- What a session does, in any order of the steps: it prints whole lines of its input, in
order.  It stops after a bounded number of steps, behind all lines in front of the first one
that holds a NUL or has no newline and is shorter than `MAXLINE - 1` bytes; the client returns
if and only if there is no such line.  The buffers have room for a line. -/
theorem returns_iff {events : List Event} (up : 0 < toServer) (down : 0 < toClient)
    (room : MAXLINE ≤ toServer + toClient + 2)
    (finished : run (next toServer toClient) (start input) events = some s) :
    events.length ≤ 12 * input.length + 2 ∧ s.pc ≠ .quit ∧
      (∃ done, done <+: lines input ∧ (∀ line ∈ done, Answered line) ∧
        s.stdout = done.flatten) ∧
      (Halted (next toServer toClient) s →
        s.stdout = ((lines input).takeWhile (Answered ·)).flatten ∧
          (s.pc = .returned ↔ ∀ line ∈ lines input, Answered line)) := by
  have inv : Inv input s :=
    invariant_run (fun _ _ _ inv step => (lowers input inv step).1) (inv_start input) finished
  have bound := (lowers input).length_le (inv_start input) finished
  refine ⟨?_, ?_, ?_, fun halted => ?_⟩
  · have first : (start input).measure = 12 * input.length + 2 := by
      unfold Session.measure Peer.work Peer.inFlight
      simp only [start, Pc.hand, Pc.rank, Peer.start, Pipe.empty, Server.hand, List.length_nil,
        List.append_nil, if_false, reduceCtorEq]
      omega
    omega
  · rcases inv.stage with ⟨done, -, -, stage⟩
    intro quit
    cases stage with
    | fgets pc => exact Pc.noConfusion (quit.symm.trans pc)
    | writen pc => exact Pc.noConfusion (quit.symm.trans pc)
    | readline pc => exact Pc.noConfusion (quit.symm.trans pc)
    | returned pc => exact Pc.noConfusion (quit.symm.trans pc)
  · rcases inv.stage with ⟨done, answered, stdout, stage⟩
    refine ⟨done, ?_, answered, stdout⟩
    cases stage with
    | fgets _ left => exact ⟨_, left.symm⟩
    | writen _ left => exact ⟨_, left.symm⟩
    | readline _ left => exact ⟨_, left.symm⟩
    | returned _ left => exact left ▸ List.prefix_refl _
  · rcases inv.halted up down room halted with
      ⟨done, answered, stdout, ⟨returned, all⟩ | ⟨waits, line, rest, split, not⟩⟩
    · have whole : done.takeWhile (Answered ·) = done :=
        List.takeWhile_eq_self_iff.mpr fun line member => decide_eq_true (answered line member)
      rw [all, whole]
      exact ⟨stdout, iff_of_true returned answered⟩
    · rw [split, takeWhile_answered answered not]
      refine ⟨stdout, iff_of_false waits fun every => not (every line ?_)⟩
      exact List.mem_append_right _ List.mem_cons_self

/-- A last line without a newline: it comes back, and the client goes on waiting. -/
theorem returns_iff_waiting :
    ∃ s, run (next 4096 4096) (start [97])
        [.client 0, .client 1, .server 1, .server 1, .client 1, .client 0] = some s ∧
      s.pc = .readline [97] ∧ s.pc ≠ .quit ∧
      ∃ done, done <+: lines [97] ∧ (∀ line ∈ done, Answered line) ∧ s.stdout = done.flatten := by
  have waiting : (run (next 4096 4096) (start [97])
      [.client 0, .client 1, .server 1, .server 1, .client 1, .client 0]).map Session.pc =
      some (.readline [97]) := by decide +kernel
  rcases Option.map_eq_some_iff.mp waiting with ⟨s, finished, pc⟩
  have facts := returns_iff (by decide) (by decide) (by decide) finished
  exact ⟨s, finished, pc, facts.2.1, facts.2.2.1⟩

end NetPractice.EchoSession.Lines
