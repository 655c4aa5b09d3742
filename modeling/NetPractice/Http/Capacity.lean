import NetPractice.Http.Append
import NetPractice.Http.BufferSafety

/-!
# Reading up to the capacity of the receive buffer

`read` asks `recv` for what the buffer has room for.  When the received bytes fill the
buffer, the next call asks for no bytes, and its result 0 is taken for a peer that has closed
the connection.
-/

namespace NetPractice.Http

open NetPractice.Text
open NetPractice.Socket

/-- The bytes of all answers, in order. -/
def received (answers : List Recv) : List Byte :=
  answers.flatMap fun answer => answer.bytes.getD []

/-- With `room` bytes of the buffer left: a call of `recv` with length 0 returns 0. -/
def ZeroLength : Nat → List Recv → Prop
  | _, [] => True
  | room, answer :: answers =>
      (room = 0 → answer = .eof) ∧ ZeroLength (room - (answer.bytes.getD []).length) answers

instance : ∀ (room : Nat) (answers : List Recv), Decidable (ZeroLength room answers)
  | _, [] => isTrue trivial
  | room, answer :: answers =>
      have := instDecidableZeroLength (room - (answer.bytes.getD []).length) answers
      inferInstanceAs (Decidable ((_ → _) ∧ _))

/-- A buffer that was filled is asked for once more. -/
theorem ZeroLength.last_of_filled {room : Nat} {answers : List Recv}
    (zero : ZeroLength room answers) (nonempty : answers ≠ [])
    (ended : ∃ answer ∈ answers.getLast?, answer.bytes = none)
    (filled : (received answers).length = room) : answers.getLast? = some .eof := by
  induction answers generalizing room with
  | nil => contradiction
  | cons answer answers ih =>
      rcases zero with ⟨first, rest⟩
      have received_eq : received (answer :: answers) =
          answer.bytes.getD [] ++ received answers := rfl
      rw [received_eq, List.length_append] at filled
      cases answers with
      | nil =>
          rcases ended with ⟨last, last_eq, noBytes⟩
          have same : answer = last := Option.some.inj last_eq
          rw [same, noBytes] at filled
          rw [first filled.symm]
          rfl
      | cons next answers =>
          rw [List.getLast?_cons_of_ne_nil (List.cons_ne_nil next answers)] at ended ⊢
          exact ih rest (List.cons_ne_nil next answers) ended (by omega)

namespace HttpConn

/-- The peer has closed: `recv` was asked for at least one byte, and returned 0. -/
def PeerClosed (c : HttpConn) (answers : List Recv) : Prop :=
  answers.getLast? = some .eof ∧ c.readIdx + (received answers).length < READ_BUFFER_SIZE

/-- What a call of `read` with this result has done: the bytes are behind those of the
earlier calls and inside the buffer, and the connection is given up only for a reason. -/
structure UpToCapacity (c : HttpConn) (answers : List Recv) (more : Bool) (d : HttpConn) :
    Prop where
  appended : d = c.append (received answers)
  inside : c.readIdx ≤ READ_BUFFER_SIZE → d.readIdx ≤ READ_BUFFER_SIZE
  closed : more = false →
    READ_BUFFER_SIZE ≤ c.readIdx ∨ c.PeerClosed answers ∨ .fail ∈ answers
  full : c.readIdx < READ_BUFFER_SIZE → d.readIdx = READ_BUFFER_SIZE → more = true

section Reading

variable {answers : List Recv} {c d : HttpConn} {more : Bool}

/-- The answers that end the loop, and what the loop leaves. -/
structure LoopRead (c : HttpConn) (answers : List Recv) (more : Bool) (d : HttpConn) :
    Prop where
  appended : d = c.append (received answers)
  inside : c.readIdx + (received answers).length ≤ READ_BUFFER_SIZE
  last : (more = true ∧ answers.getLast? = some .again) ∨
    (more = false ∧ (answers.getLast? = some .eof ∨ answers.getLast? = some .fail))

theorem readLoop_read (room : c.readIdx ≤ READ_BUFFER_SIZE)
    (result : c.readLoop answers = some (more, d)) : LoopRead c answers more d := by
  induction answers generalizing c with
  | nil => contradiction
  | cons answer answers ih =>
      simp only [readLoop, Option.ite_none_right_eq_some] at result
      rcases result with ⟨fits, result⟩
      cases answer with
      | data bytes =>
          have length := (fits bytes rfl).2
          have rest := ih (c := c.append bytes) (by simp only [append_readIdx]; omega) result
          have received_eq : received (.data bytes :: answers) = bytes ++ received answers := rfl
          have nonempty : answers ≠ [] := by
            rintro rfl
            contradiction
          constructor
          · rw [rest.appended, append_append, received_eq]
          · have inside := rest.inside
            rw [append_readIdx] at inside
            rw [received_eq, List.length_append]
            omega
          · rw [List.getLast?_cons_of_ne_nil nonempty]
            exact rest.last
      | again | eof | fail =>
          simp only [Option.ite_none_right_eq_some, Option.some.injEq, Prod.mk.injEq] at result
          rcases result with ⟨rfl, rfl, rfl⟩
          constructor
          · exact (append_nil c).symm
          · exact room
          · simp

theorem LoopRead.ended (read : LoopRead c answers more d) :
    answers ≠ [] ∧ ∃ answer ∈ answers.getLast?, answer.bytes = none := by
  rcases read.last with ⟨-, last⟩ | ⟨-, last | last⟩
  all_goals
    constructor
    · rintro rfl
      cases last
    · exact ⟨_, last, rfl⟩

end Reading

/-- With any amount of pending data and any answers of `recv`, `read` works up to the
capacity of the buffer if and only if the buffer was full before, or is not full
afterwards. -/
theorem read_upToCapacity_iff {c d : HttpConn} {answers : List Recv} {more : Bool}
    (result : c.read answers = some (more, d))
    (zero : ZeroLength (READ_BUFFER_SIZE - c.readIdx) answers) :
    UpToCapacity c answers more d ↔
      READ_BUFFER_SIZE ≤ c.readIdx ∨
        c.readIdx + (received answers).length < READ_BUFFER_SIZE := by
  unfold read at result
  by_cases before : READ_BUFFER_SIZE ≤ c.readIdx
  · rw [if_pos before] at result
    rcases Option.ite_none_right_eq_some.mp result with ⟨rfl, equal⟩
    cases equal
    refine iff_of_true ?_ (Or.inl before)
    constructor
    · exact (append_nil c).symm
    · exact id
    · exact fun _ => Or.inl before
    · exact fun less => absurd before (Nat.not_le_of_lt less)
  · rw [if_neg before] at result
    have loop := readLoop_read (Nat.le_of_not_le before) result
    have readIdx_eq : d.readIdx = c.readIdx + (received answers).length := by
      rw [loop.appended, append_readIdx]
    rw [or_iff_right before]
    constructor
    · -- a filled buffer is read once more, and the 0 is taken for the end
      intro capacity
      by_contra filled
      have exact : c.readIdx + (received answers).length = READ_BUFFER_SIZE := by
        have inside := loop.inside
        omega
      have more_eq := capacity.full (Nat.lt_of_not_le before) (readIdx_eq.trans exact)
      have last := zero.last_of_filled loop.ended.1 loop.ended.2 (by omega)
      rcases loop.last with ⟨-, again⟩ | ⟨less, -⟩
      · rw [last] at again
        cases again
      · rw [less] at more_eq
        cases more_eq
    · intro less
      constructor
      · exact loop.appended
      · intro _
        rw [readIdx_eq]
        exact loop.inside
      · intro gone
        rcases loop.last with ⟨more_eq, -⟩ | ⟨-, last | last⟩
        · rw [gone] at more_eq
          cases more_eq
        · exact Or.inr (Or.inl ⟨last, less⟩)
        · exact Or.inr (Or.inr (List.mem_of_getLast? last))
      · intro _ full
        omega

/-- A short request, after which there is nothing more to read. -/
theorem read_upToCapacity_short :
    UpToCapacity zeroConn [.data (ascii "GET / HTTP/1.1\r\n\r\n"), .again] true
      (zeroConn.append (ascii "GET / HTTP/1.1\r\n\r\n")) :=
  (read_upToCapacity_iff rfl (by decide)).mpr (Or.inr (by decide))

/-- A request that is as long as the receive buffer. -/
def fullRequest : List Byte :=
  ascii "GET / HTTP/1.1\r\nA: " ++ (List.replicate 2025 97 ++ ascii "\r\n\r\n")

theorem length_fullRequest : fullRequest.length = READ_BUFFER_SIZE := by
  rw [fullRequest, List.length_append, List.length_append, List.length_replicate]
  rfl

/-- The request is received completely, and the connection is given up. -/
theorem fullRequest_not_upToCapacity :
    zeroConn.read [.data fullRequest, .eof] = some (false, zeroConn.append fullRequest) ∧
      ZeroLength (READ_BUFFER_SIZE - zeroConn.readIdx) [.data fullRequest, .eof] ∧
      ¬ UpToCapacity zeroConn [.data fullRequest, .eof] false (zeroConn.append fullRequest) := by
  have length := length_fullRequest
  have nonempty : fullRequest ≠ [] := by
    intro empty
    rw [empty] at length
    cases length
  refine ⟨?_, ⟨fun none => absurd none (by decide), fun _ => rfl, trivial⟩, ?_⟩
  · have fits : (Recv.data fullRequest).AtMost (READ_BUFFER_SIZE - zeroConn.readIdx) := by
      intro bytes mem
      cases mem
      exact ⟨nonempty, Nat.le_of_eq length⟩
    have ends : Recv.eof.AtMost (READ_BUFFER_SIZE - (zeroConn.append fullRequest).readIdx) :=
      fun bytes mem => by cases mem
    rw [read, if_neg (by decide), readLoop, if_pos fits, readLoop, if_pos ends]
    rfl
  · intro capacity
    have more := capacity.full (by decide) (by
      rw [append_readIdx, length]
      rfl)
    cases more

end HttpConn

end NetPractice.Http
