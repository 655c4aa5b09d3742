import NetPractice.LineReader.Stream

/-!
# The re-entrant line reader

This module embeds `readline_r` of `server/readline_r.c`, whose buffer belongs to the caller,
and compares it with `readline` of `lib/readline.c`.  Both loops take the same bytes; they
differ in what they return at an end of file, and in the type of the counter.
-/

namespace NetPractice.LineReader

open NetPractice.Text

/-! ## `server/readline_r.c` -/

/-- The largest `int`. -/
def INT_MAX : Nat := 2147483647

/-- `Rline` of `readline_r.h`: the caller's `maxlen`, and the buffer. -/
structure RlineR where
  maxlen : Nat
  rl : Rline
  deriving DecidableEq, Repr

/-- `readline_rinit`, with whatever is in the buffer. -/
def readlineRinit (rptr : Rline) (maxlen : Nat) : RlineR where
  maxlen := maxlen
  rl := { rptr with cnt := 0, bufptr := 0, inside := Nat.zero_le _ }

/-- `my_read_r`; `& 255` leaves a byte as it is. -/
def myReadR (rl : Rline) (answers : List Answer) : MyRead × Rline × List Answer :=
  myRead rl answers

/-- The `for` loop of `readline_r`.  The counter `n` is an `int`; beyond the largest one, the
behaviour is undefined. -/
def readLoopR : Nat → Nat → List Byte → Rline → List Answer → Option (Returned Rline)
  | 0, n, stored, rl, answers => some ⟨n, stored, rl, answers⟩
  | left + 1, n, stored, rl, answers =>
      match myReadR rl answers with
      | (.byte c, rl, answers) =>
          if c = newline then some ⟨n, stored ++ [c], rl, answers⟩
          else if n < INT_MAX then readLoopR left (n + 1) (stored ++ [c]) rl answers
          else none
      | (.eof, rl, answers) =>
          if n = 1 then some ⟨0, stored, rl, answers⟩ else some ⟨n, stored, rl, answers⟩
      | (.error, rl, answers) => some ⟨-1, stored, rl, answers⟩

/-- `readline_r(rptr)`. -/
def readlineR (rptr : RlineR) (answers : List Answer) : Option (Returned RlineR) :=
  (readLoopR (rptr.maxlen - 1) 1 [] rptr.rl answers).map fun out =>
    ⟨out.ret, out.stored, { rptr with rl := out.reader }, out.answers⟩

/-! ## Its loop on a stream -/

/-- What `readline_r` returns. -/
def Exit.retR (exit : Exit) (n taken : Nat) : Int :=
  match exit with
  | .newline => n + taken - 1
  | .full => n + taken
  | .eof => if n + taken = 1 then 0 else n + taken
  | .error => -1

theorem Exit.retR_succ (exit : Exit) (n taken : Nat) :
    exit.retR (n + 1) taken = exit.retR n (taken + 1) := by
  cases exit with
  | newline | full =>
      simp only [Exit.retR]
      omega
  | eof =>
      have same : n + 1 + taken = n + (taken + 1) := by omega
      simp only [Exit.retR, same]
      split
      · rfl
      · omega
  | error => rfl

/-- The bytes of a piece in front of its newline. -/
def textLength (piece : List Byte) : Nat :=
  (piece.filter (· ≠ newline)).length

theorem readLoopR_eq_scan (left n : Nat) (stored : List Byte) (r : Rline)
    (answers : List Answer) (inside : n ≤ INT_MAX) :
    readLoopR left n stored r answers =
      if n + textLength (scan left r answers).piece ≤ INT_MAX then
        some ⟨(scan left r answers).exit.retR n (scan left r answers).piece.length,
          stored ++ (scan left r answers).piece, (scan left r answers).reader,
          (scan left r answers).answers⟩
      else none := by
  have defined : n + textLength [] ≤ INT_MAX := inside
  induction left generalizing n stored r answers with
  | zero =>
      rw [readLoopR, scan, if_pos defined, List.append_nil]
      rfl
  | succ left ih =>
      rcases read : myRead r answers with ⟨c | _ | _, r', answers'⟩
      · rw [readLoopR, myReadR, read]
        dsimp only
        by_cases ends : c = newline
        · subst ends
          have alone : n + textLength [newline] ≤ INT_MAX := inside
          rw [if_pos rfl, scan_newline read, if_pos alone]
          simp [Exit.retR]
        · have text : textLength (c :: (scan left r' answers').piece) =
              textLength (scan left r' answers').piece + 1 := by
            simp [textLength, ends]
          rw [if_neg ends, scan_of_ne read ends]
          dsimp only
          rw [text, List.length_cons, ← Exit.retR_succ]
          by_cases more : n < INT_MAX
          · have count : n + 1 + textLength (scan left r' answers').piece =
                n + (textLength (scan left r' answers').piece + 1) := by omega
            rw [if_pos more, ih (n + 1) _ _ _ more more, count, List.append_assoc]
            rfl
          · rw [if_neg more, if_neg (by omega)]
      · rw [readLoopR, myReadR, read, scan_eof read, if_pos defined]
        by_cases first : n = 1
        · simp [first, Exit.retR]
        · simp [first, Exit.retR]
      · rw [readLoopR, myReadR, read, scan_error read, if_pos defined, List.append_nil]
        rfl

/-! ## Repeated calls -/

section Results

universe u

variable {γ : Type u}

/-- What a number of calls of `lib/readline.c` show. -/
def Lib.results (view : Int → List Byte → γ) (maxlen : Nat) : Nat → Rline → List Answer → List γ
  | 0, _, _ => []
  | calls + 1, statics, answers =>
      let out := Lib.readline statics answers maxlen
      view out.ret out.stored :: Lib.results view maxlen calls out.reader out.answers

/-- What a number of calls of `readline_r` show. -/
def Reentrant.results (view : Int → List Byte → γ) :
    Nat → RlineR → List Answer → Option (List γ)
  | 0, _, _ => some []
  | calls + 1, rptr, answers =>
      (readlineR rptr answers).bind fun out =>
        (Reentrant.results view calls out.reader out.answers).map (view out.ret out.stored :: ·)

end Results

/-- `lib/readline.c` writes a NUL behind what it has stored, unless `read` fails. -/
def Lib.written (ret : Int) (stored : List Byte) : Int × List Byte :=
  (ret, if ret < 0 then stored else stored ++ [0])

/-- `readline_r` does not in front of its `return(0)`, either. -/
def Reentrant.written (ret : Int) (stored : List Byte) : Int × List Byte :=
  (ret, if ret ≤ 0 then stored else stored ++ [0])

end NetPractice.LineReader
