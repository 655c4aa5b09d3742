import NetPractice.Text.CString

/-!
# The buffered line readers

This module embeds `readline` of `lib/readline.c`, whose buffer is a set of static
variables, and of `threads/readline.c`, whose buffer is allocated for each thread by its
first call.  Both read the descriptor into the buffer when it is empty and hand out its
bytes one by one.

What `read` answers is a list; behind its end, the descriptor is at end of file.
-/

namespace NetPractice.LineReader

open NetPractice.Text

/-- The size of the buffer. -/
def MAXLINE : Nat := 4096

/-- The byte that ends a line. -/
def newline : Byte := 10

/-- The bytes of a successful `read`. -/
structure Chunk where
  bytes : List Byte
  nonempty : bytes ≠ []
  fits : bytes.length ≤ MAXLINE
  deriving DecidableEq, Repr

/-- What `read` answers: bytes, `EINTR`, or another error. -/
inductive Answer where
  | data (chunk : Chunk)
  | interrupted
  | fail
  deriving DecidableEq, Repr

/-- `Rline`, and the static variables `read_cnt`, `read_ptr` and `read_buf`: the bytes that
are left are in the buffer. -/
structure Rline where
  cnt : Int
  bufptr : Nat
  buf : List Byte
  inside : bufptr + cnt.toNat ≤ buf.length
  deriving DecidableEq, Repr

/-- What `my_read` returns: 1 with a byte, 0, or -1. -/
inductive MyRead where
  | byte (c : Byte)
  | eof
  | error
  deriving DecidableEq, Repr

/-- A buffer after `calloc`, and that of the static variables: empty. -/
def Rline.zero : Rline where
  cnt := 0
  bufptr := 0
  buf := List.replicate MAXLINE 0
  inside := Nat.zero_le _

/-- `read_cnt--; *ptr = *read_ptr++`. -/
def Rline.pop (r : Rline) (some : 0 < r.cnt) : Byte × Rline :=
  have inside := r.inside
  (r.buf[r.bufptr], { r with cnt := r.cnt - 1, bufptr := r.bufptr + 1, inside := by omega })

/-- The buffer behind a successful `read`. -/
def Rline.filled (r : Rline) (chunk : Chunk) : Rline where
  cnt := chunk.bytes.length
  bufptr := 0
  buf := chunk.bytes ++ r.buf.drop chunk.bytes.length
  inside := by simp

/-- The buffer behind another `read`, which has stored its result in `cnt`. -/
def Rline.failed (r : Rline) (cnt : Int) (none : cnt ≤ 0) : Rline :=
  { r with cnt := cnt, inside := by have := r.inside; omega }

theorem Rline.filled_pos (r : Rline) (chunk : Chunk) : 0 < (r.filled chunk).cnt :=
  Int.natCast_pos.mpr (List.length_pos_of_ne_nil chunk.nonempty)

/-- The `again` loop of `my_read`, with an empty buffer. -/
def readAgain (r : Rline) : List Answer → MyRead × Rline × List Answer
  | [] => (.eof, r.failed 0 (Int.le_refl 0), [])
  | .interrupted :: answers => readAgain r answers
  | .fail :: answers => (.error, r.failed (-1) (by decide), answers)
  | .data chunk :: answers =>
      let (c, r) := (r.filled chunk).pop (r.filled_pos chunk)
      (.byte c, r, answers)

/-- `my_read`. -/
def myRead (r : Rline) (answers : List Answer) : MyRead × Rline × List Answer :=
  if some : 0 < r.cnt then
    let (c, r) := r.pop some
    (.byte c, r, answers)
  else readAgain r answers

/-- What a call of `readline` returns and stores in front of the terminating NUL, and what
it leaves behind. -/
structure Returned (ρ : Type) where
  ret : Int
  stored : List Byte
  reader : ρ
  answers : List Answer

/-- The `for` loop of `readline`, with `n` and the number of iterations that are left. -/
def readLoop : Nat → Nat → List Byte → Rline → List Answer → Returned Rline
  | 0, n, stored, r, answers => ⟨n, stored, r, answers⟩
  | left + 1, n, stored, r, answers =>
      match myRead r answers with
      | (.byte c, r, answers) =>
          if c = newline then ⟨n, stored ++ [c], r, answers⟩
          else readLoop left (n + 1) (stored ++ [c]) r answers
      | (.eof, r, answers) => ⟨n - 1, stored, r, answers⟩
      | (.error, r, answers) => ⟨-1, stored, r, answers⟩

/-- `readline(fd, vptr, maxlen)` of `lib/readline.c`, with its static variables. -/
def Lib.readline (statics : Rline) (answers : List Answer) (maxlen : Nat) : Returned Rline :=
  readLoop (maxlen - 1) 1 [] statics answers

/-- `readline(fd, vptr, maxlen)` of `threads/readline.c`; the first call of a thread
allocates its `Rline`. -/
def Threads.readline (tsd : Option Rline) (answers : List Answer) (maxlen : Nat) :
    Returned (Option Rline) :=
  let out := readLoop (maxlen - 1) 1 [] (tsd.getD .zero) answers
  ⟨out.ret, out.stored, some out.reader, out.answers⟩

end NetPractice.LineReader
