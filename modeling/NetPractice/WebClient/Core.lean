import NetPractice.Transition.Threads

/-!
# The web client with threads

This module embeds the main loop and `do_get_read` of `threads/web03.c`.  The main thread
creates one thread for each file, at most `maxnconn` at a time.  A thread that has read its
file sets `F_DONE`, and then counts itself in `ndone`; the main thread waits until `ndone`
is not 0, and joins the threads of all files that are marked with `F_DONE`.

A step is one statement that another thread can see.  A thread that waits for the condition
variable can wake up at any time, as POSIX permits, so that signals are not modelled.
-/

namespace NetPractice.WebClient

open NetPractice.Transition

/-- `f_flags`: 0, `F_CONNECTING`, `F_READING`, `F_DONE` or `F_JOINED`. -/
inductive Flags where
  | zero
  | connecting
  | reading
  | done
  | joined
  deriving DecidableEq, Repr

/-- The thread of a file, by the statement that comes next: not created, in front of the
end of `write_get_cmd` and of the loop that reads, at the `lock`, `ndone++` and `unlock`
behind them, at its `return`, or terminated. -/
inductive Thread where
  | absent
  | connecting
  | reading
  | locking
  | counting
  | unlocking
  | returning
  | ended
  deriving DecidableEq, Repr

/-- An element of `file`, with its thread and the number of times that it has been
joined. -/
structure File where
  flags : Flags
  thread : Thread
  joins : Nat
  deriving DecidableEq, Repr

/-- The main thread, by the statement that comes next: the two loop heads, the `lock`, the
test of `ndone`, the condition variable, the scan of the files with its `join`, and the
`unlock`; `finished` is the end of `main`. -/
inductive Main where
  | outer
  | filling
  | locking
  | testing
  | waiting
  | scanning (i : Nat)
  | joining (i : Nat)
  | unlocking
  | finished
  deriving DecidableEq, Repr

/-- The process.  `ndoneMutex` is set while the mutex is locked, and `quit` when an error in
any thread has ended the process. -/
structure Client where
  maxnconn : Int
  file : List File
  nconn : Int
  nlefttoconn : Int
  nlefttoread : Int
  ndone : Int
  ndoneMutex : Bool
  main : Main
  quit : Bool
  deriving DecidableEq, Repr

/-- A step of the main thread or of the thread of a file, or an error that ends the
process. -/
inductive Event where
  | main
  | thread (i : Nat)
  | createFails
  | threadFails (i : Nat)
  deriving DecidableEq, Repr

namespace Client

/-- In front of the main loop. -/
def start (nfiles : Nat) (maxnconn : Int) : Client where
  maxnconn := maxnconn
  file := List.replicate nfiles ⟨.zero, .absent, 0⟩
  nconn := 0
  nlefttoconn := nfiles
  nlefttoread := nfiles
  ndone := 0
  ndoneMutex := false
  main := .outer
  quit := false

/-- The body of the loop that creates threads. -/
def create (c : Client) : Client :=
  match c.file.findIdx? fun f => f.flags = .zero with
  | none => { c with quit := true }
  | some i =>
      { c with
        file := c.file.set i ⟨.connecting, .connecting, 0⟩
        nconn := c.nconn + 1
        nlefttoconn := c.nlefttoconn - 1 }

/-- Behind `Pthread_join` of the thread of `f`. -/
def joined (c : Client) (i : Nat) (f : File) : Client :=
  { c with
    file := c.file.set i { f with flags := .joined, joins := f.joins + 1 }
    ndone := c.ndone - 1
    nconn := c.nconn - 1
    nlefttoread := c.nlefttoread - 1
    main := .scanning (i + 1) }

/-- The next statement of `main`. -/
def mainStep (c : Client) : Option Client :=
  match c.main with
  | .outer => some { c with main := if 0 < c.nlefttoread then .filling else .finished }
  | .filling =>
      if c.nconn < c.maxnconn ∧ 0 < c.nlefttoconn then some c.create
      else some { c with main := .locking }
  | .locking | .waiting =>
      if c.ndoneMutex then none else some { c with ndoneMutex := true, main := .testing }
  | .testing =>
      if c.ndone = 0 then some { c with ndoneMutex := false, main := .waiting }
      else some { c with main := .scanning 0 }
  | .scanning i =>
      match c.file[i]? with
      | none => some { c with main := .unlocking }
      | some f => some { c with main := if f.flags = .done then .joining i else .scanning (i + 1) }
  | .joining i =>
      match c.file[i]? with
      | none => none
      | some f => if f.thread = .ended then some (c.joined i f) else none
  | .unlocking => some { c with ndoneMutex := false, main := .outer }
  | .finished => none

/-- The next statement of `do_get_read` for the file `f`. -/
def threadStep (c : Client) (i : Nat) (f : File) : Option Client :=
  match f.thread with
  | .absent | .ended => none
  | .connecting =>
      some { c with file := c.file.set i { f with flags := .reading, thread := .reading } }
  | .reading =>
      some { c with file := c.file.set i { f with flags := .done, thread := .locking } }
  | .locking =>
      if c.ndoneMutex then none
      else some { c with
        ndoneMutex := true
        file := c.file.set i { f with thread := .counting } }
  | .counting =>
      some { c with
        ndone := c.ndone + 1
        file := c.file.set i { f with thread := .unlocking } }
  | .unlocking =>
      some { c with
        ndoneMutex := false
        file := c.file.set i { f with thread := .returning } }
  | .returning => some { c with file := c.file.set i { f with thread := .ended } }

/-- The next event of the main thread or of another one. -/
def next (c : Client) (event : Event) : Option Client :=
  if c.quit ∨ c.main = .finished then none
  else
    match event with
    | .main => c.mainStep
    | .thread i => c.file[i]?.bind (c.threadStep i)
    | .createFails => if c.main = .filling then some { c with quit := true } else none
    | .threadFails i =>
        match c.file[i]? with
        | some ⟨_, .connecting, _⟩ | some ⟨_, .reading, _⟩ => some { c with quit := true }
        | _ => none

end Client

end NetPractice.WebClient
