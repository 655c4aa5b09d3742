import NetPractice.Socket.Core
import Mathlib.Data.Finset.Basic

/-!
# The web client with nonblocking connects

This module embeds the main loop of `nonblock/web.c`, with `start_connect.c` and
`write_get_cmd.c`.  The client starts nonblocking connects, at most `maxnconn` at a time, and
waits with `select` for those that are established and for data from the others.

One event is a call of `start_connect`, a call of `Select`, or the visit of one file in the
scan behind it; the visit behind the last file ends the scan.  `Socket` returns a descriptor
that is not open.  The wrappers exit when their call fails, and so does `connect` unless it
is in progress; such an event leads to no state.
-/

namespace NetPractice.NonblockClient

open NetPractice.Socket

/-- `f_flags`: 0, `F_CONNECTING`, `F_READING` or `F_DONE`; they are assigned, so that no two
of them are set. -/
inductive Flags where
  | zero
  | connecting
  | reading
  | done
  deriving DecidableEq, Repr

/-- An entry of `file[]`. -/
structure File where
  fd : Fd
  flags : Flags
  deriving DecidableEq, Repr

/-- The main thread: at the loop that starts connects and the `Select` behind it, or at a
file in the scan, with what `Select` has reported; or at one of the two ends of `main`, of
which `quit` is its `err_quit`. -/
inductive Phase where
  | filling
  | scanning (i : Nat) (rs ws : Finset Fd)
  | finished
  | quit
  deriving DecidableEq

/-- The variables of `main` and the globals. -/
structure Client where
  maxnconn : Int
  file : List File
  nconn : Int
  nlefttoconn : Int
  nlefttoread : Int
  maxfd : Fd
  rset : Finset Fd
  wset : Finset Fd
  phase : Phase
  deriving DecidableEq

/-- What happens next: `connect` of a new descriptor, which is `established` if it need not
be waited for; `Select`; or the visit of a file, where `Read` of a descriptor that is read
returns 0 if `eof`. -/
inductive Event where
  | connect (fd : Fd) (established : Bool)
  | select (rs ws : Finset Fd)
  | visit (eof : Bool)
  deriving DecidableEq

/-- The descriptor of the file is open. -/
def File.Open (f : File) : Prop :=
  f.flags = .connecting ∨ f.flags = .reading

instance (f : File) : Decidable f.Open :=
  inferInstanceAs (Decidable (_ ∨ _))

namespace Client

/-- In front of the main loop. -/
def start (nfiles : Nat) (maxnconn : Int) : Client where
  maxnconn := maxnconn
  file := List.replicate nfiles ⟨0, .zero⟩
  nconn := 0
  nlefttoconn := nfiles
  nlefttoread := nfiles
  maxfd := -1
  rset := ∅
  wset := ∅
  phase := if 0 < nfiles then .filling else .finished

/-- The condition of the loop that starts connects. -/
def MayConnect (c : Client) : Prop :=
  c.nconn < c.maxnconn ∧ 0 < c.nlefttoconn

instance (c : Client) : Decidable c.MayConnect :=
  inferInstanceAs (Decidable (_ ∧ _))

/-- `write_get_cmd`. -/
def writeGetCmd (c : Client) (i : Nat) (fd : Fd) : Client :=
  { c with
    file := c.file.set i ⟨fd, .reading⟩
    rset := insert fd c.rset
    maxfd := if fd > c.maxfd then fd else c.maxfd }

/-- `start_connect`, with the descriptor that `Socket` returns. -/
def startConnect (c : Client) (i : Nat) (fd : Fd) (established : Bool) : Client :=
  if established then c.writeGetCmd i fd
  else
    { c with
      file := c.file.set i ⟨fd, .connecting⟩
      rset := insert fd c.rset
      wset := insert fd c.wset
      maxfd := if fd > c.maxfd then fd else c.maxfd }

/-- The body of the loop that starts connects. -/
def connect (c : Client) (fd : Fd) (established : Bool) : Client :=
  match c.file.findIdx? fun f => f.flags = .zero with
  | none => { c with phase := .quit }
  | some i =>
      let c := c.startConnect i fd established
      { c with nconn := c.nconn + 1, nlefttoconn := c.nlefttoconn - 1 }

/-- What `Select` can report. -/
def Reportable (c : Client) (rs ws : Finset Fd) : Prop :=
  rs ⊆ c.rset ∧ ws ⊆ c.wset ∧ (∀ fd ∈ rs ∪ ws, fd ≤ c.maxfd) ∧ (rs ∪ ws).Nonempty

instance (c : Client) (rs ws : Finset Fd) : Decidable (c.Reportable rs ws) :=
  inferInstanceAs (Decidable (_ ∧ _ ∧ _ ∧ _))

/-- The end of file on the descriptor of the file. -/
def endOfFile (c : Client) (i : Nat) (f : File) : Client :=
  { c with
    file := c.file.set i { f with flags := .done }
    rset := c.rset.erase f.fd
    nconn := c.nconn - 1
    nlefttoread := c.nlefttoread - 1 }

/-- The body of the scan.  A connect that has failed is reported, and used all the same. -/
def visitFile (c : Client) (i : Nat) (rs ws : Finset Fd) (f : File) (eof : Bool) : Client :=
  match f.flags with
  | .zero | .done => c
  | .connecting =>
      if f.fd ∈ rs ∨ f.fd ∈ ws then
        { c with wset := c.wset.erase f.fd }.writeGetCmd i f.fd
      else c
  | .reading => if f.fd ∈ rs ∧ eof then c.endOfFile i f else c

/-- The scan goes on, or the main loop does. -/
def visit (c : Client) (i : Nat) (rs ws : Finset Fd) (eof : Bool) : Client :=
  match c.file[i]? with
  | none => { c with phase := if 0 < c.nlefttoread then .filling else .finished }
  | some f => { c.visitFile i rs ws f eof with phase := .scanning (i + 1) rs ws }

/-- The next call of the main loop, with its answer. -/
def next (c : Client) (event : Event) : Option Client :=
  match event, c.phase with
  | .connect fd established, .filling =>
      if c.MayConnect ∧ 0 ≤ fd ∧ ∀ f ∈ c.file, f.Open → f.fd ≠ fd then
        some (c.connect fd established)
      else none
  | .select rs ws, .filling =>
      if ¬ c.MayConnect ∧ c.Reportable rs ws then some { c with phase := .scanning 0 rs ws }
      else none
  | .visit eof, .scanning i rs ws => some (c.visit i rs ws eof)
  | _, _ => none

end Client

end NetPractice.NonblockClient
