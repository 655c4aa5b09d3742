import NetPractice.Memory.LinearBuffer
import NetPractice.Socket.Core

/-!
# The nonblocking copy loop

This module embeds `str_cli` of `nonblock/strclinonb.c`.  It copies its standard input to
a socket and the socket to its standard output; all descriptors are nonblocking, and each
direction has a buffer with two pointers.

An event is what one system call answers.  The tests between two calls run with the first
of them.
-/

namespace NetPractice.CopyLoop

open NetPractice.Memory
open NetPractice.Socket
open NetPractice.Text

/-- The size of both buffers. -/
def MAXLINE : Nat := 4096

/-- The bits of `rset` and `wset`. -/
structure FdSets where
  stdinR : Bool
  sockR : Bool
  sockW : Bool
  stdoutW : Bool
  deriving DecidableEq, Repr

/-- `select` only reports what it was asked for. -/
def FdSets.Within (ready asked : FdSets) : Prop :=
  (ready.stdinR → asked.stdinR) ∧ (ready.sockR → asked.sockR) ∧
    (ready.sockW → asked.sockW) ∧ (ready.stdoutW → asked.stdoutW)

instance (ready asked : FdSets) : Decidable (ready.Within asked) :=
  inferInstanceAs (Decidable (_ ∧ _ ∧ _ ∧ _))

/-- The next system call: `select`, the reads and writes in their order, and `Shutdown`
behind the end of standard input or behind the last write.  The function returns at end of
file on the socket, and the process exits on an error. -/
inductive Pc where
  | select
  | readStdin
  | shutdownAtEof
  | readSocket
  | writeStdout
  | writeSocket
  | shutdownDrained
  | returned
  | exited
  deriving DecidableEq, Repr

/-- What a system call answers. -/
inductive Answer where
  | ready (sets : FdSets)
  | selectFails
  | read (answer : Recv)
  | write (answer : Send)
  | shutdown (succeeds : Bool)
  deriving DecidableEq, Repr

/-- The local variables of `str_cli`, where `toBuf` and `frBuf` are the arrays `to` and
`fr` with their pointers; and what has been read and written so far, with the number of
`Shutdown` calls. -/
structure Client where
  pc : Pc
  sets : FdSets
  stdineof : Bool
  toBuf : LinearBuffer Byte MAXLINE
  frBuf : LinearBuffer Byte MAXLINE
  stdinRead : List Byte
  sockWritten : List Byte
  sockRead : List Byte
  stdoutWritten : List Byte
  shutdowns : Nat

namespace Client

/-- In front of the loop, with the memory of the two arrays. -/
def start (toBuf frBuf : { mem : List Byte // mem.length = MAXLINE }) : Client where
  pc := .select
  sets := ⟨false, false, false, false⟩
  stdineof := false
  toBuf := .start toBuf.1 toBuf.2
  frBuf := .start frBuf.1 frBuf.2
  stdinRead := []
  sockWritten := []
  sockRead := []
  stdoutWritten := []
  shutdowns := 0

/-- What `rset` and `wset` ask for. -/
def asked (c : Client) : FdSets where
  stdinR := !c.stdineof && decide (c.toBuf.iptr < MAXLINE)
  sockR := decide (c.frBuf.iptr < MAXLINE)
  sockW := decide (c.toBuf.optr ≠ c.toBuf.iptr)
  stdoutW := decide (c.frBuf.optr ≠ c.frBuf.iptr)

/-- The test in front of the write to the socket. -/
def tryWriteSocket (c : Client) : Client :=
  if c.sets.sockW ∧ 0 < c.toBuf.iptr - c.toBuf.optr then { c with pc := .writeSocket }
  else { c with pc := .select }

/-- The test in front of the write to standard output. -/
def tryWriteStdout (c : Client) : Client :=
  if c.sets.stdoutW ∧ 0 < c.frBuf.iptr - c.frBuf.optr then { c with pc := .writeStdout }
  else c.tryWriteSocket

/-- The test in front of the read from the socket. -/
def tryReadSocket (c : Client) : Client :=
  if c.sets.sockR then { c with pc := .readSocket } else c.tryWriteStdout

/-- Behind `select`. -/
def tryReadStdin (c : Client) : Client :=
  if c.sets.stdinR then { c with pc := .readStdin } else c.tryReadSocket

/-- An `err_sys` or `err_quit`. -/
def exit (c : Client) : Client :=
  { c with pc := .exited }

/-- `read(STDIN_FILENO, toiptr, &to[MAXLINE] - toiptr)`. -/
def readStdin (c : Client) : ∀ answer : Recv, answer.AtMost c.toBuf.room → Client
  | .data bytes, fits =>
      tryReadSocket { c with
        toBuf := c.toBuf.put bytes (fits bytes rfl).2
        sets := { c.sets with sockW := true }
        stdinRead := c.stdinRead ++ bytes }
  | .eof, _ =>
      if c.toBuf.optr = c.toBuf.iptr then { c with stdineof := true, pc := .shutdownAtEof }
      else tryReadSocket { c with stdineof := true }
  | .again, _ => c.tryReadSocket
  | .fail, _ => c.exit

/-- `read(sockfd, friptr, &fr[MAXLINE] - friptr)`; end of file is the normal termination
behind the end of standard input, and else the server has terminated prematurely. -/
def readSocket (c : Client) : ∀ answer : Recv, answer.AtMost c.frBuf.room → Client
  | .data bytes, fits =>
      tryWriteStdout { c with
        frBuf := c.frBuf.put bytes (fits bytes rfl).2
        sets := { c.sets with stdoutW := true }
        sockRead := c.sockRead ++ bytes }
  | .eof, _ => if c.stdineof then { c with pc := .returned } else c.exit
  | .again, _ => c.tryWriteStdout
  | .fail, _ => c.exit

/-- `write(STDOUT_FILENO, froptr, friptr - froptr)`. -/
def writeStdout (c : Client) : ∀ answer : Send, answer.AtMost (c.frBuf.iptr - c.frBuf.optr) → Client
  | .taken nwritten, fits =>
      tryWriteSocket { c with
        frBuf := (c.frBuf.advance nwritten (fits nwritten rfl)).rewind
        stdoutWritten := c.stdoutWritten ++ c.frBuf.pending.take nwritten }
  | .again, _ => c.tryWriteSocket
  | .gone, _ => c.exit

/-- `write(sockfd, tooptr, toiptr - tooptr)`. -/
def writeSocket (c : Client) : ∀ answer : Send, answer.AtMost (c.toBuf.iptr - c.toBuf.optr) → Client
  | .taken nwritten, fits =>
      let toBuf := c.toBuf.advance nwritten (fits nwritten rfl)
      { c with
        toBuf := toBuf.rewind
        sockWritten := c.sockWritten ++ c.toBuf.pending.take nwritten
        pc := if toBuf.optr = toBuf.iptr ∧ c.stdineof then .shutdownDrained else .select }
  | .again, _ => { c with pc := .select }
  | .gone, _ => c.exit

/-- `Shutdown(sockfd, SHUT_WR)`. -/
def shutdown (c : Client) (succeeds : Bool) (behind : Client → Client) : Client :=
  if succeeds then behind { c with shutdowns := c.shutdowns + 1 } else c.exit

/-- One system call, and the code up to the next one. -/
def next (c : Client) (answer : Answer) : Option Client :=
  match c.pc, answer with
  | .select, .ready sets =>
      if sets.Within c.asked then some (tryReadStdin { c with sets := sets }) else none
  | .select, .selectFails => some c.exit
  | .readStdin, .read answer =>
      if fits : answer.AtMost c.toBuf.room then some (c.readStdin answer fits) else none
  | .shutdownAtEof, .shutdown succeeds => some (c.shutdown succeeds tryReadSocket)
  | .readSocket, .read answer =>
      if fits : answer.AtMost c.frBuf.room then some (c.readSocket answer fits) else none
  | .writeStdout, .write answer =>
      if fits : answer.AtMost (c.frBuf.iptr - c.frBuf.optr) then some (c.writeStdout answer fits)
      else none
  | .writeSocket, .write answer =>
      if fits : answer.AtMost (c.toBuf.iptr - c.toBuf.optr) then some (c.writeSocket answer fits)
      else none
  | .shutdownDrained, .shutdown succeeds =>
      some (c.shutdown succeeds fun c => { c with pc := .select })
  | _, _ => none

end Client

end NetPractice.CopyLoop
