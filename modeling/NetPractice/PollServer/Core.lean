import NetPractice.PollChat.Core
import Mathlib.Data.List.Basic

/-!
# The echo server with `poll`

This module embeds the main loop of `tcpcliserv/tcpservpoll01.c`.  One event is one
round of the loop: what `Poll` reports, what `Accept` returns, and what `read` and
`Writen` make of each client.

`Poll` looks at the entries up to `maxi`, clears `revents` where there is no
descriptor, and reports at least one entry.  The other entries keep what they had:
`client` is a local array, and the program sets only `fd` before its first loop.
What is read and written back does not matter here and is left out.
-/

namespace NetPractice.PollServer

open NetPractice.Socket
open NetPractice.PollChat (Mask PollFd has POLLERR POLLHUP POLLNVAL)

/-- There is something to read. -/
def POLLRDNORM : Mask := 0x0040#16

/-- The test in front of `read`. -/
def Hit (revents : Mask) : Prop :=
  has revents (POLLRDNORM ||| POLLERR)

instance (revents : Mask) : Decidable (Hit revents) :=
  inferInstanceAs (Decidable (has _ _))

/-- The variables of `main`; the entries that the last call of `Poll` examined,
with what it reported; and the calls of `read` since then, by index and
descriptor.  `ended` is set when `err_sys` or `err_quit` was called. -/
structure Server where
  client : List PollFd
  maxi : Nat
  polled : List PollFd
  reads : List (Nat × Fd)
  ended : Bool
  deriving DecidableEq, Repr

/-- The state in front of the first `Poll`, with what was on the stack before. -/
def create (listenfd : Fd) (first : PollFd) (stack : List PollFd) : Server :=
  { client := { first with fd := listenfd, events := POLLRDNORM } ::
      stack.map fun entry => { entry with fd := -1 }
    maxi := 0
    polled := []
    reads := []
    ended := false }

/-- What comes of a client that is read: data that is written back, the end of
file, `ECONNRESET`, or an error of `read` or `Writen` that ends the program. -/
inductive Answer
  | echoed
  | closed
  | reset
  | failed
  deriving DecidableEq, Repr

/-- What the system calls of a round answer.  A failing `Accept` ends the
program. -/
structure Round where
  revents : List Mask
  connfd : Option Fd
  answer : Nat → Answer

/-- What `Poll` can report for an entry. -/
def Reportable (entry : PollFd) (revents : Mask) : Prop :=
  (entry.fd < 0 → revents = 0) ∧
    (0 ≤ entry.fd → revents &&& ~~~(entry.events ||| POLLERR ||| POLLHUP ||| POLLNVAL) = 0)

instance (entry : PollFd) (revents : Mask) : Decidable (Reportable entry revents) :=
  inferInstanceAs (Decidable ((_ < _ → _) ∧ (_ ≤ _ → _)))

/-- How the loop over the clients was left: at its end, with a value of `nready`,
by `break`, or by the end of the program. -/
inductive Left
  | passed (nready : Nat)
  | broke
  | ended
  deriving DecidableEq, Repr

/-- What the loop over the clients leaves behind. -/
structure Checked where
  client : List PollFd
  reads : List (Nat × Fd)
  left : Left
  deriving DecidableEq, Repr

/-- An entry that was passed by, in front of the rest. -/
def Checked.behind (checked : Checked) (entry : PollFd) : Checked :=
  { checked with client := entry :: checked.client }

/-- The entry after its client was read. -/
def afterRead (answer : Answer) (entry : PollFd) : PollFd :=
  match answer with
  | .closed | .reset => { entry with fd := -1 }
  | .echoed | .failed => entry

/-- The loop over the clients, from the index `i` on. -/
def checkClients (answer : Nat → Answer) : Nat → Nat → List PollFd → Checked
  | _, nready, [] => { client := [], reads := [], left := .passed nready }
  | i, nready, entry :: rest =>
      if entry.fd < 0 then
        (checkClients answer (i + 1) nready rest).behind entry
      else if Hit entry.revents then
        if answer i = .failed then
          { client := entry :: rest, reads := [(i, entry.fd)], left := .ended }
        else if nready - 1 = 0 then
          { client := afterRead (answer i) entry :: rest
            reads := [(i, entry.fd)]
            left := .broke }
        else
          let checked := checkClients answer (i + 1) (nready - 1) rest
          { checked.behind (afterRead (answer i) entry) with
            reads := (i, entry.fd) :: checked.reads }
      else
        (checkClients answer (i + 1) nready rest).behind entry

namespace Server

/-- What `Poll` can answer. -/
structure Possible (s : Server) (round : Round) : Prop where
  whole : round.revents.length = s.maxi + 1
  report : ∀ pair ∈ s.client.zip round.revents, Reportable pair.1 pair.2
  ready : round.revents.any (· ≠ 0)
  connfd : ∀ connfd ∈ round.connfd, 0 ≤ connfd

instance (s : Server) (round : Round) : Decidable (s.Possible round) :=
  decidable_of_iff
    (round.revents.length = s.maxi + 1 ∧
      (∀ pair ∈ s.client.zip round.revents, Reportable pair.1 pair.2) ∧
      round.revents.any (· ≠ 0) ∧ ∀ connfd ∈ round.connfd, 0 ≤ connfd)
    ⟨fun ⟨whole, report, ready, connfd⟩ => ⟨whole, report, ready, connfd⟩,
      fun possible => ⟨possible.whole, possible.report, possible.ready, possible.connfd⟩⟩

/-- The entries that `Poll` examines, with what it reports. -/
def report (entries : List PollFd) (revents : List Mask) : List PollFd :=
  List.zipWith (fun entry revents => { entry with revents := revents }) entries revents

/-- `nready`. -/
def nready (polled : List PollFd) : Nat :=
  polled.countP fun entry => entry.revents ≠ 0

/-- `Poll` writes the `revents` of the entries up to `maxi`. -/
def poll (s : Server) (revents : List Mask) : Server :=
  { s with
    client := report s.client revents ++ s.client.drop (s.maxi + 1)
    polled := report s.client revents
    reads := [] }

/-- The first available entry behind the one of the listening socket. -/
def available (client : List PollFd) : Option Nat :=
  (client.tail.findIdx? fun entry => entry.fd < 0).map (· + 1)

/-- A new client connection gets an entry, whose `revents` is not set. -/
def accept (s : Server) (connfd : Fd) (i : Nat) : Server :=
  { s with
    client := s.client.modify i fun entry => { entry with fd := connfd, events := POLLRDNORM }
    maxi := if i > s.maxi then i else s.maxi }

/-- All clients are checked for data. -/
def check (s : Server) (round : Round) (nready : Nat) : Server :=
  let checked := checkClients round.answer 1 nready (s.client.tail.take s.maxi)
  { s with
    client := s.client.take 1 ++ checked.client ++ s.client.drop (s.maxi + 1)
    reads := checked.reads
    ended := decide (checked.left = .ended) }

/-- An `err_sys` or `err_quit`. -/
def quit (s : Server) : Server :=
  { s with ended := true }

/-- A round behind its `Poll`. -/
def serve (s : Server) (round : Round) : Server :=
  if ∃ entry ∈ s.client.head?, has entry.revents POLLRDNORM then
    match round.connfd with
    | none => s.quit
    | some connfd =>
        match available s.client with
        | none => s.quit
        | some i =>
            if nready s.polled - 1 = 0 then s.accept connfd i
            else (s.accept connfd i).check round (nready s.polled - 1)
  else
    s.check round (nready s.polled)

/-- One round of the main loop. -/
def next (s : Server) (round : Round) : Option Server :=
  if s.ended = false ∧ s.Possible round then
    some ((s.poll round.revents).serve round)
  else none

/-- Every client that was read had been examined, and reported readable or in
error, by the last call of `Poll`. -/
def ReadsReady (s : Server) : Prop :=
  ∀ read ∈ s.reads, ∃ entry, s.polled[read.1]? = some entry ∧ entry.fd = read.2 ∧
    Hit entry.revents

end Server

end NetPractice.PollServer
