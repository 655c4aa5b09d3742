import NetPractice.Text.StringFunctions
import NetPractice.Transition.Threads
import Mathlib.Data.Finset.Card

/-!
# The preforked server that passes descriptors

This module embeds the main loop of `server/serv05.c`, and `child_main` of
`server/child05.c` with the ways in which `web_child` ends.  The parent accepts every
connection and passes it over a stream pipe to a child that is available; the child writes a
byte back when it has served the connection.  The parent and the children take steps in any
order.

The pipe is the standard error of the child, so that the texts of `err_quit` and `err_sys` go
to the parent.  Connections are numbered in the order of their arrival.  The requests that
`web_child` answers change nothing here, and `SIGINT` ends the server.
-/

namespace NetPractice.DescriptorPassing

open NetPractice.Text
open NetPractice.Transition

/-! ## Children -/

/-- `MAXN`, the largest number of bytes that a client can request. -/
def MAXN : Int := 16384

/-- Why `web_child` does not return: the client requests an impossible number of bytes, a
wrapper exits, or the process gets `SIGPIPE`. -/
inductive Failure where
  | request (ntowrite : Int)
  | readline (strerror : List Byte)
  | writen (strerror : List Byte)
  | signal
  deriving DecidableEq, Repr

namespace Failure

/-- `web_child` turns down only requests whose size is out of range. -/
def Possible : Failure → Prop
  | .request ntowrite => ntowrite ≤ 0 ∨ ntowrite > MAXN
  | .readline _ | .writen _ | .signal => True

instance (failure : Failure) : Decidable failure.Possible :=
  match failure with
  | .request ntowrite => inferInstanceAs (Decidable (ntowrite ≤ 0 ∨ ntowrite > MAXN))
  | .readline _ | .writen _ | .signal => .isTrue trivial

/-- What `err_doit` writes to the standard error. -/
def text : Failure → List Byte
  | .request ntowrite =>
      let sign := if ntowrite < 0 then ascii "-" else []
      ascii "client request for " ++ sign ++ decimal ntowrite.natAbs ++ ascii " bytes\n"
  | .readline strerror => ascii "readline error: " ++ strerror ++ ascii "\n"
  | .writen strerror => ascii "writen error: " ++ strerror ++ ascii "\n"
  | .signal => []

end Failure

/-- A byte in the pipe to the parent: a child has served the connection, or a byte of an
error text.  The parent does not look at it. -/
inductive Reply where
  | served (connection : Nat)
  | text (byte : Byte)
  deriving DecidableEq, Repr

/-- Where a child is: in `Read_fd`, in front of the end of `web_child`, or in `exit`. -/
inductive Doing where
  | waiting
  | serving (connection : Nat)
  | exiting
  | terminated
  deriving DecidableEq, Repr

/-- `Child` of the parent with the process behind it: `transit` has the connections that were
passed and not yet received, and `pipe` what the parent has not yet read. -/
structure Child where
  childStatus : Int
  childCount : Int
  transit : List Nat
  doing : Doing
  pipe : List Reply
  deriving DecidableEq, Repr

/-- A step of a child. -/
inductive ChildEvent where
  | receive
  | serve
  | fail (failure : Failure)
  | exit
  deriving DecidableEq, Repr

namespace Child

/-- Behind `child_make`. -/
def initial : Child where
  childStatus := 0
  childCount := 0
  transit := []
  doing := .waiting
  pipe := []

/-- `child_main`. -/
def next (child : Child) : ChildEvent → Option Child
  | .receive =>
      match child.doing, child.transit with
      | .waiting, connection :: rest =>
          some { child with doing := .serving connection, transit := rest }
      | _, _ => none
  | .serve =>
      match child.doing with
      | .serving connection =>
          some { child with doing := .waiting, pipe := child.pipe ++ [.served connection] }
      | _ => none
  | .fail failure =>
      match child.doing with
      | .serving _ =>
          if failure.Possible then
            some { child with doing := .exiting, pipe := child.pipe ++ failure.text.map .text }
          else none
      | _ => none
  | .exit => if child.doing = .exiting then some { child with doing := .terminated } else none

end Child

/-! ## The parent -/

/-- A descriptor of `masterset`. -/
inductive Source where
  | listen
  | pipe (i : Nat)
  deriving DecidableEq, Repr

/-- Why the parent ends: `err_quit` without an available child, `err_quit` for a child that has
terminated, or `SIGPIPE` in `Write_fd`. -/
inductive Quit where
  | noAvailableChildren
  | childTerminated (i : Nat)
  | brokenPipe
  deriving DecidableEq, Repr

/-- Where the parent is: in `Select`, at the test of `listenfd`, or at the pipe of a child. -/
inductive Phase where
  | select
  | listen
  | scan (i : Nat)
  | quit (reason : Quit)
  deriving DecidableEq, Repr

/-- The parent with its children.  History: how many connections have arrived and how many
were accepted, and the connections that were passed, each with its child. -/
structure Server where
  children : List Child
  navail : Int
  phase : Phase
  rset : Finset Source
  nsel : Int
  arrived : Nat
  accepted : Nat
  passed : List (Nat × Nat)

/-- What happens next: a connection arrives, or a process takes a step. -/
inductive Event where
  | arrive
  | select (rset : Finset Source)
  | parent
  | child (i : Nat) (event : ChildEvent)

namespace Server

/-- In front of the first call of `Select`. -/
def initial (nchildren : Nat) : Server where
  children := List.replicate nchildren Child.initial
  navail := nchildren
  phase := .select
  rset := ∅
  nsel := 0
  arrived := 0
  accepted := 0
  passed := []

/-- What `Select` can report; without an available child it is not asked for `listenfd`. -/
def Ready (s : Server) : Source → Prop
  | .listen => 0 < s.navail ∧ s.accepted < s.arrived
  | .pipe i => ∃ child ∈ s.children[i]?, child.pipe ≠ [] ∨ child.doing = .terminated

instance (s : Server) : DecidablePred s.Ready
  | .listen => inferInstanceAs (Decidable (_ ∧ _))
  | .pipe i => inferInstanceAs (Decidable (∃ child ∈ s.children[i]?, _))

/-- Behind a descriptor that was reported. -/
def proceed (phase : Phase) (s : Server) : Server :=
  { s with nsel := s.nsel - 1, phase := if s.nsel - 1 = 0 then .select else phase }

/-- The first child whose status is 0. -/
def available (s : Server) : Option (Child × Nat) :=
  s.children.zipIdx.find? fun entry => entry.1.childStatus = 0

/-- `Accept`, and `Write_fd` to the first available child. -/
def accept (s : Server) : Server :=
  match s.available with
  | none => { s with accepted := s.accepted + 1, phase := .quit .noAvailableChildren }
  | some (child, i) =>
      let busy := { child with childStatus := 1, childCount := child.childCount + 1 }
      if child.doing = .terminated then
        { s with
          children := s.children.set i busy
          navail := s.navail - 1
          phase := .quit .brokenPipe
          accepted := s.accepted + 1 }
      else
        proceed (.scan 0)
          { s with
            children := s.children.set i { busy with transit := child.transit ++ [s.accepted] }
            navail := s.navail - 1
            accepted := s.accepted + 1
            passed := s.passed ++ [(s.accepted, i)] }

/-- `Read` from the pipe of a child; it blocks as long as the pipe is empty and open. -/
def read (s : Server) (i : Nat) (child : Child) : Option Server :=
  match child.pipe with
  | [] =>
      if child.doing = .terminated then some { s with phase := .quit (.childTerminated i) }
      else none
  | _ :: rest =>
      some (proceed (.scan (i + 1))
        { s with
          children := s.children.set i { child with childStatus := 0, pipe := rest }
          navail := s.navail + 1 })

/-- The parent behind `Select`. -/
def parent (s : Server) : Option Server :=
  match s.phase with
  | .select | .quit _ => none
  | .listen => some (if .listen ∈ s.rset then s.accept else { s with phase := .scan 0 })
  | .scan i =>
      match s.children[i]? with
      | none => some { s with phase := .select }
      | some child =>
          if .pipe i ∈ s.rset then s.read i child else some { s with phase := .scan (i + 1) }

/-- The next event of the parent, of a child or of a client. -/
def next (s : Server) : Event → Option Server
  | .arrive => some { s with arrived := s.arrived + 1 }
  | .select rset =>
      if s.phase = .select ∧ rset.Nonempty ∧ ∀ source ∈ rset, s.Ready source then
        some { s with phase := .listen, rset := rset, nsel := rset.card }
      else none
  | .parent => s.parent
  | .child i event =>
      (s.children[i]?).bind fun child =>
        (child.next event).map fun child => { s with children := s.children.set i child }

end Server

end NetPractice.DescriptorPassing
