import NetPractice.EchoSession.Lines
import NetPractice.Memory.ByteOrder
import NetPractice.Text.StringFunctions

/-!
# The sum server and its client

This module embeds `str_cli` of `tcpcliserv/str_cli09.c` and `str_echo` of
`tcpcliserv/str_echo09.c`, with the loops of `readn` and `writen` of `lib/readn.c` and
`lib/writen.c`.  The client sends two numbers as its host stores them, in a `struct args`, and
the server sends their sum back as its own host stores it, in a `struct result`.  A `long` has
eight bytes, and its sum wraps around.

A step is one call of `read` or `write`, with the number of bytes that it moves, or a call of
`Fgets`.  A call that is interrupted is made again.  The connection is closed when a function
returns.
-/

namespace NetPractice.SumSession

open NetPractice.EchoSession.Lines (fgets lines)
open NetPractice.Memory
open NetPractice.Socket
open NetPractice.Text
open NetPractice.Transition

/-! ## Numbers -/

/-- `sizeof(struct args)` and `sizeof(struct result)`. -/
def SIZEOF_ARGS : Nat := 16

/-- The size of `struct result`. -/
def SIZEOF_RESULT : Nat := 8

/-- The bytes of a `long` on a host. -/
def storeLong (order : ByteOrder) (value : Int) : List Byte :=
  order.store 8 (value % 2 ^ 64).toNat

/-- The `long` in some bytes on a host. -/
def loadLong (order : ByteOrder) (bytes : List Byte) : Int :=
  (order.load bytes : Int).bmod (2 ^ 64)

/-- One conversion `%ld`: the number and what is behind it. -/
def scanLong (text : List Byte) : Option (Int × List Byte) :=
  let number := text.dropWhile isSpace
  let digits := if number.head? = some 45 ∨ number.head? = some 43 then number.tail else number
  if digits.takeWhile isDigit = [] then none
  else some (strtol text, digits.dropWhile isDigit)

/-- `sscanf(sendline, "%ld%ld", &args.arg1, &args.arg2)`, where it returns 2. -/
def sscanf (sendline : List Byte) : Option (Int × Int) := do
  let (arg1, rest) ← scanLong (cstr sendline)
  let (arg2, _) ← scanLong rest
  return (arg1, arg2)

example : sscanf (ascii " 11 -22\n") = some (11, -22) := by decide
example : sscanf (ascii "1+2") = some (1, 2) := by decide
example : sscanf (ascii "11 x\n") = none := by decide

/-- `struct args` in memory. -/
def storeArgs (order : ByteOrder) (args : Int × Int) : List Byte :=
  storeLong order args.1 ++ storeLong order args.2

/-- `result.sum = args.arg1 + args.arg2`, in memory. -/
def sumBytes (order : ByteOrder) (args : List Byte) : List Byte :=
  storeLong order (loadLong order (args.take 8) + loadLong order ((args.drop 8).take 8))

/-! ## The server -/

/-- `str_echo`: in `Readn` with the bytes that are stored, or in `Writen` with the rest of the
result. -/
inductive Server where
  | readn (stored : List Byte)
  | writen (buf : List Byte)
  | returned
  deriving DecidableEq, Repr

/-- The server with its connection, and what `args` held before.  -/
structure Peer where
  server : Server
  args : List Byte
  up : Pipe
  down : Pipe
  deriving DecidableEq, Repr

/-- Behind `Readn`: `args` is what is stored, and what is left of the old one. -/
def Peer.reply (order : ByteOrder) (stored : List Byte) (p : Peer) : Peer :=
  let args := stored ++ p.args.drop stored.length
  { p with server := .writen (sumBytes order args), args := args }

/-- The next call of the server; `n` bytes are moved. -/
def Peer.next (order : ByteOrder) (size n : Nat) (p : Peer) : Option Peer :=
  match p.server with
  | .readn stored =>
      if p.up.AtEnd ∧ n = 0 then
        if stored = [] then some { p with server := .returned, down := p.down.shut }
        else some (p.reply order stored)
      else if n ≤ SIZEOF_ARGS - stored.length then
        (p.up.read n).map fun (chunk, up) =>
          let stored := stored ++ chunk
          if stored.length = SIZEOF_ARGS then { p with up := up }.reply order stored
          else { p with server := .readn stored, up := up }
      else none
  | .writen buf =>
      (p.down.write size n buf).map fun (rest, down) =>
        { p with server := if rest = [] then .readn [] else .writen rest, down := down }
  | .returned => none

/-! ## The client -/

/-- A line of the output. -/
inductive Output where
  | invalid (sendline : List Byte)
  | sum (value : Int)
  deriving DecidableEq, Repr

/-- The statements of the client. -/
inductive Pc
  | fgets
  | writen (buf : List Byte)
  | readn (stored : List Byte)
  | returned
  | quit
  deriving DecidableEq, Repr

/-- The client with its input that is not yet read, its output, and what `result` held
before. -/
structure Session where
  pc : Pc
  result : List Byte
  stdin : List Byte
  stdout : List Output
  peer : Peer
  deriving DecidableEq, Repr

/-- The two structures hold anything at first. -/
def start (args result : List Byte) (stdin : List Byte) : Session where
  pc := .fgets
  result := result
  stdin := stdin
  stdout := []
  peer := { server := .readn [], args := args, up := .empty, down := .empty }

/-- The next call of the client or of the server; `n` bytes are moved. -/
inductive Event
  | client (n : Nat)
  | server (n : Nat)
  deriving DecidableEq, Repr

/-- Behind `Readn`. -/
def Session.print (order : ByteOrder) (stored : List Byte) (s : Session) : Session :=
  let result := stored ++ s.result.drop stored.length
  { s with
    pc := .fgets
    result := result
    stdout := s.stdout ++ [.sum (loadLong order (result.take 8))] }

/-- The next call of the client. -/
def clientNext (order : ByteOrder) (size n : Nat) (s : Session) : Option Session :=
  match s.pc with
  | .fgets =>
      if s.stdin = [] then
        some { s with pc := .returned, peer := { s.peer with up := s.peer.up.shut } }
      else
        let sendline := fgets s.stdin
        let stdin := s.stdin.drop sendline.length
        match sscanf sendline with
        | none => some { s with stdin := stdin, stdout := s.stdout ++ [.invalid (cstr sendline)] }
        | some args => some { s with stdin := stdin, pc := .writen (storeArgs order args) }
  | .writen buf =>
      (s.peer.up.write size n buf).map fun (rest, up) =>
        { s with
          pc := if rest = [] then .readn [] else .writen rest
          peer := { s.peer with up := up } }
  | .readn stored =>
      if s.peer.down.AtEnd ∧ n = 0 then
        if stored = [] then some { s with pc := .quit }
        else some (s.print order stored)
      else if n ≤ SIZEOF_RESULT - stored.length then
        (s.peer.down.read n).map fun (chunk, down) =>
          let s := { s with peer := { s.peer with down := down } }
          let stored := stored ++ chunk
          if stored.length = SIZEOF_RESULT then s.print order stored
          else { s with pc := .readn stored }
      else none
  | .returned | .quit => none

/-- The client on a host with one byte order, the server on a host with another; `toServer`
and `toClient` are the room in the two directions. -/
def next (client server : ByteOrder) (toServer toClient : Nat) : Step Session Event
  | s, .client n => clientNext client toServer n s
  | s, .server n => (s.peer.next server toClient n).map fun peer => { s with peer := peer }

/-- What is printed for a line. -/
def answer (client server : ByteOrder) (line : List Byte) : Output :=
  match sscanf line with
  | none => .invalid (cstr line)
  | some args => .sum (loadLong client (sumBytes server (storeArgs client args)))

end NetPractice.SumSession
