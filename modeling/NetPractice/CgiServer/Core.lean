import NetPractice.Socket.Core
import NetPractice.Text.StringFunctions

/-!
# Requests of the CGI server

`cgi_conn` of `cgi_server.cpp`: `process` reads from a nonblocking socket, looks for the
end of the first line in each piece that it has read, and looks the line up with
`access`.

The client's bytes are given; what the kernel decides is how many of them each `recv`
delivers, and when there is an error.
-/

namespace NetPractice.CgiServer

open NetPractice.Socket
open NetPractice.Text

/-- The size of `m_buf`. -/
def BUFFER_SIZE : Nat := 1024

/-- What the kernel decides for one `recv`: an upper bound, less one, of the number of
bytes that it delivers, `EAGAIN`, or another error. -/
inductive Arrival where
  | bytes (most : Nat)
  | again
  | fail
  deriving DecidableEq, Repr

/-- The number of bytes that the kernel is ready to deliver. -/
def Arrival.count : Arrival → Nat
  | .bytes most => most + 1
  | .again | .fail => 0

/-- What `access` and `fork` return for the request: the file does not exist, `fork` fails,
or this is the parent or the child. -/
inductive Launch where
  | missing
  | forkFails
  | parent
  | child
  deriving DecidableEq, Repr

/-- A connection is served until `removefd` closes it, or the process is the child and
exits. -/
inductive Status where
  | connected
  | removed
  | exited
  deriving DecidableEq, Repr

/-- `cgi_conn`, with the client's bytes that have not been received and the paths that
have been passed to `access`. -/
structure CgiConn where
  buf : List Byte
  readIdx : Nat
  status : Status
  pending : List Byte
  accesses : List (List Byte)
  deriving DecidableEq, Repr

namespace CgiConn

/-- `init`, for a client that sends these bytes. -/
def init (sent : List Byte) : CgiConn where
  buf := List.replicate BUFFER_SIZE 0
  readIdx := 0
  status := .connected
  pending := sent
  accesses := []

/-- `removefd(m_epollfd, m_sockfd)`. -/
def removefd (conn : CgiConn) : CgiConn :=
  { conn with status := .removed }

/-- `recv(m_sockfd, m_buf + idx, BUFFER_SIZE - 1 - idx, 0)`.  It returns 0 when the client
has closed the connection, or when it is asked for nothing. -/
def recv (conn : CgiConn) : Arrival → Recv
  | .bytes most =>
      match conn.pending.take (min (most + 1) (BUFFER_SIZE - 1 - conn.readIdx)) with
      | [] => .eof
      | byte :: bytes => .data (byte :: bytes)
  | .again => .again
  | .fail => .fail

/-- The bytes are stored in `m_buf`, and counted. -/
def receive (conn : CgiConn) (bytes : List Byte) : CgiConn :=
  { conn with
    buf := conn.buf.take conn.readIdx ++ bytes ++ conn.buf.drop (conn.readIdx + bytes.length)
    readIdx := conn.readIdx + bytes.length
    pending := conn.pending.drop bytes.length }

/-- The loop that looks for a line's end; the first argument is `m_read_idx - idx`. -/
def scan (buf : List Byte) : Nat → Nat → Nat
  | 0, idx => idx
  | left + 1, idx =>
      if idx ≥ 1 ∧ buf.getD (idx - 1) 0 = CR ∧ buf.getD idx 0 = LF then idx
      else scan buf left (idx + 1)

/-- `access` on the line in the buffer, and `fork`.  All answers close the connection but
the child's. -/
def start (conn : CgiConn) (launch : Launch) : CgiConn :=
  let conn := { conn with accesses := conn.accesses ++ [cstr conn.buf] }
  match launch with
  | .missing | .forkFails | .parent => conn.removefd
  | .child => { conn with status := .exited }

/-- One turn of the loop of `process`, and whether the loop goes on. -/
def turn (launch : Launch) (conn : CgiConn) (arrival : Arrival) : CgiConn × Bool :=
  let idx := conn.readIdx
  match conn.recv arrival with
  | .again => (conn, false)
  | .fail | .eof => (conn.removefd, false)
  | .data bytes =>
      let conn := conn.receive bytes
      let idx := scan conn.buf (conn.readIdx - idx) idx
      if idx = conn.readIdx then (conn, true)
      else (start { conn with buf := conn.buf.set (idx - 1) 0 } launch, false)

/-- `process()`, as far as the kernel has decided, and the decisions that are left. -/
def process (launch : Launch) : CgiConn → List Arrival → CgiConn × List Arrival
  | conn, [] => (conn, [])
  | conn, arrival :: arrivals =>
      match turn launch conn arrival with
      | (conn, true) => process launch conn arrivals
      | (conn, false) => (conn, arrivals)

/-- The calls of `process` on one connection, until it is closed. -/
def serve (launch : Launch) : Nat → CgiConn → List Arrival → CgiConn
  | 0, conn, _ => conn
  | fuel + 1, conn, arrivals =>
      if conn.status = .connected ∧ arrivals ≠ [] then
        serve launch fuel (process launch conn arrivals).1 (process launch conn arrivals).2
      else conn

/-- A connection whose client sends these bytes, after these decisions of the kernel.  Each
call of `process` uses one of them at least. -/
def session (launch : Launch) (sent : List Byte) (arrivals : List Arrival) : CgiConn :=
  serve launch arrivals.length (init sent) arrivals

end CgiConn

end NetPractice.CgiServer
