import NetPractice.Http.Conn
import Mathlib.Algebra.Ring.Int.Defs

/-!
# The HTTP connection object: answering

The writing half of `http_conn.cpp`: `process_write` fills `m_write_buf` and the
blocks of `m_iv`, and `write` hands the blocks to `writev`.
-/

namespace NetPractice.Http

open NetPractice.Text
open NetPractice.Socket

/-- `ok_200_title`. -/
def ok200Title : List Byte := ascii "OK"

/-- `error_400_title`. -/
def error400Title : List Byte := ascii "Bad Request"

/-- `error_400_form`. -/
def error400Form : List Byte :=
  ascii "Your request has bad syntax or is inherently impossible to satisfy.\n"

/-- `error_403_title`. -/
def error403Title : List Byte := ascii "Forbidden"

/-- `error_403_form`. -/
def error403Form : List Byte :=
  ascii "You do not have permission to get file from this server.\n"

/-- `error_404_title`. -/
def error404Title : List Byte := ascii "Not Found"

/-- `error_404_form`. -/
def error404Form : List Byte := ascii "The requested file was not found on this server.\n"

/-- `error_500_title`. -/
def error500Title : List Byte := ascii "Internal Error"

/-- `error_500_form`. -/
def error500Form : List Byte :=
  ascii "There was an unusual problem serving the requested file.\n"

/-- `ok_string`, the page for an empty file. -/
def okString : List Byte := ascii "<html><body></body></html>"

/-- `%d`. -/
def formatInt (value : Int) : List Byte :=
  let digits := (Nat.toDigits 10 value.natAbs).map fun char => char.toNat.toUInt8
  if value < 0 then 45 :: digits else digits

/-- The bytes behind a block of `m_iv`; `file` is the mapped file. -/
def IoVec.bytes (writeBuf file : List Byte) : IoVec → List Byte
  | .writeBuf len => writeBuf.take len
  | .mapping _ _ => file

/-- `iov_len`. -/
def IoVec.len : IoVec → Int
  | .writeBuf len => len
  | .mapping _ len => len

/-- What a connection waits for at the `epoll` instance. -/
inductive EpollEvent where
  | epollin | epollout
  deriving DecidableEq, Repr

/-- A call of `munmap`. -/
structure Munmap where
  address : Address
  length : Int
  deriving DecidableEq, Repr

/-- What a call of `write` does: its result, the object, the event that `modfd`
registers, and the call of `munmap`. -/
structure Written where
  result : Bool
  conn : HttpConn
  interest : Option EpollEvent
  munmap : Option Munmap

namespace HttpConn

/-! ## Filling the write buffer -/

/-- `add_response`, for the text that its format and arguments give. -/
def addResponse (c : HttpConn) (text : List Byte) : Bool × HttpConn :=
  if c.writeBuf.length ≥ WRITE_BUFFER_SIZE then (false, c)
  else if text.length ≥ WRITE_BUFFER_SIZE - 1 - c.writeBuf.length then (false, c)
  else (true, { c with writeBuf := c.writeBuf ++ text })

/-- `add_status_line`. -/
def addStatusLine (c : HttpConn) (status : Int) (title : List Byte) : Bool × HttpConn :=
  c.addResponse (ascii "HTTP/1.1" ++ ascii " " ++ formatInt status ++ ascii " " ++ title ++
    ascii "\r\n")

/-- `add_content_length`. -/
def addContentLength (c : HttpConn) (contentLen : Int) : Bool × HttpConn :=
  c.addResponse (ascii "Content-Length: " ++ formatInt contentLen ++ ascii "\r\n")

/-- `add_linger`. -/
def addLinger (c : HttpConn) : Bool × HttpConn :=
  c.addResponse (ascii "Connection: " ++ (if c.linger then ascii "keep-alive" else ascii "close") ++
    ascii "\r\n")

/-- `add_blank_line`. -/
def addBlankLine (c : HttpConn) : Bool × HttpConn :=
  c.addResponse (ascii "\r\n")

/-- `add_headers`, whose parameter is an `int`.  The results are ignored. -/
def addHeaders (c : HttpConn) (contentLen : Int) : HttpConn :=
  (c.addContentLength (toInt contentLen)).2.addLinger.2.addBlankLine.2

/-- `add_content`. -/
def addContent (c : HttpConn) (content : List Byte) : Bool × HttpConn :=
  c.addResponse content

/-- The end of `process_write`: the write buffer is the only block. -/
def useWriteBuf (c : HttpConn) : HttpConn :=
  { c with iv := [.writeBuf c.writeBuf.length] }

/-- A status line, the headers, and a text. -/
def addPage (c : HttpConn) (status : Int) (title form : List Byte) : Bool × HttpConn :=
  let c := (c.addStatusLine status title).2.addHeaders form.length
  match c.addContent form with
  | (true, c) => (true, c.useWriteBuf)
  | (false, c) => (false, c)

/-- `process_write(ret)`. -/
def processWrite (c : HttpConn) : HttpCode → Bool × HttpConn
  | .internalError => c.addPage 500 error500Title error500Form
  | .badRequest => c.addPage 400 error400Title error400Form
  | .noResource => c.addPage 404 error404Title error404Form
  | .forbiddenRequest => c.addPage 403 error403Title error403Form
  | .fileRequest =>
      if c.fileStat.size ≠ 0 then
        let c := (c.addStatusLine 200 ok200Title).2.addHeaders c.fileStat.size
        (true, { c with
          iv := [.writeBuf c.writeBuf.length, .mapping c.fileAddress c.fileStat.size] })
      else c.addPage 200 ok200Title okString
  | .noRequest | .getRequest | .closedConnection => (false, c)

/-! ## Writing -/

/-- `unmap()`: the call of `munmap`, if there is one. -/
def unmap (c : HttpConn) : Option Munmap × HttpConn :=
  if c.fileAddress ≠ 0 then
    (some ⟨c.fileAddress, c.fileStat.size⟩, { c with fileAddress := 0 })
  else (none, c)

/-- The number of bytes that `m_iv` offers. -/
def offered (c : HttpConn) : Int :=
  (c.iv.map IoVec.len).sum

/-- `writev` takes a nonempty part of what it is offered, and counts it in an
`int`. -/
def Takes (c : HttpConn) (count : Nat) : Prop :=
  0 < count ∧ count ≤ c.offered ∧ count < 2 ^ 31

instance (c : HttpConn) (count : Nat) : Decidable (c.Takes count) :=
  inferInstanceAs (Decidable (_ ∧ _ ∧ _))

/-- The response is sent. -/
def finishWrite (c : HttpConn) : Written :=
  let (munmap, c) := c.unmap
  if c.linger then ⟨true, c.init, some .epollin, munmap⟩
  else ⟨false, c, some .epollin, munmap⟩

/-- The loop of `write`, by the answers of `writev`; `m_iv` is never moved
forward. -/
def writeLoop (c : HttpConn) : Int → List Send → Option Written
  | _, [] => none
  | bytesToSend, .taken count :: answers =>
      if c.Takes count then
        if bytesToSend - count ≤ 0 then if answers = [] then some c.finishWrite else none
        else c.writeLoop (bytesToSend - count) answers
      else none
  | _, .again :: answers =>
      if answers = [] then some ⟨true, c, some .epollout, none⟩ else none
  | _, .gone :: answers =>
      let (munmap, c) := c.unmap
      if answers = [] then some ⟨false, c, none, munmap⟩ else none

/-- `write()`.  There is no result when the answers of `writev` do not end the
loop. -/
def write (c : HttpConn) (answers : List Send) : Option Written :=
  if c.writeBuf.length = 0 then
    if answers = [] then some ⟨true, c.init, some .epollin, none⟩ else none
  else c.writeLoop c.writeBuf.length answers

end HttpConn

end NetPractice.Http
