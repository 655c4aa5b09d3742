import NetPractice.Socket.Core
import NetPractice.Text.StringFunctions
import Mathlib.Logic.Function.Basic

/-!
# The HTTP connection object: reading and parsing

This module embeds the reading half of `ch15_pool/thread_pool/http_conn.cpp`: the
fields of `http_conn`, `init`, `read`, and the two state machines behind
`process_read`.

Pointers into `m_read_buf` are indices.  `stores` records the index of every
byte that the parser writes into `m_read_buf`, in or out of its bounds; what a
store out of them does to the objects around the buffer is undefined, and a run
with such a store is taken as one that may do anything.  Sums of type `int` wrap
around.  `m_method`, `m_version` and `m_host` are written and never read outside
of the function that writes them, and are left out.
-/

namespace NetPractice.Http

open NetPractice.Text
open NetPractice.Socket

/-- The size of `m_real_file`. -/
def FILENAME_LEN : Nat := 200

/-- The size of `m_read_buf`. -/
def READ_BUFFER_SIZE : Nat := 2048

/-- The size of `m_write_buf`. -/
def WRITE_BUFFER_SIZE : Nat := 1024

/-- `CHECK_STATE`: what the next line is taken for. -/
inductive CheckState where
  | requestLine | header | content
  deriving DecidableEq, Repr

/-- `HTTP_CODE`, the result of processing a request. -/
inductive HttpCode where
  | noRequest | getRequest | badRequest | noResource | forbiddenRequest | fileRequest
  | internalError | closedConnection
  deriving DecidableEq, Repr

/-- `LINE_STATUS`: a whole line, a syntax error, or an incomplete line. -/
inductive LineStatus where
  | ok | bad | open
  deriving DecidableEq, Repr

/-- What `process_read` uses of `struct stat`. -/
structure FileStat where
  othersRead : Bool
  isDir : Bool
  size : Int
  deriving DecidableEq, Repr

/-- Addresses of file mappings; `0` is the null pointer. -/
abbrev Address := Int

/-- What `mmap` returns when it fails. -/
def MAP_FAILED : Address := -1

/-- The file system as a request finds it: what `stat` says about a path, and
where `open` and `mmap` of the file map it.  A mapping has a proper address. -/
structure FileSystem where
  stat : List Byte → Option FileStat
  mmap : List Byte → Option Address
  mapped : ∀ path, ∀ address ∈ mmap path, address ≠ 0 ∧ address ≠ MAP_FAILED

/-- `struct iovec`: a prefix of `m_write_buf`, or a mapped file. -/
inductive IoVec where
  | writeBuf (len : Nat)
  | mapping (address : Address) (len : Int)
  deriving DecidableEq, Repr

/-- `http_conn`.  `writeBuf` holds the first `m_write_idx` bytes of
`m_write_buf`, and `iv` the first `m_iv_count` blocks of `m_iv`. -/
structure HttpConn where
  sockfd : Fd
  readBuf : Nat → Byte
  readIdx : Nat
  checkedIdx : Nat
  startLine : Nat
  writeBuf : List Byte
  checkState : CheckState
  realFile : List Byte
  url : Option Nat
  contentLength : Int
  linger : Bool
  fileAddress : Address
  fileStat : FileStat
  iv : List IoVec
  stores : List Int

namespace HttpConn

/-- `init()`.  The mapped file and its status keep their values. -/
def init (c : HttpConn) : HttpConn :=
  { c with
    checkState := .requestLine
    linger := false
    url := none
    contentLength := 0
    startLine := 0
    checkedIdx := 0
    readIdx := 0
    writeBuf := []
    readBuf := fun k => if k < READ_BUFFER_SIZE then 0 else c.readBuf k
    realFile := []
    stores := [] }

/-- `init(sockfd, addr)`, without the registration of the socket. -/
def initSocket (c : HttpConn) (sockfd : Fd) : HttpConn :=
  { c with sockfd := sockfd }.init

/-! ## Reading -/

/-- The bytes that `recv` stores at `m_read_buf + m_read_idx`. -/
def append (c : HttpConn) (bytes : List Byte) : HttpConn :=
  { c with
    readBuf := fun k =>
      if c.readIdx ≤ k ∧ k < c.readIdx + bytes.length then bytes.getD (k - c.readIdx) 0
      else c.readBuf k
    readIdx := c.readIdx + bytes.length }

/-- The loop of `read`, by the answers of `recv`; it asks for what the buffer has
room for. -/
def readLoop (c : HttpConn) : List Recv → Option (Bool × HttpConn)
  | [] => none
  | answer :: answers =>
      if answer.AtMost (READ_BUFFER_SIZE - c.readIdx) then
        match answer with
        | .data bytes => (c.append bytes).readLoop answers
        | .again => if answers = [] then some (true, c) else none
        | .eof | .fail => if answers = [] then some (false, c) else none
      else none

/-- `read()`.  There is no result when the answers of `recv` do not end the
loop. -/
def read (c : HttpConn) (answers : List Recv) : Option (Bool × HttpConn) :=
  if c.readIdx ≥ READ_BUFFER_SIZE then
    if answers = [] then some (false, c) else none
  else c.readLoop answers

/-! ## The line scanner -/

/-- A store of a NUL byte through a pointer into `m_read_buf`. -/
def store (c : HttpConn) (index : Int) : HttpConn :=
  { c with
    readBuf := if 0 ≤ index then Function.update c.readBuf index.toNat 0 else c.readBuf
    stores := c.stores ++ [index] }

/-- The C string at an index of `m_read_buf`. -/
def str (c : HttpConn) (text : Nat) : List Byte :=
  cstr ((List.range' text (READ_BUFFER_SIZE - text)).map c.readBuf)

/-- The loop of `parse_line`; the first argument is `m_read_idx - m_checked_idx`. -/
def scanLine : Nat → HttpConn → LineStatus × HttpConn
  | 0, c => (.open, c)
  | left + 1, c =>
      let temp := c.readBuf c.checkedIdx
      if temp = CR then
        if c.checkedIdx + 1 = c.readIdx then (.open, c)
        else if c.readBuf (c.checkedIdx + 1) = LF then
          (.ok, { (c.store c.checkedIdx).store (c.checkedIdx + 1) with
            checkedIdx := c.checkedIdx + 2 })
        else (.bad, c)
      else if temp = LF then
        if 1 ≤ c.checkedIdx ∧ c.readBuf (c.checkedIdx - 1) = CR then
          (.ok, { (c.store (c.checkedIdx - 1)).store c.checkedIdx with
            checkedIdx := c.checkedIdx + 1 })
        else (.bad, c)
      else scanLine left { c with checkedIdx := c.checkedIdx + 1 }

/-- `parse_line()`. -/
def parseLine (c : HttpConn) : LineStatus × HttpConn :=
  scanLine (c.readIdx - c.checkedIdx) c

/-! ## The request line, the header lines, and the body -/

/-- The skipped scheme of an absolute URL: the path behind it, if there is one. -/
def skipScheme (c : HttpConn) (url : Nat) : Option Nat :=
  if strncasecmp (c.str url) (ascii "http://") then
    (strchrSlash (c.str (url + 7))).map (url + 7 + ·)
  else if strncasecmp (c.str url) (ascii "https://") then
    (strchrSlash (c.str (url + 8))).map (url + 8 + ·)
  else some url

/-- The end of `parse_request_line`: the path of the URL starts with a slash. -/
def checkUrl (c : HttpConn) (url : Nat) : HttpCode × HttpConn :=
  let c := { c with url := c.skipScheme url }
  match c.url with
  | none => (.badRequest, c)
  | some url =>
      if c.readBuf url = 47 then (.noRequest, { c with checkState := .header })
      else (.badRequest, c)

/-- The middle of `parse_request_line`: the version stands behind the URL.  The blanks
that are skipped are counted at `m_url`, where there are none. -/
def splitVersion (c : HttpConn) (url : Nat) : HttpCode × HttpConn :=
  match strpbrk (c.str url) with
  | none => (.badRequest, c)
  | some blank =>
      let c := c.store (url + blank : Nat)
      let version := url + blank + 1
      let version := version + strspn (c.str url)
      if strcasecmp (c.str version) (ascii "HTTP/1.1") then c.checkUrl url
      else (.badRequest, c)

/-- The beginning of `parse_request_line`, behind the first blank: the method is
GET, and the URL stands behind the blanks. -/
def splitMethod (c : HttpConn) (text url : Nat) : HttpCode × HttpConn :=
  if strcasecmp (c.str text) (ascii "GET") then
    let url := url + strspn (c.str url)
    { c with url := some url }.splitVersion url
  else (.badRequest, c)

/-- `parse_request_line(text)`. -/
def parseRequestLine (c : HttpConn) (text : Nat) : HttpCode × HttpConn :=
  match strpbrk (c.str text) with
  | none => (.badRequest, { c with url := none })
  | some blank =>
      { c.store (text + blank : Nat) with url := some (text + blank + 1) }.splitMethod text
        (text + blank + 1)

/-- The value of a header, behind its name and blanks. -/
def headerValue (c : HttpConn) (text : Nat) (name : List Byte) : List Byte :=
  c.str (text + name.length + strspn (c.str (text + name.length)))

/-- `parse_headers(text)`. -/
def parseHeaders (c : HttpConn) (text : Nat) : HttpCode × HttpConn :=
  if c.readBuf text = 0 then
    if c.contentLength ≠ 0 then (.noRequest, { c with checkState := .content })
    else (.getRequest, c)
  else if strncasecmp (c.str text) (ascii "Connection:") then
    if strcasecmp (c.headerValue text (ascii "Connection:")) (ascii "keep-alive") then
      (.noRequest, { c with linger := true })
    else (.noRequest, c)
  else if strncasecmp (c.str text) (ascii "Content-Length:") then
    (.noRequest, { c with
      contentLength := atoi (c.headerValue text (ascii "Content-Length:")) })
  else (.noRequest, c)

/-- `parse_content(text)`. -/
def parseContent (c : HttpConn) (text : Nat) : HttpCode × HttpConn :=
  if (c.readIdx : Int) ≥ toInt (c.contentLength + c.checkedIdx) then
    (.getRequest, c.store (text + c.contentLength))
  else (.noRequest, c)

/-! ## The request -/

/-- `doc_root`. -/
def docRoot : List Byte := ascii "htdocs"

/-- The C string behind `m_url`. -/
def urlText (c : HttpConn) : List Byte :=
  c.url.elim [] c.str

/-- `do_request()`.  A file that cannot be opened, or is empty, is not mapped. -/
def doRequest (c : HttpConn) (fs : FileSystem) : HttpCode × HttpConn :=
  let c := { c with
    realFile := docRoot ++ c.urlText.take (FILENAME_LEN - docRoot.length - 1) }
  match fs.stat c.realFile with
  | none => (.noResource, c)
  | some fileStat =>
      let c := { c with fileStat := fileStat }
      if fileStat.othersRead = false then (.forbiddenRequest, c)
      else if fileStat.isDir then (.badRequest, c)
      else
        (.fileRequest, { c with
          fileAddress :=
            if fileStat.size = 0 then MAP_FAILED else (fs.mmap c.realFile).getD MAP_FAILED })

/-- The condition of the main loop: the content needs no line, everything else
does. -/
def nextText (c : HttpConn) (status : LineStatus) : LineStatus × HttpConn :=
  if c.checkState = .content ∧ status = .ok then (.ok, c) else c.parseLine

/-- How an iteration of the main loop ends: with a result of `process_read`, or
with the next value of `line_status`. -/
inductive Turn where
  | result (code : HttpCode)
  | again (status : LineStatus)
  deriving DecidableEq, Repr

/-- The first case of the `switch`. -/
def onRequestLine (c : HttpConn) (text : Nat) : Turn × HttpConn :=
  match c.parseRequestLine text with
  | (.badRequest, c) => (.result .badRequest, c)
  | (_, c) => (.again .ok, c)

/-- The second case. -/
def onHeader (c : HttpConn) (fs : FileSystem) (text : Nat) : Turn × HttpConn :=
  match c.parseHeaders text with
  | (.badRequest, c) => (.result .badRequest, c)
  | (.getRequest, c) => ((.result (c.doRequest fs).1), (c.doRequest fs).2)
  | (_, c) => (.again .ok, c)

/-- The third case. -/
def onContent (c : HttpConn) (fs : FileSystem) (text : Nat) : Turn × HttpConn :=
  match c.parseContent text with
  | (.getRequest, c) => ((.result (c.doRequest fs).1), (c.doRequest fs).2)
  | (_, c) => (.again .open, c)

/-- The body of the main loop. -/
def handleText (c : HttpConn) (fs : FileSystem) : Turn × HttpConn :=
  let text := c.startLine
  let c := { c with startLine := c.checkedIdx }
  match c.checkState with
  | .requestLine => c.onRequestLine text
  | .header => c.onHeader fs text
  | .content => c.onContent fs text

/-- The main loop of `process_read`, entered with `line_status`. -/
def processLoop (fs : FileSystem) : Nat → LineStatus → HttpConn → HttpCode × HttpConn
  | 0, _, c => (.noRequest, c)
  | fuel + 1, status, c =>
      match c.nextText status with
      | (.ok, c) =>
          match c.handleText fs with
          | (.result code, c) => (code, c)
          | (.again status, c) => processLoop fs fuel status c
      | (_, c) => (.noRequest, c)

/-- Twice the number of unread bytes bounds the number of iterations: a line
takes a byte at least, and between two lines the content is looked at once. -/
def loopFuel (c : HttpConn) : Nat :=
  2 * (c.readIdx - c.checkedIdx) + 2

/-- `process_read()`. -/
def processRead (c : HttpConn) (fs : FileSystem) : HttpCode × HttpConn :=
  processLoop fs c.loopFuel .ok c

end HttpConn

/-! ## The first objects -/

/-- An object as fresh zero pages. -/
def zeroConn : HttpConn where
  sockfd := 0
  readBuf := fun _ => 0
  readIdx := 0
  checkedIdx := 0
  startLine := 0
  writeBuf := []
  checkState := .requestLine
  realFile := []
  url := none
  contentLength := 0
  linger := false
  fileAddress := 0
  fileStat := ⟨false, false, 0⟩
  iv := []
  stores := []

theorem mapped_nowhere (_path : List Byte) :
    ∀ address ∈ (none : Option Address), address ≠ 0 ∧ address ≠ MAP_FAILED := by
  simp

/-- A file system without files. -/
def noFiles : FileSystem where
  stat := fun _ => none
  mmap := fun _ => none
  mapped := mapped_nowhere

end NetPractice.Http
