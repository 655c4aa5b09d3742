import NetPractice.Text.StringFunctions

/-!
# The request reader

`code_8_3.cpp`: the line scanner `parse_line`, the main state machine
`parse_content`, and the receive loop of `main`.
-/

namespace NetPractice.RequestReader

open NetPractice.Text

/-- The size of the buffer. -/
def BUFFER_SIZE : Nat := 4096

/-- `CHECK_STATE`. -/
inductive CheckState where
  | requestLine
  | header
  deriving DecidableEq, Repr

/-- `LINE_STATUS`. -/
inductive LineStatus where
  | ok
  | bad
  | open
  deriving DecidableEq, Repr

/-- `HTTP_CODE`. -/
inductive HttpCode where
  | noRequest
  | getRequest
  | badRequest
  | forbiddenRequest
  | internalError
  | closedConnection
  deriving DecidableEq, Repr

/-- The variables of `main` that `parse_content` takes by reference. -/
structure Reader where
  buffer : List Byte
  readIndex : Nat
  checkedIndex : Nat
  startLine : Nat
  checkstate : CheckState
  deriving DecidableEq, Repr

namespace Reader

/-- The variables in front of the receive loop. -/
def initial : Reader where
  buffer := List.replicate BUFFER_SIZE 0
  readIndex := 0
  checkedIndex := 0
  startLine := 0
  checkstate := .requestLine

/-- A `recv` of these bytes, as far as there is room for them. -/
def receive (r : Reader) (bytes : List Byte) : Reader :=
  let bytes := bytes.take (BUFFER_SIZE - r.readIndex)
  { r with
    buffer := r.buffer.take r.readIndex ++ bytes ++ r.buffer.drop (r.readIndex + bytes.length)
    readIndex := r.readIndex + bytes.length }

/-- `buffer[index]`. -/
def byte (r : Reader) (index : Nat) : Byte :=
  r.buffer.getD index 0

/-- `buffer[index] = '\0'`. -/
def store (r : Reader) (index : Nat) : Reader :=
  { r with buffer := r.buffer.set index 0 }

/-- The C string behind `buffer + text`. -/
def str (r : Reader) (text : Nat) : List Byte :=
  cstr (r.buffer.drop text)

/-! ## Lines -/

/-- The loop of `parse_line`; the first argument is `read_index - checked_index`. -/
def scanLine : Nat → Reader → LineStatus × Reader
  | 0, r => (.open, r)
  | left + 1, r =>
      if r.byte r.checkedIndex = CR then
        if r.checkedIndex + 1 = r.readIndex then (.open, r)
        else if r.byte (r.checkedIndex + 1) = LF then
          (.ok, { (r.store r.checkedIndex).store (r.checkedIndex + 1) with
            checkedIndex := r.checkedIndex + 2 })
        else (.bad, r)
      else if r.byte r.checkedIndex = LF then
        if 1 ≤ r.checkedIndex ∧ r.byte (r.checkedIndex - 1) = CR then
          (.ok, { (r.store (r.checkedIndex - 1)).store r.checkedIndex with
            checkedIndex := r.checkedIndex + 1 })
        else (.bad, r)
      else scanLine left { r with checkedIndex := r.checkedIndex + 1 }

/-- `parse_line(buffer, checked_index, read_index)`. -/
def parseLine (r : Reader) : LineStatus × Reader :=
  scanLine (r.readIndex - r.checkedIndex) r

/-! ## The request line -/

/-- The path of a URL: behind `http://` or `https://`, from the next slash. -/
def skipScheme (r : Reader) (url : Nat) : Option Nat :=
  if strncasecmp (r.str url) (ascii "http://") then
    (strchrSlash (r.str (url + 7))).map (url + 7 + ·)
  else if strncasecmp (r.str url) (ascii "https://") then
    (strchrSlash (r.str (url + 8))).map (url + 8 + ·)
  else some url

/-- The checks of the URL, which end the analysis of the request line. -/
def checkUrl (r : Reader) (url : Nat) : HttpCode × Reader :=
  match r.skipScheme url with
  | none => (.badRequest, r)
  | some path =>
      if r.byte path ≠ 47 then (.badRequest, r)
      else (.noRequest, { r with checkstate := .header })

/-- The version, behind the blank that ends the URL.  It is advanced by the blanks
at the beginning of the URL. -/
def checkVersion (r : Reader) (url : Nat) : HttpCode × Reader :=
  match strpbrk (r.str url) with
  | none => (.badRequest, r)
  | some blank =>
      let r := r.store (url + blank)
      let version := url + blank + 1 + strspn (r.str url)
      if strcasecmp (r.str version) (ascii "HTTP/1.1") then r.checkUrl url
      else (.badRequest, r)

/-- `parse_requestline(temp, checkstate)`. -/
def parseRequestline (r : Reader) (temp : Nat) : HttpCode × Reader :=
  match strpbrk (r.str temp) with
  | none => (.badRequest, r)
  | some blank =>
      let r := r.store (temp + blank)
      let url := temp + blank + 1
      if strcasecmp (r.str temp) (ascii "GET") then r.checkVersion (url + strspn (r.str url))
      else (.badRequest, r)

/-- `url` behind the checks, where `parse_requestline` prints the request URL. -/
def checkedUrl (r : Reader) (url : Nat) : Option Nat :=
  match r.skipScheme url with
  | none => none
  | some path => if r.byte path ≠ 47 then none else some path

/-- `url` behind the check of the version. -/
def versionUrl (r : Reader) (url : Nat) : Option Nat :=
  match strpbrk (r.str url) with
  | none => none
  | some blank =>
      let r := r.store (url + blank)
      let version := url + blank + 1 + strspn (r.str url)
      if strcasecmp (r.str version) (ascii "HTTP/1.1") then r.checkedUrl url else none

/-- The pointer `url` at the end of `parse_requestline(temp, checkstate)`, if it gets
there. -/
def requestlineUrl (r : Reader) (temp : Nat) : Option Nat :=
  match strpbrk (r.str temp) with
  | none => none
  | some blank =>
      let r := r.store (temp + blank)
      let url := temp + blank + 1
      if strcasecmp (r.str temp) (ascii "GET") then r.versionUrl (url + strspn (r.str url))
      else none

/-! ## The main state machine -/

/-- `parse_headers(temp)`. -/
def parseHeaders (r : Reader) (temp : Nat) : HttpCode :=
  if r.byte temp = 0 then .getRequest else .noRequest

/-- The body of the loop of `parse_content`, behind a complete line; the result is
one that ends the loop. -/
def handleLine (r : Reader) : Option HttpCode × Reader :=
  let temp := r.startLine
  let r := { r with startLine := r.checkedIndex }
  match r.checkstate with
  | .requestLine =>
      match r.parseRequestline temp with
      | (.badRequest, r) => (some .badRequest, r)
      | (_, r) => (none, r)
  | .header =>
      match r.parseHeaders temp with
      | .badRequest => (some .badRequest, r)
      | .getRequest => (some .getRequest, r)
      | _ => (none, r)

/-- The loop of `parse_content`; each turn takes a byte at least. -/
def contentLoop : Nat → Reader → HttpCode × Reader
  | 0, r => (.noRequest, r)
  | fuel + 1, r =>
      match r.parseLine with
      | (.open, r) => (.noRequest, r)
      | (.bad, r) => (.badRequest, r)
      | (.ok, r) =>
          match r.handleLine with
          | (some code, r) => (code, r)
          | (none, r) => contentLoop fuel r

/-- `parse_content(buffer, checked_index, checkstate, read_index, start_line)`. -/
def parseContent (r : Reader) : HttpCode × Reader :=
  contentLoop (r.readIndex - r.checkedIndex + 1) r

/-- The receive loop of `main`: `parse_content` behind each segment, up to the first
result that is not `NO_REQUEST`. -/
def receiveLoop : Reader → List (List Byte) → HttpCode
  | _, [] => .noRequest
  | r, bytes :: segments =>
      match (r.receive bytes).parseContent with
      | (.noRequest, r) => receiveLoop r segments
      | (code, _) => code

end Reader

end NetPractice.RequestReader
