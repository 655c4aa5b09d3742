import NetPractice.Text.StringFunctions

/-!
# The mini server

`mini_httpd.c`: `get_line`, the analysis of the first line in `do_http_request`, and the
files of `do_http_response`.  The loop over the lines behind the first one, which are only
printed, is in `Headers`.
-/

namespace NetPractice.MiniHttpd

open NetPractice.Text

/-- The size of `buf`. -/
def BUF_SIZE : Nat := 256

/-- The size of `method`. -/
def METHOD_SIZE : Nat := 16

/-- The size of `url`. -/
def URL_SIZE : Nat := 256

/-- What `read` gives for one byte. -/
inductive Read where
  | byte (byte : Byte)
  | closed
  | failed
  deriving DecidableEq, Repr

/-- How the loop of `get_line` ends: with an LF, with a full buffer, or with an end of file
or an error. -/
inductive Exit where
  | newline
  | full
  | ended
  deriving DecidableEq, Repr

/-- What a call of `get_line` returns and stores, how its loop ends, and what is left of the
stream. -/
structure Taken where
  count : Nat
  buf : List Byte
  exit : Exit
  rest : List Byte
  deriving DecidableEq, Repr

/-- The loop of `get_line` on the bytes that `read` gives one by one, until it gives none. -/
def getLineFrom (size : Nat) : List Byte → Nat → List Byte → Taken
  | [], count, buf => ⟨count, buf, if count < size - 1 then .ended else .full, []⟩
  | byte :: bytes, count, buf =>
      if count < size - 1 then
        if byte = CR then getLineFrom size bytes count buf
        else if byte = LF then ⟨count, buf.set count 0, .newline, bytes⟩
        else getLineFrom size bytes (count + 1) (buf.set count byte)
      else ⟨count, buf, .full, byte :: bytes⟩

/-- The bytes in front of an end of file or an error, and whether there is one. -/
def received : List Read → List Byte × Bool
  | [] => ([], false)
  | .byte byte :: answers => (byte :: (received answers).1, (received answers).2)
  | .closed :: _ | .failed :: _ => ([], true)

/-- The loop of `get_line`, with the bytes that it has counted, and the buffer.  There is no
result while `read` waits. -/
def getLineLoop (size : Nat) (answers : List Read) (count : Nat) (buf : List Byte) :
    Option (Nat × List Byte) :=
  let taken := getLineFrom size (received answers).1 count buf
  if taken.exit = .ended ∧ (received answers).2 = false then none
  else some (taken.count, taken.buf)

/-- `get_line(sock, buf, sizeof(buf))`.  `memory` is `buf` with the bytes behind it. -/
def getLine (answers : List Read) (memory : List Byte) : Option (Nat × List Byte) :=
  getLineLoop BUF_SIZE answers 0 memory

/-- The loops that copy `buf` to `method` and `url`, up to a space or the end of the
array: the copied bytes, and `buf` behind them.  There is no result when the loop runs
out of the memory. -/
def copyWord : Nat → List Byte → Option (List Byte × List Byte)
  | _, [] => none
  | 0, byte :: rest => some ([], byte :: rest)
  | room + 1, byte :: rest =>
      if isSpace byte then some ([], byte :: rest)
      else (copyWord room rest).map fun (word, rest) => (byte :: word, rest)

/-- `while(isspace(buf[++j]))`. -/
def skipSpaces : List Byte → Option (List Byte)
  | [] => none
  | _ :: rest => if (rest.dropWhile isSpace).isEmpty then none else some (rest.dropWhile isSpace)

/-- A call with a path of the file system. -/
inductive FileCall where
  | stat (path : List Byte)
  | fopen (path : List Byte)
  deriving DecidableEq, Repr

/-- The path that the call is made with. -/
def FileCall.path : FileCall → List Byte
  | .stat path => path
  | .fopen path => path

/-- `./htdocs`, in front of the URL. -/
def docRoot : List Byte := ascii "./htdocs"

/-- `do_http_response(client_sock, url)`: the calls with its paths, also where they are
longer than the array `path`.  `stat` tells whether a file is a directory; `before` is the
byte in front of `url`, which the last byte of an empty URL is. -/
def doHttpResponse (stat : List Byte → Option Bool) (before : Byte) (url : List Byte) :
    List FileCall :=
  let path := docRoot ++ url
  let path := if url.getLast?.getD before = 47 then path ++ ascii "index.html" else path
  match stat path with
  | none => [.stat path]
  | some isDir => [.stat path, .fopen (if isDir then path ++ ascii "/index.html" else path)]

/-- How `do_http_request` ends. -/
inductive Outcome where
  | badRequest
  | unimplemented
  | accepted (calls : List FileCall)
  deriving DecidableEq, Repr

/-- `do_http_request(client)`.  There is no result while a byte of the first line is
missing, or when the loops run out of the memory. -/
def doHttpRequest (stat : List Byte → Option Bool) (before : Byte) (answers : List Read)
    (memory : List Byte) : Option Outcome :=
  (getLine answers memory).bind fun (len, memory) =>
    if len > 0 then
      (copyWord (METHOD_SIZE - 1) memory).bind fun (method, rest) =>
        if strcasecmp (cstr method) (ascii "GET") then
          (skipSpaces rest).bind fun rest =>
            (copyWord (URL_SIZE - 1) rest).map fun (url, _) =>
              .accepted (doHttpResponse stat before (cstr url))
        else some .unimplemented
    else some .badRequest

end NetPractice.MiniHttpd
