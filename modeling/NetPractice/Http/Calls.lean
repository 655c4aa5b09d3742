import NetPractice.Http.Delivery
import NetPractice.Http.Parsing

/-!
# What a call does to a connection

The server's threads call `read`, `process_read`, `process_write` and `write` on
a connection.  The lemmas say what the calls do to the socket, the write buffer,
and the mapped file.
-/

namespace NetPractice.Http

open NetPractice.Text
open NetPractice.Socket

namespace HttpConn

/-! ## Reading and parsing -/

/-- The codes that `process_read` returns. -/
def ReadCode (code : HttpCode) : Prop :=
  code = .noRequest ∨ code = .badRequest ∨ code = .noResource ∨ code = .forbiddenRequest ∨
    code = .fileRequest

/-- `process_read` keeps the socket and the write buffer, and maps a file for a
file request. -/
structure Parsed (c d : HttpConn) (code : HttpCode) : Prop where
  sockfd : d.sockfd = c.sockfd
  writeBuf : d.writeBuf = c.writeBuf
  readCode : ReadCode code
  other : code ≠ .fileRequest → d.fileAddress = c.fileAddress
  file : code = .fileRequest → d.fileAddress ≠ 0 ∧
    (d.fileStat.size = 0 → d.fileAddress = MAP_FAILED)

/-- The fields that parsing a line keeps. -/
structure Kept (c d : HttpConn) : Prop where
  sockfd : d.sockfd = c.sockfd
  writeBuf : d.writeBuf = c.writeBuf
  fileAddress : d.fileAddress = c.fileAddress

theorem Kept.parsed {c d e : HttpConn} {code : HttpCode} (kept : Kept c d)
    (parsed : Parsed d e code) : Parsed c e code :=
  ⟨parsed.sockfd.trans kept.sockfd, parsed.writeBuf.trans kept.writeBuf, parsed.readCode,
    fun notFile => (parsed.other notFile).trans kept.fileAddress, parsed.file⟩

theorem Kept.noFile {c d : HttpConn} {code : HttpCode} (kept : Kept c d) (readCode : ReadCode code)
    (notFile : code ≠ .fileRequest) : Parsed c d code :=
  ⟨kept.sockfd, kept.writeBuf, readCode, fun _ => kept.fileAddress, fun file => absurd file notFile⟩

theorem Kept.waits {c d : HttpConn} (kept : Kept c d) : Parsed c d .noRequest :=
  kept.noFile (by simp [ReadCode]) (by simp)

theorem nextText_kept (c : HttpConn) (status : LineStatus) : Kept c (c.nextText status).2 := by
  unfold nextText
  split
  · exact ⟨rfl, rfl, rfl⟩
  · have frame := scanLine_frame (c.readIdx - c.checkedIdx) c
    change (c.parseLine).2 = _ at frame
    rw [frame]
    exact ⟨rfl, rfl, rfl⟩

theorem doRequest_parsed (c : HttpConn) (fs : FileSystem) :
    Parsed c (c.doRequest fs).2 (c.doRequest fs).1 := by
  unfold doRequest
  dsimp only
  split
  · exact ⟨rfl, rfl, by simp [ReadCode], fun _ => rfl, by simp⟩
  · split
    · exact ⟨rfl, rfl, by simp [ReadCode], fun _ => rfl, by simp⟩
    · split
      · exact ⟨rfl, rfl, by simp [ReadCode], fun _ => rfl, by simp⟩
      · refine ⟨rfl, rfl, by simp [ReadCode], fun notFile => absurd rfl notFile, fun _ => ?_⟩
        dsimp only
        split
        · exact ⟨by decide, fun _ => rfl⟩
        · rename_i nonempty
          refine ⟨?_, fun empty => absurd empty nonempty⟩
          generalize docRoot ++ _ = path
          cases mapped : fs.mmap path with
          | none => exact (by decide : MAP_FAILED ≠ 0)
          | some address => exact (fs.mapped path address mapped).1

/-- The body of the main loop, by how it ends. -/
def TurnParsed (c d : HttpConn) : Turn → Prop
  | .result code => Parsed c d code
  | .again _ => Kept c d

theorem Kept.trans {c d e : HttpConn} (first : Kept c d) (second : Kept d e) : Kept c e :=
  ⟨second.sockfd.trans first.sockfd, second.writeBuf.trans first.writeBuf,
    second.fileAddress.trans first.fileAddress⟩

theorem Kept.turnParsed {c d e : HttpConn} {turn : Turn} (kept : Kept c d)
    (parsed : TurnParsed d e turn) : TurnParsed c e turn := by
  cases turn with
  | result code => exact kept.parsed parsed
  | again status => exact kept.trans parsed

theorem onRequestLine_parsed (c : HttpConn) (text : Nat) :
    TurnParsed c (c.onRequestLine text).2 (c.onRequestLine text).1 := by
  have kept : Kept c (c.parseRequestLine text).2 := by
    rw [(parseRequestLine_spec c text).frame]
    exact ⟨rfl, rfl, rfl⟩
  unfold onRequestLine
  generalize c.parseRequestLine text = parsed at kept ⊢
  obtain ⟨code, d⟩ := parsed
  cases code with
  | badRequest => exact kept.noFile (by simp [ReadCode]) (by simp)
  | noRequest | getRequest | noResource | forbiddenRequest | fileRequest | internalError
  | closedConnection => exact kept

theorem onHeader_parsed (c : HttpConn) (fs : FileSystem) (text : Nat) :
    TurnParsed c (c.onHeader fs text).2 (c.onHeader fs text).1 := by
  have kept : Kept c (c.parseHeaders text).2 := by
    rw [(parseHeaders_spec c text).frame]
    exact ⟨rfl, rfl, rfl⟩
  unfold onHeader
  generalize c.parseHeaders text = parsed at kept ⊢
  obtain ⟨code, d⟩ := parsed
  cases code with
  | badRequest => exact kept.noFile (by simp [ReadCode]) (by simp)
  | getRequest => exact kept.parsed (d.doRequest_parsed fs)
  | noRequest | noResource | forbiddenRequest | fileRequest | internalError
  | closedConnection => exact kept

theorem onContent_parsed (c : HttpConn) (fs : FileSystem) (text : Nat) :
    TurnParsed c (c.onContent fs text).2 (c.onContent fs text).1 := by
  unfold onContent parseContent
  by_cases complete : toInt (c.contentLength + c.checkedIdx) ≤ c.readIdx
  · rw [if_pos complete]
    have kept : Kept c (c.store (text + c.contentLength)) := ⟨rfl, rfl, rfl⟩
    exact kept.parsed (doRequest_parsed _ fs)
  · rw [if_neg complete]
    exact ⟨rfl, rfl, rfl⟩

theorem handleText_parsed (c : HttpConn) (fs : FileSystem) :
    TurnParsed c (c.handleText fs).2 (c.handleText fs).1 := by
  have kept : Kept c { c with startLine := c.checkedIdx } := ⟨rfl, rfl, rfl⟩
  cases state : c.checkState with
  | requestLine =>
      rw [handleText_requestLine state]
      exact kept.turnParsed (onRequestLine_parsed _ _)
  | header =>
      rw [handleText_header state]
      exact kept.turnParsed (onHeader_parsed _ _ _)
  | content =>
      rw [handleText_content state]
      exact kept.turnParsed (onContent_parsed _ _ _)

theorem processLoop_parsed (fs : FileSystem) (fuel : Nat) (status : LineStatus) (c : HttpConn) :
    Parsed c (processLoop fs fuel status c).2 (processLoop fs fuel status c).1 := by
  induction fuel generalizing status c with
  | zero => exact Kept.waits ⟨rfl, rfl, rfl⟩
  | succ fuel ih =>
      have text := c.nextText_kept status
      rw [processLoop]
      generalize c.nextText status = next at text ⊢
      obtain ⟨status, d⟩ := next
      cases status with
      | bad | «open» => exact text.waits
      | ok =>
          have body := d.handleText_parsed fs
          dsimp only
          generalize d.handleText fs = handled at body ⊢
          obtain ⟨turn, e⟩ := handled
          cases turn with
          | result code => exact text.parsed body
          | again status => exact text.parsed (Kept.parsed body (ih status e))

theorem processRead_parsed (c : HttpConn) (fs : FileSystem) :
    Parsed c (c.processRead fs).2 (c.processRead fs).1 :=
  processLoop_parsed fs c.loopFuel .ok c

/-! ## Filling the write buffer -/

theorem addResponse_frame (c : HttpConn) (text : List Byte) :
    (c.addResponse text).2 = { c with writeBuf := (c.addResponse text).2.writeBuf } := by
  unfold addResponse
  split
  · rfl
  · split <;> rfl

theorem addResponse_length (c : HttpConn) (text : List Byte) :
    (c.addResponse text).2.writeBuf.length ≤ c.writeBuf.length + text.length := by
  unfold addResponse
  split
  · exact Nat.le_add_right _ _
  · split
    · exact Nat.le_add_right _ _
    · exact List.length_append.le

/-- `process_write` fills the write buffer and the blocks. -/
structure Filled (c d : HttpConn) : Prop where
  frame : d = { c with writeBuf := d.writeBuf, iv := d.iv }

theorem Filled.trans {c d e : HttpConn} (first : Filled c d) (second : Filled d e) :
    Filled c e := by
  refine ⟨?_⟩
  rw [second.frame, first.frame]

theorem addResponse_filled (c : HttpConn) (text : List Byte) :
    Filled c (c.addResponse text).2 := by
  refine ⟨?_⟩
  rw [addResponse_frame]

theorem addHeaders_filled (c : HttpConn) (contentLen : Int) : Filled c (c.addHeaders contentLen) :=
  ((addResponse_filled _ _).trans (addResponse_filled _ _)).trans (addResponse_filled _ _)

theorem addPage_filled (c : HttpConn) (status : Int) (title form : List Byte) :
    Filled c (c.addPage status title form).2 := by
  have headers : Filled c ((c.addStatusLine status title).2.addHeaders form.length) :=
    (addResponse_filled c _).trans (addHeaders_filled _ _)
  have content := headers.trans (addResponse_filled _ form)
  unfold addPage addContent
  dsimp only
  split <;> rename_i added <;> rw [added] at content
  · exact content.trans ⟨rfl⟩
  · exact content

theorem processWrite_filled (c : HttpConn) (code : HttpCode) :
    Filled c (c.processWrite code).2 := by
  cases code with
  | internalError | badRequest | noResource | forbiddenRequest =>
      rw [processWrite]
      exact addPage_filled _ _ _ _
  | noRequest | getRequest | closedConnection => exact ⟨rfl⟩
  | fileRequest =>
      rw [processWrite]
      split
      · have headers : Filled c ((c.addStatusLine 200 ok200Title).2.addHeaders c.fileStat.size) :=
          (addResponse_filled c _).trans (addHeaders_filled _ _)
        exact headers.trans ⟨rfl⟩
      · exact addPage_filled _ _ _ _

theorem length_formatInt {value : Int} (lower : -2 ^ 31 ≤ value) (upper : value < 2 ^ 31) :
    (formatInt value).length ≤ 11 := by
  have digits : (Nat.toDigits 10 value.natAbs).length ≤ 10 :=
    (Nat.length_toDigits_le_iff (by decide) (by decide)).mpr (by omega)
  unfold formatInt
  dsimp only
  split <;> simp only [List.length_cons, List.length_map] <;> omega

theorem toInt_range (value : Int) : -2 ^ 31 ≤ toInt value ∧ toInt value < 2 ^ 31 := by
  unfold toInt
  rw [Int.bmod_def]
  omega

theorem addHeaders_length (c : HttpConn) (contentLen : Int) :
    (c.addHeaders contentLen).writeBuf.length ≤ c.writeBuf.length + 55 := by
  have digits := length_formatInt (toInt_range contentLen).1 (toInt_range contentLen).2
  have length : (ascii "Content-Length: " ++ formatInt (toInt contentLen) ++
      ascii "\r\n").length ≤ 29 := by
    have lengths : (ascii "Content-Length: ").length = 16 ∧ (ascii "\r\n").length = 2 := by decide
    simp only [List.length_append]
    omega
  have linger : ∀ keep : Bool, (ascii "Connection: " ++
      (if keep then ascii "keep-alive" else ascii "close") ++ ascii "\r\n").length ≤ 24 := by
    decide
  have blank : (ascii "\r\n").length = 2 := by decide
  have first : c.addContentLength (toInt contentLen) = c.addResponse
    (ascii "Content-Length: " ++ formatInt (toInt contentLen) ++ ascii "\r\n") := rfl
  unfold addHeaders
  rw [first]
  have firstLength := addResponse_length c
    (ascii "Content-Length: " ++ formatInt (toInt contentLen) ++ ascii "\r\n")
  generalize (c.addResponse _).2 = d at firstLength ⊢
  have secondLength := (addResponse_length d (ascii "Connection: " ++
    (if d.linger then ascii "keep-alive" else ascii "close") ++ ascii "\r\n")).trans
      (Nat.add_le_add_left (linger d.linger) _)
  change d.addLinger.2.writeBuf.length ≤ _ at secondLength
  have thirdLength := addResponse_length d.addLinger.2 (ascii "\r\n")
  change d.addLinger.2.addBlankLine.2.writeBuf.length ≤ _ at thirdLength
  omega

theorem addStatusLine_length {c : HttpConn} (empty : c.writeBuf = []) {status : Int}
    {title : List Byte} (short : (formatInt status).length + title.length < 100) :
    (c.addStatusLine status title).2.writeBuf.length ≤ 112 := by
  have lengths : (ascii "HTTP/1.1").length = 8 ∧ (ascii " ").length = 1 ∧
      (ascii "\r\n").length = 2 := by
    decide
  have line := addResponse_length c (ascii "HTTP/1.1" ++ ascii " " ++ formatInt status ++
    ascii " " ++ title ++ ascii "\r\n")
  simp only [empty, List.length_nil, List.length_append] at line
  change (c.addStatusLine status title).2.writeBuf.length ≤ _ at line
  omega

/-- A short page fits into an empty buffer. -/
theorem addPage_fits {c : HttpConn} (empty : c.writeBuf = []) {status : Int}
    {title form : List Byte} (short : (formatInt status).length + title.length < 100)
    (shortForm : form.length < 500) : (c.addPage status title form).1 = true := by
  have size : WRITE_BUFFER_SIZE = 1024 := rfl
  have line := addStatusLine_length empty short
  have headers := addHeaders_length (c.addStatusLine status title).2 form.length
  unfold addPage addContent
  dsimp only
  generalize (c.addStatusLine status title).2.addHeaders form.length = d at headers ⊢
  unfold addResponse
  rw [if_neg (by omega), if_neg (by omega)]

/-- Every result of `process_read` has an answer, if nothing has been written. -/
theorem processWrite_fits {c : HttpConn} {code : HttpCode} (empty : c.writeBuf = [])
    (readCode : ReadCode code) (hasResult : code ≠ .noRequest) :
    (c.processWrite code).1 = true := by
  rcases readCode with rfl | rfl | rfl | rfl | rfl
  · exact absurd rfl hasResult
  · rw [processWrite]
    exact addPage_fits empty (by decide) (by decide)
  · rw [processWrite]
    exact addPage_fits empty (by decide) (by decide)
  · rw [processWrite]
    exact addPage_fits empty (by decide) (by decide)
  · rw [processWrite]
    split
    · rfl
    · exact addPage_fits empty (by decide) (by decide)

theorem addPage_blocks {c d : HttpConn} {status : Int} {title form : List Byte}
    (page : c.addPage status title form = (true, d)) : d.iv.length = 1 := by
  unfold addPage at page
  dsimp only at page
  split at page
  · cases page
    rfl
  · cases page

/-- Only a file that is not empty takes a second block. -/
theorem processWrite_blocks {c d : HttpConn} {code : HttpCode}
    (filled : c.processWrite code = (true, d)) :
    d.iv.length = 2 ↔ code = .fileRequest ∧ c.fileStat.size ≠ 0 := by
  cases code with
  | internalError | badRequest | noResource | forbiddenRequest =>
      rw [processWrite] at filled
      simp [addPage_blocks filled]
  | noRequest | getRequest | closedConnection => cases filled
  | fileRequest =>
      rw [processWrite] at filled
      split at filled
      · rename_i nonempty
        cases filled
        exact ⟨fun _ => ⟨rfl, nonempty⟩, fun _ => rfl⟩
      · rename_i empty
        rw [addPage_blocks filled]
        exact ⟨fun two => absurd two (by decide), fun file => absurd file.2 empty⟩

theorem Prepared.nonempty {c : HttpConn} (prepared : Prepared c) : c.writeBuf ≠ [] := by
  obtain ⟨rest, buffer, -⟩ := prepared.headed
  simp [buffer]

/-! ## Writing -/

/-- The three ways in which `write` ends with something to send, by the last
answer of `writev`. -/
inductive WriteCase (c : HttpConn) (answers : List Send) : Written → Prop where
  | waits (last : answers.getLast? = some .again) :
      WriteCase c answers ⟨true, c, some .epollout, none⟩
  | finished (last : answers.getLast? ≠ some .again) : WriteCase c answers c.finishWrite
  | failed (last : answers.getLast? ≠ some .again) :
      WriteCase c answers ⟨false, c.unmap.2, none, c.unmap.1⟩

theorem WriteCase.cons {c : HttpConn} {first next : Send} {answers : List Send}
    {written : Written} (rest : WriteCase c (next :: answers) written) :
    WriteCase c (first :: next :: answers) written := by
  cases rest with
  | waits last => exact .waits (by rwa [List.getLast?_cons_cons])
  | finished last => exact .finished (by rwa [List.getLast?_cons_cons])
  | failed last => exact .failed (by rwa [List.getLast?_cons_cons])

theorem writeLoop_cases {c : HttpConn} {bytesToSend : Int} {answers : List Send}
    {written : Written} (result : c.writeLoop bytesToSend answers = some written) :
    WriteCase c answers written := by
  induction answers generalizing bytesToSend with
  | nil => cases result
  | cons answer answers ih =>
      cases answer with
      | taken count =>
          simp only [writeLoop, Option.ite_none_right_eq_some] at result
          obtain ⟨-, result⟩ := result
          split at result
          · rw [Option.ite_none_right_eq_some, Option.some.injEq] at result
            obtain ⟨rfl, rfl⟩ := result
            exact .finished (by simp)
          · have rest := ih result
            cases answers with
            | nil => cases result
            | cons next answers => exact rest.cons
      | again =>
          simp only [writeLoop, Option.ite_none_right_eq_some, Option.some.injEq] at result
          obtain ⟨rfl, rfl⟩ := result
          exact .waits rfl
      | gone =>
          simp only [writeLoop, Option.ite_none_right_eq_some, Option.some.injEq] at result
          obtain ⟨rfl, rfl⟩ := result
          exact .failed (by simp)

theorem write_cases {c : HttpConn} {answers : List Send} {written : Written}
    (nonempty : c.writeBuf ≠ []) (result : c.write answers = some written) :
    WriteCase c answers written := by
  unfold write at result
  rw [if_neg (by simpa using nonempty)] at result
  exact writeLoop_cases result

theorem unmap_sockfd (c : HttpConn) : c.unmap.2.sockfd = c.sockfd := by
  unfold unmap
  split <;> rfl

theorem finishWrite_sockfd (c : HttpConn) : c.finishWrite.conn.sockfd = c.sockfd := by
  have unmapped := c.unmap_sockfd
  unfold finishWrite
  dsimp only
  split <;> exact unmapped

/-- A connection that is kept is initialised. -/
theorem finishWrite_init {c : HttpConn} (result : c.finishWrite.result = true) :
    ∃ b : HttpConn, c.finishWrite.conn = b.init := by
  unfold finishWrite at result ⊢
  generalize c.unmap = unmapped at result ⊢
  rcases unmapped with ⟨munmap, e⟩
  dsimp only at result ⊢
  split
  · exact ⟨e, rfl⟩
  · rename_i closes
    rw [if_neg closes] at result
    cases result

theorem finishWrite_munmap (c : HttpConn) : c.finishWrite.munmap = c.unmap.1 := by
  unfold finishWrite
  dsimp only
  split <;> rfl

/-- `write` keeps the socket, and waits for another event unless it fails. -/
theorem write_keeps {c : HttpConn} {answers : List Send} {written : Written}
    (result : c.write answers = some written) :
    written.conn.sockfd = c.sockfd ∧
      (written.result = true → ∃ event, written.interest = some event) := by
  by_cases empty : c.writeBuf = []
  · unfold write at result
    rw [if_pos (by simp [empty]), Option.ite_none_right_eq_some, Option.some.injEq] at result
    obtain ⟨-, rfl⟩ := result
    exact ⟨rfl, fun _ => ⟨_, rfl⟩⟩
  · cases write_cases empty result with
    | waits _ => exact ⟨rfl, fun _ => ⟨_, rfl⟩⟩
    | finished _ => exact ⟨c.finishWrite_sockfd, fun _ => ⟨_, c.finishWrite_interest⟩⟩
    | failed _ => exact ⟨c.unmap_sockfd, fun more => by cases more⟩

/-- A `write` that succeeds waits with the same object, or has completed the response
and initialised the object. -/
theorem write_continues {c : HttpConn} {answers : List Send} {written : Written}
    (wrote : c.write answers = some written) (result : written.result = true) :
    (written.interest = some .epollout ∧ written.conn = c) ∨
      (written.interest = some .epollin ∧ ∃ b : HttpConn, written.conn = b.init) := by
  by_cases empty : c.writeBuf = []
  · unfold write at wrote
    rw [if_pos (by simp [empty]), Option.ite_none_right_eq_some, Option.some.injEq] at wrote
    rcases wrote with ⟨-, rfl⟩
    exact Or.inr ⟨rfl, c, rfl⟩
  · cases write_cases empty wrote with
    | waits _ => exact Or.inl ⟨rfl, rfl⟩
    | finished _ => exact Or.inr ⟨c.finishWrite_interest, finishWrite_init result⟩
    | failed _ => cases result

theorem write_init {c : HttpConn} {answers : List Send} {written : Written}
    (wrote : c.write answers = some written) (result : written.result = true)
    (interest : written.interest = some .epollin) : ∃ b : HttpConn, written.conn = b.init := by
  rcases write_continues wrote result with ⟨waits, -⟩ | ⟨-, initialised⟩
  · rw [interest] at waits
    cases waits
  · exact initialised

/-- In front of the next request, the write buffer is empty. -/
theorem write_empty {c : HttpConn} {answers : List Send} {written : Written}
    (wrote : c.write answers = some written) (result : written.result = true)
    (interest : written.interest = some .epollin) : written.conn.writeBuf = [] := by
  rcases write_init wrote result interest with ⟨b, conn_eq⟩
  rw [conn_eq]
  rfl

end HttpConn

end NetPractice.Http
