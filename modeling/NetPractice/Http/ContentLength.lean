import NetPractice.Http.Response
import NetPractice.RequestReader.Segmentation

/-!
# The form of a response

What `process_write` prepares is a status line, header lines, an empty line and a body, and
always fits into `m_write_buf`.  The length of the body passes through the `int` parameter of
`add_headers`, so that the `Content-Length` of a file is its size below two gigabytes only.
-/

namespace NetPractice.Http

open NetPractice.Text
open NetPractice.RequestReader (plain_append_inj crlf_ends)

/-- The name of the header with the length of the body. -/
def contentLengthName : List Byte := ascii "Content-Length: "

/-- A status line, header lines, an empty line and a body; there is one `Content-Length`
header, with the length of that body in decimal digits. -/
def WellFormed (bytes : List Byte) : Prop :=
  ∃ (status : Nat) (title : List Byte) (headers : List (List Byte)) (body : List Byte),
    bytes = wire ((ascii "HTTP/1.1 " ++ decimal status ++ 32 :: title) :: headers ++ [[]]) ++ body ∧
      Plain title ∧ (∀ header ∈ headers, Plain header ∧ header ≠ []) ∧
      headers.filter (contentLengthName.isPrefixOf ·) = [contentLengthName ++ decimal body.length]

/-- The results that `process_write` answers. -/
def HttpCode.Answered : HttpCode → Prop
  | .internalError | .badRequest | .noResource | .forbiddenRequest | .fileRequest => True
  | .noRequest | .getRequest | .closedConnection => False

/-! ## The head of a byte string -/

theorem plain_append {first second : List Byte} (plain : Plain first) (plain' : Plain second) :
    Plain (first ++ second) := by
  intro byte mem
  rcases List.mem_append.mp mem with mem | mem
  · exact plain byte mem
  · exact plain' byte mem

theorem plain_decimal (value : Nat) : Plain (decimal value) := by
  intro byte mem
  have digit := isDigit_of_mem_decimal mem
  constructor
  · rintro rfl
    exact absurd digit (by decide)
  · rintro rfl
    exact absurd digit (by decide)

theorem plain_statusLine {title : List Byte} (plain : Plain title) (status : Nat) :
    Plain (ascii "HTTP/1.1 " ++ decimal status ++ 32 :: title) := by
  apply plain_append
  · exact plain_append (by decide +kernel) (plain_decimal status)
  · exact List.forall_mem_cons.mpr ⟨by decide +kernel, plain⟩

/-- The lines in front of the first empty line, and what is behind it, are determined. -/
theorem wire_headers_inj {headers headers' : List (List Byte)} {body body' : List Byte}
    (plain : ∀ header ∈ headers, Plain header ∧ header ≠ [])
    (plain' : ∀ header ∈ headers', Plain header ∧ header ≠ [])
    (equal : wire (headers ++ [[]]) ++ body = wire (headers' ++ [[]]) ++ body') :
    headers = headers' ∧ body = body' := by
  have line : ∀ (header : List Byte) (rest : List (List Byte)) (body : List Byte),
      wire (header :: rest) ++ body = header ++ CR :: LF :: (wire rest ++ body) := by
    intro header rest body
    rw [wire_cons, List.append_assoc]
    rfl
  induction headers generalizing headers' with
  | nil =>
      cases headers' with
      | nil => exact ⟨rfl, List.append_cancel_left equal⟩
      | cons header headers' =>
          rw [List.nil_append, List.cons_append, line, line] at equal
          rcases List.forall_mem_cons.mp plain' with ⟨⟨plainHeader, nonempty⟩, -⟩
          have same := plain_append_inj (by simp [Plain]) plainHeader (crlf_ends _) (crlf_ends _)
            equal
          exact absurd same.1.symm nonempty
  | cons header headers ih =>
      rcases List.forall_mem_cons.mp plain with ⟨⟨plainHeader, nonempty⟩, others⟩
      cases headers' with
      | nil =>
          rw [List.nil_append, List.cons_append, line, line] at equal
          have same := plain_append_inj plainHeader (by simp [Plain]) (crlf_ends _) (crlf_ends _)
            equal
          exact absurd same.1 nonempty
      | cons header' headers' =>
          rcases List.forall_mem_cons.mp plain' with ⟨⟨plainHeader', -⟩, others'⟩
          rw [List.cons_append, List.cons_append, line, line] at equal
          rcases plain_append_inj plainHeader plainHeader' (crlf_ends _) (crlf_ends _) equal with
            ⟨rfl, rest⟩
          have behind : wire (headers ++ [[]]) ++ body = wire (headers' ++ [[]]) ++ body' :=
            List.tail_eq_of_cons_eq (List.tail_eq_of_cons_eq rest)
          rcases ih others others' behind with ⟨rfl, rfl⟩
          exact ⟨rfl, rfl⟩

namespace HttpConn

/-! ## Filling the write buffer -/

/-- The states of `http_conn` between calls of `add_response`. -/
inductive Appended (c : HttpConn) : HttpConn → Prop where
  | start : Appended c c
  | append {d : HttpConn} (text : List Byte) (before : Appended c d) :
      Appended c (d.addResponse text).2

theorem addResponse_room {c : HttpConn} (room : c.writeBuf.length ≤ WRITE_BUFFER_SIZE - 1)
    (text : List Byte) : (c.addResponse text).2.writeBuf.length ≤ WRITE_BUFFER_SIZE - 1 := by
  unfold addResponse
  by_cases full : WRITE_BUFFER_SIZE ≤ c.writeBuf.length
  · rw [if_pos full]
    exact room
  · rw [if_neg full]
    by_cases long : WRITE_BUFFER_SIZE - 1 - c.writeBuf.length ≤ text.length
    · rw [if_pos long]
      exact room
    · rw [if_neg long]
      dsimp only
      rw [List.length_append]
      omega

/-- Nothing is written behind the end of `m_write_buf`. -/
theorem Appended.room {c d : HttpConn} (appended : Appended c d) (empty : c.writeBuf = []) :
    d.writeBuf.length ≤ WRITE_BUFFER_SIZE - 1 := by
  induction appended with
  | start =>
      rw [empty]
      exact Nat.zero_le _
  | append text _ ih => exact addResponse_room ih text

theorem addResponse_eq {c : HttpConn} (text : List Byte)
    (room : c.writeBuf.length + text.length < WRITE_BUFFER_SIZE - 1) :
    c.addResponse text = (true, { c with writeBuf := c.writeBuf ++ text }) := by
  unfold addResponse
  rw [if_neg (by omega), if_neg (by omega)]

theorem formatInt_natCast (value : Nat) : formatInt value = decimal value := by
  unfold formatInt
  rw [if_neg (Int.not_lt.mpr (Int.natCast_nonneg value))]
  rfl

/-- An `int` has a sign and ten digits at most. -/
theorem length_formatInt_toInt (value : Int) : (formatInt (toInt value)).length ≤ 11 := by
  have range : (toInt value).natAbs < 10 ^ 10 := by
    unfold toInt
    rw [Int.bmod_def]
    omega
  have digits := length_decimal_le (by decide : 0 < 10) range
  change (if toInt value < 0 then 45 :: decimal (toInt value).natAbs
    else decimal (toInt value).natAbs).length ≤ 11
  split
  · rw [List.length_cons]
    omega
  · omega

theorem plain_formatInt (value : Int) : Plain (formatInt value) := by
  change Plain (if value < 0 then 45 :: decimal value.natAbs else decimal value.natAbs)
  split
  · exact List.forall_mem_cons.mpr ⟨by decide +kernel, plain_decimal _⟩
  · exact plain_decimal _

/-- The header lines of a response. -/
def headerLines (linger : Bool) (contentLen : Int) : List (List Byte) :=
  [contentLengthName ++ formatInt (toInt contentLen),
    ascii "Connection: " ++ if linger then ascii "keep-alive" else ascii "close"]

/-- The status line, the header lines and the empty line. -/
def headBytes (status : Nat) (title : List Byte) (linger : Bool) (contentLen : Int) : List Byte :=
  wire ((ascii "HTTP/1.1 " ++ decimal status ++ 32 :: title) ::
    headerLines linger contentLen ++ [[]])

theorem headerLines_plain (linger : Bool) (contentLen : Int) :
    ∀ header ∈ headerLines linger contentLen, Plain header ∧ header ≠ [] := by
  have named : ∀ rest, contentLengthName ++ rest ≠ [] := by
    intro rest empty
    exact absurd (List.append_eq_nil_iff.mp empty).1 (by decide +kernel)
  have connection : ∀ linger : Bool, Plain (ascii "Connection: " ++
      if linger then ascii "keep-alive" else ascii "close") ∧
      (ascii "Connection: " ++ if linger then ascii "keep-alive" else ascii "close") ≠ [] := by
    decide +kernel
  intro header mem
  rcases List.mem_cons.mp mem with rfl | mem
  · exact ⟨plain_append (by decide +kernel) (plain_formatInt _), named _⟩
  · obtain rfl := List.mem_singleton.mp mem
    exact connection linger

theorem headerLines_filter (linger : Bool) (contentLen : Int) :
    (headerLines linger contentLen).filter (contentLengthName.isPrefixOf ·) =
      [contentLengthName ++ formatInt (toInt contentLen)] := by
  have first : contentLengthName.isPrefixOf (contentLengthName ++ formatInt (toInt contentLen)) :=
    List.isPrefixOf_iff_prefix.mpr (List.prefix_append _ _)
  have second : ∀ linger : Bool, contentLengthName.isPrefixOf (ascii "Connection: " ++
      if linger then ascii "keep-alive" else ascii "close") = false := by
    decide +kernel
  unfold headerLines
  rw [List.filter_cons_of_pos first, List.filter_cons_of_neg (by rw [second linger]; nofun),
    List.filter_nil]

/-- A status line and the headers fit into an empty buffer. -/
theorem addHead_eq {c : HttpConn} (empty : c.writeBuf = []) (status : Nat) (title : List Byte)
    (short : (decimal status).length + title.length < 100) (contentLen : Int) :
    (c.addStatusLine status title).2.addHeaders contentLen =
        { c with writeBuf := headBytes status title c.linger contentLen } ∧
      (headBytes status title c.linger contentLen).length < 200 := by
  have size : WRITE_BUFFER_SIZE = 1024 := rfl
  have digits := length_formatInt_toInt contentLen
  have lengths : (ascii "HTTP/1.1 ").length = 9 ∧ contentLengthName.length = 16 ∧
      (ascii "Connection: ").length = 12 := by
    decide +kernel
  have value : ∀ linger : Bool,
      (if linger then ascii "keep-alive" else ascii "close").length ≤ 10 := by
    decide +kernel
  have linger := value c.linger
  have bytes_eq : headBytes status title c.linger contentLen =
      (ascii "HTTP/1.1" ++ ascii " " ++ formatInt status ++ ascii " " ++ title ++ ascii "\r\n") ++
        (ascii "Content-Length: " ++ formatInt (toInt contentLen) ++ ascii "\r\n") ++
        (ascii "Connection: " ++ (if c.linger then ascii "keep-alive" else ascii "close") ++
          ascii "\r\n") ++ ascii "\r\n" := by
    have crlf : ascii "\r\n" = [CR, LF] := by decide +kernel
    have start : ascii "HTTP/1.1 " = ascii "HTTP/1.1" ++ ascii " " := by decide +kernel
    have blank : ascii " " = [32] := by decide +kernel
    unfold headBytes headerLines contentLengthName
    rw [formatInt_natCast, crlf, start, blank]
    simp only [wire_cons, wire_nil, List.cons_append, List.nil_append, List.append_assoc]
  have total : (headBytes status title c.linger contentLen).length < 200 := by
    unfold headBytes headerLines
    simp only [wire_cons, wire_nil, List.cons_append, List.nil_append, List.length_append,
      List.length_cons, List.length_nil]
    omega
  refine ⟨?_, total⟩
  rw [bytes_eq] at total ⊢
  generalize status_eq : ascii "HTTP/1.1" ++ ascii " " ++ formatInt status ++ ascii " " ++ title ++
    ascii "\r\n" = statusLine at total ⊢
  generalize length_eq : ascii "Content-Length: " ++ formatInt (toInt contentLen) ++ ascii "\r\n" =
    contentLength at total ⊢
  simp only [List.length_append] at total
  unfold addStatusLine
  rw [status_eq, addResponse_eq _ (by rw [empty, List.length_nil]; omega), empty, List.nil_append]
  unfold addHeaders addContentLength
  rw [length_eq, addResponse_eq _ (by dsimp only; omega)]
  unfold addLinger
  dsimp only
  rw [addResponse_eq _ (by dsimp only; simp only [List.length_append]; omega)]
  unfold addBlankLine
  rw [addResponse_eq _ (by dsimp only; simp only [List.length_append]; omega)]

/-! ## The prepared response -/

/-- What `process_write` is asked to do, and what it has prepared: a well-formed response,
and nothing behind the end of the buffer at any time.  `file` has the bytes of the mapped
file. -/
structure WellAnswered (c : HttpConn) (code : HttpCode) (file : List Byte) : Prop where
  answered : (c.processWrite code).1 = true
  formed : WellFormed ((c.processWrite code).2.iv.flatMap
    (IoVec.bytes (c.processWrite code).2.writeBuf file))
  appended : ∃ d, Appended c d ∧
    (c.processWrite code).2 = { d with iv := (c.processWrite code).2.iv }
  room : ∀ d, Appended c d → d.writeBuf.length ≤ WRITE_BUFFER_SIZE - 1

theorem headBytes_wellFormed {status : Nat} {title : List Byte} (plain : Plain title)
    (linger : Bool) {contentLen : Int} {body : List Byte}
    (length_eq : formatInt (toInt contentLen) = decimal body.length) :
    WellFormed (headBytes status title linger contentLen ++ body) := by
  refine ⟨status, title, headerLines linger contentLen, body, rfl, plain,
    headerLines_plain linger contentLen, ?_⟩
  rw [headerLines_filter, length_eq]

/-- The response has no other form. -/
theorem wellFormed_headBytes {status : Nat} {title : List Byte} (plain : Plain title)
    {linger : Bool} {contentLen : Int} {body : List Byte}
    (formed : WellFormed (headBytes status title linger contentLen ++ body)) :
    formatInt (toInt contentLen) = decimal body.length := by
  rcases formed with ⟨status', title', headers, body', equal, plain', plainHeaders, length_eq⟩
  have split : ∀ (first : List Byte) (lines : List (List Byte)) (body : List Byte),
      wire (first :: lines ++ [[]]) ++ body =
        first ++ CR :: LF :: (wire (lines ++ [[]]) ++ body) := by
    intro first lines body
    rw [List.cons_append, wire_cons, List.append_assoc]
    rfl
  unfold headBytes at equal
  rw [split, split] at equal
  have behind := (plain_append_inj (plain_statusLine plain status) (plain_statusLine plain' status')
    (crlf_ends _) (crlf_ends _) equal).2
  rcases wire_headers_inj (headerLines_plain linger contentLen) plainHeaders
    (List.tail_eq_of_cons_eq (List.tail_eq_of_cons_eq behind)) with ⟨rfl, rfl⟩
  rw [headerLines_filter] at length_eq
  exact List.append_cancel_left (List.singleton_inj.mp length_eq)

section Answer

variable {c : HttpConn} {file : List Byte}

theorem appended_addHead (c : HttpConn) (status : Int) (title : List Byte) (contentLen : Int) :
    Appended c ((c.addStatusLine status title).2.addHeaders contentLen) :=
  .append _ (.append _ (.append _ (.append _ .start)))

theorem addPage_wellAnswered {code : HttpCode} (empty : c.writeBuf = []) (status : Nat)
    (title form : List Byte) (page : c.processWrite code = c.addPage status title form)
    (plain : Plain title) (short : (decimal status).length + title.length < 100)
    (shortForm : form.length < 500) : WellAnswered c code file := by
  rcases addHead_eq empty status title short (form.length : Int) with ⟨head_eq, headLength⟩
  have size : WRITE_BUFFER_SIZE = 1024 := rfl
  have content := addResponse_eq
    (c := { c with writeBuf := headBytes status title c.linger form.length }) form
    (by dsimp only; omega)
  have result : c.processWrite code = (true, { c with
      writeBuf := headBytes status title c.linger form.length ++ form
      iv := [.writeBuf (headBytes status title c.linger form.length ++ form).length] }) := by
    rw [page, addPage, head_eq, addContent, content]
    rfl
  constructor
  · rw [result]
  · rw [result]
    simp only [List.flatMap_singleton, IoVec.bytes, List.take_length]
    apply headBytes_wellFormed plain
    rw [toInt_of_range (by omega) (by omega), formatInt_natCast]
  · refine ⟨(((c.addStatusLine status title).2.addHeaders form.length).addResponse form).2,
      .append form (appended_addHead c status title form.length), ?_⟩
    rw [result, head_eq, content]
  · exact fun d appended => appended.room empty

/-- The file response, for any size of the file. -/
theorem file_wellAnswered_iff (empty : c.writeBuf = [])
    (file_eq : (file.length : Int) = c.fileStat.size) (nonempty : c.fileStat.size ≠ 0) :
    WellAnswered c .fileRequest file ↔ c.fileStat.size < 2 ^ 31 := by
  have plain : Plain ok200Title := by decide +kernel
  rcases addHead_eq empty 200 ok200Title (by decide +kernel) c.fileStat.size with
    ⟨head_eq, -⟩
  have result : c.processWrite .fileRequest = (true, { c with
      writeBuf := headBytes 200 ok200Title c.linger c.fileStat.size
      iv := [.writeBuf (headBytes 200 ok200Title c.linger c.fileStat.size).length,
        .mapping c.fileAddress c.fileStat.size] }) := by
    rw [processWrite, if_pos nonempty]
    dsimp only
    rw [show (200 : Int) = (200 : Nat) from rfl, head_eq]
  have bytes_eq : (c.processWrite .fileRequest).2.iv.flatMap
      (IoVec.bytes (c.processWrite .fileRequest).2.writeBuf file) =
        headBytes 200 ok200Title c.linger c.fileStat.size ++ file := by
    rw [result]
    simp only [List.flatMap_cons, List.flatMap_nil, IoVec.bytes, List.take_length, List.append_nil]
  constructor
  · -- the printed length is that of the file only if the conversion to `int` keeps it
    intro answered
    have formed := answered.formed
    rw [bytes_eq] at formed
    have printed := wellFormed_headBytes plain formed
    by_cases negative : toInt c.fileStat.size < 0
    · rw [formatInt, if_pos negative] at printed
      have mem : (45 : Byte) ∈ decimal file.length := by
        rw [← printed]
        exact List.mem_cons_self
      exact absurd (isDigit_of_mem_decimal mem) (by decide)
    · have same : toInt c.fileStat.size = (toInt c.fileStat.size).toNat := by omega
      rw [same, formatInt_natCast] at printed
      have length_eq := decimal_injective printed
      have range : toInt c.fileStat.size < 2 ^ 31 := by
        unfold toInt
        rw [Int.bmod_def]
        omega
      omega
  · intro small
    constructor
    · rw [result]
    · rw [bytes_eq]
      apply headBytes_wellFormed plain
      rw [toInt_of_range (by omega) small, ← file_eq, formatInt_natCast]
    · refine ⟨(c.addStatusLine 200 ok200Title).2.addHeaders c.fileStat.size,
        appended_addHead c 200 ok200Title c.fileStat.size, ?_⟩
      rw [result, show (200 : Int) = (200 : Nat) from rfl, head_eq]
    · exact fun d appended => appended.room empty

end Answer

end HttpConn

/-- For every result that it answers and every file, what `process_write` prepares in an empty
buffer is well formed and fits if and only if it is no file of two gigabytes or more. -/
theorem processWrite_wellAnswered_iff {c : HttpConn} {code : HttpCode} {file : List Byte}
    (answers : code.Answered) (empty : c.writeBuf = [])
    (file_eq : (file.length : Int) = c.fileStat.size) :
    c.WellAnswered code file ↔ (code = .fileRequest → c.fileStat.size < 2 ^ 31) := by
  cases code with
  | internalError =>
      exact iff_of_true (HttpConn.addPage_wellAnswered empty 500 error500Title error500Form rfl
        (by decide +kernel) (by decide +kernel) (by decide +kernel))
        nofun
  | badRequest =>
      exact iff_of_true (HttpConn.addPage_wellAnswered empty 400 error400Title error400Form rfl
        (by decide +kernel) (by decide +kernel) (by decide +kernel))
        nofun
  | noResource =>
      exact iff_of_true (HttpConn.addPage_wellAnswered empty 404 error404Title error404Form rfl
        (by decide +kernel) (by decide +kernel) (by decide +kernel))
        nofun
  | forbiddenRequest =>
      exact iff_of_true (HttpConn.addPage_wellAnswered empty 403 error403Title error403Form rfl
        (by decide +kernel) (by decide +kernel) (by decide +kernel))
        nofun
  | fileRequest =>
      by_cases nonempty : c.fileStat.size = 0
      · have page : c.processWrite .fileRequest = c.addPage 200 ok200Title okString := by
          rw [HttpConn.processWrite, if_neg (not_not.mpr nonempty)]
        refine iff_of_true (HttpConn.addPage_wellAnswered empty 200 ok200Title okString page
          (by decide +kernel) (by decide +kernel) (by decide +kernel)) fun _ => ?_
        rw [nonempty]
        decide +kernel
      · rw [HttpConn.file_wellAnswered_iff empty file_eq nonempty]
        exact ⟨fun small _ => small, fun small => small rfl⟩
  | noRequest | getRequest | closedConnection => exact answers.elim

/-- A connection in front of the response for a file of this size. -/
def sizedConn (size : Int) : HttpConn :=
  { zeroConn with fileStat := ⟨true, false, size⟩ }

/-- A small file. -/
theorem processWrite_wellAnswered_small :
    (sizedConn 5).WellAnswered .fileRequest (ascii "hello") :=
  (processWrite_wellAnswered_iff (show HttpCode.fileRequest.Answered from trivial) rfl rfl).mpr
    fun _ => by decide

/-- A file of four gigabytes and five bytes is announced with five bytes. -/
theorem hugeFile_not_wellAnswered :
    HttpCode.fileRequest.Answered ∧ (sizedConn (2 ^ 32 + 5)).writeBuf = [] ∧
      ((List.replicate (2 ^ 32 + 5) (97 : Byte)).length : Int) =
        (sizedConn (2 ^ 32 + 5)).fileStat.size ∧
      ((sizedConn (2 ^ 32 + 5)).processWrite .fileRequest).2.writeBuf =
        ascii "HTTP/1.1 200 OK\r\nContent-Length: 5\r\nConnection: close\r\n\r\n" ∧
      ¬ (sizedConn (2 ^ 32 + 5)).WellAnswered .fileRequest (List.replicate (2 ^ 32 + 5) 97) := by
  have length : ((List.replicate (2 ^ 32 + 5) (97 : Byte)).length : Int) =
      (sizedConn (2 ^ 32 + 5)).fileStat.size := by
    rw [List.length_replicate]
    rfl
  refine ⟨trivial, rfl, length, by decide +kernel, fun answered => ?_⟩
  have small := (HttpConn.file_wellAnswered_iff rfl length (by decide)).mp answered
  exact absurd small (by decide)

end NetPractice.Http
