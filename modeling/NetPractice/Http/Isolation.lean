import NetPractice.Http.BufferSafety
import NetPractice.Http.Calls
import NetPractice.Http.Segmentation

/-!
# Requests do not see each other

`init` leaves the mapped file, its status and the blocks of `m_iv` of the previous
request in the object.  A request sees none of them: `do_request` and
`process_write` set them before they are used.
-/

namespace NetPractice.Http

open NetPractice.Text
open NetPractice.Socket
open NetPractice.Transition

/-- A part of a response: text of the write buffer, or the beginning of a mapped
file; `unmapped` is a block for which `mmap` has failed. -/
inductive Block where
  | text (bytes : List Byte)
  | file (path : List Byte) (len : Int)
  | unmapped (len : Int)
  deriving DecidableEq, Repr

/-- Two states of the kernel with the same files; only the addresses of mappings
differ. -/
def SameFiles (fs other : FileSystem) : Prop :=
  fs.stat = other.stat ∧ ∀ path, (fs.mmap path).isSome = (other.mmap path).isSome

namespace HttpConn

/-- A block of `m_iv`, with the file that is mapped. -/
def block (c : HttpConn) : IoVec → Block
  | .writeBuf len => .text (c.writeBuf.take len)
  | .mapping address len => if address = MAP_FAILED then .unmapped len else .file c.realFile len

/-- The response that `process_write` has prepared. -/
def prepared (c : HttpConn) : List Block :=
  c.iv.map c.block

/-- What a client gets: the results of `process_read` behind each `read`, up to the
first one that is not `NO_REQUEST`, and the response; `none` when the connection is
closed without one. -/
def reply (fs : FileSystem) : HttpConn → List (List Recv) → Option (List HttpCode × List Block)
  | _, [] => some ([], [])
  | c, answers :: rest =>
      match c.read answers with
      | some (true, d) =>
          match d.processRead fs with
          | (.noRequest, e) =>
              (reply fs e rest).map fun (codes, blocks) => (.noRequest :: codes, blocks)
          | (code, e) =>
              if (e.processWrite code).1 then some ([code], (e.processWrite code).2.prepared)
              else none
      | _ => none

end HttpConn

/-! ## Histories of an object -/

/-- What is done with an object: the calls of `web_server.cpp`.  `close` is
`close_conn`. -/
inductive Use where
  | opened (sockfd : Fd)
  | read (answers : List Recv)
  | process (fs : FileSystem)
  | write (answers : List Send)
  | close

/-- An object with its history: `ready` is set behind `init`, when the connection has
been opened or a response has been completed. -/
structure Used where
  conn : HttpConn
  ready : Bool

namespace Used

/-- An object as `new` finds it in memory. -/
def start (c : HttpConn) : Used :=
  ⟨c, false⟩

/-- A use of the object, in any order. -/
def next (s : Used) : Use → Option Used
  | .opened sockfd => some ⟨s.conn.initSocket sockfd, true⟩
  | .read answers => (s.conn.read answers).map fun result => ⟨result.2, false⟩
  | .process fs =>
      let (code, c) := s.conn.processRead fs
      some ⟨if code = .noRequest then c else (c.processWrite code).2, false⟩
  | .write answers =>
      (s.conn.write answers).map fun written =>
        ⟨written.conn, written.result && (written.interest == some .epollin)⟩
  | .close => some ⟨{ s.conn with sockfd := -1 }, false⟩

end Used

namespace HttpConn

/-! ## What a request sees -/

/-- The object without what `init` leaves from earlier requests. -/
def view (c : HttpConn) : HttpConn :=
  { c with
    sockfd := 0
    readBuf := fun k => if k < READ_BUFFER_SIZE then c.readBuf k else 0
    fileAddress := 0
    fileStat := ⟨false, false, 0⟩
    iv := [] }

@[simp]
theorem view_readIdx (c : HttpConn) : c.view.readIdx = c.readIdx :=
  rfl

@[simp]
theorem view_checkedIdx (c : HttpConn) : c.view.checkedIdx = c.checkedIdx :=
  rfl

theorem view_init (c d : HttpConn) : c.init.view = d.init.view := by
  unfold view init
  congr 1
  funext k
  by_cases inside : k < READ_BUFFER_SIZE
  · simp [inside]
  · simp [inside]

theorem view_readBuf {c : HttpConn} {k : Nat} (inside : k < READ_BUFFER_SIZE) :
    c.view.readBuf k = c.readBuf k :=
  if_pos inside

theorem view_str (c : HttpConn) (text : Nat) : c.view.str text = c.str text := by
  unfold str
  congr 1
  apply List.map_congr_left
  intro k mem
  apply view_readBuf
  have range := List.mem_range'_1.mp mem
  omega

theorem view_store (c : HttpConn) (index : Int) : (c.store index).view = c.view.store index := by
  unfold view store
  congr 1
  funext k
  by_cases inside : k < READ_BUFFER_SIZE
  · by_cases natural : 0 ≤ index
    · simp [inside, natural, Function.update_apply]
    · simp [inside, natural]
  · by_cases natural : 0 ≤ index
    · simp [inside, natural, Function.update_apply]
    · simp [inside, natural]

theorem view_append (c : HttpConn) (bytes : List Byte)
    (room : c.readIdx + bytes.length ≤ READ_BUFFER_SIZE) :
    (c.append bytes).view = c.view.append bytes := by
  unfold view append
  congr 1
  funext k
  by_cases inside : k < READ_BUFFER_SIZE
  · simp [inside]
  · simp only [inside, if_false]
    rw [if_neg (by omega)]

/-! ## Reading and scanning -/

theorem readLoop_view {c : HttpConn} {answers : List Recv} (room : c.readIdx ≤ READ_BUFFER_SIZE) :
    c.view.readLoop answers = (c.readLoop answers).map fun result => (result.1, result.2.view) := by
  induction answers generalizing c with
  | nil => rfl
  | cons answer answers ih =>
      simp only [readLoop]
      change (if answer.AtMost (READ_BUFFER_SIZE - c.readIdx) then _ else none) = _
      by_cases fits : answer.AtMost (READ_BUFFER_SIZE - c.readIdx)
      · rw [if_pos fits, if_pos fits]
        cases answer with
        | data bytes =>
            have length := (fits bytes rfl).2
            have room' : c.readIdx + bytes.length ≤ READ_BUFFER_SIZE := by omega
            dsimp only
            rw [← view_append c bytes room']
            exact ih (c := c.append bytes) room'
        | again | eof | fail =>
            dsimp only
            split
            · rfl
            · rfl
      · rw [if_neg fits, if_neg fits]
        rfl

theorem read_view {c : HttpConn} {answers : List Recv} (room : c.readIdx ≤ READ_BUFFER_SIZE) :
    c.view.read answers = (c.read answers).map fun result => (result.1, result.2.view) := by
  unfold read
  change (if c.readIdx ≥ READ_BUFFER_SIZE then _ else _) = _
  split
  · split
    · rfl
    · rfl
  · exact readLoop_view room

theorem scanLine_view {left : Nat} {c : HttpConn} (length : c.checkedIdx + left = c.readIdx)
    (room : c.readIdx ≤ READ_BUFFER_SIZE) :
    scanLine left c.view = ((scanLine left c).1, (scanLine left c).2.view) := by
  induction left generalizing c with
  | zero => rfl
  | succ left ih =>
      have here : c.view.readBuf c.checkedIdx = c.readBuf c.checkedIdx := view_readBuf (by omega)
      have before : c.view.readBuf (c.checkedIdx - 1) = c.readBuf (c.checkedIdx - 1) :=
        view_readBuf (by omega)
      simp only [scanLine, view_checkedIdx, view_readIdx, here, before]
      by_cases cr : c.readBuf c.checkedIdx = CR
      · simp only [cr, if_true]
        by_cases last : c.checkedIdx + 1 = c.readIdx
        · simp only [last, if_true]
        · have behind : c.view.readBuf (c.checkedIdx + 1) = c.readBuf (c.checkedIdx + 1) :=
            view_readBuf (by omega)
          simp only [last, if_false, behind]
          by_cases lf : c.readBuf (c.checkedIdx + 1) = LF
          · simp only [lf, if_true, ← view_store]
            rfl
          · simp only [lf, if_false]
      · simp only [cr, if_false]
        by_cases lf : c.readBuf c.checkedIdx = LF
        · simp only [lf, if_true]
          by_cases behindCr : 1 ≤ c.checkedIdx ∧ c.readBuf (c.checkedIdx - 1) = CR
          · simp only [behindCr, and_self, if_true, ← view_store]
            rfl
          · simp only [behindCr, if_false]
        · simp only [lf, if_false]
          exact ih (c := { c with checkedIdx := c.checkedIdx + 1 }) (by simp only; omega) room

theorem nextText_view {c : HttpConn} (ordered : c.Ordered) (status : LineStatus) :
    c.view.nextText status = ((c.nextText status).1, (c.nextText status).2.view) := by
  have checked := ordered.checked
  unfold nextText parseLine
  change (if c.checkState = .content ∧ status = .ok then _ else _) = _
  by_cases content : c.checkState = .content ∧ status = .ok
  · rw [if_pos content, if_pos content]
  · rw [if_neg content, if_neg content]
    have length : c.checkedIdx + (c.readIdx - c.checkedIdx) = c.readIdx := by omega
    exact scanLine_view length ordered.read

/-! ## The request line and the header lines -/

theorem skipScheme_view (c : HttpConn) (url : Nat) : c.view.skipScheme url = c.skipScheme url := by
  unfold skipScheme
  rw [view_str, view_str, view_str]

/-- The path of a URL that lies inside the buffer does so, too. -/
theorem skipScheme_inside {c : HttpConn} {url path : Nat} (inside : url < READ_BUFFER_SIZE)
    (found : c.skipScheme url = some path) : path < READ_BUFFER_SIZE := by
  have slash : ∀ text, (strchrSlash (c.str text)).map (text + ·) = some path →
      path < READ_BUFFER_SIZE := by
    intro text located
    rcases Option.map_eq_some_iff.mp located with ⟨offset, offset_eq, rfl⟩
    have lt := (List.findIdx?_eq_some_iff_getElem.mp offset_eq).1
    have bound := c.length_str_le text
    omega
  unfold skipScheme at found
  split at found
  · exact slash _ found
  · split at found
    · exact slash _ found
    · exact Option.some.inj found ▸ inside

theorem checkUrl_view {c : HttpConn} {url : Nat} (inside : url < READ_BUFFER_SIZE) :
    c.view.checkUrl url = ((c.checkUrl url).1, (c.checkUrl url).2.view) := by
  unfold checkUrl
  rw [skipScheme_view]
  cases found : c.skipScheme url with
  | none => rfl
  | some path =>
      have byte_eq : c.view.readBuf path = c.readBuf path :=
        view_readBuf (skipScheme_inside inside found)
      dsimp only
      rw [byte_eq]
      split
      · rfl
      · rfl

theorem splitVersion_view (c : HttpConn) (url : Nat) :
    c.view.splitVersion url = ((c.splitVersion url).1, (c.splitVersion url).2.view) := by
  unfold splitVersion
  rw [view_str]
  cases found : strpbrk (c.str url) with
  | none => rfl
  | some blank =>
      have inside := strpbrk_inside found
      dsimp only
      rw [← view_store, view_str, view_str]
      split
      · exact checkUrl_view (by omega)
      · rfl

theorem splitMethod_view (c : HttpConn) (text url : Nat) :
    c.view.splitMethod text url =
      ((c.splitMethod text url).1, (c.splitMethod text url).2.view) := by
  unfold splitMethod
  rw [view_str, view_str]
  split
  · exact splitVersion_view { c with url := some (url + strspn (c.str url)) } _
  · rfl

theorem parseRequestLine_view (c : HttpConn) (text : Nat) :
    c.view.parseRequestLine text =
      ((c.parseRequestLine text).1, (c.parseRequestLine text).2.view) := by
  unfold parseRequestLine
  rw [view_str]
  cases found : strpbrk (c.str text) with
  | none => rfl
  | some blank =>
      dsimp only
      rw [← view_store]
      exact splitMethod_view
        { c.store (text + blank : Nat) with url := some (text + blank + 1) } _ _

theorem headerValue_view (c : HttpConn) (text : Nat) (name : List Byte) :
    c.view.headerValue text name = c.headerValue text name := by
  unfold headerValue
  rw [view_str, view_str]

theorem parseHeaders_view {c : HttpConn} {text : Nat} (inside : text < READ_BUFFER_SIZE) :
    c.view.parseHeaders text = ((c.parseHeaders text).1, (c.parseHeaders text).2.view) := by
  unfold parseHeaders
  rw [view_readBuf inside, view_str, headerValue_view, headerValue_view]
  generalize strncasecmp (c.str text) (ascii "Connection:") = isConnection
  generalize strncasecmp (c.str text) (ascii "Content-Length:") = isLength
  generalize strcasecmp (c.headerValue text (ascii "Connection:")) (ascii "keep-alive") = keeps
  generalize atoi (c.headerValue text (ascii "Content-Length:")) = length
  split
  · split
    · rename_i length
      rw [if_pos (show c.contentLength ≠ 0 from length)]
      rfl
    · rename_i length
      rw [if_neg (show ¬ c.contentLength ≠ 0 from length)]
  · split
    · split
      · rfl
      · rfl
    · split
      · rfl
      · rfl

theorem parseContent_view (c : HttpConn) (text : Nat) :
    c.view.parseContent text = ((c.parseContent text).1, (c.parseContent text).2.view) := by
  unfold parseContent
  change (if (c.readIdx : Int) ≥ toInt (c.contentLength + c.checkedIdx) then _ else _) = _
  split
  · change (HttpCode.getRequest, c.view.store (text + c.contentLength)) = _
    rw [← view_store]
  · rfl

/-! ## Two objects -/

/-- Two objects after `process_read` with this result: they differ in what the response
does not depend on only. -/
structure Agrees (code : HttpCode) (c d : HttpConn) : Prop where
  view : c.view = d.view
  file : code = .fileRequest →
    c.fileStat = d.fileStat ∧ (c.fileAddress = MAP_FAILED ↔ d.fileAddress = MAP_FAILED)

section Two

variable {c d : HttpConn} {fs other : FileSystem}

theorem Ordered.of_view (same : c.view = d.view) (ordered : c.Ordered) : d.Ordered := by
  have start : c.startLine = d.startLine :=
    show c.view.startLine = d.view.startLine from congrArg HttpConn.startLine same
  have checked : c.checkedIdx = d.checkedIdx :=
    show c.view.checkedIdx = d.view.checkedIdx from congrArg HttpConn.checkedIdx same
  have read : c.readIdx = d.readIdx :=
    show c.view.readIdx = d.view.readIdx from congrArg HttpConn.readIdx same
  exact ⟨start ▸ checked ▸ ordered.start, checked ▸ read ▸ ordered.checked, read ▸ ordered.read⟩

theorem agrees_of_ne {code : HttpCode} (same : c.view = d.view) (ne : code ≠ .fileRequest) :
    Agrees code c d :=
  ⟨same, fun equal => absurd equal ne⟩

/-- A mapping that `mmap` returns is not the failure. -/
theorem mapped_eq_failed_iff (fs : FileSystem) (path : List Byte) :
    (fs.mmap path).getD MAP_FAILED = MAP_FAILED ↔ (fs.mmap path).isSome = false := by
  cases mapping : fs.mmap path with
  | none => simp
  | some address => simpa using (fs.mapped path address mapping).2

theorem doRequest_agrees (same : c.view = d.view) (files : SameFiles fs other) :
    (c.doRequest fs).1 = (d.doRequest other).1 ∧
      Agrees (c.doRequest fs).1 (c.doRequest fs).2 (d.doRequest other).2 := by
  have text : c.urlText = d.urlText := by
    have url : c.url = d.url :=
      show c.view.url = d.view.url from congrArg HttpConn.url same
    unfold urlText
    rw [url]
    congr 1
    funext path
    rw [← view_str c, same, view_str]
  have view : ∀ path, { c with realFile := path }.view = { d with realFile := path }.view := by
    intro path
    exact congrArg (fun e : HttpConn => { e with realFile := path }) same
  unfold doRequest
  rw [text, files.1]
  dsimp only
  cases other.stat (docRoot ++ d.urlText.take (FILENAME_LEN - docRoot.length - 1)) with
  | none => exact ⟨rfl, agrees_of_ne (view _) (by simp)⟩
  | some fileStat =>
      dsimp only
      by_cases readable : fileStat.othersRead = false
      · rw [if_pos readable, if_pos readable]
        exact ⟨rfl, agrees_of_ne (view _) (by simp)⟩
      · rw [if_neg readable, if_neg readable]
        by_cases directory : fileStat.isDir = true
        · rw [if_pos directory, if_pos directory]
          exact ⟨rfl, agrees_of_ne (view _) (by simp)⟩
        · rw [if_neg directory, if_neg directory]
          refine ⟨rfl, view _, fun _ => ⟨rfl, ?_⟩⟩
          dsimp only
          by_cases empty : fileStat.size = 0
          · rw [if_pos empty, if_pos empty]
          · rw [if_neg empty, if_neg empty, mapped_eq_failed_iff, mapped_eq_failed_iff, files.2]

/-- How an iteration ends for two objects. -/
def TurnAgrees (x y : Turn × HttpConn) : Prop :=
  x.1 = y.1 ∧ match x.1 with
    | .result code => Agrees code x.2 y.2
    | .again _ => x.2.view = y.2.view

theorem onHeader_agrees (same : c.view = d.view) (files : SameFiles fs other) {text : Nat}
    (inside : text < READ_BUFFER_SIZE) :
    TurnAgrees (c.onHeader fs text) (d.onHeader other text) := by
  have parsed : ((c.parseHeaders text).1, (c.parseHeaders text).2.view) =
      ((d.parseHeaders text).1, (d.parseHeaders text).2.view) := by
    rw [← parseHeaders_view inside, ← parseHeaders_view inside, same]
  unfold onHeader
  generalize c.parseHeaders text = first at parsed ⊢
  generalize d.parseHeaders text = second at parsed ⊢
  rcases first with ⟨code, x⟩
  rcases second with ⟨code', y⟩
  rcases Prod.mk.inj parsed with ⟨rfl, view⟩
  cases code with
  | badRequest => exact ⟨rfl, agrees_of_ne view (by simp)⟩
  | getRequest =>
      rcases doRequest_agrees view files with ⟨codes, agrees⟩
      exact ⟨congrArg Turn.result codes, agrees⟩
  | noRequest | noResource | forbiddenRequest | fileRequest | internalError | closedConnection =>
      exact ⟨rfl, view⟩

theorem onContent_agrees (same : c.view = d.view) (files : SameFiles fs other) (text : Nat) :
    TurnAgrees (c.onContent fs text) (d.onContent other text) := by
  have parsed : ((c.parseContent text).1, (c.parseContent text).2.view) =
      ((d.parseContent text).1, (d.parseContent text).2.view) := by
    rw [← parseContent_view, ← parseContent_view, same]
  unfold onContent
  generalize c.parseContent text = first at parsed ⊢
  generalize d.parseContent text = second at parsed ⊢
  rcases first with ⟨code, x⟩
  rcases second with ⟨code', y⟩
  rcases Prod.mk.inj parsed with ⟨rfl, view⟩
  cases code with
  | getRequest =>
      rcases doRequest_agrees view files with ⟨codes, agrees⟩
      exact ⟨congrArg Turn.result codes, agrees⟩
  | badRequest | noRequest | noResource | forbiddenRequest | fileRequest | internalError
  | closedConnection => exact ⟨rfl, view⟩

theorem onRequestLine_agrees (same : c.view = d.view) (text : Nat) :
    TurnAgrees (c.onRequestLine text) (d.onRequestLine text) := by
  have parsed : ((c.parseRequestLine text).1, (c.parseRequestLine text).2.view) =
      ((d.parseRequestLine text).1, (d.parseRequestLine text).2.view) := by
    rw [← parseRequestLine_view, ← parseRequestLine_view, same]
  unfold onRequestLine
  generalize c.parseRequestLine text = first at parsed ⊢
  generalize d.parseRequestLine text = second at parsed ⊢
  rcases first with ⟨code, x⟩
  rcases second with ⟨code', y⟩
  rcases Prod.mk.inj parsed with ⟨rfl, view⟩
  cases code with
  | badRequest => exact ⟨rfl, agrees_of_ne view (by simp)⟩
  | getRequest | noRequest | noResource | forbiddenRequest | fileRequest | internalError
  | closedConnection => exact ⟨rfl, view⟩

/-- The body of the loop, when the line that is handled lies inside the buffer. -/
theorem handleText_agrees (same : c.view = d.view) (files : SameFiles fs other)
    (inside : c.checkState = .header → c.startLine < READ_BUFFER_SIZE) :
    TurnAgrees (c.handleText fs) (d.handleText other) := by
  have states : c.checkState = d.checkState :=
    show c.view.checkState = d.view.checkState from congrArg HttpConn.checkState same
  have starts : c.startLine = d.startLine :=
    show c.view.startLine = d.view.startLine from congrArg HttpConn.startLine same
  have view :
      { c with startLine := c.checkedIdx }.view = { d with startLine := d.checkedIdx }.view :=
    congrArg (fun e : HttpConn => { e with startLine := e.checkedIdx }) same
  cases state : c.checkState with
  | requestLine =>
      rw [handleText_requestLine state, handleText_requestLine (states ▸ state), ← starts]
      exact onRequestLine_agrees view c.startLine
  | header =>
      rw [handleText_header state, handleText_header (states ▸ state), ← starts]
      exact onHeader_agrees view files (inside state)
  | content =>
      rw [handleText_content state, handleText_content (states ▸ state), ← starts]
      exact onContent_agrees view files c.startLine

theorem processLoop_agrees (fuel : Nat) {status : LineStatus} (same : c.view = d.view)
    (ordered : c.Ordered) (files : SameFiles fs other) :
    (processLoop fs fuel status c).1 = (processLoop other fuel status d).1 ∧
      Agrees (processLoop fs fuel status c).1 (processLoop fs fuel status c).2
        (processLoop other fuel status d).2 := by
  induction fuel generalizing status c d with
  | zero => exact ⟨rfl, agrees_of_ne same (by simp [processLoop])⟩
  | succ fuel ih =>
      have texts : ((c.nextText status).1, (c.nextText status).2.view) =
          ((d.nextText status).1, (d.nextText status).2.view) := by
        rw [← nextText_view ordered, ← nextText_view (ordered.of_view same), same]
      have spec : ∀ next e, c.nextText status = (next, e) → Scanned c e ∧ (next = .ok →
          (c.checkState = .content ∧ status = .ok ∧ e = c) ∨ c.checkedIdx < e.checkedIdx) :=
        fun next e text => nextText_spec ordered.checked ordered.read text
      unfold processLoop
      generalize c.nextText status = first at texts spec ⊢
      generalize d.nextText status = second at texts ⊢
      rcases first with ⟨next, x⟩
      rcases second with ⟨next', y⟩
      rcases Prod.mk.inj texts with ⟨rfl, view⟩
      rcases spec next x rfl with ⟨scanned, advanced⟩
      have orderedX := scanned.ordered ordered
      cases next with
      | bad | «open» => exact ⟨rfl, agrees_of_ne view (by simp)⟩
      | ok =>
          have inside : x.checkState = .header → x.startLine < READ_BUFFER_SIZE := by
            intro state
            rcases advanced rfl with content | further
            · have kept : x.checkState = c.checkState := by rw [scanned.frame]
              rw [← kept, state] at content
              cases content.1
            · have start : x.startLine = c.startLine := by rw [scanned.frame]
              have before := ordered.start
              have checked := orderedX.checked
              have read := orderedX.read
              omega
          have turns := handleText_agrees view files inside
          have body : ∀ turn e, x.handleText fs = (turn, e) → Handled x e turn :=
            fun turn e handled => handleText_spec handled
          dsimp only
          generalize x.handleText fs = third at turns body ⊢
          generalize y.handleText other = fourth at turns ⊢
          rcases third with ⟨turn, x'⟩
          rcases fourth with ⟨turn', y'⟩
          rcases turns with ⟨rfl, agrees⟩
          cases turn with
          | result code => exact ⟨rfl, agrees⟩
          | again status' => exact ih agrees ((body _ x' rfl).ordered orderedX)

theorem processRead_agrees (same : c.view = d.view) (ordered : c.Ordered)
    (files : SameFiles fs other) :
    (c.processRead fs).1 = (d.processRead other).1 ∧
      Agrees (c.processRead fs).1 (c.processRead fs).2 (d.processRead other).2 := by
  have fuel : c.loopFuel = d.loopFuel :=
    show c.view.loopFuel = d.view.loopFuel from congrArg loopFuel same
  unfold processRead
  rw [fuel]
  exact processLoop_agrees d.loopFuel same ordered files

/-! ## The response -/

theorem addResponse_view (c : HttpConn) (text : List Byte) :
    c.view.addResponse text = ((c.addResponse text).1, (c.addResponse text).2.view) := by
  unfold addResponse
  change (if c.writeBuf.length ≥ WRITE_BUFFER_SIZE then _
    else if text.length ≥ WRITE_BUFFER_SIZE - 1 - c.writeBuf.length then _ else _) = _
  split
  · rfl
  · split
    · rfl
    · rfl

theorem addContentLength_view (c : HttpConn) (contentLen : Int) :
    (c.view.addContentLength contentLen).2 = (c.addContentLength contentLen).2.view :=
  congrArg Prod.snd (addResponse_view c _)

theorem addLinger_view (c : HttpConn) : c.view.addLinger.2 = c.addLinger.2.view :=
  congrArg Prod.snd (addResponse_view c _)

theorem addBlankLine_view (c : HttpConn) : c.view.addBlankLine.2 = c.addBlankLine.2.view :=
  congrArg Prod.snd (addResponse_view c _)

theorem addHeaders_view (c : HttpConn) (contentLen : Int) :
    c.view.addHeaders contentLen = (c.addHeaders contentLen).view := by
  unfold addHeaders
  rw [addContentLength_view, addLinger_view, addBlankLine_view]

/-- A status line and the headers, for two objects. -/
theorem head_agrees (same : c.view = d.view) (status : Int) (title : List Byte) (contentLen : Int) :
    ((c.addStatusLine status title).2.addHeaders contentLen).view =
      ((d.addStatusLine status title).2.addHeaders contentLen).view := by
  have line : (c.addStatusLine status title).2.view = (d.addStatusLine status title).2.view := by
    have first := congrArg Prod.snd (addResponse_view c (ascii "HTTP/1.1" ++ ascii " " ++
      formatInt status ++ ascii " " ++ title ++ ascii "\r\n"))
    have second := congrArg Prod.snd (addResponse_view d (ascii "HTTP/1.1" ++ ascii " " ++
      formatInt status ++ ascii " " ++ title ++ ascii "\r\n"))
    rw [same] at first
    exact first.symm.trans second
  rw [← addHeaders_view, ← addHeaders_view, line]

theorem writeBuf_of_view (same : c.view = d.view) : c.writeBuf = d.writeBuf :=
  show c.view.writeBuf = d.view.writeBuf from congrArg HttpConn.writeBuf same

theorem addPage_agrees (same : c.view = d.view) (status : Int) (title form : List Byte) :
    (c.addPage status title form).1 = (d.addPage status title form).1 ∧
      ((c.addPage status title form).1 = true →
        (c.addPage status title form).2.prepared = (d.addPage status title form).2.prepared) := by
  have head := head_agrees same status title form.length
  have contents := congrArg (fun e : HttpConn => e.addContent form) head
  simp only [addContent, addResponse_view] at contents
  unfold addPage addContent
  dsimp only
  generalize (((c.addStatusLine status title).2.addHeaders form.length).addResponse form) = first
    at contents ⊢
  generalize (((d.addStatusLine status title).2.addHeaders form.length).addResponse form) = second
    at contents ⊢
  rcases first with ⟨fits, x⟩
  rcases second with ⟨fits', y⟩
  rcases Prod.mk.inj contents with ⟨rfl, view⟩
  cases fits with
  | false => exact ⟨rfl, fun fits => by cases fits⟩
  | true =>
      have texts : x.writeBuf = y.writeBuf := writeBuf_of_view view
      refine ⟨rfl, fun _ => ?_⟩
      simp only [prepared, useWriteBuf, block, List.map_cons, List.map_nil, texts]

/-- The blocks of a file that is not empty. -/
theorem fileBlocks_agrees (same : c.view = d.view) (stat : c.fileStat = d.fileStat)
    (failed : c.fileAddress = MAP_FAILED ↔ d.fileAddress = MAP_FAILED) :
    { c with iv := [.writeBuf c.writeBuf.length,
        .mapping c.fileAddress c.fileStat.size] }.prepared =
      { d with iv := [.writeBuf d.writeBuf.length,
        .mapping d.fileAddress d.fileStat.size] }.prepared := by
  have texts : c.writeBuf = d.writeBuf := writeBuf_of_view same
  have files : c.realFile = d.realFile :=
    show c.view.realFile = d.view.realFile from congrArg HttpConn.realFile same
  simp only [prepared, block, List.map_cons, List.map_nil, texts, files, stat, failed]

/-- The head of a response does not change the mapped file. -/
theorem head_filled (c : HttpConn) (status : Int) (title : List Byte) (contentLen : Int) :
    Filled c ((c.addStatusLine status title).2.addHeaders contentLen) :=
  (addResponse_filled c _).trans (addHeaders_filled _ contentLen)

theorem processWrite_agrees {code : HttpCode} (agrees : Agrees code c d) :
    (c.processWrite code).1 = (d.processWrite code).1 ∧
      ((c.processWrite code).1 = true →
        (c.processWrite code).2.prepared = (d.processWrite code).2.prepared) := by
  cases code with
  | internalError | badRequest | noResource | forbiddenRequest =>
      rw [processWrite, processWrite]
      exact addPage_agrees agrees.view _ _ _
  | noRequest | getRequest | closedConnection => exact ⟨rfl, fun fits => by cases fits⟩
  | fileRequest =>
      rcases agrees.file rfl with ⟨stat, failed⟩
      rw [processWrite, processWrite, stat]
      by_cases empty : d.fileStat.size ≠ 0
      · rw [if_pos empty, if_pos empty]
        refine ⟨rfl, fun _ => ?_⟩
        have head := head_agrees agrees.view 200 ok200Title d.fileStat.size
        have first := head_filled c 200 ok200Title d.fileStat.size
        have second := head_filled d 200 ok200Title d.fileStat.size
        generalize (c.addStatusLine 200 ok200Title).2.addHeaders d.fileStat.size = x
          at head first ⊢
        generalize (d.addStatusLine 200 ok200Title).2.addHeaders d.fileStat.size = y
          at head second ⊢
        have stat' : x.fileStat = y.fileStat := by
          rw [first.frame, second.frame]
          exact stat
        have failed' : x.fileAddress = MAP_FAILED ↔ y.fileAddress = MAP_FAILED := by
          rw [first.frame, second.frame]
          exact failed
        exact fileBlocks_agrees head stat' failed'
      · rw [if_neg empty, if_neg empty]
        exact addPage_agrees agrees.view _ _ _

/-! ## Two requests -/

theorem read_agrees (same : c.view = d.view) (ordered : c.Ordered) (answers : List Recv) :
    (c.read answers = none ∧ d.read answers = none) ∨
      ∃ more x y, c.read answers = some (more, x) ∧ d.read answers = some (more, y) ∧
        x.view = y.view ∧ x.Ordered := by
  have both : (c.read answers).map (fun result => (result.1, result.2.view)) =
      (d.read answers).map (fun result => (result.1, result.2.view)) := by
    rw [← read_view ordered.read, ← read_view (ordered.of_view same).read, same]
  cases first : c.read answers with
  | none =>
      rw [first, Option.map_none, eq_comm, Option.map_eq_none_iff] at both
      exact .inl ⟨rfl, both⟩
  | some result =>
      rcases result with ⟨more, x⟩
      rw [first, Option.map_some, eq_comm, Option.map_eq_some_iff] at both
      rcases both with ⟨⟨more', y⟩, second, equal⟩
      rcases Prod.mk.inj equal with ⟨rfl, view⟩
      have received := read_spec ordered.read first
      have orderedX : x.Ordered := by
        have start : x.startLine = c.startLine := by rw [received.frame]
        have checked : x.checkedIdx = c.checkedIdx := by rw [received.frame]
        exact ⟨by rw [start, checked]; exact ordered.start,
          checked ▸ ordered.checked.trans received.forward, received.room⟩
      exact .inr ⟨more', x, y, rfl, second, view.symm, orderedX⟩

theorem reply_agrees (same : c.view = d.view) (ordered : c.Ordered) (files : SameFiles fs other)
    (segments : List (List Recv)) : reply fs c segments = reply other d segments := by
  induction segments generalizing c d with
  | nil => rfl
  | cons answers segments ih =>
      unfold reply
      rcases read_agrees same ordered answers with ⟨first, second⟩ |
        ⟨more, x, y, first, second, view, orderedX⟩
      · rw [first, second]
      · rw [first, second]
        cases more with
        | false => rfl
        | true =>
            rcases processRead_agrees view orderedX files with ⟨codes, agrees⟩
            have orderedAfter := ((processRead_loops fs orderedX).ordered orderedX).1
            dsimp only
            generalize x.processRead fs = third at codes agrees orderedAfter ⊢
            generalize y.processRead other = fourth at codes agrees ⊢
            rcases third with ⟨code, x'⟩
            rcases fourth with ⟨code', y'⟩
            cases codes
            dsimp only at agrees orderedAfter ⊢
            rcases processWrite_agrees agrees with ⟨fits, blocks⟩
            cases code with
            | noRequest => dsimp only; rw [ih agrees.view orderedAfter]
            | getRequest | badRequest | noResource | forbiddenRequest | fileRequest
            | internalError | closedConnection =>
                dsimp only
                rw [← fits]
                split
                · rename_i written
                  rw [blocks written]
                · rfl

/-! ## Histories -/

end Two

end HttpConn

/-- An object that is ready for a request comes from `init`. -/
theorem Used.next_ready {s t : Used} {use : Use} (step : s.next use = some t)
    (ready : t.ready = true) : ∃ b : HttpConn, t.conn = b.init := by
  cases use with
  | opened sockfd =>
      cases step
      exact ⟨{ s.conn with sockfd := sockfd }, rfl⟩
  | read answers =>
      rcases Option.map_eq_some_iff.mp step with ⟨result, -, rfl⟩
      cases ready
  | process fs =>
      cases step
      cases ready
  | write answers =>
      rcases Option.map_eq_some_iff.mp step with ⟨written, write, rfl⟩
      rcases Bool.and_eq_true_iff.mp ready with ⟨result, interest⟩
      exact HttpConn.write_init write result (beq_iff_eq.mp interest)
  | close =>
      cases step
      cases ready

/-- Whatever an object has been used for, an object that is ready for a request comes
from `init`. -/
theorem Used.run_ready {c : HttpConn} {uses : List Use} {s : Used}
    (finished : run Used.next (Used.start c) uses = some s) (ready : s.ready = true) :
    ∃ b : HttpConn, s.conn = b.init := by
  have preserved : ∀ ⦃s use t⦄, (s.ready = true → ∃ b : HttpConn, s.conn = b.init) →
      Used.next s use = some t → t.ready = true → ∃ b : HttpConn, t.conn = b.init :=
    fun _ _ _ _ step => Used.next_ready step
  exact invariant_run preserved (fun ready => by cases ready) finished ready

/-- Two requests with the same bytes in the same segments get the same results of
`process_read` and the same response, whatever their objects were used for before. -/
theorem Used.reply_eq (c d : HttpConn) {first second : List Use} {s t : Used}
    (firstRun : run Used.next (Used.start c) first = some s) (firstReady : s.ready = true)
    (secondRun : run Used.next (Used.start d) second = some t) (secondReady : t.ready = true)
    {fs other : FileSystem} (files : SameFiles fs other) (segments : List (List Recv)) :
    s.conn.reply fs segments = t.conn.reply other segments := by
  rcases Used.run_ready firstRun firstReady with ⟨b, first_eq⟩
  rcases Used.run_ready secondRun secondReady with ⟨b', second_eq⟩
  rw [first_eq, second_eq]
  exact HttpConn.reply_agrees (b.view_init b') b.init_ordered files segments

/-- A page of three bytes, which is mapped at this address. -/
def pageFiles (address : {address : Address // address ≠ 0 ∧ address ≠ MAP_FAILED}) :
    FileSystem where
  stat := fun path => if path = ascii "htdocs/a" then some ⟨true, false, 3⟩ else none
  mmap := fun path => if path = ascii "htdocs/a" then some address else none
  mapped := by
    intro path mapping mem
    rw [Option.mem_def, Option.ite_none_right_eq_some] at mem
    cases mem.2
    exact address.property

theorem pageFiles_same (first second : {address : Address // address ≠ 0 ∧ address ≠ MAP_FAILED}) :
    SameFiles (pageFiles first) (pageFiles second) := by
  refine ⟨rfl, fun path => ?_⟩
  unfold pageFiles
  dsimp only
  split
  · rfl
  · rfl

/-- A request that keeps the connection. -/
def keepAliveRequest : List Byte :=
  ascii "GET /a HTTP/1.1\r\nConnection: keep-alive\r\n\r\n"

/-- An object whose first request has been answered with the page. -/
def answeredUses : List Use :=
  [.opened 5, .read [.data keepAliveRequest, .again],
    .process (pageFiles ⟨4096, by decide⟩), .write [.taken 65]]

/-- The same request on a fresh object, in two segments, and behind another one. -/
theorem reply_eq_answered : ∃ s t, run Used.next (Used.start zeroConn) [.opened 7] = some s ∧
    run Used.next (Used.start zeroConn) answeredUses = some t ∧
    s.conn.reply (pageFiles ⟨8192, by decide⟩)
        [[.data (keepAliveRequest.take 9), .again], [.data (keepAliveRequest.drop 9), .again]] =
      t.conn.reply (pageFiles ⟨12288, by decide⟩)
        [[.data (keepAliveRequest.take 9), .again], [.data (keepAliveRequest.drop 9), .again]] := by
  have ready : (run Used.next (Used.start zeroConn) answeredUses).map Used.ready = some true := by
    decide +kernel
  have opened : run Used.next (Used.start zeroConn) [.opened 7] =
      some ⟨zeroConn.initSocket 7, true⟩ := rfl
  rcases Option.map_eq_some_iff.mp ready with ⟨t, finished, ready⟩
  exact ⟨_, t, opened, finished, Used.reply_eq zeroConn zeroConn opened rfl finished ready
    (pageFiles_same _ _) _⟩

end NetPractice.Http
