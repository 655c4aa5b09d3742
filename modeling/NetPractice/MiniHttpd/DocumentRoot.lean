import NetPractice.Http.DocumentRoot
import NetPractice.MiniHttpd.RequestLine

/-!
# The document roots of the web servers

Neither server looks at `..` in a URL: a file is in the document root if and only if the
URL stays there by itself.
-/

namespace NetPractice.MiniHttpd

open NetPractice.Text

/-- The directory of the files. -/
def htdocs : List Byte := ascii "htdocs"

/-- The method of the first line, before it is cut at a NUL byte. -/
def methodWord (memory : List Byte) : List Byte :=
  (memory.takeWhile (! isSpace ·)).take (METHOD_SIZE - 1)

/-- The URL of the first line. -/
def requestUrl (memory : List Byte) : List Byte :=
  cstr ((((memory.drop (methodWord memory).length).tail.dropWhile isSpace).takeWhile
    (! isSpace ·)).take (URL_SIZE - 1))

/-! ## The files of a URL -/

/-- The path of a URL stays in the directory; for an empty URL, the byte in front of it
is taken for its last one. -/
def StaysInHtdocs (before : Byte) (url : List Byte) : Prop :=
  StaysIn htdocs url ∧ (url = [] → before ≠ 47)

theorem inside_docRoot (path : List Byte) :
    Inside htdocs (normalise (moves (docRoot ++ path))) ↔ StaysIn htdocs path := by
  have dotted : docRoot ++ path = 46 :: 47 :: (htdocs ++ path) := rfl
  rw [dotted, normalise_dot_slash]
  exact inside_append_iff (by decide) (by decide) path

/-- `index.html` behind a slash does not lead out of the directory, nor into it. -/
theorem inside_index {path : List Byte} (slash : path.getLast? = some 47) :
    Inside htdocs (normalise (moves (path ++ ascii "index.html"))) ↔
      Inside htdocs (normalise (moves path)) := by
  rcases List.getLast?_eq_some_iff.mp slash with ⟨directory, rfl⟩
  rw [List.append_assoc, List.singleton_append, normalise_append_slash]
  exact inside_append_name (by decide) (by decide) (by decide)

theorem inside_slash_index (path : List Byte) :
    Inside htdocs (normalise (moves (path ++ ascii "/index.html"))) ↔
      Inside htdocs (normalise (moves path)) :=
  inside_append_name (by decide : 47 ∉ ascii "index.html") (by decide) (by decide)

/-- The path that is handed to `stat`. -/
theorem statPath_inside_iff (before : Byte) (url : List Byte) :
    Inside htdocs (normalise (moves (if url.getLast?.getD before = 47
        then docRoot ++ url ++ ascii "index.html" else docRoot ++ url))) ↔
      StaysInHtdocs before url := by
  unfold StaysInHtdocs
  cases last : url.getLast? with
  | none =>
      rw [List.getLast?_eq_none_iff] at last
      subst last
      rw [Option.getD_none]
      have stays : StaysIn htdocs [] := (inside_docRoot []).mp (by decide)
      by_cases slash : before = 47
      · rw [if_pos slash]
        exact iff_of_false (by decide +kernel) fun both => both.2 rfl slash
      · rw [if_neg slash]
        exact iff_of_true ((inside_docRoot []).mpr stays) ⟨stays, fun _ => slash⟩
  | some byte =>
      have nonempty : url ≠ [] := by
        rintro rfl
        cases last
      have last' : (docRoot ++ url).getLast? = some byte := by
        rw [List.getLast?_append, last]
        rfl
      rw [Option.getD_some, and_iff_left (fun empty => absurd empty nonempty), ← inside_docRoot]
      split
      · rename_i slash
        exact inside_index (slash ▸ last')
      · rfl

theorem doHttpResponse_inside_iff (stat : List Byte → Option Bool) (before : Byte)
    (url : List Byte) :
    (∀ call ∈ doHttpResponse stat before url, Inside htdocs (normalise (moves call.path))) ↔
      StaysInHtdocs before url := by
  rw [← statPath_inside_iff]
  unfold doHttpResponse
  dsimp only
  generalize (if url.getLast?.getD before = 47 then docRoot ++ url ++ ascii "index.html"
    else docRoot ++ url) = path
  split
  · simp [FileCall.path]
  · rename_i isDir _
    simp only [List.mem_cons, List.not_mem_nil, or_false, forall_eq_or_imp, forall_eq,
      FileCall.path]
    cases isDir with
    | true => rw [if_pos rfl, inside_slash_index, and_self]
    | false => rw [if_neg Bool.false_ne_true, and_self]

/-- The URL of an accepted request. -/
theorem doHttpRequest_accepted {stat : List Byte → Option Bool} {before : Byte}
    {answers : List Read} {memory line : List Byte} {len : Nat} {calls : List FileCall}
    (read : getLine answers memory = some (len, line))
    (accepted : doHttpRequest stat before answers memory = some (.accepted calls)) :
    calls = doHttpResponse stat before (requestUrl line) := by
  unfold doHttpRequest at accepted
  rw [read, Option.bind_some] at accepted
  dsimp only at accepted
  split at accepted
  · rcases Option.bind_eq_some_iff.mp accepted with ⟨⟨method, behind⟩, copied, rest⟩
    dsimp only at rest
    split at rest
    · rcases Option.bind_eq_some_iff.mp rest with ⟨text, skipped, rest⟩
      rcases Option.map_eq_some_iff.mp rest with ⟨⟨url, after⟩, copied', equal⟩
      cases equal
      rcases copyWord_eq_some_iff.mp copied with ⟨rfl, rfl, -⟩
      rcases skipSpaces_eq_some_iff.mp skipped with ⟨rfl, -⟩
      rcases copyWord_eq_some_iff.mp copied' with ⟨rfl, -, -⟩
      rfl
    · cases rest
  · cases accepted

/-! ## Both servers -/

/-- Every path that a server hands to the file system is in the document root if and only
if the URL stays there: for `http_conn` the URL of the accepted request line, while
`m_url` holds it, and in every state the URL that `m_url` holds. -/
theorem inside_iff_staysIn (fs : Http.FileSystem) (stat : List Byte → Option Bool)
    (before : Byte) :
    (∀ (c d e : Http.HttpConn) (text : Nat),
      c.parseRequestLine text = (.noRequest, d) → e.urlText = d.urlText →
      (Inside Http.HttpConn.docRoot (normalise (moves (e.doRequest fs).2.realFile)) ↔
        StaysIn Http.HttpConn.docRoot
          ((Http.requestPath (Http.requestTarget (c.str text))).take
            (Http.FILENAME_LEN - Http.HttpConn.docRoot.length - 1)))) ∧
    (∀ c : Http.HttpConn,
      Inside Http.HttpConn.docRoot (normalise (moves (c.doRequest fs).2.realFile)) ↔
        StaysIn Http.HttpConn.docRoot
          (c.urlText.take (Http.FILENAME_LEN - Http.HttpConn.docRoot.length - 1))) ∧
    ∀ (answers : List Read) (memory line : List Byte) (len : Nat) (calls : List FileCall),
      getLine answers memory = some (len, line) →
      doHttpRequest stat before answers memory = some (.accepted calls) →
      ((∀ call ∈ calls, Inside htdocs (normalise (moves call.path))) ↔
        StaysInHtdocs before (requestUrl line)) := by
  refine ⟨?_, fun c => c.doRequest_inside_iff fs, ?_⟩
  · intro c d e text parsed same
    rw [Http.HttpConn.doRequest_inside_iff, same, Http.HttpConn.parseRequestLine_urlText parsed]
  · intro answers memory line len calls read accepted
    rw [doHttpRequest_accepted read accepted]
    exact doHttpResponse_inside_iff stat before (requestUrl line)

/-- A request that leaves the document root. -/
def climbing : List Byte :=
  ascii "GET /../x HTTP/1.1\r\n\r\n"

/-- There is a file beside the document root. -/
def fileBeside : Http.FileSystem where
  stat := fun path => if path = ascii "htdocs/../x" then some ⟨true, false, 3⟩ else none
  mmap := fun _ => none
  mapped := by
    intro path address mem
    cases mem

/-- The other server with the same request in its buffer. -/
def climbingConn : Http.HttpConn :=
  (Http.zeroConn.initSocket 5).append climbing

/-- The scanned request line of `climbing`. -/
def climbingLine : Http.HttpConn :=
  climbingConn.parseLine.2

/-- `buf` and the byte behind it when `climbing` has been read. -/
def climbingBuf : List Byte :=
  ascii "GET /../x HTTP/1.1" ++ List.replicate (BUF_SIZE - 18) 0

theorem inside_iff_staysIn_climbing :
    (Inside Http.HttpConn.docRoot
        (normalise (moves ((climbingLine.parseRequestLine 0).2.doRequest fileBeside).2.realFile)) ↔
      StaysIn Http.HttpConn.docRoot
        ((Http.requestPath (Http.requestTarget (climbingLine.str 0))).take 193)) ∧
    ((∀ call ∈ [FileCall.stat (ascii "./htdocs/../x"), .fopen (ascii "./htdocs/../x")],
        Inside htdocs (normalise (moves call.path))) ↔
      StaysInHtdocs 0 (requestUrl climbingBuf)) := by
  constructor
  · exact (inside_iff_staysIn fileBeside (fun _ => some false) 0).1 climbingLine
      (climbingLine.parseRequestLine 0).2 (climbingLine.parseRequestLine 0).2 0
      (Prod.ext (by decide +kernel) rfl) rfl
  · exact (inside_iff_staysIn fileBeside (fun _ => some false) 0).2.2 (climbing.map .byte)
      (List.replicate BUF_SIZE 0) climbingBuf 18 _ (by decide +kernel) (by decide +kernel)

theorem climbing_not_inside :
    (climbingConn.processRead fileBeside).1 = .fileRequest ∧
      ¬ Inside Http.HttpConn.docRoot
        (normalise (moves (climbingConn.processRead fileBeside).2.realFile)) ∧
      doHttpRequest (fun _ => some false) 0 (climbing.map .byte) (List.replicate BUF_SIZE 0) =
        some (.accepted [.stat (ascii "./htdocs/../x"), .fopen (ascii "./htdocs/../x")]) ∧
      ¬ Inside htdocs (normalise (moves (ascii "./htdocs/../x"))) := by
  refine ⟨by decide +kernel, by decide +kernel, by decide +kernel, by decide +kernel⟩

end NetPractice.MiniHttpd
