import NetPractice.Http.DocumentRoot

/-!
# URLs and files

`do_request` copies as much of the URL behind `doc_root` as `m_real_file` has room for, and
does not look whether that was all of it.
-/

namespace NetPractice.Http

open NetPractice.Text
open HttpConn (docRoot)

/-- What `strncpy` may copy behind `doc_root`. -/
def realFileRoom : Nat := FILENAME_LEN - docRoot.length - 1

/-- There is a regular file at the path that everybody may read. -/
def FileSystem.serves (fs : FileSystem) (path : List Byte) : Bool :=
  (fs.stat path).any fun fileStat => fileStat.othersRead && !fileStat.isDir

/-- Is the URL copied completely, or is there no file at the path that it is cut to? -/
def FileSystem.Distinguishes (fs : FileSystem) (url : List Byte) : Prop :=
  url.length ≤ realFileRoom ∨ fs.serves (docRoot ++ url.take realFileRoom) = false

instance (fs : FileSystem) (url : List Byte) : Decidable (fs.Distinguishes url) :=
  inferInstanceAs (Decidable (_ ∨ _))

namespace HttpConn

/-- A request whose URL stands for one file. -/
structure MapsUrl (fs : FileSystem) (c : HttpConn) : Prop where
  whole : (c.doRequest fs).1 = .fileRequest → (c.doRequest fs).2.realFile = docRoot ++ c.urlText
  refused : realFileRoom < c.urlText.length → (c.doRequest fs).1 ≠ .fileRequest

/-- Two requests, each of whose URLs stands for one file, and not both for the same. -/
structure MapsUrls (fs : FileSystem) (c d : HttpConn) : Prop where
  first : c.MapsUrl fs
  second : d.MapsUrl fs
  apart : c.urlText ≠ d.urlText → (c.doRequest fs).1 = .fileRequest →
    (d.doRequest fs).1 = .fileRequest → (c.doRequest fs).2.realFile ≠ (d.doRequest fs).2.realFile

/-- A file is the answer exactly if it can be read at the path in `m_real_file`. -/
theorem doRequest_fileRequest_iff (c : HttpConn) (fs : FileSystem) :
    (c.doRequest fs).1 = .fileRequest ↔
      fs.serves (docRoot ++ c.urlText.take realFileRoom) = true := by
  unfold doRequest FileSystem.serves realFileRoom
  dsimp only
  cases fs.stat (docRoot ++ c.urlText.take (FILENAME_LEN - docRoot.length - 1)) with
  | none => simp
  | some fileStat =>
      dsimp only
      by_cases unreadable : fileStat.othersRead = false
      · rw [if_pos unreadable]
        simp [unreadable]
      · rw [if_neg unreadable]
        by_cases directory : fileStat.isDir
        · rw [if_pos directory]
          simp [directory]
        · rw [if_neg directory]
          simp [unreadable, directory]

theorem mapsUrl_iff (fs : FileSystem) (c : HttpConn) :
    c.MapsUrl fs ↔ fs.Distinguishes c.urlText := by
  have file_eq := c.doRequest_realFile fs
  constructor
  · intro maps
    by_cases long : realFileRoom < c.urlText.length
    · have refused := maps.refused long
      rw [Ne, doRequest_fileRequest_iff] at refused
      exact Or.inr (Bool.not_eq_true _ ▸ refused)
    · exact Or.inl (Nat.le_of_not_lt long)
  · rintro (fits | absent)
    · constructor
      · intro _
        rw [file_eq]
        exact congrArg (docRoot ++ ·) (List.take_of_length_le fits)
      · intro long
        exact absurd fits (Nat.not_le_of_lt long)
    · have noFile : (c.doRequest fs).1 ≠ .fileRequest := by
        rw [Ne, doRequest_fileRequest_iff, absent]
        nofun
      exact ⟨fun file => absurd file noFile, fun _ => noFile⟩

/-- Whatever the URLs of two requests are when `do_request` runs, they stand for their own
files if and only if none of them is cut to the path of a file. -/
theorem mapsUrls_iff (fs : FileSystem) (c d : HttpConn) :
    MapsUrls fs c d ↔ fs.Distinguishes c.urlText ∧ fs.Distinguishes d.urlText := by
  rw [← mapsUrl_iff, ← mapsUrl_iff]
  constructor
  · intro maps
    exact ⟨maps.first, maps.second⟩
  · rintro ⟨first, second⟩
    refine ⟨first, second, fun different file file' same => different ?_⟩
    rw [first.whole file, second.whole file'] at same
    exact List.append_cancel_left same

/-! ## Two long URLs -/

/-- A URL that is as long as there is room. -/
def longUrl : List Byte := 47 :: List.replicate 192 97

theorem length_longUrl : longUrl.length = realFileRoom := by
  rw [longUrl, List.length_cons, List.length_replicate]
  rfl

/-- A file system with this URL's file only. -/
def oneFile : FileSystem where
  stat path := if path = docRoot ++ longUrl then some ⟨true, false, 5⟩ else none
  mmap _ := none
  mapped := mapped_nowhere

/-- A request line whose URL has one byte more. -/
def longLine (last : Byte) : List Byte :=
  ascii "GET " ++ longUrl ++ last :: ascii " HTTP/1.1"

/-- The connection behind this request line. -/
def longRequest (last : Byte) : HttpConn :=
  ((zeroConn.append (longLine last)).parseRequestLine 0).2

/-- The URL of such a line, which is accepted. -/
theorem longRequest_url : ∀ last ∈ [98, 99],
    ((zeroConn.append (longLine last)).parseRequestLine 0).1 = .noRequest ∧
      (longRequest last).urlText = longUrl ++ [last] := by
  decide +kernel

/-- Two accepted request lines with different URLs open the same file. -/
theorem longRequests_not_mapsUrls :
    ((zeroConn.append (longLine 98)).parseRequestLine 0).1 = .noRequest ∧
      ((zeroConn.append (longLine 99)).parseRequestLine 0).1 = .noRequest ∧
      (longRequest 98).urlText ≠ (longRequest 99).urlText ∧
      ((longRequest 98).doRequest oneFile).1 = .fileRequest ∧
      ((longRequest 99).doRequest oneFile).1 = .fileRequest ∧
      ((longRequest 98).doRequest oneFile).2.realFile =
        ((longRequest 99).doRequest oneFile).2.realFile ∧
      ¬ MapsUrls oneFile (longRequest 98) (longRequest 99) := by
  rcases longRequest_url 98 (by decide) with ⟨accepted, url⟩
  rcases longRequest_url 99 (by decide) with ⟨accepted', url'⟩
  have different : (longRequest 98).urlText ≠ (longRequest 99).urlText := by
    rw [url, url']
    intro equal
    exact absurd (List.append_cancel_left equal) (by decide)
  have cut : ∀ last : Byte, (longUrl ++ [last]).take realFileRoom = longUrl := by
    intro last
    rw [← length_longUrl, List.take_left]
  have served : oneFile.serves (docRoot ++ longUrl) = true := by
    simp [FileSystem.serves, oneFile]
  have file : ((longRequest 98).doRequest oneFile).1 = .fileRequest := by
    rw [doRequest_fileRequest_iff, url, cut]
    exact served
  have file' : ((longRequest 99).doRequest oneFile).1 = .fileRequest := by
    rw [doRequest_fileRequest_iff, url', cut]
    exact served
  have same : ((longRequest 98).doRequest oneFile).2.realFile =
      ((longRequest 99).doRequest oneFile).2.realFile := by
    have room : FILENAME_LEN - docRoot.length - 1 = realFileRoom := rfl
    rw [doRequest_realFile, doRequest_realFile, url, url', room, cut, cut]
  exact ⟨accepted, accepted', different, file, file', same,
    fun maps => maps.apart different file file' same⟩

end HttpConn

end NetPractice.Http
