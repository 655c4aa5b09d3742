import NetPractice.MiniHttpd.RequestLine

/-!
# The path of a URL in the mini server

`do_http_response` puts the path of a file together in an array of its own, without a look
at the length of the URL, and looks at the last byte of the URL, also where it has none.
-/

namespace NetPractice.MiniHttpd

open NetPractice.Text

/-- The size of `path`. -/
def PATH_SIZE : Nat := 256

/-- A byte of `url` or of `path` that `do_http_response` reads or writes, by its index. -/
inductive Access where
  | url (index : Int)
  | path (index : Nat)
  deriving DecidableEq, Repr

/-- The index lies in the array. -/
def Access.InBounds : Access → Prop
  | .url index => 0 ≤ index ∧ index < URL_SIZE
  | .path index => index < PATH_SIZE

instance : ∀ access : Access, Decidable access.InBounds
  | .url _ => inferInstanceAs (Decidable (_ ∧ _))
  | .path _ => inferInstanceAs (Decidable (_ < _))

/-- The bytes of `url`, with its NUL. -/
def reads (url : List Byte) : List Access :=
  (List.range (url.length + 1)).map fun i : Nat => .url (Int.ofNat i)

/-- A string that is stored in `path`, with its NUL. -/
def stores (start : Nat) (text : List Byte) : List Access :=
  (List.range (text.length + 1)).map fun i : Nat => .path (start + i)

/-- The path that is handed to `stat`. -/
def statPath (before : Byte) (url : List Byte) : List Byte :=
  if url.getLast?.getD before = 47 then docRoot ++ url ++ ascii "index.html" else docRoot ++ url

/-- The accesses of `sprintf(path, "./htdocs%s", url)`, of `url[strlen(url) - 1]`, and of
the calls of `strcat`. -/
def responseAccesses (stat : List Byte → Option Bool) (before : Byte) (url : List Byte) :
    List Access :=
  reads url ++ stores 0 (docRoot ++ url) ++ .url (url.length - 1) ::
    ((if url.getLast?.getD before = 47 then stores (docRoot ++ url).length (ascii "index.html")
      else []) ++
    if stat (statPath before url) = some true then
      stores (statPath before url).length (ascii "/index.html")
    else [])

/-- The response stays in `url` and in `path`. -/
def StaysInArrays (stat : List Byte → Option Bool) (before : Byte) (url : List Byte) : Prop :=
  ∀ access ∈ responseAccesses stat before url, access.InBounds

instance (stat : List Byte → Option Bool) (before : Byte) (url : List Byte) :
    Decidable (StaysInArrays stat before url) :=
  inferInstanceAs (Decidable (∀ access ∈ responseAccesses stat before url, access.InBounds))

section Accesses

variable {stat : List Byte → Option Bool} {before : Byte} {url : List Byte}

theorem reads_inBounds_iff :
    (∀ access ∈ reads url, access.InBounds) ↔ url.length < URL_SIZE := by
  simp only [reads, List.forall_mem_map, List.mem_range]
  constructor
  · intro within
    exact Int.ofNat_lt.mp (within url.length (Nat.lt_succ_self _)).2
  · intro short i less
    exact ⟨Int.natCast_nonneg i,
      Int.ofNat_lt.mpr (Nat.lt_of_le_of_lt (Nat.le_of_lt_succ less) short)⟩

theorem stores_inBounds_iff {start : Nat} {text : List Byte} :
    (∀ access ∈ stores start text, access.InBounds) ↔ start + text.length < PATH_SIZE := by
  simp only [stores, List.forall_mem_map, List.mem_range]
  constructor
  · intro within
    exact within text.length (Nat.lt_succ_self _)
  · intro short i less
    exact Nat.lt_of_le_of_lt (Nat.add_le_add_left (Nat.le_of_lt_succ less) start) short

/-- The last byte of a URL is in front of it when it is empty. -/
theorem last_inBounds_iff (short : url.length < URL_SIZE) :
    (Access.url (url.length - 1)).InBounds ↔ url ≠ [] := by
  rw [Access.InBounds, ← List.length_pos_iff]
  constructor
  · rintro ⟨nonneg, -⟩
    omega
  · intro pos
    constructor <;> omega

theorem slash_iff (nonempty : url ≠ []) :
    url.getLast?.getD before = 47 ↔ url.getLast? = some 47 := by
  rw [List.getLast?_eq_some_getLast nonempty, Option.getD_some, Option.some.injEq]

/-- Nothing that is appended may be appended behind the end of `path`. -/
theorem appended_inBounds_iff {condition : Prop} [Decidable condition] {path text : List Byte}
    (fits : path.length < PATH_SIZE) :
    (∀ access ∈ (if condition then stores path.length text else []), access.InBounds) ↔
      (if condition then path ++ text else path).length < PATH_SIZE := by
  split
  · rw [stores_inBounds_iff, List.length_append]
  · exact iff_of_true nofun fits

theorem statPath_length_le (before : Byte) (url : List Byte) :
    (docRoot ++ url).length ≤ (statPath before url).length := by
  rw [statPath]
  split
  · exact (List.prefix_append _ _).length_le
  · exact Nat.le_refl _

/-- The path that is handed to `fopen`. -/
def fopenPath (stat : List Byte → Option Bool) (before : Byte) (url : List Byte) : List Byte :=
  if stat (statPath before url) = some true then statPath before url ++ ascii "/index.html"
  else statPath before url

theorem statPath_length_le_fopenPath (stat : List Byte → Option Bool) (before : Byte)
    (url : List Byte) : (statPath before url).length ≤ (fopenPath stat before url).length := by
  rw [fopenPath]
  split
  · exact (List.prefix_append _ _).length_le
  · exact Nat.le_refl _

/-- The longest path decides. -/
theorem staysInArrays_iff_fopenPath :
    StaysInArrays stat before url ↔
      url ≠ [] ∧ (fopenPath stat before url).length < PATH_SIZE := by
  simp only [StaysInArrays, responseAccesses, List.forall_mem_append, List.forall_mem_cons,
    reads_inBounds_iff, stores_inBounds_iff, Nat.zero_add]
  constructor
  · rintro ⟨⟨short, fits⟩, last, index, directory⟩
    have statFits := (appended_inBounds_iff fits).mp index
    exact ⟨(last_inBounds_iff short).mp last, (appended_inBounds_iff statFits).mp directory⟩
  · rintro ⟨nonempty, fits⟩
    have statFits := Nat.lt_of_le_of_lt (statPath_length_le_fopenPath stat before url) fits
    have rootFits := Nat.lt_of_le_of_lt (statPath_length_le before url) statFits
    have short : url.length < URL_SIZE := by
      apply Nat.lt_of_le_of_lt _ rootFits
      rw [List.length_append]
      exact Nat.le_add_left _ _
    exact ⟨⟨short, rootFits⟩, (last_inBounds_iff short).mpr nonempty,
      (appended_inBounds_iff rootFits).mpr statFits, (appended_inBounds_iff statFits).mpr fits⟩

/-- The paths of the response are the ones that are put together. -/
theorem doHttpResponse_path {call : FileCall} (mem : call ∈ doHttpResponse stat before url) :
    call = .stat (statPath before url) ∨ call = .fopen (fopenPath stat before url) := by
  unfold doHttpResponse at mem
  dsimp only at mem
  rw [← statPath] at mem
  split at mem
  · exact .inl (List.mem_singleton.mp mem)
  · rename_i isDir found
    rcases List.mem_cons.mp mem with stats | opens
    · exact .inl stats
    · right
      rw [List.mem_singleton.mp opens, fopenPath, found]
      cases isDir <;> rfl

/-- No path of a response that stays in its arrays is too long. -/
theorem doHttpResponse_fits (stays : StaysInArrays stat before url) :
    ∀ call ∈ doHttpResponse stat before url, call.path.length < PATH_SIZE := by
  have fits := (staysInArrays_iff_fopenPath.mp stays).2
  intro call mem
  rcases doHttpResponse_path mem with rfl | rfl
  · exact Nat.lt_of_le_of_lt (statPath_length_le_fopenPath stat before url) fits
  · exact fits

theorem fopenPath_length (nonempty : url ≠ []) :
    (fopenPath stat before url).length =
      docRoot.length + url.length +
        (if url.getLast? = some 47 then (ascii "index.html").length else 0) +
        (if stat (statPath before url) = some true then (ascii "/index.html").length else 0) := by
  have statLength : (statPath before url).length = docRoot.length + url.length +
      if url.getLast? = some 47 then (ascii "index.html").length else 0 := by
    rw [statPath]
    by_cases slash : url.getLast? = some 47
    · rw [if_pos ((slash_iff nonempty).mpr slash), if_pos slash, List.length_append,
        List.length_append]
    · rw [if_neg fun last => slash ((slash_iff nonempty).mp last), if_neg slash,
        List.length_append, Nat.add_zero]
  rw [← statLength, fopenPath]
  split
  · rw [List.length_append]
  · rfl

end Accesses

/-- `do_http_response` stays in its arrays if and only if the URL is not empty, and the path
with all that is appended to it fits. -/
theorem staysInArrays_iff (stat : List Byte → Option Bool) (before : Byte) (url : List Byte) :
    StaysInArrays stat before url ↔
      url ≠ [] ∧
        docRoot.length + url.length +
            (if url.getLast? = some 47 then (ascii "index.html").length else 0) +
            (if stat (statPath before url) = some true then (ascii "/index.html").length else 0) <
          PATH_SIZE := by
  rw [staysInArrays_iff_fopenPath]
  apply and_congr_right
  intro nonempty
  rw [fopenPath_length nonempty]

/-- A URL that begins with a NUL byte, and one that is as long as the line allows. -/
def nulUrl : List Byte :=
  ascii "GET " ++ 0 :: ascii " HTTP/1.0\r\n"

/-- A URL of 248 bytes. -/
def longUrl : List Byte :=
  47 :: List.replicate 247 97

/-- The last byte of an empty URL is read in front of its array, and the path of a long one
is written behind the end of its array. -/
theorem urls_out_of_bounds :
    doHttpRequest (fun _ => none) 0 (nulUrl.map .byte) (List.replicate BUF_SIZE 0) =
        some (.accepted (doHttpResponse (fun _ => none) 0 [])) ∧
      ¬ StaysInArrays (fun _ => none) 0 [] ∧
      doHttpRequest (fun _ => none) 0 ((ascii "GET " ++ longUrl ++ ascii " x\n").map .byte)
        (List.replicate BUF_SIZE 0) =
        some (.accepted (doHttpResponse (fun _ => none) 0 longUrl)) ∧
      ¬ StaysInArrays (fun _ => none) 0 longUrl := by
  refine ⟨by decide +kernel, by decide +kernel, by decide +kernel, by decide +kernel⟩

end NetPractice.MiniHttpd
