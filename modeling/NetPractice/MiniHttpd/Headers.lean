import NetPractice.MiniHttpd.Lines

/-!
# Skipping the headers in the mini server

`do_http_request` calls `get_line` until it returns zero, which it takes for the empty line
behind the headers.  A line whose bytes fill the buffer a whole number of times leaves its
LF to a call of its own, and that call returns zero as well.
-/

namespace NetPractice.MiniHttpd

open NetPractice.Text

theorem count_add_length_rest (size : Nat) (bytes : List Byte) (count : Nat) (buf : List Byte) :
    (getLineFrom size bytes count buf).count + (getLineFrom size bytes count buf).rest.length ≤
      count + bytes.length := by
  induction bytes generalizing count buf with
  | nil => exact Nat.le_refl _
  | cons byte bytes ih =>
      rw [getLineFrom, List.length_cons]
      split
      · split
        · have inner := ih count buf
          omega
        · split
          · dsimp only
            omega
          · have inner := ih (count + 1) (buf.set count byte)
            omega
      · exact Nat.le_refl _

/-- A call that returns some bytes has taken them from the stream. -/
theorem length_rest_lt {size : Nat} {bytes buf : List Byte}
    (some : 0 < (getLineFrom size bytes 0 buf).count) :
    (getLineFrom size bytes 0 buf).rest.length < bytes.length := by
  have total := count_add_length_rest size bytes 0 buf
  omega

/-- The `do` loop of `do_http_request`: how its last call of `get_line` ended, and what that
left of the stream.  A stream at its end stays there. -/
def skipHeaders (bytes buf : List Byte) : Exit × List Byte :=
  if _some : 0 < (getLineFrom BUF_SIZE bytes 0 buf).count then
    skipHeaders (getLineFrom BUF_SIZE bytes 0 buf).rest (getLineFrom BUF_SIZE bytes 0 buf).buf
  else ((getLineFrom BUF_SIZE bytes 0 buf).exit, (getLineFrom BUF_SIZE bytes 0 buf).rest)
termination_by bytes.length
decreasing_by exact length_rest_lt _some

/-! ## The headers of a stream -/

theorem length_behind_lt {bytes : List Byte} (lf : LF ∈ bytes) :
    (behind bytes).length < bytes.length := by
  have lengths := congrArg List.length (line_append_behind lf)
  rw [List.length_append, List.length_cons] at lengths
  omega

/-- The lines in front of the first empty one, and what a reader is meant to leave of the
stream: what is behind the empty line, or nothing. -/
def headers (bytes : List Byte) : List (List Byte) × Exit × List Byte :=
  if _lf : LF ∈ bytes then
    if text (line bytes) = [] then ([], .newline, behind bytes)
    else (line bytes :: (headers (behind bytes)).1, (headers (behind bytes)).2)
  else ([], .ended, [])
termination_by bytes.length
decreasing_by all_goals exact length_behind_lt _lf

/-- An empty line is behind the beginning of a stream. -/
theorem headers_newline {bytes : List Byte} (newline : (headers bytes).2.1 = .newline) :
    (headers bytes).2.2.length < bytes.length := by
  induction bytes using headers.induct with
  | case1 bytes lf empty =>
      rw [headers, dif_pos lf, if_pos empty]
      exact length_behind_lt lf
  | case2 bytes lf nonempty ih =>
      rw [headers, dif_pos lf, if_neg nonempty] at newline ⊢
      exact (ih newline).trans (length_behind_lt lf)
  | case3 bytes noLf =>
      rw [headers, dif_neg noLf] at newline
      cases newline

/-! ## What the loop makes of a line -/

section Skip

variable {bytes rest buf stored : List Byte} {count : Nat} {exit : Exit}

theorem skipHeaders_again (taken : getLineFrom BUF_SIZE bytes 0 buf = ⟨count, stored, exit, rest⟩)
    (some : 0 < count) : skipHeaders bytes buf = skipHeaders rest stored := by
  rw [skipHeaders, taken, dif_pos some]

theorem skipHeaders_stop (taken : getLineFrom BUF_SIZE bytes 0 buf = ⟨0, stored, exit, rest⟩) :
    skipHeaders bytes buf = (exit, rest) := by
  rw [skipHeaders, taken, dif_neg (Nat.lt_irrefl 0)]

/-- The first full buffer of a line. -/
theorem skipHeaders_full {line : List Byte} (noLf : LF ∉ line)
    (long : BUF_SIZE - 1 ≤ (text line).length) (buf : List Byte) :
    ∃ more stored, LF ∉ more ∧ (text line).length = BUF_SIZE - 1 + (text more).length ∧
      ∀ rest, skipHeaders (line ++ rest) buf = skipHeaders (more ++ rest) stored := by
  rcases exists_piece long with ⟨piece, more, rfl, length_eq, tight⟩
  refine ⟨more, store buf 0 (text piece), ?_, ?_, ?_⟩
  · exact fun mem => noLf (List.mem_append_right _ mem)
  · rw [text_append, List.length_append, length_eq]
  · intro rest
    have pieceNoLf : LF ∉ piece := fun mem => noLf (List.mem_append_left _ mem)
    rw [List.append_assoc]
    exact skipHeaders_again (getLineFrom_full pieceNoLf tight (by omega) (more ++ rest)) (by decide)

/-- The loop goes on behind a line whose bytes do not fill the buffer a whole number of
times, and stops there otherwise. -/
theorem skipHeaders_line {line : List Byte} (noLf : LF ∉ line) (rest buf : List Byte) :
    (¬ BUF_SIZE - 1 ∣ (text line).length →
      ∃ stored, skipHeaders (line ++ LF :: rest) buf = skipHeaders rest stored) ∧
    (BUF_SIZE - 1 ∣ (text line).length →
      skipHeaders (line ++ LF :: rest) buf = (.newline, rest)) := by
  induction size : (text line).length using Nat.strong_induction_on generalizing line buf with
  | _ k ih =>
      subst size
      by_cases short : (text line).length < BUF_SIZE - 1
      · have taken : getLineFrom BUF_SIZE (line ++ LF :: rest) 0 buf = _ :=
          getLineFrom_newline noLf (by omega) rest
        rw [Nat.zero_add] at taken
        constructor
        · intro partly
          have nonempty : 0 < (text line).length := by
            apply Nat.pos_of_ne_zero
            intro zero
            rw [zero] at partly
            exact partly (Nat.dvd_zero _)
          exact ⟨_, skipHeaders_again taken nonempty⟩
        · intro whole
          rw [Nat.eq_zero_of_dvd_of_lt whole short] at taken
          exact skipHeaders_stop taken
      · rcases skipHeaders_full noLf (Nat.le_of_not_lt short) buf with
          ⟨more, stored, moreNoLf, length_eq, again⟩
        have fewer : (text more).length < (text line).length := by
          rw [length_eq]
          exact Nat.lt_add_of_pos_left (by decide)
        have inner := ih _ fewer moreNoLf stored rfl
        rw [length_eq, Nat.dvd_add_right (Nat.dvd_refl _), again]
        exact inner

/-- The loop ends with a stream that has no further LF. -/
theorem skipHeaders_tail {tail : List Byte} (noLf : LF ∉ tail) (buf : List Byte) :
    skipHeaders tail buf = (.ended, []) := by
  induction size : (text tail).length using Nat.strong_induction_on generalizing tail buf with
  | _ k ih =>
      subst size
      by_cases short : (text tail).length < BUF_SIZE - 1
      · have taken : getLineFrom BUF_SIZE tail 0 buf = _ := getLineFrom_ended noLf (by omega)
        rw [Nat.zero_add] at taken
        by_cases empty : (text tail).length = 0
        · rw [empty] at taken
          exact skipHeaders_stop taken
        · rw [skipHeaders_again taken (Nat.pos_of_ne_zero empty)]
          exact skipHeaders_stop rfl
      · rcases skipHeaders_full noLf (Nat.le_of_not_lt short) buf with
          ⟨more, stored, moreNoLf, length_eq, again⟩
        have fewer : (text more).length < (text tail).length := by
          rw [length_eq]
          exact Nat.lt_add_of_pos_left (by decide)
        have whole := again []
        rw [List.append_nil, List.append_nil] at whole
        rw [whole]
        exact ih _ fewer moreNoLf stored rfl

end Skip

/-! ## Requests -/

/-- The loop stops at the first empty line, or at the end of the stream, if and only if no
line in front of that fills the buffer a whole number of times. -/
theorem skipHeaders_eq_iff (bytes buf : List Byte) :
    skipHeaders bytes buf = (headers bytes).2 ↔
      ∀ line ∈ (headers bytes).1, ¬ BUF_SIZE - 1 ∣ (text line).length := by
  induction bytes using headers.induct generalizing buf with
  | case1 bytes lf empty =>
      rw [headers, dif_pos lf, if_pos empty]
      have stops := (skipHeaders_line (lf_notMem_line bytes) (behind bytes) buf).2
        (by rw [empty]; exact Nat.dvd_zero _)
      rw [line_append_behind lf] at stops
      exact iff_of_true stops nofun
  | case2 bytes lf nonempty ih =>
      rw [headers, dif_pos lf, if_neg nonempty, List.forall_mem_cons]
      have cases := skipHeaders_line (lf_notMem_line bytes) (behind bytes) buf
      rw [line_append_behind lf] at cases
      by_cases whole : BUF_SIZE - 1 ∣ (text (line bytes)).length
      · apply iff_of_false
        · rw [cases.2 whole]
          intro same
          have further := headers_newline (congrArg Prod.fst same).symm
          rw [← congrArg Prod.snd same] at further
          exact Nat.lt_irrefl _ further
        · exact fun both => both.1 whole
      · rcases cases.1 whole with ⟨stored, again⟩
        rw [again, ih stored, and_iff_right whole]
  | case3 bytes noLf =>
      rw [headers, dif_neg noLf]
      exact iff_of_true (skipHeaders_tail noLf buf) nofun

/-- The first line of an accepted request has some bytes. -/
theorem count_pos_of_accepted {stat : List Byte → Option Bool} {before : Byte}
    {bytes memory : List Byte} {ending : Read} (ends : ending.Ends) {more : List Read}
    {calls : List FileCall}
    (accepted : doHttpRequest stat before (bytes.map .byte ++ ending :: more) memory =
      some (.accepted calls)) : 0 < (getLineFrom BUF_SIZE bytes 0 memory).count := by
  rw [doHttpRequest, getLine, getLineLoop_eq BUF_SIZE bytes ends more, Option.bind_some] at accepted
  dsimp only at accepted
  by_contra none
  rw [if_neg none] at accepted
  cases accepted

/-- Behind an accepted request line, the loop consumes the stream up to the first empty
line, or to its end, if and only if neither the request line nor a header line fills the
buffer a whole number of times. -/
theorem headers_skipped_iff {stat : List Byte → Option Bool} {before : Byte}
    {bytes memory : List Byte} {ending : Read} (ends : ending.Ends) {more : List Read}
    {calls : List FileCall}
    (accepted : doHttpRequest stat before (bytes.map .byte ++ ending :: more) memory =
      some (.accepted calls)) :
    skipHeaders (getLineFrom BUF_SIZE bytes 0 memory).rest
        (getLineFrom BUF_SIZE bytes 0 memory).buf = (headers bytes).2 ↔
      ∀ line ∈ (headers bytes).1, ¬ BUF_SIZE - 1 ∣ (text line).length := by
  rw [← skipHeaders_eq_iff bytes memory, skipHeaders.eq_def bytes memory,
    dif_pos (count_pos_of_accepted ends accepted)]

/-- A request with one header. -/
def shortRequest : List Byte :=
  ascii "GET / HTTP/1.0\r\nHost: a\r\n\r\nbody"

/-- A request whose first header line has 255 bytes in front of its CR and LF. -/
def longRequest : List Byte :=
  ascii "GET / HTTP/1.0\r\nX: " ++ List.replicate 252 97 ++ ascii "\r\nHost: a\r\n\r\nbody"

theorem headers_skipped_shortRequest :
    skipHeaders (getLineFrom BUF_SIZE shortRequest 0 (List.replicate BUF_SIZE 0)).rest
        (getLineFrom BUF_SIZE shortRequest 0 (List.replicate BUF_SIZE 0)).buf =
      (headers shortRequest).2 ∧
    (headers shortRequest).2 = (.newline, ascii "body") := by
  have accepted : doHttpRequest (fun _ => none) 0 (shortRequest.map .byte ++ .closed :: [])
      (List.replicate BUF_SIZE 0) = some (.accepted [.stat (ascii "./htdocs/index.html")]) := by
    decide +kernel
  constructor
  · exact (headers_skipped_iff (show Read.closed.Ends from trivial) accepted).mpr
      (by decide +kernel)
  · decide +kernel

/-- The loop takes the LF of the long header line for an empty line, and leaves the next
header. -/
theorem longRequest_not_skipped :
    doHttpRequest (fun _ => none) 0 (longRequest.map .byte ++ [.closed])
        (List.replicate BUF_SIZE 0) = some (.accepted [.stat (ascii "./htdocs/index.html")]) ∧
      (headers longRequest).2 = (.newline, ascii "body") ∧
      skipHeaders (getLineFrom BUF_SIZE longRequest 0 (List.replicate BUF_SIZE 0)).rest
          (getLineFrom BUF_SIZE longRequest 0 (List.replicate BUF_SIZE 0)).buf =
        (.newline, ascii "Host: a\r\n\r\nbody") ∧
      skipHeaders (getLineFrom BUF_SIZE longRequest 0 (List.replicate BUF_SIZE 0)).rest
          (getLineFrom BUF_SIZE longRequest 0 (List.replicate BUF_SIZE 0)).buf ≠
        (headers longRequest).2 := by
  refine ⟨by decide +kernel, by decide +kernel, by decide +kernel, by decide +kernel⟩

end NetPractice.MiniHttpd
