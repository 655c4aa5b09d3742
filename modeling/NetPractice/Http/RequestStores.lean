import NetPractice.Http.Linger
import NetPractice.Http.Overwrites

/-!
# Where an accepted request stores

The lines of a request are terminated where they end.  Its content is terminated at the
declared length, which lies in front of the buffer when the length is negative enough.
-/

namespace NetPractice.Http

open NetPractice.Text
open NetPractice.Socket

namespace HttpConn

section Stores

variable {fs : FileSystem} {c d : HttpConn} {r : Request}

/-- Without a result, all stores lie inside the buffer. -/
theorem Loops.inside {status : LineStatus} {code : HttpCode} (loops : Loops fs status c code d)
    (ordered : c.Ordered) (waits : code = .noRequest) : StoresInside c d := by
  induction loops with
  | stop text _ => exact (nextText_spec ordered.checked ordered.read text).1.inside
  | result _ handled => exact absurd waits (handleText_result handled)
  | again text handled _ ih =>
      have scanned := (nextText_spec ordered.checked ordered.read text).1
      have body := handleText_again_inside handled
      have rest := ih ((handleText_spec handled).ordered (scanned.ordered ordered)) waits
      exact (scanned.inside.trans body).trans rest

theorem lineTaken_inside {line : List Byte}
    (room : c.readIdx + line.length + 2 ≤ READ_BUFFER_SIZE) :
    StoresInside c (c.lineTaken line) := by
  have first :
      StoresInside c ((c.append (line ++ [CR, LF])).store (c.readIdx + line.length : Nat)) :=
    StoresInside.store (c.append (line ++ [CR, LF])) (by omega)
  exact first.trans (StoresInside.store _ (by omega))

theorem Passes.inside {lines : List (List Byte)} (passes : Passes fs c lines d)
    (room : c.readIdx + (wire lines).length ≤ READ_BUFFER_SIZE) : StoresInside c d := by
  induction passes with
  | nil c => exact .refl c
  | cons _ _ handled _ ih =>
      simp only [wire_cons, List.length_append, List.length_cons] at room
      have readIdx_eq := (atLine_of_handled handled).2
      have taken := (lineTaken_inside (by omega)).trans (handleText_again_inside handled)
      exact taken.trans (ih (by omega))

/-- The end of the declared content does not lie in front of the buffer. -/
def ContentInside (r : Request) : Prop :=
  0 ≤ r.head.length + declaredLength r.headers

instance (r : Request) : Decidable (ContentInside r) :=
  inferInstanceAs (Decidable (_ ≤ _))

/-- A content is terminated behind its declared length. -/
theorem AtContent.inside {length : Int} (atContent : c.AtContent length) {body : List Byte}
    (front : 0 ≤ c.readIdx + length) (whole : length ≤ body.length)
    (room : c.readIdx + body.length < READ_BUFFER_SIZE) {turn : Turn}
    (handled : (c.append body).handleText fs = (turn, d)) : StoresInside c d := by
  have stores := handleText_content_stores (c := c.append body) atContent.state handled
  have index_eq : ((c.append body).startLine : Int) + (c.append body).contentLength =
      c.readIdx + length := by
    change (c.startLine : Int) + c.contentLength = _
    rw [atContent.start, atContent.length_eq]
  rw [index_eq] at stores
  refine ⟨_, stores, fun index mem => ?_⟩
  split at mem
  · obtain rfl := List.mem_singleton.mp mem
    omega
  · cases mem

/-- A whole accepted request stores inside the buffer. -/
theorem accepted_inside {code : HttpCode} (accepts : ¬ Rejects c r) (content : ContentInside r)
    (loops : Loops fs .ok (c.init.append r.bytes) code d) : StoresInside c.init d := by
  have size := r.length_lt
  have lines := wire_header_lines r
  have length_body := r.length_body
  rw [r.length_bytes] at size
  have start : c.init.readIdx = 0 := rfl
  rcases passes_of_not_rejects fs accepts with ⟨e, passes, state, length_eq⟩
  rcases passes.atLine c.init_atLine with ⟨atLine, readIdx_eq⟩
  have before := passes.inside (by omega)
  by_cases noContent : declaredLength r.headers = 0
  · -- The empty line has the result.
    have noBody : r.body = [] := List.eq_nil_of_length_eq_zero (by rw [length_body, noContent]; rfl)
    rcases onHeader_empty fs atLine state (length_eq.trans noContent) with ⟨code', f, handled, -⟩
    have text : (e.append [CR, LF]).nextText .ok = (.ok, e.lineTaken []) := by
      rw [nextText_of_state (c := e.append [CR, LF]) (by simp [append, state])]
      exact (atLine.parseLine_line (by simp [Plain] : Plain []) []).trans (by rw [append_nil])
    have whole := passes.loops c.init_atLine (by omega) (.result text handled)
    have bytes_eq : r.bytes = wire (r.requestLine :: r.headers) ++ [CR, LF] := by
      simp [Request.bytes, Request.head, wire_append, noBody]
    rw [← bytes_eq] at whole
    rcases loops.unique whole with ⟨-, rfl⟩
    have notContent : (e.lineTaken []).checkState ≠ .content := by
      change e.checkState ≠ _
      simp [state]
    have taken : StoresInside e (e.lineTaken []) :=
      lineTaken_inside (by simp only [List.length_nil]; omega)
    exact before.trans (taken.trans (handleText_inside notContent handled))
  · -- The content has the result.
    rcases accepted_cases fs accepts with ⟨none, -⟩ | ⟨f, passes', atContent⟩
    · exact absurd none noContent
    · have head_eq : wire (r.requestLine :: r.headers ++ [[]]) = r.head := rfl
      have readIdx_eq' := (passes'.atLine c.init_atLine).2
      have before' := passes'.inside (by rw [head_eq]; omega)
      rw [head_eq, start, Nat.zero_add] at readIdx_eq'
      unfold ContentInside at content
      have range := (declaredLength_range r.headers).1
      have limit : (READ_BUFFER_SIZE : Int) = 2048 := rfl
      have complete : toInt ((f.append r.body).contentLength + (f.append r.body).checkedIdx) ≤
          (f.append r.body).readIdx := by
        change toInt (f.contentLength + f.checkedIdx) ≤ ((f.readIdx + r.body.length : Nat) : Int)
        have checked := atContent.checked
        rw [atContent.length_eq, toInt_of_range (by omega) (by omega)]
        omega
      rcases handleText_complete fs (c := f.append r.body) atContent.state complete with
        ⟨code', g, handled, -⟩
      have whole := passes'.loops c.init_atLine (by rw [head_eq]; omega)
        (.result (nextText_content (c := f.append r.body) atContent.state) handled)
      rcases loops.unique whole with ⟨-, rfl⟩
      exact before'.trans (atContent.inside (by omega) (by omega) (by omega) handled)

end Stores

end HttpConn

end NetPractice.Http
