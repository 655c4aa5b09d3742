import Mathlib.Algebra.BigOperators.Group.List.Basic
import Mathlib.Algebra.Order.Group.Unbundled.Int
import Mathlib.Data.List.Infix
import NetPractice.Text.CString
import Mathlib.Algebra.Ring.Int.Defs

/-!
# Lexical paths

A relative path is a list of moves: down to a name, up, or to the same directory.
Its normal form is the number of leading moves up, and the names behind them.
-/

namespace NetPractice.Text

universe u

/-- A component of a path. -/
inductive Move (α : Type u) where
  | up
  | here
  | down (name : α)
  deriving DecidableEq, Repr

/-- A normalised path; the innermost name comes first. -/
structure Position (α : Type u) where
  ups : Nat
  names : List α
  deriving DecidableEq, Repr

variable {α : Type u}

/-- Append a component to a normalised path. -/
def Position.move : Position α → Move α → Position α
  | ⟨ups, []⟩, .up => ⟨ups + 1, []⟩
  | ⟨ups, _ :: names⟩, .up => ⟨ups, names⟩
  | ⟨ups, names⟩, .down name => ⟨ups, name :: names⟩
  | position, .here => position

@[simp]
theorem Position.move_here (position : Position α) : position.move .here = position := by
  rcases position with ⟨ups, names⟩
  cases names with
  | nil => rfl
  | cons name names => rfl

@[simp]
theorem Position.move_down (ups : Nat) (names : List α) (name : α) :
    Position.move ⟨ups, names⟩ (.down name) = ⟨ups, name :: names⟩ := by
  cases names with
  | nil => rfl
  | cons head names => rfl

/-- Where some moves lead. -/
def normalise (moves : List (Move α)) : Position α :=
  moves.foldl Position.move ⟨0, []⟩

/-- The normalised path begins with this name. -/
def Inside (root : α) (position : Position α) : Prop :=
  position.ups = 0 ∧ position.names.getLast? = some root

instance [DecidableEq α] (root : α) (position : Position α) :
    Decidable (Inside root position) :=
  inferInstanceAs (Decidable (_ ∧ _))

/-! ## Depths -/

/-- By how much a move changes the depth. -/
def Move.rise : Move α → Int
  | .up => -1
  | .here => 0
  | .down _ => 1

/-- The directories that a path leads down. -/
def depth (moves : List (Move α)) : Int :=
  (moves.map Move.rise).sum

/-- No beginning of the path leads higher than this. -/
def NotAbove (height : Int) (moves : List (Move α)) : Prop :=
  ∀ first, first <+: moves → height ≤ depth first

@[simp]
theorem depth_nil : depth ([] : List (Move α)) = 0 :=
  rfl

@[simp]
theorem depth_cons (move : Move α) (moves : List (Move α)) :
    depth (move :: moves) = move.rise + depth moves := by
  simp [depth]

@[simp]
theorem depth_append (first second : List (Move α)) :
    depth (first ++ second) = depth first + depth second := by
  simp [depth]

theorem NotAbove.depth {height : Int} {moves : List (Move α)} (notAbove : NotAbove height moves) :
    height ≤ depth moves :=
  notAbove moves List.prefix_rfl

theorem notAbove_nil {height : Int} : NotAbove height ([] : List (Move α)) ↔ height ≤ 0 := by
  constructor
  · intro notAbove
    exact notAbove.depth
  · intro le first initial
    rw [List.prefix_nil.mp initial]
    exact le

theorem notAbove_cons {height : Int} {move : Move α} {moves : List (Move α)} :
    NotAbove height (move :: moves) ↔ height ≤ 0 ∧ NotAbove (height - move.rise) moves := by
  constructor
  · intro notAbove
    refine ⟨notAbove [] (List.nil_prefix), fun first initial => ?_⟩
    have le := notAbove (move :: first) (List.cons_prefix_cons.mpr ⟨rfl, initial⟩)
    rw [depth_cons] at le
    omega
  · rintro ⟨le, others⟩ first initial
    cases first with
    | nil => exact le
    | cons head first =>
        rcases List.cons_prefix_cons.mp initial with ⟨rfl, initial'⟩
        have le' := others first initial'
        rw [depth_cons]
        omega

theorem notAbove_append_singleton {height : Int} {move : Move α} {moves : List (Move α)} :
    NotAbove height (moves ++ [move]) ↔
      NotAbove height moves ∧ height ≤ depth moves + move.rise := by
  constructor
  · intro notAbove
    refine ⟨fun first initial => notAbove first (initial.trans (List.prefix_append _ _)), ?_⟩
    simpa using notAbove.depth
  · rintro ⟨others, le⟩ first initial
    rcases List.prefix_concat_iff.mp initial with rfl | initial
    · simpa using le
    · exact others first initial

/-! ## Paths that stay inside a directory -/

/-- The path reaches the directory that it starts from, enters `root`, and does not
leave it any more. -/
def Enters (root : α) (height : Int) (moves : List (Move α)) : Prop :=
  ∃ first rest, moves = first ++ .down root :: rest ∧ NotAbove height first ∧
    depth first = height ∧ NotAbove 0 rest

/-- A path that does not lead above a directory leads to a directory below it. -/
theorem foldl_move_of_notAbove {moves : List (Move α)} (ups : Nat) (names : List α)
    {inner : List α} (notAbove : NotAbove (-inner.length) moves) :
    ∃ inner', moves.foldl Position.move ⟨ups, inner ++ names⟩ = ⟨ups, inner' ++ names⟩ ∧
      (inner'.length : Int) = inner.length + depth moves := by
  induction moves generalizing inner with
  | nil => exact ⟨inner, rfl, by simp⟩
  | cons move moves ih =>
      rcases notAbove_cons.mp notAbove with ⟨-, others⟩
      rw [depth_cons, List.foldl_cons]
      cases move with
      | here =>
          have height : -(inner.length : Int) - (Move.here : Move α).rise = -inner.length := by
            simp [Move.rise]
          rcases ih (height ▸ others) with ⟨inner', moved, length⟩
          exact ⟨inner', by rwa [Position.move_here], by simpa [Move.rise] using length⟩
      | down name =>
          have height :
              -(inner.length : Int) - (Move.down name).rise = -(name :: inner).length := by
            simp only [Move.rise, List.length_cons]
            omega
          rcases ih (height ▸ others) with ⟨inner', moved, length⟩
          refine ⟨inner', by rwa [Position.move_down], ?_⟩
          rw [length, List.length_cons]
          simp only [Move.rise]
          omega
      | up =>
          cases inner with
          | nil =>
              have above := notAbove [.up] (List.cons_prefix_cons.mpr ⟨rfl, List.nil_prefix⟩)
              simp [Move.rise] at above
          | cons head inner =>
              have height : -((head :: inner).length : Int) - (Move.up : Move α).rise =
                  -inner.length := by
                simp only [Move.rise, List.length_cons]
                omega
              rcases ih (height ▸ others) with ⟨inner', moved, length⟩
              refine ⟨inner', moved, ?_⟩
              rw [length, List.length_cons]
              simp only [Move.rise]
              omega

theorem normalise_of_notAbove {moves : List (Move α)} (notAbove : NotAbove 0 moves) :
    ∃ names, normalise moves = ⟨0, names⟩ ∧ (names.length : Int) = depth moves := by
  rcases @foldl_move_of_notAbove _ _ 0 [] [] notAbove with ⟨names, moved, length⟩
  exact ⟨names, by simpa [normalise] using moved, by simpa using length⟩

theorem Enters.inside {root : α} {moves : List (Move α)} (enters : Enters root 0 moves) :
    Inside root (normalise moves) := by
  rcases enters with ⟨first, rest, rfl, before, ground, behind⟩
  rcases normalise_of_notAbove before with ⟨names, moved, length⟩
  rw [ground, Int.natCast_eq_zero, List.length_eq_zero_iff] at length
  subst length
  rcases @foldl_move_of_notAbove _ _ 0 [root] [] behind with ⟨inner, entered, -⟩
  have position : normalise (first ++ .down root :: rest) = ⟨0, inner ++ [root]⟩ := by
    unfold normalise at moved ⊢
    rw [List.foldl_append, List.foldl_cons, moved, Position.move_down]
    exact entered
  rw [position]
  exact ⟨rfl, by simp⟩

/-- How a path without leading moves up has reached its position. -/
structure Reached (moves : List (Move α)) (names : List α) : Prop where
  notAbove : NotAbove 0 moves
  depth_eq : depth moves = names.length
  enters : ∀ inner root, names = inner ++ [root] → ∃ first rest,
    moves = first ++ .down root :: rest ∧ NotAbove 0 first ∧ depth first = 0 ∧
      NotAbove 0 rest ∧ depth rest = inner.length

section Reached

variable {moves : List (Move α)} {names : List α}

theorem reached_nil : Reached ([] : List (Move α)) [] where
  notAbove := notAbove_nil.mpr (Int.le_refl 0)
  depth_eq := rfl
  enters := by
    intro inner root empty
    simp at empty

theorem Reached.here (reached : Reached moves names) : Reached (moves ++ [.here]) names := by
  constructor
  · apply notAbove_append_singleton.mpr
    refine ⟨reached.notAbove, ?_⟩
    simp [Move.rise, reached.depth_eq]
  · simp [Move.rise, reached.depth_eq]
  · intro inner root names_eq
    rcases reached.enters inner root names_eq with
      ⟨first, rest, rfl, before, ground, behind, length⟩
    refine ⟨first, rest ++ [.here], by simp, before, ground, ?_,
      by simp [Move.rise, length]⟩
    apply notAbove_append_singleton.mpr
    exact ⟨behind, by simp [Move.rise, length]⟩

theorem Reached.down (reached : Reached moves names) (name : α) :
    Reached (moves ++ [.down name]) (name :: names) := by
  constructor
  · apply notAbove_append_singleton.mpr
    refine ⟨reached.notAbove, ?_⟩
    simp only [Move.rise, reached.depth_eq]
    omega
  · simp [Move.rise, reached.depth_eq]
  · intro inner root names_eq
    cases inner with
    | nil =>
        rcases List.cons_eq_cons.mp names_eq with ⟨rfl, rfl⟩
        refine ⟨moves, [], rfl, reached.notAbove, ?_, notAbove_nil.mpr (Int.le_refl 0), rfl⟩
        simpa using reached.depth_eq
    | cons head inner =>
        rcases List.cons_eq_cons.mp names_eq with ⟨rfl, names_eq'⟩
        rcases reached.enters inner root names_eq' with
          ⟨first, rest, rfl, before, ground, behind, length⟩
        refine ⟨first, rest ++ [.down name], by simp, before, ground, ?_,
          by simp [Move.rise, length]⟩
        apply notAbove_append_singleton.mpr
        refine ⟨behind, ?_⟩
        simp only [Move.rise, length]
        omega

theorem Reached.up {name : α} (reached : Reached moves (name :: names)) :
    Reached (moves ++ [.up]) names := by
  have depth_eq := reached.depth_eq
  rw [List.length_cons] at depth_eq
  constructor
  · apply notAbove_append_singleton.mpr
    refine ⟨reached.notAbove, ?_⟩
    simp only [Move.rise]
    omega
  · rw [depth_append, depth_cons, depth_nil]
    simp only [Move.rise]
    omega
  · rintro inner root rfl
    rcases reached.enters (name :: inner) root rfl with
      ⟨first, rest, rfl, before, ground, behind, length⟩
    rw [List.length_cons] at length
    refine ⟨first, rest ++ [.up], by simp, before, ground, ?_, ?_⟩
    · apply notAbove_append_singleton.mpr
      refine ⟨behind, ?_⟩
      simp only [Move.rise]
      omega
    · rw [depth_append, depth_cons, depth_nil]
      simp only [Move.rise]
      omega

end Reached

theorem normalise_append_singleton (moves : List (Move α)) (move : Move α) :
    normalise (moves ++ [move]) = (normalise moves).move move := by
  unfold normalise
  rw [List.foldl_append]
  rfl

theorem reached_of_normalise {moves : List (Move α)} {names : List α}
    (position : normalise moves = ⟨0, names⟩) : Reached moves names := by
  induction moves using List.reverseRecOn generalizing names with
  | nil =>
      cases position
      exact reached_nil
  | append_singleton moves move ih =>
      rw [normalise_append_singleton] at position
      cases before : normalise moves with
      | mk ups names' =>
          rw [before] at position
          cases move with
          | here =>
              rw [Position.move_here] at position
              cases position
              exact (ih before).here
          | down name =>
              rw [Position.move_down] at position
              cases position
              exact (ih before).down name
          | up =>
              cases names' with
              | nil => cases position
              | cons name names' =>
                  cases position
                  exact (ih before).up

/-- A path is inside `root` if and only if it enters `root` and does not leave it. -/
theorem inside_iff_enters (root : α) (moves : List (Move α)) :
    Inside root (normalise moves) ↔ Enters root 0 moves := by
  constructor
  · rintro ⟨noUps, last⟩
    cases position : normalise moves with
    | mk ups names =>
        rw [position] at noUps last
        cases noUps
        rcases List.getLast?_eq_some_iff.mp last with ⟨inner, names_eq⟩
        rcases (reached_of_normalise position).enters inner root names_eq with
          ⟨first, rest, moves_eq, before, ground, behind, -⟩
        exact ⟨first, rest, moves_eq, before, ground, behind⟩
  · exact Enters.inside

/-- A further name does not lead into a directory of another name. -/
theorem inside_move_down {root name : α} (other : name ≠ root) (position : Position α) :
    Inside root (position.move (.down name)) ↔ Inside root position := by
  rcases position with ⟨ups, names⟩
  rw [Position.move_down]
  unfold Inside
  cases names with
  | nil => simp [other]
  | cons head names => simp

/-- A path inside `root` is one that begins with `root` and does not leave it, or that
leaves it for its parent and comes back. -/
theorem enters_cons_down (root name : α) (moves : List (Move α)) :
    Enters root 0 (.down name :: moves) ↔
      (name = root ∧ NotAbove 0 moves) ∨ Enters root (-1) moves := by
  constructor
  · rintro ⟨first, rest, moves_eq, before, ground, behind⟩
    cases first with
    | nil =>
        rcases List.cons_eq_cons.mp moves_eq with ⟨same, rfl⟩
        cases same
        exact .inl ⟨rfl, behind⟩
    | cons head first =>
        rcases List.cons_eq_cons.mp moves_eq with ⟨rfl, rfl⟩
        refine .inr ⟨first, rest, rfl, ?_, ?_, behind⟩
        · simpa [Move.rise] using (notAbove_cons.mp before).2
        · rw [depth_cons] at ground
          simp only [Move.rise] at ground
          omega
  · rintro (⟨rfl, stays⟩ | ⟨first, rest, rfl, before, parent, behind⟩)
    · exact ⟨[], moves, rfl, notAbove_nil.mpr (Int.le_refl 0), rfl, stays⟩
    · refine ⟨.down name :: first, rest, rfl, ?_, ?_, behind⟩
      · exact notAbove_cons.mpr ⟨Int.le_refl 0, by simpa [Move.rise] using before⟩
      · rw [depth_cons, parent]
        rfl

/-! ## Paths as bytes -/

/-- The move of a component between slashes. -/
def toMove (component : List Byte) : Move (List Byte) :=
  if component = [] ∨ component = [46] then .here
  else if component = [46, 46] then .up
  else .down component

/-- The moves of a path; repeated slashes count once. -/
def moves (path : List Byte) : List (Move (List Byte)) :=
  (path.splitOn 47).map toMove

theorem moves_append_slash (first second : List Byte) :
    moves (first ++ 47 :: second) = moves first ++ moves second := by
  unfold moves
  rw [List.splitOn_append_cons_of_beq _ _ (beq_self_eq_true _), List.map_append]

theorem toMove_of_length {component : List Byte} (long : 2 < component.length) :
    toMove component = .down component := by
  unfold toMove
  rw [if_neg, if_neg]
  · rintro rfl
    exact absurd long (by decide)
  · rintro (rfl | rfl)
    · exact absurd long (by decide)
    · exact absurd long (by decide)

theorem moves_of_noSlash {name : List Byte} (noSlash : 47 ∉ name) : moves name = [toMove name] := by
  unfold moves
  rw [List.splitOn_eq_singleton noSlash]
  rfl

/-- A leading `./` does not count. -/
theorem normalise_dot_slash (path : List Byte) :
    normalise (moves (46 :: 47 :: path)) = normalise (moves path) := by
  have dot : moves [46] = [.here] := moves_of_noSlash (by decide)
  have split : moves (46 :: 47 :: path) = moves [46] ++ moves path := moves_append_slash [46] path
  rw [split, dot]
  rfl

section Names

variable {root name path : List Byte}

/-- A name behind a slash. -/
theorem inside_append_name (noSlash : 47 ∉ name) (long : 2 < name.length) (other : name ≠ root) :
    Inside root (normalise (moves (path ++ 47 :: name))) ↔
      Inside root (normalise (moves path)) := by
  rw [moves_append_slash, moves_of_noSlash noSlash, toMove_of_length long,
    normalise_append_singleton, inside_move_down other]

theorem normalise_append_slash (path : List Byte) :
    normalise (moves (path ++ [47])) = normalise (moves path) := by
  rw [moves_append_slash]
  exact (normalise_append_singleton _ _).trans (Position.move_here _)

end Names

/-! ## URLs behind the name of a directory -/

/-- The moves behind the first component. -/
def movesBehind (url : List Byte) : List (Move (List Byte)) :=
  (url.splitOn 47).tail.map toMove

/-- Behind the name of a directory, the URL does not lead out of it, or leads to its
parent and back through its name. -/
def StaysIn (root url : List Byte) : Prop :=
  ((url = [] ∨ url.head? = some 47) ∧ NotAbove 0 (movesBehind url)) ∨
    Enters root (-1) (movesBehind url)

/-- The path of a URL behind the name of a directory is inside it if and only if the URL
stays in it. -/
theorem inside_append_iff {root : List Byte} (noSlash : 47 ∉ root) (long : 2 < root.length)
    (url : List Byte) : Inside root (normalise (moves (root ++ url))) ↔ StaysIn root url := by
  have behindName : ∀ first, 47 ∉ first → moves (root ++ first) = [.down (root ++ first)] := by
    intro first noSlash'
    rw [moves_of_noSlash (by simp [noSlash, noSlash']), toMove_of_length]
    rw [List.length_append]
    omega
  unfold StaysIn movesBehind
  by_cases mem : 47 ∈ url
  · rcases List.eq_append_cons_of_mem mem with ⟨first, rest, rfl, noSlash'⟩
    rw [← List.append_assoc, moves_append_slash, behindName first noSlash', List.singleton_append,
      inside_iff_enters, enters_cons_down, List.append_right_eq_self,
      List.splitOn_append_cons_of_beq _ _ (beq_self_eq_true _),
      List.splitOn_eq_singleton noSlash']
    have head : first = [] ↔
        first ++ 47 :: rest = [] ∨ (first ++ 47 :: rest).head? = some 47 := by
      cases first with
      | nil => simp
      | cons byte first =>
          have other : byte ≠ 47 := fun equal => noSlash' (by simp [equal])
          simp [other]
    rw [← head]
    rfl
  · rw [behindName url mem, inside_iff_enters, enters_cons_down, List.append_right_eq_self,
      List.splitOn_eq_singleton mem]
    have head : url = [] ↔ url = [] ∨ url.head? = some 47 := by
      cases url with
      | nil => simp
      | cons byte url =>
          have other : byte ≠ 47 := fun equal => mem (by simp [equal])
          simp [other]
    rw [← head]
    rfl

end NetPractice.Text
