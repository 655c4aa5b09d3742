import NetPractice.Inet.DottedQuad

/-!
# The texts that inet_pton6 accepts

A text is a list of groups, each with a colon behind it, and a tail: nothing, a group or
a dotted quad.  Once, a second colon may stand behind the groups, or two colons in front
of all of them.  What is read behind it is moved to the end of the address by hand.  The
loop that moves it works in place: when there is nothing to move it over, it writes zeros
over what it should keep.
-/

namespace NetPractice.Inet

open NetPractice.Text

/-! ## The block that is moved by hand -/

section Shift

variable {colonp : Nat} {front block behind : List Byte}

theorem set_length (front rest : List Byte) (old new : Byte) :
    (front ++ old :: rest).set front.length new = front ++ new :: rest := by
  rw [List.set_append_right _ _ (Nat.le_refl _), Nat.sub_self, List.set_cons_zero]

theorem getD_length (front rest : List Byte) (byte : Byte) :
    (front ++ byte :: rest).getD front.length 0 = byte := by
  simp

/-- The rounds for the bytes of `block`, when those of `behind` have been moved. -/
theorem foldl_shiftByte {gap : Nat} (behind : List Byte)
    (full : front.length + block.length + gap + behind.length = IN6ADDRSZ) (positive : 0 < gap) :
    (List.range' (behind.length + 1) block.length).foldl
        (shiftByte front.length (block.length + behind.length))
        (front ++ block ++ List.replicate gap 0 ++ behind) =
      front ++ List.replicate gap 0 ++ block ++ behind := by
  induction block using List.reverseRecOn generalizing behind with
  | nil => simp
  | append_singleton block byte ih =>
      obtain ⟨gap, rfl⟩ : ∃ less, gap = less + 1 := ⟨gap - 1, by omega⟩
      rw [List.length_append, List.length_singleton] at full ⊢
      rw [List.range'_succ, List.foldl_cons]
      have source : front.length + (block.length + 1 + behind.length - (behind.length + 1)) =
          (front ++ block).length := by
        rw [List.length_append]
        omega
      have target : IN6ADDRSZ - (behind.length + 1) =
          (front ++ block ++ byte :: List.replicate gap 0).length := by
        simp only [List.length_append, List.length_cons, List.length_replicate]
        omega
      have before : front ++ (block ++ [byte]) ++ List.replicate (gap + 1) 0 ++ behind =
          front ++ block ++ byte :: List.replicate gap 0 ++ 0 :: behind := by
        rw [List.replicate_succ']
        simp
      have moved : shiftByte front.length (block.length + 1 + behind.length)
          (front ++ (block ++ [byte]) ++ List.replicate (gap + 1) 0 ++ behind)
          (behind.length + 1) =
            front ++ block ++ List.replicate (gap + 1) 0 ++ byte :: behind := by
        have found : (front ++ block ++ byte :: List.replicate gap 0 ++ 0 :: behind).getD
            (front ++ block).length 0 = byte := by
          rw [List.append_assoc]
          exact getD_length _ _ _
        unfold shiftByte
        dsimp only
        rw [before, source, target, found, set_length, List.append_assoc (front ++ block),
          List.cons_append, set_length, List.replicate_succ]
        simp
      have rounds : block.length + 1 + behind.length = block.length + (byte :: behind).length := by
        rw [List.length_cons]
        omega
      rw [moved, rounds]
      refine (ih (byte :: behind) ?_).trans ?_
      · rw [List.length_cons]
        omega
      · simp

/-- Without a gap the bytes are written over. -/
theorem foldl_shiftByte_full (behind : List Byte)
    (full : front.length + block.length + behind.length = IN6ADDRSZ) :
    (List.range' (behind.length + 1) block.length).foldl
        (shiftByte front.length (block.length + behind.length)) (front ++ block ++ behind) =
      front ++ List.replicate block.length 0 ++ behind := by
  induction block using List.reverseRecOn generalizing behind with
  | nil => simp
  | append_singleton block byte ih =>
      rw [List.length_append, List.length_singleton] at full ⊢
      rw [List.range'_succ, List.foldl_cons]
      have source : front.length + (block.length + 1 + behind.length - (behind.length + 1)) =
          (front ++ block).length := by
        rw [List.length_append]
        omega
      have target : IN6ADDRSZ - (behind.length + 1) = (front ++ block).length := by
        rw [List.length_append]
        omega
      have moved : shiftByte front.length (block.length + 1 + behind.length)
          (front ++ (block ++ [byte]) ++ behind) (behind.length + 1) =
            front ++ block ++ 0 :: behind := by
        have before : front ++ (block ++ [byte]) ++ behind = front ++ block ++ byte :: behind := by
          simp
        unfold shiftByte
        dsimp only
        rw [before, source, target, getD_length, set_length, set_length]
      have rounds : block.length + 1 + behind.length = block.length + (0 :: behind).length := by
        rw [List.length_cons]
        omega
      rw [moved, rounds]
      refine (ih (0 :: behind) ?_).trans ?_
      · rw [List.length_cons]
        omega
      · rw [List.replicate_succ']
        simp

/-- The address, when two colons stand behind `front` and `block` behind them. -/
def placed (front block : List Byte) : List Byte :=
  if front.length + block.length = IN6ADDRSZ then front ++ List.replicate block.length 0
  else front ++ List.replicate (IN6ADDRSZ - (front.length + block.length)) 0 ++ block

theorem length_placed (fits : front.length + block.length ≤ IN6ADDRSZ) :
    (placed front block).length = IN6ADDRSZ := by
  unfold placed
  split
  · next full => rw [List.length_append, List.length_replicate, full]
  · rw [List.length_append, List.length_append, List.length_replicate]
    omega

theorem finish_colonp (curtok : List Byte) (val : Nat)
    (fits : front.length + block.length ≤ IN6ADDRSZ) :
    Scan6.finish ⟨front ++ block, some front.length, curtok, false, val⟩ =
      some (placed front block) := by
  have count : (front ++ block).length - front.length = block.length := by
    rw [List.length_append, Nat.add_sub_cancel_left]
  change some ((List.range' 1 ((front ++ block).length - front.length)).foldl
    (shiftByte front.length ((front ++ block).length - front.length))
    (front ++ block ++ List.replicate (IN6ADDRSZ - (front ++ block).length) 0)) = _
  rw [count, List.length_append, placed]
  by_cases full : front.length + block.length = IN6ADDRSZ
  · have shifted := foldl_shiftByte_full [] full
    rw [if_pos full, full, Nat.sub_self, List.replicate_zero]
    simpa using shifted
  · have total : front.length + block.length + (IN6ADDRSZ - (front.length + block.length)) +
        ([] : List Byte).length = IN6ADDRSZ := by
      rw [List.length_nil]
      omega
    have shifted := foldl_shiftByte [] total (by omega)
    rw [if_neg full]
    simpa using shifted

end Shift

/-! ## Groups -/

/-- The value of a text of hexadecimal digits. -/
def hexValue (text : List Byte) : Nat :=
  valueOf 16 (text.map fun ch => (xdigit ch).getD 0)

theorem hexValue_concat {ch : Byte} {digit : Nat} (found : xdigit ch = some digit)
    (text : List Byte) : hexValue (text ++ [ch]) = 16 * hexValue text + digit := by
  rw [hexValue, List.map_append, List.map_singleton, valueOf_concat, found]
  rfl

theorem hexValue_le_append (text more : List Byte) : hexValue text ≤ hexValue (text ++ more) := by
  rw [hexValue, hexValue, List.map_append]
  exact valueOf_le_append (by decide) _ _

theorem xdigit_lt {ch : Byte} {digit : Nat} (found : xdigit ch = some digit) : digit < 16 := by
  have all : ∀ code, code < 256 → ∀ digit ∈ xdigit (UInt8.ofNat code), digit < 16 := by
    decide +kernel
  have here := all ch.toNat ch.toNat_lt digit
  rw [UInt8.ofNat_toNat] at here
  exact here found

theorem xdigit_of_isDigit {ch : Byte} (digit : isDigit ch) : xdigit ch = some (ch.toNat - 48) := by
  have all : ∀ code, code < 256 → isDigit (UInt8.ofNat code) →
      xdigit (UInt8.ofNat code) = some ((UInt8.ofNat code).toNat - 48) := by
    decide +kernel
  have here := all ch.toNat ch.toNat_lt
  rw [UInt8.ofNat_toNat] at here
  exact here digit

/-- A group: hexadecimal digits with a value of 16 bits. -/
structure Group (text : List Byte) (val : Nat) : Prop where
  nonempty : text ≠ []
  digits : ∀ ch ∈ text, (xdigit ch).isSome
  value : hexValue text = val
  fits : val ≤ 0xffff

/-- Groups with a colon behind each of them, and the bytes that they are stored as. -/
inductive Groups : List Byte → List Byte → Prop
  | nil : Groups [] []
  | cons {group text bytes : List Byte} {val : Nat} (first : Group group val)
      (others : Groups text bytes) : Groups (group ++ colon :: text) (groupBytes val ++ bytes)

/-- What may stand behind the last colon. -/
inductive Tail : List Byte → List Byte → Prop
  | none : Tail [] []
  | group {text : List Byte} {val : Nat} (group : Group text val) : Tail text (groupBytes val)
  | quad {text addr : List Byte} (quad : DottedQuad text addr) : Tail text addr

/-- The text of an address.  Without two colons in a row it gives all bytes; with them the
bytes in front of them and those behind them are together no more than an address. -/
inductive Address6 : List Byte → List Byte → Prop
  | whole {text front tail last : List Byte} (groups : Groups text front) (ends : Tail tail last)
      (full : front.length + last.length = IN6ADDRSZ) : Address6 (text ++ tail) (front ++ last)
  | compressed {text front mid block tail last : List Byte} (groups : Groups text front)
      (behind : Groups mid block) (ends : Tail tail last)
      (fits : front.length + (block ++ last).length ≤ IN6ADDRSZ) :
      Address6 ((if text = [] then [colon] else text) ++ colon :: (mid ++ tail))
        (placed front (block ++ last))

/-! ## The scan -/

section Scan

variable {front cur text rest src curtok addr bytes : List Byte} {colonp : Option Nat}

/-- The locals in front of the rest of a token, when `cur` has been read of it. -/
def scanned6 (front : List Byte) (colonp : Option Nat) (curtok cur : List Byte) : Scan6 :=
  ⟨front, colonp, curtok, cur ≠ [], hexValue cur⟩

/-- The digits of a group are read while its value fits. -/
theorem scan6_digits (front : List Byte) (colonp : Option Nat) (curtok rest : List Byte)
    (digits : ∀ ch ∈ text, (xdigit ch).isSome) (fits : hexValue cur ≤ 0xffff) :
    scan6 (text ++ rest) (scanned6 front colonp curtok cur) =
      if hexValue (cur ++ text) ≤ 0xffff then
        scan6 rest (scanned6 front colonp curtok (cur ++ text))
      else none := by
  induction text generalizing cur with
  | nil => rw [List.append_nil, if_pos fits, List.nil_append]
  | cons ch text ih =>
      rcases Option.isSome_iff_exists.mp (digits ch List.mem_cons_self) with ⟨digit, found⟩
      have digit_lt := xdigit_lt found
      have value : hexValue cur <<< 4 ||| digit = hexValue (cur ++ [ch]) := by
        rw [← Nat.shiftLeft_add_eq_or_of_lt (i := 4) digit_lt, Nat.shiftLeft_eq,
          hexValue_concat found]
        omega
      have assoc : cur ++ ch :: text = cur ++ [ch] ++ text := by simp
      rw [List.cons_append, scan6, found]
      dsimp only [scanned6]
      rw [value, assoc]
      by_cases fits' : hexValue (cur ++ [ch]) ≤ 0xffff
      · rw [if_neg (Nat.not_lt.mpr fits')]
        have stepped := ih (fun c mem => digits c (List.mem_cons_of_mem ch mem)) fits'
        refine Eq.trans ?_ stepped
        simp [scanned6]
      · have larger := hexValue_le_append (cur ++ [ch]) text
        rw [if_pos (Nat.lt_of_not_le fits'), if_neg (by omega)]

theorem store_eq (front : List Byte) (colonp : Option Nat) (curtok cur : List Byte) :
    (scanned6 front colonp curtok cur).store =
      if (front ++ groupBytes (hexValue cur)).length ≤ IN6ADDRSZ then
        some (scanned6 (front ++ groupBytes (hexValue cur)) colonp curtok [])
      else none := by
  have length_eq : (front ++ groupBytes (hexValue cur)).length = front.length + INT16SZ := by
    rw [List.length_append]
    rfl
  unfold Scan6.store scanned6
  rw [length_eq]
  by_cases room : front.length + INT16SZ ≤ IN6ADDRSZ
  · rw [if_pos room, if_neg (Nat.not_lt.mpr room)]
    rfl
  · rw [if_neg room, if_pos (Nat.lt_of_not_le room)]

/-- A colon behind a group. -/
theorem scan6_colon (nonempty : cur ≠ []) :
    scan6 (colon :: src) (scanned6 front colonp curtok cur) =
      if (front ++ groupBytes (hexValue cur)).length ≤ IN6ADDRSZ then
        scan6 src (scanned6 (front ++ groupBytes (hexValue cur)) colonp src [])
      else none := by
  have noDigit : xdigit colon = none := by decide +kernel
  rw [scan6, noDigit]
  dsimp only
  rw [if_pos rfl]
  have saw : (scanned6 front colonp curtok cur).sawXdigit = true := decide_eq_true nonempty
  rw [if_pos saw]
  change ((scanned6 front colonp src cur).store).bind (scan6 src) = _
  rw [store_eq]
  by_cases room : (front ++ groupBytes (hexValue cur)).length ≤ IN6ADDRSZ
  · rw [if_pos room, if_pos room, Option.bind_some]
  · rw [if_neg room, if_neg room, Option.bind_none]

/-- A colon at the start of a token. -/
theorem scan6_second_colon :
    scan6 (colon :: src) (scanned6 front colonp curtok []) =
      if colonp.isSome then none else scan6 src (scanned6 front (some front.length) src []) := by
  have noDigit : xdigit colon = none := by decide +kernel
  rw [scan6, noDigit]
  rfl

/-- A dot makes the token a dotted quad. -/
theorem scan6_dot :
    scan6 (dot :: src) (scanned6 front colonp curtok cur) =
      if front.length + INADDRSZ ≤ IN6ADDRSZ then
        (inetPton4 curtok).map fun quad =>
          ⟨front ++ quad, colonp, curtok, false, hexValue cur⟩
      else none := by
  have noDigit : xdigit dot = none := by decide +kernel
  rw [scan6, noDigit]
  dsimp only
  rw [if_neg (by decide)]
  by_cases room : front.length + INADDRSZ ≤ IN6ADDRSZ
  · rw [if_pos room]
    refine (if_pos ⟨rfl, room⟩).trans ?_
    change (inetPton4 curtok).bind _ = _
    cases inetPton4 curtok <;> rfl
  · rw [if_neg room]
    exact if_neg fun both => room both.2

/-- The address that the locals stand for, when `last` is what is still to be stored. -/
def closed (front last : List Byte) : Option Nat → Option (List Byte)
  | none => if front.length + last.length = IN6ADDRSZ then some (front ++ last) else none
  | some colonp =>
      if front.length + last.length ≤ IN6ADDRSZ then
        some (placed (front.take colonp) (front.drop colonp ++ last))
      else none

theorem finish_eq (curtok bytes : List Byte) (val : Nat)
    (inside : ∀ place ∈ colonp, place ≤ front.length)
    (fits : front.length + bytes.length ≤ IN6ADDRSZ) :
    Scan6.finish ⟨front ++ bytes, colonp, curtok, false, val⟩ = closed front bytes colonp := by
  cases colonp with
  | none =>
      change (if (front ++ bytes).length = IN6ADDRSZ then some (front ++ bytes) else none) = _
      rw [List.length_append]
      rfl
  | some place =>
      have place_le := inside place rfl
      have split : front ++ bytes = front.take place ++ (front.drop place ++ bytes) := by
        rw [← List.append_assoc, List.take_append_drop]
      have place_eq : (front.take place).length = place := List.length_take_of_le place_le
      have fits' : (front.take place).length + (front.drop place ++ bytes).length ≤ IN6ADDRSZ := by
        rw [List.length_append, List.length_drop, place_eq]
        omega
      have finished := finish_colonp curtok val fits'
      rw [place_eq, ← split] at finished
      rw [closed, if_pos fits]
      exact finished

/-- The group that the NUL byte ends. -/
theorem finish_group (nonempty : cur ≠ []) (inside : ∀ place ∈ colonp, place ≤ front.length) :
    (scanned6 front colonp curtok cur).finish =
      closed front (groupBytes (hexValue cur)) colonp := by
  have saw : (scanned6 front colonp curtok cur).sawXdigit = true := decide_eq_true nonempty
  have stored : (scanned6 front colonp curtok cur).finish =
      ((scanned6 front colonp curtok cur).store).bind Scan6.finish := by
    unfold Scan6.finish
    rw [if_pos saw, store_eq]
    by_cases room : (front ++ groupBytes (hexValue cur)).length ≤ IN6ADDRSZ
    · rw [if_pos room]
      rfl
    · rw [if_neg room]
      rfl
  rw [stored, store_eq]
  by_cases room : (front ++ groupBytes (hexValue cur)).length ≤ IN6ADDRSZ
  · rw [if_pos room]
    rw [List.length_append] at room
    exact finish_eq curtok _ 0 inside room
  · rw [if_neg room]
    rw [List.length_append] at room
    cases colonp with
    | none => exact (if_neg fun full => room (Nat.le_of_eq full)).symm
    | some place => exact (if_neg room).symm

theorem scan6_other {ch : Byte} (noDigit : xdigit ch = none) (noColon : ch ≠ colon)
    (noDot : ch ≠ dot) : scan6 (ch :: src) (scanned6 front colonp curtok cur) = none := by
  rw [scan6, noDigit]
  dsimp only
  rw [if_neg noColon]
  exact if_neg fun both => noDot both.1

/-! ## What is accepted is a text of an address -/

/-- What the rest of the text makes of the locals in front of a token. -/
inductive Completes (front : List Byte) (colonp : Option Nat) (src addr : List Byte) : Prop
  | straight {text bytes tail last : List Byte} (src_eq : src = text ++ tail)
      (groups : Groups text bytes) (ends : Tail tail last)
      (finished : closed front (bytes ++ last) colonp = some addr)
  | compressed {text bytes mid block tail last : List Byte}
      (src_eq : src = text ++ colon :: (mid ++ tail)) (first : colonp = none)
      (groups : Groups text bytes) (behind : Groups mid block) (ends : Tail tail last)
      (finished : closed (front ++ bytes) (block ++ last) (some (front ++ bytes).length) =
        some addr)

theorem closed_append (front bytes last : List Byte)
    (inside : ∀ place ∈ colonp, place ≤ front.length) :
    closed (front ++ bytes) last colonp = closed front (bytes ++ last) colonp := by
  cases colonp with
  | none => simp [closed, Nat.add_assoc]
  | some place =>
      have place_le := inside place rfl
      have take_eq : (front ++ bytes).take place = front.take place :=
        List.take_append_of_le_length place_le
      have drop_eq : (front ++ bytes).drop place = front.drop place ++ bytes :=
        List.drop_append_of_le_length place_le
      simp [closed, take_eq, drop_eq, Nat.add_assoc]

/-- A group in front of what completes the locals behind it. -/
theorem Completes.cons {group : List Byte} {val : Nat} (first : Group group val)
    (inside : ∀ place ∈ colonp, place ≤ front.length)
    (completes : Completes (front ++ groupBytes val) colonp src addr) :
    Completes front colonp (group ++ colon :: src) addr := by
  cases completes with
  | straight src_eq groups ends finished =>
      rw [closed_append _ _ _ inside] at finished
      refine .straight ?_ (.cons first groups) ends ?_
      · rw [src_eq]
        simp
      · rw [← finished, List.append_assoc]
  | compressed src_eq none groups behind ends finished =>
      refine .compressed ?_ none (.cons first groups) behind ends ?_
      · rw [src_eq]
        simp
      · rw [← finished, List.append_assoc]

/-- The hexadecimal digits at the beginning of a text. -/
theorem exists_run (src : List Byte) : ∃ run rest, src = run ++ rest ∧
    (∀ ch ∈ run, (xdigit ch).isSome) ∧ ∀ ch ∈ rest.head?, xdigit ch = none := by
  let isX := fun ch => (xdigit ch).isSome
  refine ⟨src.takeWhile isX, src.dropWhile isX, (List.takeWhile_append_dropWhile).symm,
    fun ch mem => List.mem_takeWhile_imp (p := isX) mem, ?_⟩
  intro ch mem
  have stopped := List.head?_dropWhile_not isX src
  rw [Option.mem_def.mp mem] at stopped
  simpa [isX] using stopped

/-- The text ends behind a group, or behind a colon. -/
theorem completes_of_finish (inside : ∀ place ∈ colonp, place ≤ front.length)
    (room : front.length ≤ IN6ADDRSZ) (digits : ∀ ch ∈ src, (xdigit ch).isSome)
    (fits : hexValue src ≤ 0xffff)
    (accepted : (scanned6 front colonp src src).finish = some addr) :
    Completes front colonp src addr := by
  by_cases empty : src = []
  · subst empty
    have finished := finish_eq [] [] 0 inside (by simpa using room)
    rw [List.append_nil] at finished
    have closes : closed front [] colonp = some addr := by
      rw [← finished]
      exact accepted
    exact .straight rfl .nil .none closes
  · rw [finish_group empty inside] at accepted
    exact .straight (List.nil_append src).symm .nil (.group ⟨empty, digits, rfl, fits⟩) accepted

/-- Behind a dot, `inet_pton4` reads the token again. -/
theorem completes_of_dot {run : List Byte} (inside : ∀ place ∈ colonp, place ≤ front.length)
    (accepted : (scan6 (dot :: rest) (scanned6 front colonp src run)).bind Scan6.finish =
      some addr) : Completes front colonp src addr := by
  rw [scan6_dot] at accepted
  by_cases room : front.length + INADDRSZ ≤ IN6ADDRSZ
  · rw [if_pos room] at accepted
    cases printed : inetPton4 src with
    | none =>
        rw [printed] at accepted
        cases accepted
    | some quad =>
        rw [printed] at accepted
        have isQuad := (inetPton4_eq_some_iff src quad).mp printed
        have fits : front.length + quad.length ≤ IN6ADDRSZ := by
          rw [isQuad.1]
          exact room
        have finished := finish_eq src quad (hexValue run) inside fits
        exact .straight (List.nil_append src).symm .nil (.quad isQuad)
          (finished.symm.trans accepted)
  · rw [if_neg room] at accepted
    cases accepted

/-- By the length of the text: behind a colon a new token begins. -/
theorem completes_of_scan6 (inside : ∀ place ∈ colonp, place ≤ front.length)
    (room : front.length ≤ IN6ADDRSZ)
    (accepted : (scan6 src (scanned6 front colonp src [])).bind Scan6.finish = some addr) :
    Completes front colonp src addr := by
  induction length_eq : src.length using Nat.strong_induction_on generalizing front colonp src with
  | _ length ih =>
    subst length_eq
    rcases exists_run src with ⟨run, rest, src_eq, digits, stops⟩
    have scanned := scan6_digits front colonp src rest digits (show hexValue [] ≤ 0xffff by decide)
    rw [← src_eq, List.nil_append] at scanned
    rw [scanned] at accepted
    by_cases fits : hexValue run ≤ 0xffff
    · rw [if_pos fits] at accepted
      cases rest with
      | nil =>
          rw [List.append_nil] at src_eq
          subst src_eq
          exact completes_of_finish inside room digits fits accepted
      | cons ch rest =>
          have noDigit := stops ch rfl
          have shorter : rest.length < src.length := by
            rw [src_eq, List.length_append, List.length_cons]
            omega
          by_cases isColon : ch = colon
          · subst isColon
            by_cases empty : run = []
            · subst empty
              rw [scan6_second_colon] at accepted
              cases colonp with
              | some place => cases accepted
              | none =>
                  have inside' : ∀ place ∈ some front.length, place ≤ front.length := by simp
                  rcases ih rest.length shorter inside' room accepted rfl with
                    ⟨rest_eq, groups, ends, finished⟩ | ⟨-, none, -, -, -, -⟩
                  · rw [rest_eq] at src_eq
                    rw [← List.append_nil front] at finished
                    exact .compressed src_eq rfl .nil groups ends finished
                  · cases none
            · rw [scan6_colon empty] at accepted
              by_cases room' : (front ++ groupBytes (hexValue run)).length ≤ IN6ADDRSZ
              · rw [if_pos room'] at accepted
                have inside' : ∀ place ∈ colonp,
                    place ≤ (front ++ groupBytes (hexValue run)).length := by
                  intro place mem
                  rw [List.length_append]
                  exact Nat.le_add_right_of_le (inside place mem)
                rw [src_eq]
                exact .cons ⟨empty, digits, rfl, fits⟩ inside
                  (ih rest.length shorter inside' room' accepted rfl)
              · rw [if_neg room'] at accepted
                cases accepted
          · by_cases isDot : ch = dot
            · subst isDot
              exact completes_of_dot inside accepted
            · rw [scan6_other noDigit isColon isDot] at accepted
              cases accepted
    · rw [if_neg fits] at accepted
      cases accepted

/-! ## A text of an address is accepted -/

/-- The groups with a colon behind each of them. -/
theorem scan6_groups (groups : Groups text bytes) (fits : (front ++ bytes).length ≤ IN6ADDRSZ) :
    scan6 (text ++ rest) (scanned6 front colonp (text ++ rest) []) =
      scan6 rest (scanned6 (front ++ bytes) colonp rest []) := by
  induction groups generalizing front with
  | nil => rw [List.nil_append, List.append_nil]
  | @cons group text bytes val first others ih =>
      have value := first.value
      have fits' : ((front ++ groupBytes val) ++ bytes).length ≤ IN6ADDRSZ := by
        rw [List.append_assoc]
        exact fits
      have room : (front ++ groupBytes val).length ≤ IN6ADDRSZ := by
        rw [List.length_append] at fits'
        omega
      have digits := scan6_digits front colonp (group ++ colon :: (text ++ rest))
        (colon :: (text ++ rest)) first.digits (show hexValue [] ≤ 0xffff by decide)
      rw [List.nil_append, value, if_pos first.fits, scan6_colon first.nonempty, value,
        if_pos room] at digits
      rw [List.append_assoc, List.cons_append, digits, ih fits', List.append_assoc]

/-- A decimal number of a byte is no large number when its digits are hexadecimal. -/
theorem hexValue_le_of_digits (digits : ∀ ch ∈ text, isDigit ch) :
    (decimalValue text = 0 → hexValue text = 0) ∧ (decimalValue text < 10 → hexValue text < 10) ∧
      (decimalValue text < 100 → hexValue text < 160) ∧
      (decimalValue text < 1000 → hexValue text < 2560) := by
  induction text using List.reverseRecOn with
  | nil => decide
  | append_singleton text ch ih =>
      have digit := digits ch (by simp)
      have before := ih fun c mem => digits c (List.mem_append_left [ch] mem)
      have ch_le : ch.toNat - 48 < 10 := by
        simp only [isDigit, Bool.and_eq_true, decide_eq_true_eq] at digit
        have upper := UInt8.le_iff_toNat_le.mp digit.2
        change ch.toNat ≤ 57 at upper
        omega
      rw [decimalValue_concat, hexValue_concat (xdigit_of_isDigit digit)]
      omega

/-- The first dot of a quad stands behind its first number. -/
theorem first_octet (quad : DottedQuad src addr) :
    ∃ piece rest byte, Octet piece byte ∧ src = piece ++ dot :: rest := by
  rcases quad with ⟨length_eq, octets⟩
  have count := octets.length_eq.trans length_eq
  have joined : List.intercalate [dot] (src.splitOn dot) = src := List.intercalate_splitOn dot
  cases pieces : src.splitOn dot with
  | nil => exact absurd pieces (List.splitOn_ne_nil dot src)
  | cons piece others =>
      rw [pieces] at octets count joined
      rcases List.forall₂_cons_left_iff.mp octets with ⟨byte, -, octet, -, -⟩
      cases others with
      | nil => cases count
      | cons second others =>
          rw [List.intercalate_cons_cons, List.append_assoc] at joined
          exact ⟨piece, _, byte, octet, joined.symm⟩

/-- The tail and the NUL byte. -/
theorem scan6_tail {last : List Byte} (ends : Tail src last)
    (inside : ∀ place ∈ colonp, place ≤ front.length)
    (fits : front.length + last.length ≤ IN6ADDRSZ) :
    (scan6 src (scanned6 front colonp src [])).bind Scan6.finish = closed front last colonp := by
  cases ends with
  | none =>
      have finished := finish_eq [] [] 0 inside fits
      rw [List.append_nil] at finished
      exact finished
  | group group =>
      have digits := scan6_digits front colonp src [] group.digits
        (show hexValue [] ≤ 0xffff by decide)
      rw [List.append_nil, List.nil_append, group.value, if_pos group.fits] at digits
      rw [digits, ← group.value]
      exact finish_group group.nonempty inside
  | quad quad =>
      rcases first_octet quad with ⟨piece, rest, byte, octet, src_eq⟩
      have byte_lt := byte.toNat_lt
      have value := octet.value
      have small := (hexValue_le_of_digits octet.digits).2.2.2 (by omega)
      have xdigits : ∀ ch ∈ piece, (xdigit ch).isSome := by
        intro ch mem
        rw [xdigit_of_isDigit (octet.digits ch mem)]
        rfl
      have digits := scan6_digits front colonp src (dot :: rest) xdigits
        (show hexValue [] ≤ 0xffff by decide)
      rw [← src_eq, List.nil_append, if_pos (by omega), scan6_dot] at digits
      have room : front.length + INADDRSZ ≤ IN6ADDRSZ := by
        rw [← quad.1]
        exact fits
      rw [digits, if_pos room, (inetPton4_eq_some_iff src last).mpr quad]
      exact finish_eq src last _ inside fits

/-- A token does not begin with a colon. -/
theorem Groups.head_ne (groups : Groups text bytes) (nonempty : text ≠ []) (more : List Byte) :
    (text ++ more).head? ≠ some colon := by
  cases groups with
  | nil => exact absurd rfl nonempty
  | cons first others =>
      rcases List.exists_cons_of_ne_nil first.nonempty with ⟨ch, rest, rfl⟩
      intro equal
      cases equal
      exact absurd (first.digits colon List.mem_cons_self) (by decide +kernel)

theorem Tail.head_ne {last : List Byte} (ends : Tail text last) : text.head? ≠ some colon := by
  intro equal
  cases ends with
  | none => cases equal
  | group group =>
      have isX := group.digits colon (List.mem_of_head? equal)
      exact absurd isX (by decide +kernel)
  | quad quad =>
      rcases first_octet quad with ⟨piece, rest, byte, octet, text_eq⟩
      rcases List.exists_cons_of_ne_nil octet.nonempty with ⟨ch, more, piece_eq⟩
      rw [text_eq, piece_eq, List.cons_append, List.head?_cons] at equal
      have digit := octet.digits ch (by rw [piece_eq]; exact List.mem_cons_self)
      rw [Option.some.inj equal] at digit
      exact absurd digit (by decide)

theorem closed_fits {last : List Byte} (finished : closed front last colonp = some addr) :
    front.length + last.length ≤ IN6ADDRSZ := by
  cases colonp with
  | none => exact Nat.le_of_eq (Option.ite_none_right_eq_some.mp finished).1
  | some place => exact (Option.ite_none_right_eq_some.mp finished).1

/-- Groups and a tail behind them. -/
theorem scan6_straight {tail last : List Byte} (inside : ∀ place ∈ colonp, place ≤ front.length)
    (groups : Groups text bytes) (ends : Tail tail last)
    (finished : closed front (bytes ++ last) colonp = some addr) :
    (scan6 (text ++ tail) (scanned6 front colonp (text ++ tail) [])).bind Scan6.finish =
      some addr := by
  have fits := closed_fits finished
  rw [List.length_append] at fits
  have room : (front ++ bytes).length ≤ IN6ADDRSZ := by
    rw [List.length_append]
    omega
  have inside' : ∀ place ∈ colonp, place ≤ (front ++ bytes).length := by
    intro place mem
    rw [List.length_append]
    exact Nat.le_add_right_of_le (inside place mem)
  have fits' : (front ++ bytes).length + last.length ≤ IN6ADDRSZ := by
    rw [List.length_append]
    omega
  rw [scan6_groups groups room, scan6_tail ends inside' fits', closed_append _ _ _ inside, finished]

theorem scan6_of_completes (inside : ∀ place ∈ colonp, place ≤ front.length)
    (completes : Completes front colonp src addr) :
    (scan6 src (scanned6 front colonp src [])).bind Scan6.finish = some addr := by
  cases completes with
  | straight src_eq groups ends finished =>
      rw [src_eq]
      exact scan6_straight inside groups ends finished
  | @compressed text bytes mid block tail last src_eq first groups behind ends finished =>
      subst first
      have fits := closed_fits finished
      have room : (front ++ bytes).length ≤ IN6ADDRSZ := Nat.le_of_add_right_le fits
      have inside' : ∀ place ∈ some (front ++ bytes).length, place ≤ (front ++ bytes).length := by
        simp
      rw [src_eq, scan6_groups groups room, scan6_second_colon]
      exact scan6_straight inside' behind ends finished

theorem closed_start {block : List Byte} (fits : bytes.length + block.length ≤ IN6ADDRSZ) :
    closed ([] ++ bytes) block (some ([] ++ bytes).length) = some (placed bytes block) := by
  simp [closed, fits]

/-- What the scan accepts from the start of a text on. -/
theorem address6_of_completes (completes : Completes [] none src addr)
    (noColon : src.head? ≠ some colon) : Address6 src addr := by
  cases completes with
  | straight src_eq groups ends finished =>
      rcases Option.ite_none_right_eq_some.mp finished with ⟨full, addr_eq⟩
      rw [src_eq, ← Option.some.inj addr_eq, List.nil_append]
      refine .whole groups ends ?_
      simpa using full
  | @compressed text bytes mid block tail last src_eq first groups behind ends finished =>
      have fits := closed_fits finished
      rw [closed_start (by simpa using fits)] at finished
      cases finished
      have nonempty : text ≠ [] := by
        rintro rfl
        rw [src_eq] at noColon
        exact noColon rfl
      have address := Address6.compressed groups behind ends (by simpa using fits)
      rw [if_neg nonempty] at address
      rw [src_eq]
      exact address

/-- What the scan accepts from the second of two leading colons on. -/
theorem address6_of_second (completes : Completes [] none src addr)
    (second : src.head? = some colon) : Address6 (colon :: src) addr := by
  cases completes with
  | @straight text bytes tail last src_eq groups ends finished =>
      by_cases empty : text = []
      · rw [src_eq, empty, List.nil_append] at second
        exact absurd second ends.head_ne
      · rw [src_eq] at second
        exact absurd second (groups.head_ne empty tail)
  | @compressed text bytes mid block tail last src_eq first groups behind ends finished =>
      by_cases empty : text = []
      · have fits := closed_fits finished
        rw [closed_start (by simpa using fits)] at finished
        cases finished
        have address := Address6.compressed groups behind ends (by simpa using fits)
        rw [if_pos empty] at address
        rw [src_eq, empty]
        exact address
      · rw [src_eq] at second
        exact absurd second (groups.head_ne empty _)

/-- Where the scan begins at the text of an address. -/
theorem completes_of_address6 (address : Address6 src addr) :
    src.head? ≠ some colon ∧ Completes [] none src addr ∨
      ∃ rest, src = colon :: rest ∧ rest.head? = some colon ∧ Completes [] none rest addr := by
  cases address with
  | @whole text front tail last groups ends full =>
      left
      constructor
      · by_cases empty : text = []
        · rw [empty, List.nil_append]
          exact ends.head_ne
        · exact groups.head_ne empty tail
      · refine .straight rfl groups ends ?_
        have total : ([] : List Byte).length + (front ++ last).length = IN6ADDRSZ := by
          simpa using full
        exact if_pos total
  | @compressed text front mid block tail last groups behind ends fits =>
      have finished := closed_start fits
      by_cases empty : text = []
      · rw [if_pos empty]
        refine .inr ⟨_, rfl, rfl, ?_⟩
        refine .compressed ?_ rfl groups behind ends finished
        rw [empty]
        rfl
      · rw [if_neg empty]
        exact .inl ⟨groups.head_ne empty _, .compressed rfl rfl groups behind ends finished⟩

theorem inetPton6_eq_some_iff (src addr : List Byte) :
    inetPton6 src = some addr ↔ Address6 src addr := by
  have scan : ∀ text, (scan6 text ⟨[], none, text, false, 0⟩).bind Scan6.finish = some addr ↔
      Completes [] none text addr := fun text =>
    ⟨completes_of_scan6 (by simp) (by decide), scan6_of_completes (by simp)⟩
  have starts : inetPton6 src = some addr ↔
      src.head? ≠ some colon ∧ Completes [] none src addr ∨
        ∃ rest, src = colon :: rest ∧ rest.head? = some colon ∧ Completes [] none rest addr := by
    by_cases leading : src.head? = some colon
    · obtain ⟨rest, rfl⟩ : ∃ rest, src = colon :: rest := by
        cases src with
        | nil => cases leading
        | cons ch rest => exact ⟨rest, by rw [Option.some.inj leading]⟩
      by_cases second : rest.head? = some colon
      · have token : firstToken (colon :: rest) = some rest := by
          rw [firstToken, if_pos leading, List.tail_cons, if_pos second]
        rw [inetPton6, token]
        refine (scan rest).trans ?_
        simp [second]
      · have token : firstToken (colon :: rest) = none := by
          rw [firstToken, if_pos leading, List.tail_cons, if_neg second]
        rw [inetPton6, token]
        refine iff_of_false (by simp) ?_
        rintro (⟨noColon, -⟩ | ⟨other, equal, second', -⟩)
        · exact noColon rfl
        · cases equal
          exact second second'
    · rw [inetPton6, firstToken, if_neg leading]
      refine (scan src).trans ⟨fun completes => .inl ⟨leading, completes⟩, ?_⟩
      rintro (⟨-, completes⟩ | ⟨rest, rfl, -, -⟩)
      · exact completes
      · exact absurd rfl leading
  rw [starts]
  constructor
  · rintro (⟨noColon, completes⟩ | ⟨rest, rfl, second, completes⟩)
    · exact address6_of_completes completes noColon
    · exact address6_of_second completes second
  · exact completes_of_address6

/-- The texts of an address. -/
def AddressText (af : Family) (src addr : List Byte) : Prop :=
  match af with
  | .inet => DottedQuad src addr
  | .inet6 => Address6 src addr
  | .other => False

/-- What `inet_pton` accepts, and the address that it stores. -/
theorem inetPton_accepts_iff (af : Family) (src addr : List Byte) :
    inetPton af src = .address addr ↔ AddressText af src addr := by
  cases af with
  | inet =>
      refine Iff.trans ?_ (inetPton4_eq_some_iff src addr)
      unfold inetPton
      cases inetPton4 src <;> simp
  | inet6 =>
      refine Iff.trans ?_ (inetPton6_eq_some_iff src addr)
      unfold inetPton
      cases inetPton6 src <;> simp
  | other => exact iff_of_false Pton.noConfusion not_false

end Scan

end NetPractice.Inet
