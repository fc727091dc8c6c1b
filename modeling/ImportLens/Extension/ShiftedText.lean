import ImportLens.Extension.RangeTracking
import Mathlib.Data.List.Basic
import Mathlib.Tactic.SplitIfs

/-!
# Shifted ranges and the text under them

A document is a list of UTF-16 code units whose lines end at LF or CR LF.  A position
is valid if it stands between two units and does not split a CR LF.  Shifting a range
through an edit gives a range of the edited text, with the same text under it when the
edit does not overlap it.
-/

namespace ImportLens.Extension

/-! ## The order of positions -/

section

variable {p q : SourcePosition}

theorem comparePositions_lt_zero : comparePositions p q < 0 ↔
    p.line < q.line ∨ p.line = q.line ∧ p.character < q.character := by
  unfold comparePositions
  split <;> omega

theorem comparePositions_le_zero : comparePositions p q ≤ 0 ↔
    p.line < q.line ∨ p.line = q.line ∧ p.character ≤ q.character := by
  unfold comparePositions
  split <;> omega

theorem comparePositions_eq_zero_iff : comparePositions p q = 0 ↔
    p.line = q.line ∧ p.character = q.character := by
  unfold comparePositions
  split <;> omega

theorem comparePositions_eq_zero : comparePositions p q = 0 ↔ p = q := by
  obtain ⟨line, character⟩ := p
  obtain ⟨line', character'⟩ := q
  unfold comparePositions
  rw [SourcePosition.mk.injEq]
  dsimp only
  split <;> omega

theorem comparePositions_swap (p q : SourcePosition) :
    comparePositions q p = -comparePositions p q := by
  unfold comparePositions
  split <;> split <;> omega

end

/-! ## Positions in a text -/

def lineFeed : UInt16 := 10

def carriageReturn : UInt16 := 13

def advanceUnit (position : SourcePosition) (unit : UInt16) : SourcePosition :=
  if unit = lineFeed then ⟨position.line + 1, 0⟩ else ⟨position.line, position.character + 1⟩

def advance (position : SourcePosition) (units : List UInt16) : SourcePosition :=
  units.foldl advanceUnit position

def positionAt (text : List UInt16) (offset : Nat) : SourcePosition :=
  advance ⟨0, 0⟩ (text.take offset)

def WellBroken (text : List UInt16) : Prop :=
  ∀ i, text[i]? = some carriageReturn → text[i + 1]? = some lineFeed

/-- An offset of a text that does not split a CR LF. -/
structure Boundary (text : List UInt16) (offset : Nat) : Prop where
  le : offset ≤ text.length
  whole : ∀ i, offset = i + 1 →
    ¬ (text[i]? = some carriageReturn ∧ text[offset]? = some lineFeed)

/-- A valid range of a text, from one offset to the other. -/
structure Spans (text : List UInt16) (range : SourceRange) (start finish : Nat) : Prop where
  le : start ≤ finish
  startBoundary : Boundary text start
  finishBoundary : Boundary text finish
  start_eq : range.start = positionAt text start
  finish_eq : range.finish = positionAt text finish

section

variable {position : SourcePosition} {units : List UInt16}

theorem advance_append (position : SourcePosition) (units later : List UInt16) :
    advance position (units ++ later) = advance (advance position units) later :=
  List.foldl_append

theorem advance_cons (position : SourcePosition) (unit : UInt16) (units : List UInt16) :
    advance position (unit :: units) = advance (advanceUnit position unit) units := rfl

theorem lt_advanceUnit (position : SourcePosition) (unit : UInt16) :
    comparePositions position (advanceUnit position unit) < 0 := by
  rw [comparePositions_lt_zero]
  unfold advanceUnit
  split
  · exact .inl (Int.lt_succ _)
  · exact .inr ⟨rfl, Int.lt_succ _⟩

theorem le_advance (position : SourcePosition) (units : List UInt16) :
    comparePositions position (advance position units) ≤ 0 := by
  induction units generalizing position with
  | nil => exact Int.le_of_eq (comparePositions_eq_zero.mpr rfl)
  | cons unit units ih =>
    have hunit := lt_advanceUnit position unit
    have hrest := ih (advanceUnit position unit)
    rw [advance_cons, comparePositions_le_zero] at *
    rw [comparePositions_lt_zero] at hunit
    omega

theorem lt_advance (h : units ≠ []) : comparePositions position (advance position units) < 0 := by
  obtain ⟨unit, rest, rfl⟩ := List.exists_cons_of_ne_nil h
  have hunit := lt_advanceUnit position unit
  have hrest := le_advance (advanceUnit position unit) rest
  rw [advance_cons]
  rw [comparePositions_lt_zero] at *
  rw [comparePositions_le_zero] at hrest
  omega

end

/-! ## Offsets -/

section

variable {text : List UInt16} {i j : Nat}

theorem positionAt_lt (h : i < j) (hj : j ≤ text.length) :
    comparePositions (positionAt text i) (positionAt text j) < 0 := by
  have hsplit : text.take j = text.take i ++ (text.take j).drop i := by
    have htake : text.take i = (text.take j).take i := by
      rw [List.take_take, Nat.min_eq_left (Nat.le_of_lt h)]
    rw [htake, List.take_append_drop]
  have hne : (text.take j).drop i ≠ [] := by
    apply List.ne_nil_of_length_pos
    rw [List.length_drop, List.length_take]
    omega
  rw [positionAt, positionAt, hsplit, advance_append]
  exact lt_advance hne

theorem positionAt_le_iff (hi : i ≤ text.length) (hj : j ≤ text.length) :
    comparePositions (positionAt text i) (positionAt text j) ≤ 0 ↔ i ≤ j := by
  constructor
  · intro hle
    by_contra hlt
    have hgt := positionAt_lt (Nat.lt_of_not_le hlt) hi
    rw [comparePositions_swap] at hgt
    omega
  · intro hle
    rcases Nat.lt_or_eq_of_le hle with hlt | rfl
    · exact Int.le_of_lt (positionAt_lt hlt hj)
    · exact Int.le_of_eq (comparePositions_eq_zero.mpr rfl)

theorem positionAt_lt_iff (hi : i ≤ text.length) (hj : j ≤ text.length) :
    comparePositions (positionAt text i) (positionAt text j) < 0 ↔ i < j := by
  rw [← Nat.not_le, ← positionAt_le_iff hj hi, comparePositions_swap (positionAt text i)]
  omega

theorem positionAt_eq_iff (hi : i ≤ text.length) (hj : j ≤ text.length) :
    comparePositions (positionAt text i) (positionAt text j) = 0 ↔ i = j := by
  have hle := positionAt_le_iff hi hj
  have hlt := positionAt_lt_iff hi hj
  omega

end

/-! ## Where an edit ends -/

/-- The end of inserted lines, as `insertedTextEnd` has it. -/
def landing (position : SourcePosition) (lines : List (List UInt16)) : SourcePosition :=
  if lines.length = 1 then
    ⟨position.line, position.character + (lines.getLast?.getD []).length⟩
  else ⟨position.line + lines.length - 1, (lines.getLast?.getD []).length⟩

theorem landing_break (position : SourcePosition) (first : List UInt16)
    (more : List (List UInt16)) :
    landing position ([] :: first :: more) = landing ⟨position.line + 1, 0⟩ (first :: more) := by
  cases more with
  | nil =>
    simp [landing]
    omega
  | cons second more =>
    simp only [landing, List.length_cons, List.getLast?_cons_cons]
    rw [if_neg (by omega), if_neg (by omega)]
    congr 1
    omega

theorem landing_unit (position : SourcePosition) (unit : UInt16) (first : List UInt16)
    (more : List (List UInt16)) :
    landing position ((unit :: first) :: more) =
      landing ⟨position.line, position.character + 1⟩ (first :: more) := by
  cases more with
  | nil =>
    simp only [landing, List.length_cons, List.length_nil, List.getLast?_singleton,
      Option.getD_some, if_true]
    congr 1
    omega
  | cons second more =>
    simp only [landing, List.length_cons, List.getLast?_cons_cons]
    rw [if_neg (by omega), if_neg (by omega)]

theorem advance_eq_landing (position : SourcePosition) (units : List UInt16) :
    advance position units = landing position (units.splitOn lineFeed) := by
  induction units generalizing position with
  | nil => simp [advance, landing]
  | cons unit units ih =>
    obtain ⟨first, more, hlines⟩ :=
      List.exists_cons_of_ne_nil (List.splitOnP_ne_nil (· == lineFeed) units)
    rw [advance_cons, ih, List.splitOn, List.splitOn, List.splitOnP_cons_eq_if_modifyHead, hlines]
    by_cases hunit : unit = lineFeed
    · rw [advanceUnit, if_pos hunit, if_pos (by simpa using hunit), landing_break]
    · rw [advanceUnit, if_neg hunit, if_neg (by simpa using hunit), List.modifyHead_cons,
        landing_unit]

theorem insertedTextEnd_eq (edit : SourceEdit) :
    insertedTextEnd edit = advance edit.range.start edit.text :=
  (advance_eq_landing _ _).symm

/-- The same units behind two positions: on the line of the first they are as far
apart as the positions, and below it only the lines differ. -/
theorem advance_shifted (before after : SourcePosition) (units : List UInt16) :
    ((advance before units).line = before.line ∧
      advance after units =
        ⟨after.line, after.character + ((advance before units).character - before.character)⟩) ∨
    (before.line < (advance before units).line ∧
      advance after units = ⟨(advance before units).line + (after.line - before.line),
        (advance before units).character⟩) := by
  induction units generalizing before after with
  | nil =>
    refine .inl ⟨rfl, ?_⟩
    simp [advance]
  | cons unit units ih =>
    rw [advance_cons, advance_cons]
    have hih := ih (advanceUnit before unit) (advanceUnit after unit)
    generalize advance (advanceUnit before unit) units = last at hih ⊢
    by_cases hunit : unit = lineFeed
    · rw [advanceUnit, advanceUnit, if_pos hunit, if_pos hunit] at hih
      rw [advanceUnit, if_pos hunit]
      rcases hih with ⟨hline, heq⟩ | ⟨hline, heq⟩
      · refine .inr ⟨by dsimp only at hline; omega, heq.trans ?_⟩
        congr 1 <;> dsimp only at hline ⊢ <;> omega
      · refine .inr ⟨by dsimp only at hline; omega, heq.trans ?_⟩
        congr 1
        dsimp only
        omega
    · rw [advanceUnit, advanceUnit, if_neg hunit, if_neg hunit] at hih
      rw [advanceUnit, if_neg hunit]
      rcases hih with ⟨hline, heq⟩ | ⟨hline, heq⟩
      · refine .inl ⟨hline, heq.trans ?_⟩
        congr 1
        dsimp only
        omega
      · exact .inr ⟨hline, heq⟩

theorem positionAfterEdit_advance (edit : SourceEdit) (units : List UInt16) :
    positionAfterEdit (advance edit.range.finish units) edit =
      advance (insertedTextEnd edit) units := by
  unfold positionAfterEdit
  rcases advance_shifted edit.range.finish (insertedTextEnd edit) units with
    ⟨hline, heq⟩ | ⟨hline, heq⟩
  · rw [if_pos hline, heq]
  · rw [if_neg (by omega), heq]

/-! ## The edited text -/

/-- The text after an edit that replaces the units from `start` to `finish`. -/
def editedText (text : List UInt16) (start finish : Nat) (replacement : List UInt16) :
    List UInt16 :=
  text.take start ++ replacement ++ text.drop finish

def keptAt (start finish length offset : Nat) : Nat :=
  if offset < start then offset else offset - finish + start + length

section

variable {text replacement : List UInt16} {a b i k : Nat}

theorem length_editedText (hab : a ≤ b) (hb : b ≤ text.length) :
    (editedText text a b replacement).length = a + replacement.length + (text.length - b) := by
  rw [editedText, List.length_append, List.length_append, List.length_take, List.length_drop]
  omega

theorem editedText_before (hab : a ≤ b) (hb : b ≤ text.length) (hk : k < a) :
    (editedText text a b replacement)[k]? = text[k]? := by
  have hlength : (text.take a).length = a := by
    rw [List.length_take]
    omega
  rw [editedText, List.append_assoc, List.getElem?_append_left (by omega),
    List.getElem?_take_of_lt hk]

theorem editedText_inside (hab : a ≤ b) (hb : b ≤ text.length) (hk : k < replacement.length) :
    (editedText text a b replacement)[a + k]? = replacement[k]? := by
  have hlength : (text.take a).length = a := by
    rw [List.length_take]
    omega
  rw [editedText, List.append_assoc, List.getElem?_append_right (by omega), hlength,
    Nat.add_sub_cancel_left, List.getElem?_append_left hk]

theorem editedText_after (hab : a ≤ b) (hb : b ≤ text.length) (k : Nat) :
    (editedText text a b replacement)[a + replacement.length + k]? = text[b + k]? := by
  have hlength : (text.take a ++ replacement).length = a + replacement.length := by
    rw [List.length_append, List.length_take]
    omega
  rw [editedText, List.getElem?_append_right (by omega), hlength, Nat.add_sub_cancel_left,
    List.getElem?_drop]

theorem editedText_keptAt (hab : a ≤ b) (hb : b ≤ text.length) (hk : k < a ∨ b ≤ k) :
    (editedText text a b replacement)[keptAt a b replacement.length k]? = text[k]? := by
  unfold keptAt
  split
  · rename_i hlt
    exact editedText_before hab hb hlt
  · rw [Nat.add_comm (k - b) a, Nat.add_right_comm, editedText_after hab hb]
    congr 1
    omega

instance : Decidable (WellBroken text) :=
  decidable_of_iff (∀ i < text.length, text[i]? = some carriageReturn →
    text[i + 1]? = some lineFeed)
    ⟨fun h i hunit => h i (List.getElem?_eq_some_iff.mp hunit).1 hunit, fun h i _ => h i⟩

theorem Boundary.ne_carriageReturn (h : Boundary text i) (htext : WellBroken text)
    (hk : i = k + 1) : text[k]? ≠ some carriageReturn := by
  intro hunit
  apply h.whole k hk
  rw [hk]
  exact ⟨hunit, htext k hunit⟩

theorem boundary_of_ne (hle : i ≤ text.length)
    (hne : ∀ k, i = k + 1 → text[k]? ≠ some carriageReturn) : Boundary text i :=
  ⟨hle, fun k hk hsplit => hne k hk hsplit.1⟩

theorem boundary_before (htext : WellBroken text) (hab : a ≤ b) (hlength : b ≤ text.length)
    (hi : Boundary text i) (hia : i ≤ a) :
    Boundary (editedText text a b replacement) i := by
  apply boundary_of_ne
  · rw [length_editedText hab hlength]
    omega
  · intro k hk
    rw [editedText_before hab hlength (by omega)]
    exact hi.ne_carriageReturn htext hk

section

variable (htext : WellBroken text) (hreplacement : WellBroken replacement)
variable (hab : a ≤ b) (ha : Boundary text a) (hb : Boundary text b)

include htext hreplacement hab ha hb

theorem wellBroken_editedText : WellBroken (editedText text a b replacement) := by
  intro k hunit
  have hlength := hb.le
  rcases Nat.lt_or_ge k a with hbefore | hfrom
  · rw [editedText_before hab hlength hbefore] at hunit
    have hne : k + 1 ≠ a := fun heq => ha.ne_carriageReturn htext heq.symm hunit
    rw [editedText_before hab hlength (by omega)]
    exact htext k hunit
  · obtain ⟨k, rfl⟩ := Nat.exists_eq_add_of_le hfrom
    rcases Nat.lt_or_ge k replacement.length with hinside | hafter
    · rw [editedText_inside hab hlength hinside] at hunit
      have hnext := hreplacement k hunit
      have hlt : k + 1 < replacement.length := (List.getElem?_eq_some_iff.mp hnext).1
      rw [Nat.add_assoc, editedText_inside hab hlength hlt]
      exact hnext
    · obtain ⟨k, rfl⟩ := Nat.exists_eq_add_of_le hafter
      rw [← Nat.add_assoc, editedText_after hab hlength] at hunit
      rw [← Nat.add_assoc, Nat.add_assoc _ k 1, editedText_after hab hlength]
      exact htext _ hunit

theorem boundary_insertedEnd :
    Boundary (editedText text a b replacement) (a + replacement.length) := by
  have hlength := hb.le
  apply boundary_of_ne
  · rw [length_editedText hab hlength]
    omega
  · intro k hk
    rcases Nat.lt_or_ge k a with hbefore | hfrom
    · rw [editedText_before hab hlength hbefore]
      exact ha.ne_carriageReturn htext (by omega)
    · obtain ⟨k, rfl⟩ := Nat.exists_eq_add_of_le hfrom
      rw [editedText_inside hab hlength (by omega)]
      intro hunit
      have hnext := (List.getElem?_eq_some_iff.mp (hreplacement k hunit)).1
      omega

theorem boundary_after (hi : Boundary text i) (hbi : b ≤ i) :
    Boundary (editedText text a b replacement) (a + replacement.length + (i - b)) := by
  have hlength := hb.le
  have hle := hi.le
  obtain ⟨d, rfl⟩ := Nat.exists_eq_add_of_le hbi
  rw [Nat.add_sub_cancel_left]
  cases d with
  | zero => exact boundary_insertedEnd htext hreplacement hab ha hb
  | succ d =>
    apply boundary_of_ne
    · rw [length_editedText hab hlength]
      omega
    · intro k hk
      have hd : k = a + replacement.length + d := by omega
      rw [hd, editedText_after hab hlength]
      exact hi.ne_carriageReturn htext (Nat.add_assoc b d 1).symm

end

end

/-- The first test of `shiftPosition` as one disjunction. -/
theorem shiftPosition_eq (position : SourcePosition) (edit : SourceEdit)
    (stickiness : Stickiness) :
    shiftPosition position edit stickiness =
      if 0 < comparePositions position edit.range.finish ∨
          comparePositions position edit.range.finish = 0 ∧ (stickiness = .start ∨
            comparePositions edit.range.start edit.range.finish ≠ 0) then
        positionAfterEdit position edit
      else if comparePositions position edit.range.start < 0 ∨
          comparePositions position edit.range.start = 0 ∧ stickiness = .finish then position
      else if stickiness = .start then edit.range.start
      else insertedTextEnd edit := by
  have hend : (if stickiness = .start ∨
        ¬ comparePositions edit.range.start edit.range.finish = 0 then
        0 ≤ comparePositions position edit.range.finish
      else 0 < comparePositions position edit.range.finish) ↔
      0 < comparePositions position edit.range.finish ∨
        comparePositions position edit.range.finish = 0 ∧ (stickiness = .start ∨
          comparePositions edit.range.start edit.range.finish ≠ 0) := by
    split
    · rename_i hsticks
      constructor
      · intro hle
        rcases Int.lt_or_eq_of_le hle with hlt | heq
        · exact .inl hlt
        · exact .inr ⟨heq.symm, hsticks⟩
      · rintro (hlt | ⟨heq, -⟩) <;> omega
    · rename_i hsticks
      constructor
      · exact .inl
      · rintro (hlt | ⟨-, hsticks'⟩)
        · exact hlt
        · exact absurd hsticks' hsticks
  unfold shiftPosition
  simp only [hend]

/-! ## Shifted offsets -/

/-- `shiftPosition` on offsets. -/
def shiftOffset (start finish length : Nat) (stickiness : Stickiness) (offset : Nat) : Nat :=
  if finish < offset ∨ offset = finish ∧ (stickiness = .start ∨ start ≠ finish) then
    start + length + (offset - finish)
  else if offset < start ∨ offset = start ∧ stickiness = .finish then offset
  else if stickiness = .start then start
  else start + length

section

variable {text : List UInt16} {edit : SourceEdit} {a b i : Nat}

theorem positionAt_before (hab : a ≤ b) (hb : b ≤ text.length) (hi : i ≤ a) :
    positionAt (editedText text a b edit.text) i = positionAt text i := by
  have hlength : (text.take a).length = a := by
    rw [List.length_take]
    omega
  rw [positionAt, editedText, List.append_assoc, List.take_append_of_le_length (by omega),
    List.take_take, Nat.min_eq_left hi, positionAt]

theorem positionAt_after (hspan : Spans text edit.range a b) (d : Nat) :
    positionAt (editedText text a b edit.text) (a + edit.text.length + d) =
      advance (insertedTextEnd edit) ((text.drop b).take d) := by
  have hle := hspan.le
  have hb := hspan.finishBoundary.le
  have hlength : (text.take a ++ edit.text).length = a + edit.text.length := by
    rw [List.length_append, List.length_take]
    omega
  rw [positionAt, editedText, List.take_append, hlength, List.take_of_length_le (by omega),
    Nat.add_sub_cancel_left, advance_append, advance_append, insertedTextEnd_eq, hspan.start_eq,
    positionAt]

theorem positionAt_insertedEnd (hspan : Spans text edit.range a b) :
    positionAt (editedText text a b edit.text) (a + edit.text.length) = insertedTextEnd edit := by
  have hafter := positionAt_after hspan 0
  rw [List.take_zero] at hafter
  exact hafter

theorem positionAfterEdit_positionAt (hspan : Spans text edit.range a b) (hbi : b ≤ i) :
    positionAfterEdit (positionAt text i) edit =
      positionAt (editedText text a b edit.text) (a + edit.text.length + (i - b)) := by
  obtain ⟨d, rfl⟩ := Nat.exists_eq_add_of_le hbi
  have hposition : positionAt text (b + d) =
      advance edit.range.finish ((text.drop b).take d) := by
    rw [hspan.finish_eq, positionAt, positionAt, List.take_add, advance_append]
  rw [hposition, positionAfterEdit_advance, Nat.add_sub_cancel_left, positionAt_after hspan]

theorem shiftPosition_positionAt (hspan : Spans text edit.range a b) (hi : i ≤ text.length)
    (stickiness : Stickiness) :
    shiftPosition (positionAt text i) edit stickiness =
      positionAt (editedText text a b edit.text)
        (shiftOffset a b edit.text.length stickiness i) := by
  have hle := hspan.le
  have ha := hspan.startBoundary.le
  have hb := hspan.finishBoundary.le
  have hinsertion : comparePositions edit.range.start edit.range.finish = 0 ↔ a = b := by
    rw [hspan.start_eq, hspan.finish_eq, positionAt_eq_iff ha hb]
  have hfinish : comparePositions (positionAt text i) edit.range.finish ≤ 0 ↔ i ≤ b := by
    rw [hspan.finish_eq, positionAt_le_iff hi hb]
  have hfinish' : comparePositions (positionAt text i) edit.range.finish = 0 ↔ i = b := by
    rw [hspan.finish_eq, positionAt_eq_iff hi hb]
  have hstart : comparePositions (positionAt text i) edit.range.start < 0 ↔ i < a := by
    rw [hspan.start_eq, positionAt_lt_iff hi ha]
  have hstart' : comparePositions (positionAt text i) edit.range.start = 0 ↔ i = a := by
    rw [hspan.start_eq, positionAt_eq_iff hi ha]
  have hpast : 0 < comparePositions (positionAt text i) edit.range.finish ↔ b < i := by
    rw [← Int.not_le, hfinish, Nat.not_le]
  rw [shiftPosition_eq, shiftOffset]
  simp only [hpast, hfinish', hinsertion, hstart, hstart', ne_eq]
  split
  · rename_i hpast
    exact positionAfterEdit_positionAt hspan (by omega)
  · split
    · rename_i hfront
      rw [positionAt_before hle hb (by omega)]
    · split
      · rw [positionAt_before hle hb (Nat.le_refl _), hspan.start_eq]
      · rw [positionAt_insertedEnd hspan]

theorem boundary_shiftOffset (htext : WellBroken text) (hreplacement : WellBroken edit.text)
    (hspan : Spans text edit.range a b) (hi : Boundary text i) (stickiness : Stickiness) :
    Boundary (editedText text a b edit.text)
      (shiftOffset a b edit.text.length stickiness i) := by
  have hle := hspan.le
  have ha := hspan.startBoundary
  have hb := hspan.finishBoundary
  unfold shiftOffset
  split
  · rename_i hpast
    exact boundary_after htext hreplacement hle ha hb hi (by omega)
  · split
    · exact boundary_before htext hle hb.le hi (by omega)
    · split
      · exact boundary_before htext hle hb.le ha (Nat.le_refl _)
      · exact boundary_insertedEnd htext hreplacement hle ha hb

end

/-! ## The order is kept -/

section

variable {p q : SourcePosition} {edit : SourceEdit}

theorem start_le_insertedTextEnd (edit : SourceEdit) :
    comparePositions edit.range.start (insertedTextEnd edit) ≤ 0 := by
  rw [insertedTextEnd_eq]
  exact le_advance _ _

theorem insertedTextEnd_le_after (h : comparePositions edit.range.finish p ≤ 0) :
    comparePositions (insertedTextEnd edit) (positionAfterEdit p edit) ≤ 0 := by
  rw [comparePositions_le_zero] at *
  unfold positionAfterEdit
  dsimp only
  split
  · dsimp only
    omega
  · dsimp only
    omega

theorem positionAfterEdit_mono (h : comparePositions p q ≤ 0) :
    comparePositions (positionAfterEdit p edit) (positionAfterEdit q edit) ≤ 0 := by
  rw [comparePositions_le_zero] at *
  unfold positionAfterEdit
  dsimp only
  split
  · split
    · dsimp only
      omega
    · dsimp only
      omega
  · split
    · dsimp only
      omega
    · dsimp only
      omega

/-- The place of a position decides where it goes. -/
inductive ShiftCase (edit : SourceEdit) (stickiness : Stickiness) (position : SourcePosition) :
    SourcePosition → Prop
  | past (h : comparePositions edit.range.finish position ≤ 0)
      (hsticks : comparePositions edit.range.finish position < 0 ∨ stickiness = .start ∨
        comparePositions edit.range.start edit.range.finish ≠ 0) :
      ShiftCase edit stickiness position (positionAfterEdit position edit)
  | before (h : comparePositions position edit.range.start < 0 ∨
        comparePositions position edit.range.start = 0 ∧ stickiness = .finish) :
      ShiftCase edit stickiness position position
  | toStart (h : comparePositions edit.range.start position ≤ 0)
      (hfinish : comparePositions position edit.range.finish < 0) (hsticks : stickiness = .start) :
      ShiftCase edit stickiness position edit.range.start
  | toEnd (h : comparePositions edit.range.start position < 0)
      (hfinish : comparePositions position edit.range.finish < 0) (hsticks : stickiness = .finish) :
      ShiftCase edit stickiness position (insertedTextEnd edit)

theorem shiftPosition_cases (position : SourcePosition) (edit : SourceEdit)
    (stickiness : Stickiness) :
    ShiftCase edit stickiness position (shiftPosition position edit stickiness) := by
  have hfinish := comparePositions_swap position edit.range.finish
  have hstart := comparePositions_swap position edit.range.start
  rw [shiftPosition_eq]
  split
  · rename_i hpast
    rcases hpast with hlt | ⟨heq, hsticks⟩
    · exact .past (by omega) (.inl (by omega))
    · exact .past (by omega) (.inr hsticks)
  · rename_i hpast
    split
    · rename_i hfront
      exact .before hfront
    · rename_i hfront
      cases stickiness with
      | start =>
        rw [if_pos rfl]
        exact .toStart (by omega) (by simp only [true_or, and_true] at hpast; omega) rfl
      | finish =>
        rw [if_neg (by simp)]
        have hafter : comparePositions edit.range.start position < 0 := by
          by_contra hle
          simp only [and_true] at hfront
          omega
        have hle : comparePositions position edit.range.finish ≤ 0 := by
          by_contra hlt
          exact hpast (.inl (by omega))
        have hne : comparePositions position edit.range.finish ≠ 0 := by
          intro heq
          refine hpast (.inr ⟨heq, .inr ?_⟩)
          rw [comparePositions_eq_zero] at heq
          rw [← heq]
          exact Int.ne_of_lt hafter
        exact .toEnd hafter (by omega) rfl

theorem shiftPosition_mono (hedit : comparePositions edit.range.start edit.range.finish ≤ 0)
    (h : comparePositions p q ≤ 0) (stickiness : Stickiness) :
    comparePositions (shiftPosition p edit stickiness) (shiftPosition q edit stickiness) ≤ 0 := by
  have hend := start_le_insertedTextEnd edit
  have hp := shiftPosition_cases p edit stickiness
  have hq := shiftPosition_cases q edit stickiness
  generalize shiftPosition p edit stickiness = p' at hp ⊢
  generalize shiftPosition q edit stickiness = q' at hq ⊢
  cases hp with
  | past hp hpsticks =>
    have hpast := insertedTextEnd_le_after hp
    cases hq with
    | past hq hqsticks => exact positionAfterEdit_mono h
    | before hq =>
      exfalso
      have hsame : comparePositions edit.range.start edit.range.finish = 0 ∧
          ¬ comparePositions edit.range.finish p < 0 ∧ stickiness = .finish := by
        simp only [comparePositions_le_zero, comparePositions_lt_zero,
          comparePositions_eq_zero_iff] at hq hp h hedit ⊢
        rcases hq with hq | ⟨hq, hqsticks⟩
        · omega
        · exact ⟨by omega, by omega, hqsticks⟩
      rcases hpsticks with hlt | hsticks | hne
      · exact hsame.2.1 hlt
      · rw [hsame.2.2] at hsticks
        cases hsticks
      · exact hne hsame.1
    | toStart hq hqfinish hqsticks =>
      rw [comparePositions_le_zero] at *
      rw [comparePositions_lt_zero] at hqfinish
      omega
    | toEnd hq hqfinish hqsticks =>
      rw [comparePositions_le_zero] at *
      rw [comparePositions_lt_zero] at hqfinish
      omega
  | before hp =>
    have hpstart : comparePositions p edit.range.start ≤ 0 := by omega
    cases hq with
    | past hq hqsticks =>
      have hpast := insertedTextEnd_le_after hq
      rw [comparePositions_le_zero] at *
      omega
    | before hq => exact h
    | toStart hq hqfinish hqsticks => exact hpstart
    | toEnd hq hqfinish hqsticks =>
      rw [comparePositions_le_zero] at *
      omega
  | toStart hp hpfinish hpsticks =>
    cases hq with
    | past hq hqsticks =>
      have hpast := insertedTextEnd_le_after hq
      rw [comparePositions_le_zero] at *
      omega
    | before hq =>
      rw [comparePositions_le_zero] at *
      omega
    | toStart hq hqfinish hqsticks => exact Int.le_of_eq (comparePositions_eq_zero.mpr rfl)
    | toEnd hq hqfinish hqsticks => exact hend
  | toEnd hp hpfinish hpsticks =>
    cases hq with
    | past hq hqsticks => exact insertedTextEnd_le_after hq
    | before hq =>
      exfalso
      have hqstart : comparePositions q edit.range.start ≤ 0 := by omega
      rw [comparePositions_le_zero] at *
      rw [comparePositions_lt_zero] at hp
      omega
    | toStart hq hqfinish hqsticks =>
      rw [hpsticks] at hqsticks
      cases hqsticks
    | toEnd hq hqfinish hqsticks => exact Int.le_of_eq (comparePositions_eq_zero.mpr rfl)

end

/-! ## Ranges -/

def shiftFinish (a b length p q : Nat) : Nat :=
  if p = q then shiftOffset a b length .start p else shiftOffset a b length .finish q

section

variable {text : List UInt16} {edit : SourceEdit} {range : SourceRange} {a b p q : Nat}

theorem shiftRange_eq (hspan : Spans text edit.range a b) (hrange : Spans text range p q) :
    shiftRange range edit =
      if a ≤ p ∧ q ≤ b ∧ a < b then none
      else some
        ⟨positionAt (editedText text a b edit.text) (shiftOffset a b edit.text.length .start p),
          positionAt (editedText text a b edit.text) (shiftFinish a b edit.text.length p q)⟩ := by
  have ha := hspan.startBoundary.le
  have hb := hspan.finishBoundary.le
  have hp := hrange.startBoundary.le
  have hq := hrange.finishBoundary.le
  unfold shiftRange shiftFinish
  dsimp only
  simp only [hspan.start_eq, hspan.finish_eq, hrange.start_eq, hrange.finish_eq,
    positionAt_le_iff ha hp, positionAt_le_iff hq hb, positionAt_lt_iff ha hb,
    positionAt_eq_iff hp hq]
  split
  · rfl
  · split
    · rw [shiftPosition_positionAt hspan hp]
    · rw [shiftPosition_positionAt hspan hp, shiftPosition_positionAt hspan hq]

theorem shiftOffset_start (length : Nat) (hab : a ≤ b) :
    shiftOffset a b length .start p =
      if b ≤ p then a + length + (p - b) else if p < a then p else a := by
  unfold shiftOffset
  simp only [true_or, and_true, reduceCtorEq, and_false, or_false, if_true]
  split_ifs <;> omega

theorem shiftOffset_finish (length : Nat) (hab : a ≤ b) :
    shiftOffset a b length .finish q =
      if q ≤ a then q else if b ≤ q then a + length + (q - b) else a + length := by
  unfold shiftOffset
  by_cases hfront : q ≤ a
  · rw [if_pos hfront, if_neg (by simp; omega), if_pos (by simp; omega)]
  · rw [if_neg hfront]
    by_cases hpast : b ≤ q
    · rw [if_pos hpast, if_pos (by simp; omega)]
    · rw [if_neg hpast, if_neg (by omega), if_neg (by simp; omega), if_neg (by simp)]

theorem shiftOffset_le_shiftFinish (length : Nat) (hab : a ≤ b) (hpq : p ≤ q) :
    shiftOffset a b length .start p ≤ shiftFinish a b length p q := by
  unfold shiftFinish
  split
  · exact Nat.le_refl _
  · rw [shiftOffset_start length hab, shiftOffset_finish length hab]
    split_ifs <;> omega

theorem keptAt_inside (length : Nat) (hab : a ≤ b) {k : Nat} (hpk : p ≤ k) (hkq : k < q)
    (hkept : k < a ∨ b ≤ k) :
    shiftOffset a b length .start p ≤ keptAt a b length k ∧
      keptAt a b length k < shiftFinish a b length p q := by
  rw [shiftFinish, if_neg (by omega), shiftOffset_start length hab, shiftOffset_finish length hab]
  unfold keptAt
  constructor
  · split_ifs <;> omega
  · split_ifs <;> omega

theorem shiftFinish_apart (length : Nat) (hab : a ≤ b) (hpq : p ≤ q) (happart : b ≤ p ∨ q ≤ a) :
    shiftFinish a b length p q = shiftOffset a b length .start p + (q - p) ∧
      ∀ k, k < q - p → shiftOffset a b length .start p + k = keptAt a b length (p + k) := by
  unfold shiftFinish
  split
  · exact ⟨by omega, fun k hk => by omega⟩
  · rw [shiftOffset_start length hab, shiftOffset_finish length hab]
    constructor
    · split_ifs <;> omega
    · intro k hk
      unfold keptAt
      split_ifs <;> omega

theorem slice_apart (hspan : Spans text edit.range a b) (hpq : p ≤ q)
    (happart : b ≤ p ∨ q ≤ a) :
    ((editedText text a b edit.text).take (shiftFinish a b edit.text.length p q)).drop
        (shiftOffset a b edit.text.length .start p) = (text.take q).drop p := by
  obtain ⟨hfinish, hkept⟩ := shiftFinish_apart edit.text.length hspan.le hpq happart
  apply List.ext_getElem?
  intro k
  rw [List.getElem?_drop, List.getElem?_drop, List.getElem?_take, List.getElem?_take, hfinish]
  by_cases hk : k < q - p
  · rw [if_pos (by omega), if_pos (by omega), hkept k hk,
      editedText_keptAt hspan.le hspan.finishBoundary.le (by omega)]
  · rw [if_neg (by omega), if_neg (by omega)]

theorem shiftRange_faithful (htext : WellBroken text) (hreplacement : WellBroken edit.text)
    (hspan : Spans text edit.range a b) (hrange : Spans text range p q) :
    WellBroken (editedText text a b edit.text) ∧
    (shiftRange range edit = none ↔ a < b ∧ a ≤ p ∧ q ≤ b) ∧
    (∀ shifted, shiftRange range edit = some shifted →
      ∃ p' q', Spans (editedText text a b edit.text) shifted p' q' ∧
        (b ≤ p ∨ q ≤ a →
          ((editedText text a b edit.text).take q').drop p' = (text.take q).drop p) ∧
        ∀ k, p ≤ k → k < q → k < a ∨ b ≤ k →
          (editedText text a b edit.text)[keptAt a b edit.text.length k]? = text[k]? ∧
          p' ≤ keptAt a b edit.text.length k ∧ keptAt a b edit.text.length k < q') ∧
    ∀ stickiness left right, comparePositions left right ≤ 0 →
      comparePositions (shiftPosition left edit stickiness) (shiftPosition right edit stickiness) ≤
        0 := by
  have hab := hspan.le
  have hb := hspan.finishBoundary.le
  have hedit : comparePositions edit.range.start edit.range.finish ≤ 0 := by
    rw [hspan.start_eq, hspan.finish_eq]
    exact (positionAt_le_iff hspan.startBoundary.le hb).mpr hab
  have hshift := shiftRange_eq hspan hrange
  refine ⟨?_, ?_, ?_, ?_⟩
  · exact wellBroken_editedText htext hreplacement hab hspan.startBoundary hspan.finishBoundary
  · rw [hshift]
    split
    · rename_i hcovers
      simp [hcovers]
    · rename_i hcovers
      simp only [reduceCtorEq, false_iff]
      omega
  · intro shifted hsome
    rw [hshift] at hsome
    split at hsome
    · cases hsome
    · cases hsome
      refine ⟨_, _, ⟨shiftOffset_le_shiftFinish _ hab hrange.le, ?_, ?_, rfl, rfl⟩,
        slice_apart hspan hrange.le, ?_⟩
      · exact boundary_shiftOffset htext hreplacement hspan hrange.startBoundary .start
      · unfold shiftFinish
        split
        · exact boundary_shiftOffset htext hreplacement hspan hrange.startBoundary .start
        · exact boundary_shiftOffset htext hreplacement hspan hrange.finishBoundary .finish
      · intro k hpk hkq hkept
        exact ⟨editedText_keptAt hab hb hkept, keptAt_inside _ hab hpk hkq hkept⟩
  · intro stickiness left right hle
    exact shiftPosition_mono hedit hle stickiness

end

/-- `x` for the end of the first line of `ab`, CR LF, `cd`: the second moves up. -/
theorem shiftRange_faithful_at_joined_line :
    ∃ p' q', Spans [97, 120, 99, 100] ⟨⟨0, 2⟩, ⟨0, 4⟩⟩ p' q' ∧
      (([97, 120, 99, 100] : List UInt16).take q').drop p' = [99, 100] := by
  have htext : WellBroken [97, 98, 13, 10, 99, 100] := by decide
  have hboundary : ∀ i ∈ [1, 4, 6], Boundary [97, 98, 13, 10, 99, 100] i := by
    intro i hi
    simp only [List.mem_cons, List.not_mem_nil, or_false] at hi
    rcases hi with rfl | rfl | rfl <;> exact boundary_of_ne (by decide) (by
      intro k hk
      cases hk
      decide)
  have hspan : Spans [97, 98, 13, 10, 99, 100] ⟨⟨0, 1⟩, ⟨1, 0⟩⟩ 1 4 :=
    ⟨by decide, hboundary 1 (by decide), hboundary 4 (by decide), by decide, by decide⟩
  have hrange : Spans [97, 98, 13, 10, 99, 100] ⟨⟨1, 0⟩, ⟨1, 2⟩⟩ 4 6 :=
    ⟨by decide, hboundary 4 (by decide), hboundary 6 (by decide), by decide, by decide⟩
  obtain ⟨-, -, hshifted, -⟩ := @shiftRange_faithful _ ⟨⟨⟨0, 1⟩, ⟨1, 0⟩⟩, [120]⟩ _ 1 4 4 6 htext
    (by decide) hspan hrange
  obtain ⟨p', q', hspans, hslice, -⟩ := hshifted ⟨⟨0, 2⟩, ⟨0, 4⟩⟩ (by decide)
  exact ⟨p', q', hspans, hslice (.inl (by decide))⟩

end ImportLens.Extension
