import ImportLens.Document.ScriptRegions
import Mathlib.Algebra.Ring.Nat
import Mathlib.Data.List.Induction

/-!
# Positions in a document

`LineIndex` names a byte position by its line and by its column in UTF-16 units.
CR LF, a lone CR and a lone LF each end one line.  Lines and columns are `u32`
values, so a document has to be shorter than 2 ^ 32 bytes for them to be exact.
-/

namespace ImportLens.Document

open ImportLens.Support

structure SourcePosition where
  line : Nat
  character : Nat
  deriving DecidableEq, Repr

structure LineIndex where
  lineStarts : List Nat

/-- The starts of the lines that `bytes` ends, which stand at `index`. -/
def lineStartsFrom (index : Nat) : List UInt8 → List Nat
  | [] => []
  | byte :: rest =>
      if byte = lineFeed then (index + 1) :: lineStartsFrom (index + 1) rest
      else if byte = carriageReturn then
        match rest with
        | [] => [index + 1]
        | next :: after =>
            if next = lineFeed then (index + 2) :: lineStartsFrom (index + 2) after
            else (index + 1) :: lineStartsFrom (index + 1) (next :: after)
      else lineStartsFrom (index + 1) rest

def LineIndex.new (text : List Char) : LineIndex := ⟨0 :: lineStartsFrom 0 (utf8 text)⟩

/-- `source[offset..]`, where there is a boundary. -/
def textFrom : List Char → Nat → Option (List Char)
  | text, 0 => some text
  | [], _ + 1 => none
  | c :: text, offset + 1 =>
      if c.utf8Size ≤ offset + 1 then textFrom text (offset + 1 - c.utf8Size) else none

/-- `source[..offset]`, where there is a boundary. -/
def textUpTo : List Char → Nat → Option (List Char)
  | _, 0 => some []
  | [], _ + 1 => none
  | c :: text, offset + 1 =>
      if c.utf8Size ≤ offset + 1 then
        (textUpTo text (offset + 1 - c.utf8Size)).map fun before => c :: before
      else none

/-- `source[start..finish]` -/
def sliceText (text : List Char) (start finish : Nat) : Option (List Char) :=
  if start ≤ finish then (textFrom text start).bind fun rest => textUpTo rest (finish - start)
  else none

def asU32 (n : Nat) : Nat := n % 4294967296

def utf16Length (text : List Char) : Nat := (text.map lenUtf16).sum

/-- `LineIndex::position_at`; `none` is an index out of range or a slice that does
not stand between two characters. -/
def LineIndex.positionAt (index : LineIndex) (text : List Char) (offset : Nat) :
    Option SourcePosition :=
  let safeOffset := min offset (utf8 text).length
  -- `partition_point` of the starts, which are in order
  let line := (index.lineStarts.takeWhile (· ≤ safeOffset)).length - 1
  index.lineStarts[line]?.bind fun lineStart =>
    (sliceText text lineStart safeOffset).map fun slice =>
      ⟨asU32 line, asU32 (utf16Length slice)⟩

/-! ## Slices -/

section

variable {text before after : List Char}

theorem utf8Size_ne_zero (c : Char) : c.utf8Size ≠ 0 := Nat.ne_of_gt (Char.utf8Size_pos c)

theorem length_utf8_cons (c : Char) (text : List Char) :
    (utf8 (c :: text)).length = c.utf8Size + (utf8 text).length := by
  rw [utf8_cons, List.length_append, String.length_utf8EncodeChar]

theorem length_utf8_append (before after : List Char) :
    (utf8 (before ++ after)).length = (utf8 before).length + (utf8 after).length := by
  rw [utf8_append, List.length_append]

theorem textFrom_append (before after : List Char) :
    textFrom (before ++ after) (utf8 before).length = some after := by
  induction before with
  | nil => cases after <;> rfl
  | cons c before ih =>
      rw [length_utf8_cons]
      obtain ⟨size, hsize⟩ := Nat.exists_eq_succ_of_ne_zero (utf8Size_ne_zero c)
      have hsum : c.utf8Size + (utf8 before).length = size + (utf8 before).length + 1 := by omega
      rw [hsum, List.cons_append, textFrom, if_pos (by omega)]
      rw [show size + (utf8 before).length + 1 - c.utf8Size = (utf8 before).length by omega]
      exact ih

theorem textUpTo_append (before after : List Char) :
    textUpTo (before ++ after) (utf8 before).length = some before := by
  induction before with
  | nil => cases after <;> rfl
  | cons c before ih =>
      rw [length_utf8_cons]
      obtain ⟨size, hsize⟩ := Nat.exists_eq_succ_of_ne_zero (utf8Size_ne_zero c)
      have hsum : c.utf8Size + (utf8 before).length = size + (utf8 before).length + 1 := by omega
      rw [hsum, List.cons_append, textUpTo, if_pos (by omega)]
      rw [show size + (utf8 before).length + 1 - c.utf8Size = (utf8 before).length by omega, ih]
      rfl

theorem sliceText_append (before middle after : List Char) :
    sliceText (before ++ middle ++ after) (utf8 before).length
      (utf8 (before ++ middle)).length = some middle := by
  rw [sliceText, length_utf8_append, if_pos (Nat.le_add_right _ _), List.append_assoc,
    textFrom_append, Option.bind_some, Nat.add_sub_cancel_left, textUpTo_append]

@[simp] theorem utf16Length_append (before after : List Char) :
    utf16Length (before ++ after) = utf16Length before + utf16Length after := by
  simp [utf16Length]

theorem lenUtf16_pos (c : Char) : 0 < lenUtf16 c := by
  unfold lenUtf16
  split <;> omega

end

/-! ## Lines of a text -/

/-- The character ends a line in front of `next`. -/
def endsLine (c : Char) (next : Option Char) : Bool :=
  c = '\n' || (c = '\r' && next ≠ some '\n')

/-- The line and the column behind a text, from those in front of it; `after` is
what follows the text. -/
def advance (after : List Char) : Nat × Nat → List Char → Nat × Nat
  | at_, [] => at_
  | at_, c :: text =>
      advance after
        (if endsLine c (text ++ after).head? then (at_.1 + 1, 0) else (at_.1, at_.2 + lenUtf16 c))
        text

def lineAndColumn (before after : List Char) : Nat × Nat := advance after (0, 0) before

example : lineAndColumn "a\r\nb\rcd".toList "e".toList = (2, 2) := by decide

section

variable {before after text : List Char} {index offset : Nat} {at_ : Nat × Nat}

theorem advance_append (first second : List Char) :
    advance after at_ (first ++ second) =
      advance after (advance (second ++ after) at_ first) second := by
  induction first generalizing at_ with
  | nil => rfl
  | cons c first ih =>
      rw [List.cons_append, advance, advance, ih, List.append_assoc]

/-- The order of positions: by line, then by column. -/
def Precedes (first second : Nat × Nat) : Prop :=
  first.1 < second.1 ∨ first.1 = second.1 ∧ first.2 < second.2

theorem Precedes.trans {first second third : Nat × Nat} (h : Precedes first second)
    (k : Precedes second third) : Precedes first third := by
  unfold Precedes at *
  omega

theorem precedes_step (c : Char) (next : Option Char) :
    Precedes at_ (if endsLine c next then (at_.1 + 1, 0) else (at_.1, at_.2 + lenUtf16 c)) := by
  have hpos := lenUtf16_pos c
  split
  · exact .inl (Nat.lt_succ_self _)
  · exact .inr ⟨rfl, Nat.lt_add_of_pos_right hpos⟩

theorem precedes_advance (hne : text ≠ []) : Precedes at_ (advance after at_ text) := by
  induction text generalizing at_ with
  | nil => exact absurd rfl hne
  | cons c text ih =>
      rw [advance]
      cases text with
      | nil => exact precedes_step c _
      | cons d text => exact (precedes_step c _).trans (ih (List.cons_ne_nil d text))

theorem lineAndColumn_precedes {middle : List Char} (hne : middle ≠ []) :
    Precedes (lineAndColumn before (middle ++ after)) (lineAndColumn (before ++ middle) after) := by
  rw [lineAndColumn, lineAndColumn, advance_append]
  exact precedes_advance hne

/-! ## Line starts -/

/-- The starts of the lines that end inside `text`, which stands at `index` and in
front of `after`. -/
def startsIn (after : List Char) (index : Nat) : List Char → List Nat
  | [] => []
  | c :: text =>
      if endsLine c (text ++ after).head? then
        (index + c.utf8Size) :: startsIn after (index + c.utf8Size) text
      else startsIn after (index + c.utf8Size) text

theorem startsIn_append (index : Nat) (first second : List Char) :
    startsIn after index (first ++ second) =
      startsIn (second ++ after) index first ++
        startsIn after (index + (utf8 first).length) second := by
  induction first generalizing index with
  | nil => simp [startsIn]
  | cons c first ih =>
      rw [List.cons_append, startsIn, startsIn, ih, List.append_assoc, length_utf8_cons,
        ← Nat.add_assoc]
      split <;> rfl

theorem startsIn_bounds {start : Nat} (h : start ∈ startsIn after index text) :
    index < start ∧ start ≤ index + (utf8 text).length := by
  induction text generalizing index with
  | nil => cases h
  | cons c text ih =>
      have hpos := Char.utf8Size_pos c
      rw [length_utf8_cons]
      rw [startsIn] at h
      split at h
      · obtain rfl | h := List.mem_cons.mp h
        · omega
        · have := ih h
          omega
      · have := ih h
        omega

theorem isAscii_lineFeed : IsAscii lineFeed := by
  unfold IsAscii
  decide

theorem isAscii_carriageReturn : IsAscii carriageReturn := by
  unfold IsAscii
  decide

theorem toNat_of_mem_encode {c : Char} {byte : UInt8} (hin : byte ∈ String.utf8EncodeChar c)
    (hascii : IsAscii byte) : c.toNat = byte.toNat := by
  have hone := utf8EncodeChar_of_isAscii hin hascii
  have hsize : c.utf8Size = 1 := by
    rw [← String.length_utf8EncodeChar, hone, List.length_singleton]
  have hle : c.val ≤ 127 := Char.utf8Size_eq_one_iff.mp hsize
  rw [String.utf8EncodeChar_eq_singleton hsize, List.cons.injEq] at hone
  rw [← hone.1]
  have hlt : c.val.toNat < 256 := by
    have := UInt32.le_iff_toNat_le.mp hle
    exact Nat.lt_of_le_of_lt this (by decide)
  rw [UInt32.toNat_toUInt8]
  exact (Nat.mod_eq_of_lt hlt).symm

theorem eq_of_mem_encode {c d : Char} {byte : UInt8} (hin : byte ∈ String.utf8EncodeChar c)
    (hascii : IsAscii byte) (hd : d.toNat = byte.toNat) : c = d := by
  apply Char.toNat_inj.mp
  rw [toNat_of_mem_encode hin hascii, hd]

theorem lineStartsFrom_append {bytes rest : List UInt8}
    (h : ∀ byte ∈ bytes, byte ≠ lineFeed ∧ byte ≠ carriageReturn) :
    lineStartsFrom index (bytes ++ rest) = lineStartsFrom (index + bytes.length) rest := by
  induction bytes generalizing index with
  | nil => rfl
  | cons byte bytes ih =>
      obtain ⟨hfeed, hreturn⟩ := h byte List.mem_cons_self
      rw [List.cons_append, lineStartsFrom.eq_def]
      simp only [hfeed, if_false, hreturn]
      rw [ih fun other hother => h other (List.mem_cons_of_mem _ hother), List.length_cons]
      congr 1
      omega

theorem lineStartsFrom_carriageReturn (rest : List UInt8) :
    lineStartsFrom index (carriageReturn :: rest) =
      if rest.head? = some lineFeed then lineStartsFrom (index + 1) rest
      else (index + 1) :: lineStartsFrom (index + 1) rest := by
  cases rest with
  | nil => rfl
  | cons next after =>
      rw [lineStartsFrom.eq_def]
      simp only [List.head?_cons, Option.some.injEq]
      rw [if_neg (by decide), if_true]
      by_cases hnext : next = lineFeed
      · rw [if_pos hnext, if_pos hnext, hnext, lineStartsFrom.eq_def (index + 1)]
        simp
      · rw [if_neg hnext, if_neg hnext]

theorem head?_utf8_eq_lineFeed (text : List Char) :
    (utf8 text).head? = some lineFeed ↔ text.head? = some '\n' := by
  cases text with
  | nil => simp
  | cons c text =>
      rw [utf8_cons, List.head?_append, List.head?_cons, Option.some.injEq]
      constructor
      · intro h
        have hhead : (String.utf8EncodeChar c).head? = some lineFeed := by
          cases hbytes : String.utf8EncodeChar c with
          | nil =>
              have hlength := String.length_utf8EncodeChar c
              rw [hbytes] at hlength
              exact absurd hlength.symm (utf8Size_ne_zero c)
          | cons byte bytes =>
              rw [hbytes] at h
              exact h
        exact eq_of_mem_encode (List.mem_of_head? hhead) isAscii_lineFeed rfl
      · rintro rfl
        rfl

theorem lineStartsFrom_utf8 (index : Nat) (text : List Char) :
    lineStartsFrom index (utf8 text) = startsIn [] index text := by
  induction text generalizing index with
  | nil => rfl
  | cons c text ih =>
      rw [utf8_cons, startsIn, List.append_nil]
      by_cases hfeed : c = '\n'
      · subst hfeed
        rw [show String.utf8EncodeChar '\n' = [lineFeed] from rfl, List.singleton_append,
          lineStartsFrom.eq_def]
        simp only [if_true, ih]
        rfl
      · by_cases hreturn : c = '\r'
        · subst hreturn
          rw [show String.utf8EncodeChar '\r' = [carriageReturn] from rfl, List.singleton_append,
            lineStartsFrom_carriageReturn, ih]
          by_cases hnext : text.head? = some '\n'
          · rw [if_pos ((head?_utf8_eq_lineFeed text).mpr hnext), hnext]
            rfl
          · rw [if_neg fun h => hnext ((head?_utf8_eq_lineFeed text).mp h)]
            have hends : endsLine '\r' text.head? = true := by simp [endsLine, hnext]
            rw [hends]
            rfl
        · have hends : endsLine c text.head? = false := by simp [endsLine, hfeed, hreturn]
          rw [lineStartsFrom_append, String.length_utf8EncodeChar, ih, hends]
          · rfl
          · intro byte hbyte
            refine ⟨?_, ?_⟩
            · rintro rfl
              exact hfeed (eq_of_mem_encode hbyte isAscii_lineFeed rfl)
            · rintro rfl
              exact hreturn (eq_of_mem_encode hbyte isAscii_carriageReturn rfl)

/-! ## Positions of boundaries -/

theorem startsIn_singleton (index : Nat) (c : Char) :
    startsIn after index [c] = if endsLine c after.head? then [index + c.utf8Size] else [] := by
  rw [startsIn, List.nil_append]
  split <;> rfl

theorem exists_lastLine (before after : List Char) :
    ∃ lines line, before = lines ++ line ∧
      (0 :: startsIn after 0 before).getLast? = some (utf8 lines).length ∧
      lineAndColumn before after = ((startsIn after 0 before).length, utf16Length line) := by
  induction before using List.reverseRecOn generalizing after with
  | nil => exact ⟨[], [], rfl, rfl, rfl⟩
  | append_singleton before c ih =>
      obtain ⟨lines, line, hsplit, hlast, hposition⟩ := ih (c :: after)
      have hstarts : startsIn after 0 (before ++ [c]) =
          startsIn (c :: after) 0 before ++ startsIn after (utf8 before).length [c] := by
        rw [startsIn_append, Nat.zero_add]
        rfl
      have hadvance : lineAndColumn (before ++ [c]) after =
          advance after (lineAndColumn before (c :: after)) [c] := by
        rw [lineAndColumn, advance_append]
        rfl
      rw [hstarts, hadvance, hposition, startsIn_singleton, advance, advance, List.nil_append]
      by_cases hends : endsLine c after.head? = true
      · refine ⟨before ++ [c], [], (List.append_nil _).symm, ?_, ?_⟩
        · rw [if_pos hends, length_utf8_append, length_utf8_cons, ← List.cons_append,
            List.getLast?_append]
          rfl
        · rw [if_pos hends, if_pos hends, List.length_append]
          rfl
      · refine ⟨lines, line ++ [c], by rw [hsplit, List.append_assoc], ?_, ?_⟩
        · rw [if_neg hends, List.append_nil]
          exact hlast
        · rw [if_neg hends, if_neg hends, List.append_nil, utf16Length_append]
          rfl

theorem takeWhile_lineStarts (before after : List Char) :
    (LineIndex.new (before ++ after)).lineStarts.takeWhile (· ≤ (utf8 before).length) =
      0 :: startsIn after 0 before := by
  have hlater : (startsIn [] (0 + (utf8 before).length) after).takeWhile
      (· ≤ (utf8 before).length) = [] := by
    cases hstarts : startsIn [] (0 + (utf8 before).length) after with
    | nil => rfl
    | cons start starts =>
        have hbound := (startsIn_bounds (hstarts ▸ List.mem_cons_self)).1
        rw [List.takeWhile_cons, if_neg]
        simp only [decide_eq_true_eq]
        omega
  rw [LineIndex.new, lineStartsFrom_utf8, startsIn_append, List.append_nil,
    List.takeWhile_cons, if_pos (by simp), List.takeWhile_append_of_pos, hlater, List.append_nil]
  intro start hstart
  have hbound := (startsIn_bounds hstart).2
  rw [Nat.zero_add] at hbound
  exact decide_eq_true hbound

theorem positionAt_boundary (before after : List Char) :
    (LineIndex.new (before ++ after)).positionAt (before ++ after) (utf8 before).length =
      some ⟨asU32 (lineAndColumn before after).1, asU32 (lineAndColumn before after).2⟩ := by
  obtain ⟨lines, line, hsplit, hlast, hposition⟩ := exists_lastLine before after
  have hsafe : min (utf8 before).length (utf8 (before ++ after)).length =
      (utf8 before).length := by
    rw [length_utf8_append]
    omega
  have hstart : (LineIndex.new (before ++ after)).lineStarts[(startsIn after 0 before).length]? =
      some (utf8 lines).length := by
    obtain ⟨later, hlater⟩ : 0 :: startsIn after 0 before <+:
        (LineIndex.new (before ++ after)).lineStarts :=
      takeWhile_lineStarts before after ▸ List.takeWhile_prefix _
    rw [← hlater, ← hlast, List.getLast?_eq_getElem?, List.length_cons, Nat.add_sub_cancel]
    exact List.getElem?_append_left (Nat.lt_succ_self _)
  rw [LineIndex.positionAt, hsafe, takeWhile_lineStarts, List.length_cons, Nat.add_sub_cancel]
  simp only [hstart, Option.bind_some, hposition]
  have hslice := sliceText_append lines line after
  rw [← hsplit] at hslice
  rw [hslice, Option.map_some]

theorem lenUtf16_le (c : Char) : lenUtf16 c ≤ c.utf8Size := by
  have hpos := Char.utf8Size_pos c
  unfold lenUtf16
  split
  · exact hpos
  · rename_i hlarge
    have hfour : c.utf8Size = 4 := by
      have hle : ¬ c.val ≤ 65535 := by
        rw [UInt32.le_iff_toNat_le]
        show ¬ c.toNat ≤ 65535
        omega
      have hle' : ¬ c.val ≤ 2047 := fun h => hle (UInt32.le_trans h (by decide))
      have hle'' : ¬ c.val ≤ 127 := fun h => hle (UInt32.le_trans h (by decide))
      simp [Char.utf8Size, hle, hle', hle'']
    omega

theorem lineAndColumn_le (before after : List Char) :
    (lineAndColumn before after).1 ≤ (utf8 before).length ∧
      (lineAndColumn before after).2 ≤ (utf8 before).length := by
  have hstep : ∀ (text : List Char) (at_ : Nat × Nat),
      (advance after at_ text).1 ≤ at_.1 + (utf8 text).length ∧
        (advance after at_ text).2 ≤ at_.2 + (utf8 text).length := by
    intro text
    induction text with
    | nil => exact fun at_ => ⟨Nat.le_refl _, Nat.le_refl _⟩
    | cons c text ih =>
        intro at_
        have hpos := Char.utf8Size_pos c
        have hle := lenUtf16_le c
        rw [advance, length_utf8_cons]
        split
        · have := ih (at_.1 + 1, 0)
          simp only at this
          omega
        · have := ih (at_.1, at_.2 + lenUtf16 c)
          simp only at this
          omega
  have := hstep before (0, 0)
  simpa [lineAndColumn] using this

theorem asU32_of_lt {n : Nat} (h : n < 4294967296) : asU32 n = n := Nat.mod_eq_of_lt h

theorem positionAt_of_lt (hlength : (utf8 (before ++ after)).length < 4294967296) :
    (LineIndex.new (before ++ after)).positionAt (before ++ after) (utf8 before).length =
      some ⟨(lineAndColumn before after).1, (lineAndColumn before after).2⟩ := by
  have hle := lineAndColumn_le before after
  rw [length_utf8_append] at hlength
  rw [positionAt_boundary, asU32_of_lt (by omega), asU32_of_lt (by omega)]

/-- A boundary further on is the same text with more behind it. -/
theorem exists_middle {position later : Nat} (h : CharBoundary text position)
    (k : CharBoundary text later) (hlt : position < later) :
    ∃ before middle after, text = before ++ middle ++ after ∧ middle ≠ [] ∧
      position = (utf8 before).length ∧ later = (utf8 (before ++ middle)).length := by
  obtain ⟨before, rest, rfl, rfl⟩ := h
  obtain ⟨longer, after, heq, rfl⟩ := k
  obtain ⟨middle, rfl, rfl⟩ | ⟨middle, rfl, rfl⟩ := List.append_eq_append_iff.mp heq
  · refine ⟨before, middle, after, by rw [List.append_assoc], ?_, rfl, rfl⟩
    rintro rfl
    rw [List.append_nil] at hlt
    exact absurd hlt (Nat.lt_irrefl _)
  · rw [length_utf8_append] at hlt
    omega

theorem byteOffsetFrom_append (byteIndex utf16Seen : Nat) (before after : List Char) :
    byteOffsetFrom byteIndex utf16Seen (utf16Seen + utf16Length before) (before ++ after) =
      byteIndex + (utf8 before).length := by
  induction before generalizing byteIndex utf16Seen with
  | nil =>
      cases after with
      | nil => rfl
      | cons c after => simp [byteOffsetFrom, utf16Length]
  | cons c before ih =>
      have hpos := lenUtf16_pos c
      have hsum : utf16Length (c :: before) = lenUtf16 c + utf16Length before := by
        simp [utf16Length]
      rw [List.cons_append, byteOffsetFrom, if_neg (by omega), hsum, ← Nat.add_assoc, ih,
        length_utf8_cons, Nat.add_assoc]

theorem byteOffsetForUtf16_append (before after : List Char) :
    byteOffsetForUtf16 (before ++ after) (utf16Length before) = (utf8 before).length := by
  have h := byteOffsetFrom_append 0 0 before after
  rw [Nat.zero_add, Nat.zero_add] at h
  exact h

end

/-- A boundary has the line and the column it stands at, later ones have later
positions, and the UTF-16 offset of an editor names the same boundary. -/
theorem positions_round_trip (text : List Char) :
    (∀ before after, text = before ++ after →
      (LineIndex.new text).positionAt text (utf8 before).length =
        some ⟨asU32 (lineAndColumn before after).1, asU32 (lineAndColumn before after).2⟩) ∧
    (∀ before after, text = before ++ after →
      byteOffsetForUtf16 text (utf16Length before) = (utf8 before).length) ∧
    ((utf8 text).length < 4294967296 →
      (∀ before after, text = before ++ after →
        (LineIndex.new text).positionAt text (utf8 before).length =
          some ⟨(lineAndColumn before after).1, (lineAndColumn before after).2⟩) ∧
      (∀ b b', CharBoundary text b → CharBoundary text b' → b < b' →
        ∃ p q, (LineIndex.new text).positionAt text b = some p ∧
          (LineIndex.new text).positionAt text b' = some q ∧
            (p.line < q.line ∨ p.line = q.line ∧ p.character < q.character)) ∧
      ∀ b b', CharBoundary text b → CharBoundary text b' →
        (LineIndex.new text).positionAt text b = (LineIndex.new text).positionAt text b' →
          b = b') := by
  refine ⟨?_, ?_, fun hlength => ?_⟩
  · rintro before after rfl
    exact positionAt_boundary before after
  · rintro before after rfl
    exact byteOffsetForUtf16_append before after
  · have hincreasing : ∀ b b', CharBoundary text b → CharBoundary text b' → b < b' →
        ∃ p q, (LineIndex.new text).positionAt text b = some p ∧
          (LineIndex.new text).positionAt text b' = some q ∧
            (p.line < q.line ∨ p.line = q.line ∧ p.character < q.character) := by
      intro b b' hb hb' hlt
      obtain ⟨before, middle, after, rfl, hne, rfl, rfl⟩ := exists_middle hb hb' hlt
      have hfirst := @positionAt_of_lt before (middle ++ after) (by rwa [← List.append_assoc])
      rw [← List.append_assoc] at hfirst
      exact ⟨_, _, hfirst, positionAt_of_lt hlength, lineAndColumn_precedes hne⟩
    refine ⟨?_, hincreasing, fun b b' hb hb' heq => ?_⟩
    · rintro before after rfl
      exact positionAt_of_lt hlength
    · rcases Nat.lt_trichotomy b b' with hlt | rfl | hlt
      · obtain ⟨p, q, hp, hq, hless⟩ := hincreasing b b' hb hb' hlt
        rw [hp, hq, Option.some.injEq] at heq
        subst heq
        omega
      · rfl
      · obtain ⟨p, q, hp, hq, hless⟩ := hincreasing b' b hb' hb hlt
        rw [hp, hq, Option.some.injEq] at heq
        subst heq
        omega

theorem lineAndColumn_replicate (n : Nat) :
    lineAndColumn (List.replicate n '\n') [] = (n, 0) := by
  have hadvance : ∀ k, advance [] (k, 0) (List.replicate n '\n') = (k + n, 0) := by
    induction n with
    | zero => exact fun _ => rfl
    | succ n ih =>
        intro k
        rw [List.replicate_succ, advance, if_pos (by rfl), ih, Nat.add_assoc, Nat.add_comm 1 n]
  rw [lineAndColumn, hadvance, Nat.zero_add]

theorem positionAt_replicate {n : Nat} (h : asU32 n = 0) :
    (LineIndex.new (List.replicate n '\n')).positionAt (List.replicate n '\n')
        (utf8 (List.replicate n '\n')).length = some ⟨0, 0⟩ := by
  have hat := positionAt_boundary (List.replicate n '\n') []
  rw [lineAndColumn_replicate, List.append_nil] at hat
  rw [hat, h]
  rfl

theorem positionAt_zero (text : List Char) :
    (LineIndex.new text).positionAt text 0 = some ⟨0, 0⟩ :=
  positionAt_boundary [] text

/-- Line 2 ^ 32 of a document has the position of line 0. -/
theorem positions_wrap :
    CharBoundary (List.replicate 4294967296 '\n') 0 ∧
      CharBoundary (List.replicate 4294967296 '\n')
        (utf8 (List.replicate 4294967296 '\n')).length ∧
      0 < (utf8 (List.replicate 4294967296 '\n')).length ∧
      (LineIndex.new (List.replicate 4294967296 '\n')).positionAt
          (List.replicate 4294967296 '\n') 0 =
        (LineIndex.new (List.replicate 4294967296 '\n')).positionAt
          (List.replicate 4294967296 '\n') (utf8 (List.replicate 4294967296 '\n')).length := by
  have hpos : 0 < (utf8 (List.replicate 4294967296 '\n')).length := by
    have hle := (lineAndColumn_le (List.replicate 4294967296 '\n') []).1
    rw [lineAndColumn_replicate] at hle
    exact Nat.lt_of_lt_of_le (by decide) hle
  refine ⟨.zero, .length, hpos, ?_⟩
  rw [positionAt_zero, positionAt_replicate (Nat.mod_self _)]

end ImportLens.Document
