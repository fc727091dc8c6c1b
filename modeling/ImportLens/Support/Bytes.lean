import Mathlib.Data.List.Basic

/-!
# UTF-8 bytes

A text as the list of its UTF-8 bytes, the byte positions that stand between two
characters, and the search for an ASCII pattern.  An ASCII byte is a character of
its own, so a scanner that stops at ASCII bytes stops between characters.
-/

namespace ImportLens.Support

/-! ## Texts -/

def utf8 (text : List Char) : List UInt8 := text.flatMap String.utf8EncodeChar

/-- A byte position between two characters, or at an end. -/
def CharBoundary (text : List Char) (position : Nat) : Prop :=
  ∃ before after, text = before ++ after ∧ position = (utf8 before).length

def IsAscii (byte : UInt8) : Prop := byte.toNat < 128

def byteOf (c : Char) : UInt8 := UInt8.ofNat c.toNat

def ascii (pattern : String) : List UInt8 := pattern.toList.map byteOf

@[simp] theorem utf8_nil : utf8 [] = [] := rfl

@[simp] theorem utf8_cons (c : Char) (text : List Char) :
    utf8 (c :: text) = String.utf8EncodeChar c ++ utf8 text := rfl

@[simp] theorem utf8_append (a b : List Char) : utf8 (a ++ b) = utf8 a ++ utf8 b := by
  exact List.flatMap_append

/-! ## Boundaries -/

section

variable {text : List Char} {position : Nat}

theorem CharBoundary.zero : CharBoundary text 0 := ⟨[], text, rfl, rfl⟩

theorem CharBoundary.length : CharBoundary text (utf8 text).length :=
  ⟨text, [], (List.append_nil text).symm, rfl⟩

theorem CharBoundary.le_length (h : CharBoundary text position) :
    position ≤ (utf8 text).length := by
  obtain ⟨before, after, rfl, rfl⟩ := h
  rw [utf8_append, List.length_append]
  omega

theorem CharBoundary.cons (h : CharBoundary text position) (c : Char) :
    CharBoundary (c :: text) ((String.utf8EncodeChar c).length + position) := by
  obtain ⟨before, after, rfl, rfl⟩ := h
  exact ⟨c :: before, after, rfl, by simp⟩

theorem not_isAscii_or (x y : UInt8) (hy : 128 ≤ y.toNat) : ¬ IsAscii (x ||| y) := by
  have hle : y.toNat ≤ (x ||| y).toNat := by
    rw [UInt8.toNat_or]
    exact Nat.right_le_or
  unfold IsAscii
  omega

theorem utf8EncodeChar_of_isAscii {c : Char} {byte : UInt8}
    (hin : byte ∈ String.utf8EncodeChar c) (hascii : IsAscii byte) :
    String.utf8EncodeChar c = [byte] := by
  have hnot (x y : UInt8) (hy : 128 ≤ y.toNat) (heq : byte = x ||| y) : False :=
    not_isAscii_or x y hy (heq ▸ hascii)
  have hsize := Char.utf8Size_pos c
  have hle := Char.utf8Size_le_four c
  rcases (by omega : c.utf8Size = 1 ∨ c.utf8Size = 2 ∨ c.utf8Size = 3 ∨ c.utf8Size = 4) with
    h | h | h | h
  · rw [String.utf8EncodeChar_eq_singleton h] at hin ⊢
    rw [List.mem_singleton.mp hin]
  · rw [String.utf8EncodeChar_eq_cons_cons h] at hin
    simp only [List.mem_cons, List.not_mem_nil, or_false] at hin
    rcases hin with h | h <;> exact (hnot _ _ (by decide) h).elim
  · rw [String.utf8EncodeChar_eq_cons_cons_cons h] at hin
    simp only [List.mem_cons, List.not_mem_nil, or_false] at hin
    rcases hin with h | h | h <;> exact (hnot _ _ (by decide) h).elim
  · rw [String.utf8EncodeChar_eq_cons_cons_cons_cons h] at hin
    simp only [List.mem_cons, List.not_mem_nil, or_false] at hin
    rcases hin with h | h | h | h <;> exact (hnot _ _ (by decide) h).elim

theorem utf8EncodeChar_of_lt {c : Char} (h : c.toNat < 128) :
    String.utf8EncodeChar c = [byteOf c] := by
  have hsize : c.utf8Size = 1 := by
    rw [Char.utf8Size_eq_one_iff, UInt32.le_iff_toNat_le]
    change c.toNat ≤ 127
    omega
  rw [String.utf8EncodeChar_eq_singleton hsize]
  congr 1

theorem exists_char_of_isAscii {byte : UInt8} (h : IsAscii byte) :
    ∃ c, String.utf8EncodeChar c = [byte] := by
  have hvalid : byte.toNat.isValidChar := by
    unfold IsAscii at h
    exact .inl (by omega)
  have hto : (Char.ofNat byte.toNat).toNat = byte.toNat := by
    rw [Char.ofNat, dif_pos hvalid]
    rfl
  refine ⟨Char.ofNat byte.toNat, ?_⟩
  rw [utf8EncodeChar_of_lt (hto.symm ▸ h), byteOf, hto, UInt8.ofNat_toNat]

theorem continuation_or (x : UInt8) :
    128 ≤ (x &&& 63 ||| 128).toNat ∧ (x &&& 63 ||| 128).toNat < 192 := by
  have hle : x.toNat &&& 63 ≤ 63 := Nat.and_le_right
  rw [UInt8.toNat_or, UInt8.toNat_and]
  have hsum := Nat.two_pow_add_eq_or_of_lt (i := 7) (b := x.toNat &&& 63) (by omega) 1
  change 128 ≤ x.toNat &&& 63 ||| 128 ∧ x.toNat &&& 63 ||| 128 < 192
  rw [Nat.or_comm, ← hsum]
  omega

theorem continuation_of_utf8EncodeChar {c : Char} {i : Nat} {byte : UInt8} (hi : 0 < i)
    (hat : (String.utf8EncodeChar c)[i]? = some byte) : 128 ≤ byte.toNat ∧ byte.toNat < 192 := by
  have hpos := Char.utf8Size_pos c
  have hle := Char.utf8Size_le_four c
  have htail : ∀ byte ∈ (String.utf8EncodeChar c).tail, 128 ≤ byte.toNat ∧ byte.toNat < 192 := by
    rcases (by omega : c.utf8Size = 1 ∨ c.utf8Size = 2 ∨ c.utf8Size = 3 ∨ c.utf8Size = 4) with
      h | h | h | h
    · rw [String.utf8EncodeChar_eq_singleton h]
      exact fun _ hin => absurd hin List.not_mem_nil
    · rw [String.utf8EncodeChar_eq_cons_cons h]
      simp only [List.tail_cons, List.forall_mem_cons]
      exact ⟨continuation_or _, fun _ hin => absurd hin List.not_mem_nil⟩
    · rw [String.utf8EncodeChar_eq_cons_cons_cons h]
      simp only [List.tail_cons, List.forall_mem_cons]
      exact ⟨continuation_or _, continuation_or _, fun _ hin => absurd hin List.not_mem_nil⟩
    · rw [String.utf8EncodeChar_eq_cons_cons_cons_cons h]
      simp only [List.tail_cons, List.forall_mem_cons]
      exact ⟨continuation_or _, continuation_or _, continuation_or _,
        fun _ hin => absurd hin List.not_mem_nil⟩
  apply htail
  obtain ⟨j, rfl⟩ := Nat.exists_eq_succ_of_ne_zero (Nat.ne_of_gt hi)
  apply List.mem_of_getElem? (i := j)
  rw [List.getElem?_tail]
  exact hat

theorem eq_cons_of_isPrefix {text : List Char} {c : Char}
    (h : String.utf8EncodeChar c <+: utf8 text) : ∃ rest, text = c :: rest := by
  obtain ⟨tail, htail⟩ := h
  cases text with
  | nil =>
    have hnil := (List.append_eq_nil_iff.mp htail).1
    exact absurd hnil String.utf8EncodeChar_ne_nil
  | cons d rest =>
    refine ⟨rest, ?_⟩
    rw [utf8_cons] at htail
    have hbytes := congrArg List.toByteArray htail
    rw [List.toByteArray_append, List.toByteArray_append] at hbytes
    have hdecode := congrArg (ByteArray.utf8DecodeChar? · 0) hbytes
    simp only [ByteArray.utf8DecodeChar?_utf8EncodeChar_append, Option.some.injEq] at hdecode
    rw [hdecode]

theorem boundaries_of_isAscii {byte : UInt8} (hat : (utf8 text)[position]? = some byte)
    (hascii : IsAscii byte) : CharBoundary text position ∧ CharBoundary text (position + 1) := by
  induction text generalizing position with
  | nil => simp at hat
  | cons c text ih =>
    rw [utf8_cons] at hat
    by_cases hlt : position < (String.utf8EncodeChar c).length
    · rw [List.getElem?_append_left hlt] at hat
      have hone := utf8EncodeChar_of_isAscii (List.mem_of_getElem? hat) hascii
      have hzero : position = 0 := by
        rw [hone, List.length_singleton] at hlt
        omega
      subst hzero
      refine ⟨.zero, [c], text, rfl, ?_⟩
      rw [utf8_cons, hone]
      rfl
    · have hge : (String.utf8EncodeChar c).length ≤ position := by omega
      rw [List.getElem?_append_right hge] at hat
      obtain ⟨hbefore, hafter⟩ := ih hat
      have h := hbefore.cons c
      have h' := hafter.cons c
      rw [show (String.utf8EncodeChar c).length + (position - (String.utf8EncodeChar c).length) =
        position by omega] at h
      rw [show (String.utf8EncodeChar c).length +
        (position - (String.utf8EncodeChar c).length + 1) = position + 1 by omega] at h'
      exact ⟨h, h'⟩

end

/-! ## Slices and searches -/

/-- `bytes[start..finish]` -/
def slice (bytes : List UInt8) (start finish : Nat) : List UInt8 :=
  (bytes.take finish).drop start

def find (pattern : List UInt8) : List UInt8 → Option Nat
  | [] => if pattern.isEmpty then some 0 else none
  | byte :: bytes =>
      if pattern.isPrefixOf (byte :: bytes) then some 0 else (find pattern bytes).map (· + 1)

/-- The first position from `offset` on at which a pattern stands. -/
def findAt (pattern bytes : List UInt8) (offset : Nat) : Option Nat :=
  (find pattern (bytes.drop offset)).map (offset + ·)

def asciiLower (byte : UInt8) : UInt8 :=
  if 65 ≤ byte.toNat ∧ byte.toNat ≤ 90 then byte + 32 else byte

def toAsciiLowercase (bytes : List UInt8) : List UInt8 := bytes.map asciiLower

section

variable {pattern bytes : List UInt8} {start finish offset i : Nat}

theorem length_slice (hstart : start ≤ finish) (hfinish : finish ≤ bytes.length) :
    (slice bytes start finish).length = finish - start := by
  rw [slice, List.length_drop, List.length_take]
  omega

@[simp] theorem length_toAsciiLowercase : (toAsciiLowercase bytes).length = bytes.length := by
  exact List.length_map _

theorem isPrefix_of_find (h : find pattern bytes = some i) : pattern <+: bytes.drop i := by
  induction bytes generalizing i with
  | nil =>
    unfold find at h
    split at h
    · rename_i hempty
      rw [List.isEmpty_iff.mp hempty]
      exact List.nil_prefix
    · cases h
  | cons byte bytes ih =>
    unfold find at h
    split at h
    · rename_i hprefix
      cases h
      exact List.isPrefixOf_iff_prefix.mp hprefix
    · obtain ⟨j, hj, rfl⟩ := Option.map_eq_some_iff.mp h
      exact ih hj

theorem findAt_spec (h : findAt pattern bytes offset = some i) :
    offset ≤ i ∧ pattern <+: bytes.drop i := by
  obtain ⟨j, hj, rfl⟩ := Option.map_eq_some_iff.mp h
  have hprefix := isPrefix_of_find hj
  rw [List.drop_drop] at hprefix
  exact ⟨by omega, hprefix⟩

theorem boundaries_of_isPrefix {text : List Char} (h : pattern <+: (utf8 text).drop i)
    (hascii : ∀ byte ∈ pattern, IsAscii byte) (hne : pattern ≠ []) :
    CharBoundary text i ∧ CharBoundary text (i + pattern.length) := by
  obtain ⟨rest, hrest⟩ := h
  have hpos := List.length_pos_iff.mpr hne
  have hat (j : Nat) (hj : j < pattern.length) : (utf8 text)[i + j]? = some pattern[j] := by
    rw [← List.getElem?_drop, ← hrest, List.getElem?_append_left hj, List.getElem?_eq_getElem hj]
  have hfirst := boundaries_of_isAscii (hat 0 hpos) (hascii _ (List.getElem_mem hpos))
  have hlast := boundaries_of_isAscii (hat (pattern.length - 1) (by omega))
    (hascii _ (List.getElem_mem (by omega)))
  refine ⟨hfirst.1, ?_⟩
  rw [show i + pattern.length = i + (pattern.length - 1) + 1 by omega]
  exact hlast.2

theorem boundaries_of_findAt {text : List Char} (h : findAt pattern (utf8 text) offset = some i)
    (hascii : ∀ byte ∈ pattern, IsAscii byte) (hne : pattern ≠ []) :
    CharBoundary text i ∧ CharBoundary text (i + pattern.length) :=
  boundaries_of_isPrefix (findAt_spec h).2 hascii hne

theorem isPrefix_of_find_slice (h : find pattern (slice bytes start finish) = some i) :
    pattern <+: bytes.drop (start + i) := by
  have hprefix := isPrefix_of_find h
  rw [slice, List.drop_drop] at hprefix
  rw [List.drop_take] at hprefix
  exact hprefix.trans (List.take_prefix _ _)

theorem findAt_le (h : findAt pattern bytes offset = some i) (hne : pattern ≠ []) :
    i + pattern.length ≤ bytes.length := by
  have hle := (findAt_spec h).2.length_le
  have hpos := List.length_pos_iff.mpr hne
  rw [List.length_drop] at hle
  omega

theorem getElem?_of_findAt {byte : UInt8} {rest : List UInt8}
    (h : findAt (byte :: rest) bytes offset = some i) : bytes[i]? = some byte := by
  obtain ⟨tail, htail⟩ := (findAt_spec h).2
  have hget : (bytes.drop i)[0]? = some byte := by
    rw [← htail]
    rfl
  simpa using hget

theorem isAscii_of_asciiLower {byte : UInt8} (h : IsAscii (asciiLower byte)) : IsAscii byte := by
  unfold asciiLower at h
  split at h
  · rename_i hupper
    unfold IsAscii
    omega
  · exact h

theorem isAscii_asciiLower {byte : UInt8} (h : IsAscii byte) : IsAscii (asciiLower byte) := by
  unfold asciiLower
  split
  · unfold IsAscii at *
    rw [UInt8.toNat_add]
    change (byte.toNat + 32) % 256 < 128
    omega
  · exact h

theorem exists_utf8_toAsciiLowercase (text : List Char) :
    ∃ lowered, toAsciiLowercase (utf8 text) = utf8 lowered := by
  induction text with
  | nil => exact ⟨[], rfl⟩
  | cons c text ih =>
    obtain ⟨lowered, hlowered⟩ := ih
    have hchar : ∃ d, (String.utf8EncodeChar c).map asciiLower = String.utf8EncodeChar d := by
      by_cases hascii : ∃ byte ∈ String.utf8EncodeChar c, IsAscii byte
      · obtain ⟨byte, hin, hbyte⟩ := hascii
        obtain ⟨d, hd⟩ := exists_char_of_isAscii (isAscii_asciiLower hbyte)
        exact ⟨d, by rw [utf8EncodeChar_of_isAscii hin hbyte, hd, List.map_singleton]⟩
      · refine ⟨c, (List.map_congr_left fun byte hin => ?_).trans (List.map_id _)⟩
        rw [asciiLower, if_neg, id]
        intro hupper
        exact hascii ⟨byte, hin, by unfold IsAscii; omega⟩
    obtain ⟨d, hd⟩ := hchar
    refine ⟨d :: lowered, ?_⟩
    rw [utf8_cons, toAsciiLowercase, List.map_append, hd, utf8_cons, ← hlowered, toAsciiLowercase]

theorem getElem?_toAsciiLowercase {byte : UInt8} (h : (toAsciiLowercase bytes)[i]? = some byte)
    (hascii : IsAscii byte) : ∃ upper, bytes[i]? = some upper ∧ IsAscii upper := by
  rw [toAsciiLowercase, List.getElem?_map, Option.map_eq_some_iff] at h
  obtain ⟨upper, hupper, rfl⟩ := h
  exact ⟨upper, hupper, isAscii_of_asciiLower hascii⟩

end

end ImportLens.Support
