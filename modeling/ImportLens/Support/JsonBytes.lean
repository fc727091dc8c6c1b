import ImportLens.Support.Bytes
import ImportLens.Support.Json

/-!
# The bytes of a JSON text

Every token starts with an ASCII character that tells what it is, and inside a string
neither a quote nor a backslash stands but behind a backslash.
-/

namespace ImportLens.Support.Json

/-! ## Tokens -/

@[simp] theorem render_nil : render [] = [] := rfl

@[simp] theorem render_append (a b : List Token) : render (a ++ b) = render a ++ render b :=
  List.flatMap_append

@[simp] theorem render_cons (t : Token) (ts : List Token) :
    render (t :: ts) = t.text ++ render ts := rfl

def width (tokens : List Token) : Nat := (utf8 (render tokens)).length

@[simp] theorem width_nil : width [] = 0 := rfl

@[simp] theorem width_append (a b : List Token) : width (a ++ b) = width a + width b := by
  rw [width, render_append, utf8_append, List.length_append]
  rfl

def Token.first : Token → Char
  | .string _ => '"'
  | .space s => s.char
  | .mark m => m.char
  | .atom c => c.val

theorem toNat_lt_of_isAtom {c : Char} (h : isAtom c = true) : c.toNat < 128 := by
  simp only [isAtom, Bool.or_eq_true, decide_eq_true_eq] at h
  rcases h with ((halpha | rfl) | rfl) | rfl
  · have hrange : (65 ≤ c.toNat ∧ c.toNat ≤ 90) ∨ (97 ≤ c.toNat ∧ c.toNat ≤ 122) ∨
        (48 ≤ c.toNat ∧ c.toNat ≤ 57) := by
      have hbounds : (decide (65 ≤ c.val ∧ c.val ≤ 90) || (decide (97 ≤ c.val) &&
          decide (c.val ≤ 122)) || (decide (48 ≤ c.val) && decide (c.val ≤ 57))) = true := halpha
      simp only [Bool.or_eq_true, Bool.and_eq_true, decide_eq_true_eq,
        UInt32.le_iff_toNat_le] at hbounds
      rcases hbounds with (h | h) | h
      · exact .inl h
      · exact .inr (.inl h)
      · exact .inr (.inr h)
    omega
  · decide
  · decide
  · decide

theorem Token.first_lt (t : Token) : t.first.toNat < 128 := by
  cases t with
  | string s => exact (by decide : '"'.toNat < 128)
  | space s => cases s <;> decide
  | mark m => cases m <;> decide
  | atom c => exact toNat_lt_of_isAtom c.property

theorem Token.text_eq {t : Token} (h : ∀ s, t ≠ .string s) : t.text = [t.first] := by
  cases t with
  | string s => exact absurd rfl (h s)
  | space s => rfl
  | mark m => rfl
  | atom c => rfl

theorem Token.exists_text (t : Token) : ∃ rest, t.text = t.first :: rest := by
  cases t with
  | string s => exact ⟨_, rfl⟩
  | _ => exact ⟨[], rfl⟩

theorem byteAt (before : List Token) (t : Token) (rest : List Token) :
    (utf8 (render (before ++ t :: rest)))[width before]? = some (byteOf t.first) := by
  obtain ⟨tail, htext⟩ := t.exists_text
  rw [render_append, render_cons, htext, utf8_append, List.cons_append, utf8_cons,
    utf8EncodeChar_of_lt t.first_lt, width, List.getElem?_append_right (Nat.le_refl _),
    Nat.sub_self]
  rfl

theorem width_cons {t : Token} (h : ∀ s, t ≠ .string s) (rest : List Token) :
    width (t :: rest) = width rest + 1 := by
  rw [width, render_cons, Token.text_eq h, utf8_append, utf8_cons, utf8_nil,
    utf8EncodeChar_of_lt t.first_lt]
  simp [width, Nat.add_comm]

theorem width_singleton {t : Token} (h : ∀ s, t ≠ .string s) : width [t] = 1 :=
  width_cons h []

@[simp] theorem width_space (s : Space) : width [.space s] = 1 :=
  width_singleton (by rintro _ ⟨⟩)

@[simp] theorem width_mark (m : Mark) : width [.mark m] = 1 :=
  width_singleton (by rintro _ ⟨⟩)

@[simp] theorem width_atom (c : Atom) : width [.atom c] = 1 :=
  width_singleton (by rintro _ ⟨⟩)

theorem width_pos (t : Token) : 0 < width [t] := by
  obtain ⟨tail, htext⟩ := t.exists_text
  rw [width, render_cons, htext, List.cons_append, utf8_cons, List.length_append,
    utf8EncodeChar_of_lt t.first_lt]
  exact Nat.lt_of_lt_of_le Nat.zero_lt_one (Nat.le_add_right _ _)

theorem width_lt_append (before : List Token) (t : Token) (rest : List Token) :
    width before < width (before ++ t :: rest) := by
  have hpos := width_pos t
  have hcons : t :: rest = [t] ++ rest := rfl
  rw [hcons, width_append, width_append]
  omega

/-! ## Strings -/

/-- A byte of a string that the scanner of its end passes over. -/
def IsPlain (byte : UInt8) : Prop := byte ≠ byteOf '\\' ∧ byte ≠ byteOf '"'

theorem isPlain_of_mem_encode {c : Char} (hquote : c ≠ '"') (hbackslash : c ≠ '\\')
    {byte : UInt8} (h : byte ∈ String.utf8EncodeChar c) : IsPlain byte := by
  have hne : ∀ d : Char, d.toNat < 128 → c ≠ d → byte ≠ byteOf d := by
    intro d hd hcd heq
    have hbyte : IsAscii byte := by
      rw [heq, IsAscii, byteOf, UInt8.toNat_ofNat']
      omega
    have hone := utf8EncodeChar_of_isAscii h hbyte
    have hsame : String.utf8EncodeChar c = String.utf8EncodeChar d := by
      rw [hone, heq, utf8EncodeChar_of_lt hd]
    obtain ⟨rest, hrest⟩ := @eq_cons_of_isPrefix [d] c (by simp [hsame])
    cases hrest
    exact hcd rfl
  exact ⟨hne _ (by decide) hbackslash, hne _ (by decide) hquote⟩

theorem isPlain_hexDigit (digit : HexDigit) : IsPlain (byteOf digit.char) ∧
    digit.char.toNat < 128 := by
  obtain ⟨value, upper⟩ := digit
  revert value upper
  unfold IsPlain
  decide

theorem utf8_letter (e : SimpleEscape) :
    utf8 [e.letter] = [byteOf e.letter] := by
  have hlt : e.letter.toNat < 128 := by cases e <;> decide
  rw [utf8_cons, utf8EncodeChar_of_lt hlt]
  rfl

theorem utf8_unit (u : CodeUnit) : ∃ digits : List UInt8,
    utf8 u.text = byteOf '\\' :: byteOf 'u' :: digits ∧ ∀ byte ∈ digits, IsPlain byte := by
  refine ⟨[byteOf u.first.char, byteOf u.second.char, byteOf u.third.char, byteOf u.fourth.char],
    ?_, ?_⟩
  · rw [CodeUnit.text]
    simp only [utf8_cons, utf8_nil, List.append_nil, utf8EncodeChar_of_lt,
      (isPlain_hexDigit _).2, (by decide : '\\'.toNat < 128), (by decide : 'u'.toNat < 128),
      List.cons_append, List.nil_append]
  · simp only [List.forall_mem_cons, (isPlain_hexDigit _).1, true_and]
    exact fun _ h => nomatch h

/-- Bytes in which every backslash has a byte behind it, and no quote stands elsewhere. -/
inductive Escaped : List UInt8 → Prop
  | nil : Escaped []
  | plain {byte : UInt8} {rest : List UInt8} (hbyte : IsPlain byte) (hrest : Escaped rest) :
      Escaped (byte :: rest)
  | escape (byte : UInt8) {rest : List UInt8} (hrest : Escaped rest) :
      Escaped (byteOf '\\' :: byte :: rest)

namespace Escaped

theorem of_plain {bytes rest : List UInt8} (h : ∀ byte ∈ bytes, IsPlain byte)
    (hrest : Escaped rest) : Escaped (bytes ++ rest) := by
  induction bytes with
  | nil => exact hrest
  | cons byte bytes ih =>
    obtain ⟨hbyte, hbytes⟩ := List.forall_mem_cons.mp h
    exact .plain hbyte (ih hbytes)

theorem unit (u : CodeUnit) {rest : List UInt8} (hrest : Escaped rest) :
    Escaped (utf8 u.text ++ rest) := by
  obtain ⟨digits, htext, hdigits⟩ := utf8_unit u
  rw [htext]
  exact .escape _ (.of_plain hdigits hrest)

end Escaped

theorem escaped_inside (s : StringToken) : Escaped (utf8 s.inside) := by
  induction s with
  | nil => exact .nil
  | cons item s ih =>
    rw [StringToken.inside, List.flatMap_cons, utf8_append]
    cases item with
    | plain c h =>
      apply Escaped.of_plain _ ih
      intro byte hbyte
      rw [StringItem.text, utf8_cons, utf8_nil, List.append_nil] at hbyte
      exact isPlain_of_mem_encode h.1 h.2.1 hbyte
    | escape e =>
      have hbytes : utf8 (StringItem.escape e).text = [byteOf '\\', byteOf e.letter] := by
        have hletter := utf8_letter e
        rw [utf8_cons, utf8_nil, List.append_nil] at hletter
        rw [StringItem.text, utf8_cons, utf8_cons, utf8_nil, List.append_nil, hletter,
          utf8EncodeChar_of_lt (by decide)]
        rfl
      rw [hbytes]
      exact .escape _ ih
    | unit u h => exact .unit u ih
    | pair high low hhigh hlow =>
      rw [StringItem.text, utf8_append, List.append_assoc]
      exact .unit high (.unit low ih)

theorem utf8_string (s : StringToken) :
    utf8 s.text = byteOf '"' :: (utf8 s.inside ++ [byteOf '"']) := by
  rw [StringToken.text, utf8_cons, utf8_append, utf8_cons, utf8_nil, List.append_nil,
    utf8EncodeChar_of_lt (by decide)]
  rfl

theorem width_string (s : StringToken) : width [.string s] = (utf8 s.inside).length + 2 := by
  rw [width, render_cons, render_nil, List.append_nil, Token.text, utf8_string, List.length_cons,
    List.length_append]
  rfl

end ImportLens.Support.Json
