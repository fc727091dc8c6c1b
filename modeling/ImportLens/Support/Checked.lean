import ImportLens.Support.Bytes
import ImportLens.Support.Rounds

/-!
# Checked slices

Computations that may panic: a slice that is out of range, inverted or off a character
boundary, an index that does not exist, a counter below zero.  `Returns` is the total
triple of such a computation, and `checkedRounds_eq_rounds` says when a checked loop answers
what its unchecked twin does.
-/

namespace ImportLens.Support

/-- `none` is a panic, or a loop that does not end. -/
abbrev Checked (α : Type) : Type := Option α

/-- The computation returns, and what it returns satisfies `Q`. -/
def Returns {α : Type} (x : Checked α) (Q : α → Prop) : Prop := ∃ a, x = some a ∧ Q a

section

variable {α β : Type} {x : Checked α} {f : α → Checked β} {a : α} {P : α → Prop} {Q : β → Prop}

theorem returns_some (h : P a) : Returns (some a) P := ⟨a, rfl, h⟩

theorem Returns.bind (hx : Returns x P) (hf : ∀ a, P a → Returns (f a) Q) :
    Returns (x.bind f) Q := by
  obtain ⟨a, rfl, ha⟩ := hx
  exact hf a ha

theorem Returns.map {g : α → β} (hx : Returns x P) (hg : ∀ a, P a → Q (g a)) :
    Returns (x.map g) Q := by
  obtain ⟨a, rfl, ha⟩ := hx
  exact ⟨g a, rfl, hg a ha⟩

theorem Returns.imp {R : α → Prop} (hx : Returns x P) (himp : ∀ a, P a → R a) : Returns x R := by
  obtain ⟨a, rfl, ha⟩ := hx
  exact ⟨a, rfl, himp a ha⟩

end

/-- `a - b` of `usize` values -/
def checkedSub (a b : Nat) : Checked Nat := if b ≤ a then some (a - b) else none

/-! ## Loops -/

def checkedRounds {σ : Type} (round : σ → Checked (Option σ)) : Nat → σ → Checked σ
  | 0, _ => none
  | fuel + 1, s => (round s).bind fun next => next.elim (some s) (checkedRounds round fuel)

section

variable {σ : Type} {round : σ → Checked (Option σ)} {plain : σ → Option σ} {s : σ} {fuel : Nat}

/-- A loop whose body keeps an invariant and walks up to a limit returns. -/
theorem checkedRounds_returns {I : σ → Prop} (position : σ → Nat) (limit : Nat)
    (hround : ∀ s, I s → Returns (round s) fun next =>
      ∀ t, next = some t → I t ∧ position s < position t ∧ position s < limit)
    (hs : I s) (hfuel : limit - position s < fuel) : Returns (checkedRounds round fuel s) I := by
  induction fuel generalizing s with
  | zero => omega
  | succ fuel ih =>
    obtain ⟨next, hnext, hstep⟩ := hround s hs
    rw [checkedRounds, hnext, Option.bind_some]
    cases next with
    | none => exact returns_some hs
    | some t =>
      obtain ⟨ht, hless, hlimit⟩ := hstep t rfl
      exact ih ht (by omega)

theorem checkedRounds_of_rounds {I : σ → Prop} {t : σ}
    (hround : ∀ s, I s → round s = some (plain s))
    (hkeep : ∀ s t, I s → plain s = some t → I t) (h : rounds plain fuel s = some t) (hs : I s) :
    checkedRounds round fuel s = some t ∧ I t := by
  refine ⟨?_, (rounds_invariant (fun s t hnext hs => hkeep s t hs hnext) h hs).1⟩
  induction fuel generalizing s with
  | zero => cases h
  | succ fuel ih =>
    rw [checkedRounds, hround s hs, Option.bind_some]
    rw [rounds] at h
    cases hplain : plain s with
    | none =>
      rw [hplain] at h
      exact h
    | some next =>
      rw [hplain] at h
      exact ih h (hkeep s next hs hplain)

end

/-! ## Slices -/

def isCharBoundary (bytes : List UInt8) (position : Nat) : Bool :=
  position = 0 || position = bytes.length ||
    bytes[position]?.any fun byte => !(128 ≤ byte.toNat && byte.toNat < 192)

/-- `&text[start..finish]` -/
def strSlice (bytes : List UInt8) (start finish : Nat) : Checked (List UInt8) :=
  if start ≤ finish && isCharBoundary bytes start && isCharBoundary bytes finish then
    some (slice bytes start finish)
  else none

/-- `&text[start..]` -/
def strFrom (bytes : List UInt8) (start : Nat) : Checked (List UInt8) :=
  strSlice bytes start bytes.length

/-- `&bytes[start..]` -/
def bytesFrom (bytes : List UInt8) (start : Nat) : Checked (List UInt8) :=
  if start ≤ bytes.length then some (bytes.drop start) else none

/-- The position of the first match of a pattern in `&text[offset..]`. -/
def checkedFindAt (pattern bytes : List UInt8) (offset : Nat) : Checked (Option Nat) :=
  (strFrom bytes offset).map fun rest => (find pattern rest).map (offset + ·)

section

variable {text : List Char} {start finish position : Nat}

theorem not_continuation_or (x y : UInt8) (hy : 192 ≤ y.toNat) :
    ¬ (128 ≤ (x ||| y).toNat ∧ (x ||| y).toNat < 192) := by
  have hle : y.toNat ≤ (x ||| y).toNat := by
    rw [UInt8.toNat_or]
    exact Nat.right_le_or
  omega

theorem head?_utf8EncodeChar (c : Char) :
    ∃ byte, (String.utf8EncodeChar c).head? = some byte ∧
      ¬ (128 ≤ byte.toNat ∧ byte.toNat < 192) := by
  have hpos := Char.utf8Size_pos c
  have hle := Char.utf8Size_le_four c
  rcases (by omega : c.utf8Size = 1 ∨ c.utf8Size = 2 ∨ c.utf8Size = 3 ∨ c.utf8Size = 4) with
    h | h | h | h
  · rw [String.utf8EncodeChar_eq_singleton h]
    refine ⟨_, rfl, ?_⟩
    have hsmall := UInt32.le_iff_toNat_le.mp (Char.utf8Size_eq_one_iff.mp h)
    have hmod := Nat.mod_le c.val.toNat 256
    rw [UInt32.toNat_toUInt8]
    change c.val.toNat ≤ 127 at hsmall
    omega
  · rw [String.utf8EncodeChar_eq_cons_cons h]
    exact ⟨_, rfl, not_continuation_or _ _ (by decide)⟩
  · rw [String.utf8EncodeChar_eq_cons_cons_cons h]
    exact ⟨_, rfl, not_continuation_or _ _ (by decide)⟩
  · rw [String.utf8EncodeChar_eq_cons_cons_cons_cons h]
    exact ⟨_, rfl, not_continuation_or _ _ (by decide)⟩

theorem isCharBoundary_iff {bytes : List UInt8} {position : Nat} :
    isCharBoundary bytes position = true ↔ position = 0 ∨ position = bytes.length ∨
      ∃ byte, bytes[position]? = some byte ∧ ¬ (128 ≤ byte.toNat ∧ byte.toNat < 192) := by
  have hbyte (byte : UInt8) : (!(128 ≤ byte.toNat && byte.toNat < 192 : Bool)) = true ↔
      ¬ (128 ≤ byte.toNat ∧ byte.toNat < 192) := by
    rw [← Bool.decide_and, ← decide_not, decide_eq_true_eq]
  simp only [isCharBoundary, Bool.or_eq_true, decide_eq_true_eq, Option.any_eq_true, hbyte,
    or_assoc]

theorem isCharBoundary_of_charBoundary (h : CharBoundary text position) :
    isCharBoundary (utf8 text) position = true := by
  obtain ⟨before, after, rfl, rfl⟩ := h
  rw [isCharBoundary_iff]
  cases after with
  | nil => exact .inr (.inl (by rw [List.append_nil]))
  | cons c after =>
    obtain ⟨byte, hhead, hbyte⟩ := head?_utf8EncodeChar c
    refine .inr (.inr ⟨byte, ?_, hbyte⟩)
    rw [utf8_append, utf8_cons, List.getElem?_append_right (Nat.le_refl _), Nat.sub_self,
      ← List.head?_eq_getElem?, List.head?_append, hhead, Option.some_or]

theorem charBoundary_of_isCharBoundary
    (h : isCharBoundary (utf8 text) position = true) : CharBoundary text position := by
  rw [isCharBoundary_iff] at h
  induction text generalizing position with
  | nil =>
    rcases h with rfl | rfl | ⟨byte, hat, -⟩
    · exact .zero
    · exact .zero
    · cases hat
  | cons c text ih =>
    rcases h with rfl | rfl | ⟨byte, hat, hbyte⟩
    · exact .zero
    · exact .length
    · rw [utf8_cons] at hat
      by_cases hlt : position < (String.utf8EncodeChar c).length
      · rw [List.getElem?_append_left hlt] at hat
        rcases Nat.eq_zero_or_pos position with rfl | hpos
        · exact .zero
        · exact absurd (continuation_of_utf8EncodeChar hpos hat) hbyte
      · rw [List.getElem?_append_right (by omega)] at hat
        have hboundary := (ih (.inr (.inr ⟨byte, hat, hbyte⟩))).cons c
        rwa [Nat.add_sub_cancel' (by omega)] at hboundary

theorem eq_append_of_isSuffix {c : Char}
    (h : String.utf8EncodeChar c <:+ utf8 text) : ∃ before, text = before ++ [c] := by
  obtain ⟨bytes, hbytes⟩ := h
  have hboundary : CharBoundary text bytes.length := by
    apply charBoundary_of_isCharBoundary
    obtain ⟨byte, hhead, hbyte⟩ := head?_utf8EncodeChar c
    refine isCharBoundary_iff.mpr (.inr (.inr ⟨byte, ?_, hbyte⟩))
    rw [← hbytes, List.getElem?_append_right (Nat.le_refl _), Nat.sub_self,
      ← List.head?_eq_getElem?, hhead]
  obtain ⟨before, after, rfl, hlength⟩ := hboundary
  rw [utf8_append] at hbytes
  have hafter : String.utf8EncodeChar c = utf8 after := (List.append_inj hbytes hlength).2
  have hprefix : String.utf8EncodeChar c <+: utf8 after := hafter ▸ List.prefix_refl _
  obtain ⟨rest, rfl⟩ := eq_cons_of_isPrefix hprefix
  have hrest : utf8 rest = [] := by
    have := congrArg List.length hafter
    rw [utf8_cons, List.length_append] at this
    exact List.length_eq_zero_iff.mp (by omega)
  cases rest with
  | nil => exact ⟨before, rfl⟩
  | cons d rest =>
    rw [utf8_cons] at hrest
    exact absurd (List.append_eq_nil_iff.mp hrest).1 String.utf8EncodeChar_ne_nil
theorem strSlice_of_boundary (hstart : CharBoundary text start) (hfinish : CharBoundary text finish)
    (hle : start ≤ finish) :
    strSlice (utf8 text) start finish = some (slice (utf8 text) start finish) := by
  rw [strSlice, isCharBoundary_of_charBoundary hstart, isCharBoundary_of_charBoundary hfinish,
    decide_eq_true hle]
  rfl

theorem strFrom_of_boundary (hstart : CharBoundary text start) :
    strFrom (utf8 text) start = some ((utf8 text).drop start) := by
  rw [strFrom, strSlice_of_boundary hstart .length hstart.le_length, slice, List.take_length]

theorem checkedFindAt_of_boundary {pattern : List UInt8} (hstart : CharBoundary text start) :
    checkedFindAt pattern (utf8 text) start = some (findAt pattern (utf8 text) start) := by
  rw [checkedFindAt, strFrom_of_boundary hstart]
  rfl

theorem bytesFrom_of_le {bytes : List UInt8} (hle : start ≤ bytes.length) :
    bytesFrom bytes start = some (bytes.drop start) := if_pos hle

end

end ImportLens.Support
