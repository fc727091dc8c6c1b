import Mathlib.Data.List.Forall2

/-!
# Glob languages

A glob is a list of tokens over an alphabet with a separator.  A value matches it
if it is one piece for each token in turn: any piece, a piece without a separator,
or the literal itself.  The lemmas below take a match apart at its first token, one
letter of the value at a time.
-/

namespace ImportLens.Support.Glob

variable {α : Type}

inductive Token (α : Type)
  | anything
  | segment
  | literal (a : α)
  deriving DecidableEq, Repr

def Token.Accepts (separator : α) : Token α → List α → Prop
  | anything, _ => True
  | segment, piece => ∀ a ∈ piece, a ≠ separator
  | literal a, piece => piece = [a]

/-- The value is a concatenation of one piece for each token. -/
def Matches (separator : α) (tokens : List (Token α)) (value : List α) : Prop :=
  ∃ pieces, List.Forall₂ (Token.Accepts separator) tokens pieces ∧ pieces.flatten = value

variable {separator a b : α} {token : Token α} {tokens : List (Token α)} {value : List α}

theorem matches_nil : Matches separator [] value ↔ value = [] := by
  constructor
  · rintro ⟨pieces, hpieces, rfl⟩
    cases hpieces
    rfl
  · rintro rfl
    exact ⟨[], .nil, rfl⟩

theorem matches_cons :
    Matches separator (token :: tokens) value ↔
      ∃ piece rest, value = piece ++ rest ∧ token.Accepts separator piece ∧
        Matches separator tokens rest := by
  constructor
  · rintro ⟨pieces, hpieces, rfl⟩
    cases hpieces with
    | cons hfirst hrest => exact ⟨_, _, rfl, hfirst, _, hrest, rfl⟩
  · rintro ⟨piece, rest, rfl, hfirst, pieces, hrest, rfl⟩
    exact ⟨piece :: pieces, .cons hfirst hrest, rfl⟩

/-! ## One letter at a time -/

theorem matches_literal_nil : ¬ Matches separator (.literal a :: tokens) [] := by
  rw [matches_cons]
  rintro ⟨_, rest, hvalue, rfl, _⟩
  cases hvalue

theorem matches_literal_cons :
    Matches separator (.literal a :: tokens) (b :: value) ↔
      a = b ∧ Matches separator tokens value := by
  rw [matches_cons]
  constructor
  · rintro ⟨_, rest, hvalue, rfl, hrest⟩
    cases hvalue
    exact ⟨rfl, hrest⟩
  · rintro ⟨rfl, hrest⟩
    exact ⟨[a], value, rfl, rfl, hrest⟩

theorem matches_anything_nil :
    Matches separator (.anything :: tokens) [] ↔ Matches separator tokens [] := by
  rw [matches_cons]
  constructor
  · rintro ⟨piece, rest, hvalue, _, hrest⟩
    rw [(List.append_eq_nil_iff.mp hvalue.symm).2] at hrest
    exact hrest
  · exact fun hrest => ⟨[], [], rfl, trivial, hrest⟩

theorem matches_anything_cons :
    Matches separator (.anything :: tokens) (b :: value) ↔
      Matches separator tokens (b :: value) ∨
        Matches separator (.anything :: tokens) value := by
  constructor
  · intro h
    obtain ⟨piece, rest, hvalue, _, hrest⟩ := matches_cons.mp h
    cases piece with
    | nil =>
        rw [List.nil_append] at hvalue
        exact .inl (hvalue ▸ hrest)
    | cons c piece =>
        cases hvalue
        exact .inr (matches_cons.mpr ⟨piece, rest, rfl, trivial, hrest⟩)
  · rintro (hrest | h)
    · exact matches_cons.mpr ⟨[], b :: value, rfl, trivial, hrest⟩
    · obtain ⟨piece, rest, rfl, _, hrest⟩ := matches_cons.mp h
      exact matches_cons.mpr ⟨b :: piece, rest, rfl, trivial, hrest⟩

theorem matches_segment_nil :
    Matches separator (.segment :: tokens) [] ↔ Matches separator tokens [] := by
  rw [matches_cons]
  constructor
  · rintro ⟨piece, rest, hvalue, _, hrest⟩
    rw [(List.append_eq_nil_iff.mp hvalue.symm).2] at hrest
    exact hrest
  · exact fun hrest => ⟨[], [], rfl, fun _ hmem => absurd hmem List.not_mem_nil, hrest⟩

theorem matches_segment_cons :
    Matches separator (.segment :: tokens) (b :: value) ↔
      Matches separator tokens (b :: value) ∨
        b ≠ separator ∧ Matches separator (.segment :: tokens) value := by
  constructor
  · intro h
    obtain ⟨piece, rest, hvalue, hpiece, hrest⟩ := matches_cons.mp h
    cases piece with
    | nil =>
        rw [List.nil_append] at hvalue
        exact .inl (hvalue ▸ hrest)
    | cons c piece =>
        cases hvalue
        refine .inr ⟨hpiece b List.mem_cons_self, matches_cons.mpr ⟨piece, rest, rfl, ?_, hrest⟩⟩
        exact fun c hc => hpiece c (List.mem_cons_of_mem _ hc)
  · rintro (hrest | ⟨hb, h⟩)
    · exact matches_cons.mpr
        ⟨[], b :: value, rfl, fun _ hmem => absurd hmem List.not_mem_nil, hrest⟩
    · obtain ⟨piece, rest, rfl, hpiece, hrest⟩ := matches_cons.mp h
      refine matches_cons.mpr ⟨b :: piece, rest, rfl, ?_, hrest⟩
      intro c hc
      obtain rfl | hc := List.mem_cons.mp hc
      · exact hb
      · exact hpiece c hc

end ImportLens.Support.Glob
