import Mathlib.Data.List.Basic

/-!
# Streams of frames

A stream is cut into frames by a function that reads the first frame of what has
arrived, asks for more, or finds that what stands there is no frame.  Once it has
answered, more input does not change the answer, so what a stream delivers does not
depend on the pieces it arrives in.
-/

namespace ImportLens.Support

variable {α β ε : Type}

/-- What stands at the front of the input. -/
inductive Next (α β ε : Type)
  | more
  | frame (value : α) (rest : List β)
  | bad (error : ε)

/-- A reader of frames whose answers later input does not change. -/
structure Framing (α β ε : Type) where
  next : List β → Next α β ε
  shrinks : ∀ {xs : List β} {value : α} {rest : List β},
    next xs = .frame value rest → rest.length < xs.length
  frame_append : ∀ {xs : List β} {value : α} {rest : List β} (ys : List β),
    next xs = .frame value rest → next (xs ++ ys) = .frame value (rest ++ ys)
  bad_append : ∀ {xs : List β} {error : ε} (ys : List β),
    next xs = .bad error → next (xs ++ ys) = .bad error

/-- How the reading of an input ends: with what is left of it, or at a bad frame. -/
inductive Ending (β ε : Type)
  | more (rest : List β)
  | bad (error : ε)

/-- The frames an input delivers, and how it ends. -/
inductive Drains (F : Framing α β ε) : List β → List α → Ending β ε → Prop
  | more {xs : List β} (h : F.next xs = .more) : Drains F xs [] (.more xs)
  | bad {xs : List β} {error : ε} (h : F.next xs = .bad error) : Drains F xs [] (.bad error)
  | frame {xs rest : List β} {value : α} {values : List α} {ending : Ending β ε}
      (h : F.next xs = .frame value rest) (hrest : Drains F rest values ending) :
      Drains F xs (value :: values) ending

namespace Drains

variable {F : Framing α β ε} {xs ys rest : List β} {values values' : List α}
variable {ending ending' : Ending β ε} {error : ε}

theorem total (F : Framing α β ε) (xs : List β) : ∃ values ending, Drains F xs values ending := by
  induction hlength : xs.length using Nat.strongRecOn generalizing xs with
  | ind n ih =>
    cases hnext : F.next xs with
    | more => exact ⟨[], _, .more hnext⟩
    | bad error => exact ⟨[], _, .bad hnext⟩
    | frame value rest =>
      have hless := F.shrinks hnext
      obtain ⟨values, ending, hrest⟩ := ih rest.length (hlength ▸ hless) rest rfl
      exact ⟨value :: values, ending, .frame hnext hrest⟩

theorem unique (h : Drains F xs values ending) (h' : Drains F xs values' ending') :
    values = values' ∧ ending = ending' := by
  induction h generalizing values' with
  | more h =>
    cases h' with
    | more => exact ⟨rfl, rfl⟩
    | bad h' => cases h.symm.trans h'
    | frame h' => cases h.symm.trans h'
  | bad h =>
    cases h' with
    | more h' => cases h.symm.trans h'
    | bad h' =>
      cases h.symm.trans h'
      exact ⟨rfl, rfl⟩
    | frame h' => cases h.symm.trans h'
  | frame h hrest ih =>
    cases h' with
    | more h' => cases h.symm.trans h'
    | bad h' => cases h.symm.trans h'
    | frame h' hrest' =>
      cases h.symm.trans h'
      obtain ⟨hvalues, hending⟩ := ih hrest'
      exact ⟨congrArg (_ :: ·) hvalues, hending⟩

theorem next_rest (h : Drains F xs values (.more rest)) : F.next rest = .more := by
  generalize hending : Ending.more rest = ending at h
  induction h with
  | more h =>
    cases hending
    exact h
  | bad => cases hending
  | frame _ _ ih => exact ih hending

theorem append (h : Drains F xs values (.more rest)) (h' : Drains F (rest ++ ys) values' ending') :
    Drains F (xs ++ ys) (values ++ values') ending' := by
  generalize hending : Ending.more rest = ending at h
  induction h with
  | more h =>
    cases hending
    exact h'
  | bad => cases hending
  | frame h _ ih => exact .frame (F.frame_append ys h) (ih hending)

theorem append_bad (h : Drains F xs values (.bad error)) (ys : List β) :
    Drains F (xs ++ ys) values (.bad error) := by
  generalize hending : Ending.bad error = ending at h
  induction h with
  | more => cases hending
  | bad h =>
    cases hending
    exact .bad (F.bad_append ys h)
  | frame h _ ih => exact .frame (F.frame_append ys h) (ih hending)

end Drains

end ImportLens.Support
