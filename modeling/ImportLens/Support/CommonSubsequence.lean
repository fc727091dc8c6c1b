import Mathlib.Data.List.Basic

/-!
# Longest common subsequences

A common subsequence of two lists that no other exceeds.  The rules follow the
recurrence of the dynamic programme: equal heads are taken, and of two different heads
one is left out.  Common ends of the lists belong to every longest one.
-/

namespace ImportLens.Support

variable {α : Type} {s t xs ys : List α} {x y : α}

structure Longest (s xs ys : List α) : Prop where
  left : s.Sublist xs
  right : s.Sublist ys
  max : ∀ t : List α, t.Sublist xs → t.Sublist ys → t.length ≤ s.length

namespace Longest

theorem symm (h : Longest s xs ys) : Longest s ys xs :=
  ⟨h.right, h.left, fun t hys hxs => h.max t hxs hys⟩

theorem length_eq (hs : Longest s xs ys) (ht : Longest t xs ys) : s.length = t.length :=
  Nat.le_antisymm (ht.max s hs.left hs.right) (hs.max t ht.left ht.right)

theorem nil_left (ys : List α) : Longest [] [] ys where
  left := List.Sublist.refl []
  right := List.nil_sublist ys
  max := by
    intro t hxs _
    exact Nat.le_of_eq (congrArg List.length (List.sublist_nil.mp hxs))

theorem nil_right (xs : List α) : Longest [] xs [] := (nil_left xs).symm

theorem length_le_succ (h : Longest s xs ys) (hxs : t.Sublist (x :: xs))
    (hys : t.Sublist (x :: ys)) : t.length ≤ s.length + 1 := by
  have htail : t.tail.Sublist xs ∧ t.tail.Sublist ys := ⟨hxs.tail, hys.tail⟩
  have hle := h.max t.tail htail.1 htail.2
  rw [List.length_tail] at hle
  omega

theorem cons (h : Longest s xs ys) (x : α) : Longest (x :: s) (x :: xs) (x :: ys) where
  left := h.left.cons_cons x
  right := h.right.cons_cons x
  max := fun _ hxs hys => h.length_le_succ hxs hys

theorem sublist_tail (hne : x ≠ y) (hxs : t.Sublist (x :: xs)) (hys : t.Sublist (y :: ys)) :
    t.Sublist xs ∨ t.Sublist ys := by
  rcases List.sublist_cons_iff.mp hxs with hleft | ⟨r, rfl, -⟩
  · exact .inl hleft
  · rcases List.sublist_cons_iff.mp hys with hright | ⟨r', heq, -⟩
    · exact .inr hright
    · exact absurd (List.cons.inj heq).1 hne

theorem skip_left (hne : x ≠ y) (hs : Longest s xs (y :: ys)) (ht : Longest t (x :: xs) ys)
    (hle : t.length ≤ s.length) : Longest s (x :: xs) (y :: ys) where
  left := hs.left.cons x
  right := hs.right
  max := by
    intro u hxs hys
    rcases sublist_tail hne hxs hys with hleft | hright
    · exact hs.max u hleft hys
    · exact Nat.le_trans (ht.max u hxs hright) hle

theorem skip_right (hne : x ≠ y) (hs : Longest s xs (y :: ys)) (ht : Longest t (x :: xs) ys)
    (hle : s.length ≤ t.length) : Longest t (x :: xs) (y :: ys) :=
  (skip_left (Ne.symm hne) ht.symm hs.symm hle).symm

theorem reverse (h : Longest s xs ys) : Longest s.reverse xs.reverse ys.reverse where
  left := List.reverse_sublist.mpr h.left
  right := List.reverse_sublist.mpr h.right
  max := by
    intro t hxs hys
    rw [List.length_reverse, ← List.length_reverse]
    apply h.max
    · rw [← List.reverse_reverse xs]
      exact List.reverse_sublist.mpr hxs
    · rw [← List.reverse_reverse ys]
      exact List.reverse_sublist.mpr hys

theorem append_left (h : Longest s xs ys) (front : List α) :
    Longest (front ++ s) (front ++ xs) (front ++ ys) := by
  induction front with
  | nil => exact h
  | cons x front ih => exact ih.cons x

theorem append_right (h : Longest s xs ys) (back : List α) :
    Longest (s ++ back) (xs ++ back) (ys ++ back) := by
  have hreverse := (h.reverse.append_left back.reverse).reverse
  simpa only [List.reverse_append, List.reverse_reverse] using hreverse

theorem eq_right_iff (h : Longest s xs ys) : s = ys ↔ ys.Sublist xs := by
  constructor
  · rintro rfl
    exact h.left
  · intro hsub
    apply h.right.eq_of_length_le
    exact h.max ys hsub (List.Sublist.refl ys)

end Longest

/-! ## Tables of lengths -/

/-- The lengths of the longest common subsequences of one list and the ends of another. -/
inductive RowOf (xs : List α) : List α → List Nat → Prop
  | nil : RowOf xs [] [0]
  | cons {ys s : List α} {row : List Nat} (y : α) (h : Longest s xs (y :: ys))
      (hrow : RowOf xs ys row) : RowOf xs (y :: ys) (s.length :: row)

theorem RowOf.head {row : List Nat} (h : RowOf xs ys row) :
    ∃ s, Longest s xs ys ∧ row.headD 0 = s.length := by
  cases h with
  | nil => exact ⟨[], .nil_right xs, rfl⟩
  | cons y h hrow => exact ⟨_, h, rfl⟩

theorem RowOf.getD {row : List Nat} (h : RowOf xs ys row) {j : Nat} (hj : j ≤ ys.length) :
    ∃ s, Longest s xs (ys.drop j) ∧ row[j]?.getD 0 = s.length := by
  induction h generalizing j with
  | nil =>
    have hzero : j = 0 := by simpa using hj
    subst hzero
    exact ⟨[], .nil_right xs, rfl⟩
  | cons y h hrow ih =>
    cases j with
    | zero => exact ⟨_, h, rfl⟩
    | succ j => exact ih (Nat.le_of_succ_le_succ hj)

theorem rowOf_replicate (ys : List α) : RowOf [] ys (List.replicate (ys.length + 1) 0) := by
  induction ys with
  | nil => exact .nil
  | cons y ys ih => exact .cons y (.nil_left (y :: ys)) ih

end ImportLens.Support
