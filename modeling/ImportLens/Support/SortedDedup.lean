import Mathlib.Data.List.Sort
import Mathlib.Order.Basic

/-!
# Sorting and dropping repeats

A list is put in order and every run of equal elements becomes one.  What is left
is a function of the set of the elements: two lists with the same members come out
the same.  Without dropping repeats, sorting by a key that tells the elements apart is
a function of the elements and not of their order.
-/

namespace ImportLens.Support

/-! ## Runs of equal elements -/

section

variable {α : Type} [BEq α]

theorem eraseRepsBy_loop (a : α) (xs kept : List α) :
    List.eraseRepsBy.loop (· == ·) a xs kept = kept.reverse ++ (a :: xs).eraseReps := by
  have hloop : ∀ (xs : List α) (a : α) (kept : List α),
      List.eraseRepsBy.loop (· == ·) a xs kept =
        kept.reverse ++ List.eraseRepsBy.loop (· == ·) a xs [] := by
    intro xs
    induction xs with
    | nil =>
      intro a kept
      simp only [List.eraseRepsBy.loop, List.reverse_cons, List.reverse_nil, List.nil_append]
    | cons b xs ih =>
      intro a kept
      simp only [List.eraseRepsBy.loop]
      cases a == b with
      | true => exact ih a kept
      | false =>
        rw [ih b (a :: kept), ih b [a], List.reverse_cons, List.append_assoc]
        rfl
  exact hloop xs a kept

theorem eraseReps_cons_cons (a b : α) (xs : List α) :
    (a :: b :: xs).eraseReps =
      if a == b then (a :: xs).eraseReps else a :: (b :: xs).eraseReps := by
  have hstep : (a :: b :: xs).eraseReps = List.eraseRepsBy.loop (· == ·) a (b :: xs) [] := rfl
  rw [hstep, List.eraseRepsBy.loop]
  cases a == b with
  | true => exact eraseRepsBy_loop a xs []
  | false => exact eraseRepsBy_loop b xs [a]

variable [LawfulBEq α]

theorem mem_eraseReps {xs : List α} {a : α} : a ∈ xs.eraseReps ↔ a ∈ xs := by
  cases xs with
  | nil => rfl
  | cons b xs =>
    induction xs generalizing b with
    | nil => rfl
    | cons c xs ih =>
      rw [eraseReps_cons_cons]
      split
      · rename_i hsame
        rw [eq_of_beq hsame, ih, List.mem_cons, List.mem_cons, List.mem_cons, or_self_left]
      · rw [List.mem_cons, ih, List.mem_cons (b := b)]

end

/-! ## Sorting by a key -/

section

variable {α κ : Type} [LinearOrder κ] {key : α → κ} {xs ys : List α}

def sortByKey (key : α → κ) (xs : List α) : List α := xs.mergeSort fun a b => decide (key a ≤ key b)

theorem sortByKey_perm : (sortByKey key xs).Perm xs := List.mergeSort_perm xs _

theorem mem_sortByKey {a : α} : a ∈ sortByKey key xs ↔ a ∈ xs := List.mem_mergeSort

theorem sortByKey_pairwise : (sortByKey key xs).Pairwise fun a b => key a ≤ key b := by
  have hsorted := @List.pairwise_mergeSort α (fun a b => decide (key a ≤ key b))
    (fun a b c hab hbc => decide_eq_true (le_trans (of_decide_eq_true hab) (of_decide_eq_true hbc)))
    (fun a b => by
      rw [Bool.or_eq_true, decide_eq_true_eq, decide_eq_true_eq]
      exact le_total (key a) (key b)) xs
  exact hsorted.imp fun hle => of_decide_eq_true hle

theorem sortByKey_eq_of_perm (h : xs.Perm ys)
    (hkey : ∀ a ∈ xs, ∀ b ∈ xs, key a = key b → a = b) : sortByKey key xs = sortByKey key ys := by
  have hperm : (sortByKey key xs).Perm (sortByKey key ys) :=
    (sortByKey_perm.trans h).trans sortByKey_perm.symm
  apply List.Perm.eq_of_pairwise _ sortByKey_pairwise sortByKey_pairwise hperm
  intro a b ha hb hab hba
  have hin : b ∈ xs := h.mem_iff.mpr (mem_sortByKey.mp hb)
  exact hkey a (mem_sortByKey.mp ha) b hin (le_antisymm hab hba)

theorem map_sortByKey {β : Type} {f : α → β} {image : β → κ} (h : ∀ a ∈ xs, image (f a) = key a) :
    (sortByKey key xs).map f = sortByKey image (xs.map f) := by
  apply List.map_mergeSort
  intro a ha b hb
  rw [h a ha, h b hb]

theorem eraseRepsBy_eq_self {r : α → α → Bool} (h : xs.Pairwise fun a b => r a b = false) :
    xs.eraseRepsBy r = xs := by
  have hloop : ∀ (xs : List α) (a : α) (kept : List α),
      (a :: xs).Pairwise (fun a b => r a b = false) →
        List.eraseRepsBy.loop r a xs kept = kept.reverse ++ a :: xs := by
    intro xs
    induction xs with
    | nil =>
      intro a kept _
      rw [List.eraseRepsBy.loop, List.reverse_cons]
    | cons b xs ih =>
      intro a kept hpairwise
      obtain ⟨hfirst, hrest⟩ := List.pairwise_cons.mp hpairwise
      rw [List.eraseRepsBy.loop, hfirst b List.mem_cons_self]
      dsimp only
      rw [ih b (a :: kept) hrest, List.reverse_cons, List.append_assoc]
      rfl
  cases xs with
  | nil => rfl
  | cons a xs => exact hloop xs a [] h

end

/-! ## Sorted lists without repeats -/

section

variable {α : Type} [LinearOrder α]

def sortDedup (xs : List α) : List α := (xs.mergeSort fun a b => decide (a ≤ b)).eraseReps

theorem mem_sortDedup {xs : List α} {a : α} : a ∈ sortDedup xs ↔ a ∈ xs := by
  rw [sortDedup, mem_eraseReps, List.mem_mergeSort]

theorem eraseReps_pairwise {xs : List α} (h : xs.Pairwise (· ≤ ·)) :
    xs.eraseReps.Pairwise (· < ·) := by
  cases xs with
  | nil => exact .nil
  | cons b xs =>
    induction xs generalizing b with
    | nil => exact List.pairwise_singleton _ _
    | cons c xs ih =>
      obtain ⟨hfirst, hrest⟩ := List.pairwise_cons.mp h
      rw [eraseReps_cons_cons]
      split
      · rename_i hsame
        exact ih b (List.pairwise_cons.mpr
          ⟨fun a hin => hfirst a (List.mem_cons_of_mem _ hin), (List.pairwise_cons.mp hrest).2⟩)
      · rename_i hne
        refine List.pairwise_cons.mpr ⟨fun a hin => ?_, ih c hrest⟩
        have hle := hfirst a (mem_eraseReps.mp hin)
        apply lt_of_le_of_ne hle
        rintro rfl
        -- the next element lies between two equal ones
        have hcb : c ≤ b := by
          rcases List.mem_cons.mp (mem_eraseReps.mp hin) with rfl | hlater
          · exact le_refl _
          · exact (List.pairwise_cons.mp hrest).1 b hlater
        have heq : b = c := le_antisymm (hfirst c List.mem_cons_self) hcb
        exact hne (beq_iff_eq.mpr heq)

theorem sortDedup_pairwise (xs : List α) : (sortDedup xs).Pairwise (· < ·) := by
  apply eraseReps_pairwise
  exact @sortByKey_pairwise α α _ id xs

theorem sortDedup_eq_iff {xs ys : List α} :
    sortDedup xs = sortDedup ys ↔ ∀ a, a ∈ xs ↔ a ∈ ys := by
  constructor
  · intro heq a
    rw [← mem_sortDedup, heq, mem_sortDedup]
  · intro hmem
    apply (sortDedup_pairwise xs).eq_of_mem_iff (sortDedup_pairwise ys)
    intro a
    rw [mem_sortDedup, mem_sortDedup, hmem]

end

end ImportLens.Support
