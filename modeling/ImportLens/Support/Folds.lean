import Mathlib.Data.List.Forall2
import Mathlib.Algebra.BigOperators.Group.List.Basic
import Mathlib.Algebra.Ring.Nat

/-!
# Accumulating loops

A loop over a list that carries a state, read through one observation of the
state: a flag that steps can only raise, a fact that one element brings about, or
a number that steps can only add to.  What one step does to the observation gives
what the whole loop does.
-/

namespace ImportLens.Support

variable {σ α : Type} {step : σ → α → σ}

theorem foldl_flag (flag : σ → Bool) {raises : α → Prop}
    (hstep : ∀ s x, flag (step s x) = true ↔ flag s = true ∨ raises x) (xs : List α) (s : σ) :
    flag (xs.foldl step s) = true ↔ flag s = true ∨ ∃ x ∈ xs, raises x := by
  induction xs generalizing s with
  | nil => simp
  | cons x xs ih =>
      rw [List.foldl_cons, ih, hstep, or_assoc]
      simp only [List.mem_cons, exists_eq_or_imp]

theorem foldl_of_mem {P : σ → Prop} {x : α} (hkeep : ∀ s y, P s → P (step s y))
    (hput : ∀ s, P (step s x)) {xs : List α} (hx : x ∈ xs) (s : σ) : P (xs.foldl step s) := by
  have hrest : ∀ (ys : List α) (s : σ), P s → P (ys.foldl step s) := by
    intro ys
    induction ys with
    | nil => exact fun _ h => h
    | cons y ys ih => exact fun s h => ih (step s y) (hkeep s y h)
  induction xs generalizing s with
  | nil => cases hx
  | cons y xs ih =>
      rcases List.mem_cons.mp hx with rfl | hx
      · exact hrest xs _ (hput s)
      · exact ih hx (step s y)

theorem foldl_sum (total : σ → Nat) {added : α → Nat}
    (hstep : ∀ s x, total (step s x) = total s + added x) (xs : List α) (s : σ) :
    total (xs.foldl step s) = total s + (xs.map added).sum := by
  induction xs generalizing s with
  | nil => simp
  | cons x xs ih => rw [List.foldl_cons, ih, hstep, List.map_cons, List.sum_cons, Nat.add_assoc]

theorem foldl_shares (total : σ → Nat) {Share : α → Nat → Prop}
    (hstep : ∀ s x, ∃ n, Share x n ∧ total (step s x) = total s + n) (xs : List α) (s : σ) :
    ∃ shares, List.Forall₂ Share xs shares ∧ total (xs.foldl step s) = total s + shares.sum := by
  induction xs generalizing s with
  | nil => exact ⟨[], .nil, by simp⟩
  | cons x xs ih =>
      obtain ⟨n, hshare, hadds⟩ := hstep s x
      obtain ⟨shares, hshares, htotal⟩ := ih (step s x)
      refine ⟨n :: shares, .cons hshare hshares, ?_⟩
      calc total ((x :: xs).foldl step s) = total (step s x) + shares.sum := htotal
        _ = total s + (n :: shares).sum := by rw [hadds, List.sum_cons, Nat.add_assoc]

end ImportLens.Support
