import ImportLens.Support.Interleaving
import Mathlib.Algebra.BigOperators.Group.Finset.Basic
import Mathlib.Algebra.Order.BigOperators.Group.Finset
import Mathlib.Algebra.Order.Ring.Nat

/-!
# What the threads hold together

A thread may hold a share of a common quantity: bytes it has reserved, permits it
has taken.  `Sums share thread n` says that the shares of all threads add up to
`n`, all but finitely many threads holding nothing.  A step of one thread changes
the sum by the difference of its own two shares.
-/

namespace ImportLens.Support

open Finset

variable {π : Type}

/-- The shares of all threads add up to `n`. -/
def Sums (share : π → Nat) (thread : Nat → π) (n : Nat) : Prop :=
  ∃ s : Finset Nat, (∀ t, t ∉ s → share (thread t) = 0) ∧ ∑ t ∈ s, share (thread t) = n

namespace Sums

variable {share : π → Nat} {thread : Nat → π} {n : Nat}

theorem none_hold (h : ∀ t, share (thread t) = 0) : Sums share thread 0 :=
  ⟨∅, fun t _ => h t, rfl⟩

theorem sum_le (h : Sums share thread n) (some : Finset Nat) :
    ∑ t ∈ some, share (thread t) ≤ n := by
  obtain ⟨s, hout, rfl⟩ := h
  calc ∑ t ∈ some, share (thread t)
      ≤ ∑ t ∈ some ∪ s, share (thread t) :=
        sum_le_sum_of_subset (subset_union_left)
    _ = ∑ t ∈ s, share (thread t) := by
        symm
        apply sum_subset subset_union_right
        intro t _ ht
        exact hout t ht

theorem share_le (h : Sums share thread n) (t : Nat) : share (thread t) ≤ n := by
  simpa using h.sum_le {t}

theorem eq_zero (h : Sums share thread n) (hnone : ∀ t, share (thread t) = 0) : n = 0 := by
  obtain ⟨s, _, rfl⟩ := h
  exact sum_eq_zero fun t _ => hnone t

theorem update (h : Sums share thread n) (t : Nat) (position : π) :
    ∃ m, m + share (thread t) = n + share position ∧
      Sums share (Function.update thread t position) m := by
  obtain ⟨s, hout, rfl⟩ := h
  have hrest : ∑ u ∈ s.erase t, share (Function.update thread t position u) =
      ∑ u ∈ s.erase t, share (thread u) := by
    apply sum_congr rfl
    intro u hu
    rw [Function.update_of_ne (ne_of_mem_erase hu)]
  have hold : ∑ u ∈ s.erase t, share (thread u) + share (thread t) = ∑ u ∈ s, share (thread u) := by
    by_cases ht : t ∈ s
    · exact sum_erase_add s _ ht
    · rw [erase_eq_of_notMem ht, hout t ht, Nat.add_zero]
  refine ⟨∑ u ∈ s.erase t, share (thread u) + share position, by omega, insert t s, ?_, ?_⟩
  · intro u hu
    have hne : u ≠ t := by
      rintro rfl
      exact hu (mem_insert_self _ _)
    rw [Function.update_of_ne hne]
    exact hout u fun hmem => hu (mem_insert_of_mem hmem)
  · rw [← sum_erase_add (insert t s) _ (mem_insert_self t s), Function.update_self,
      erase_insert_eq_erase, hrest]

end Sums

end ImportLens.Support
