import Mathlib.Logic.Relation

/-!
# Lists in the order of their edges

A list is topological for a relation if every edge of an element leads to a later one.
Such a list is closed under the relation, and the relation has no cycle in it.
-/

namespace ImportLens.Support

open Relation

variable {α : Type} {E F : α → α → Prop} {x y : α} {xs : List α}

def Topological (E : α → α → Prop) : List α → Prop
  | [] => True
  | x :: rest => (∀ y, E x y → y ∈ rest) ∧ Topological E rest

theorem Topological.mono (h : Topological E xs) (hsub : ∀ x ∈ xs, ∀ y, F x y → E x y) :
    Topological F xs := by
  induction xs with
  | nil => trivial
  | cons a rest ih =>
    obtain ⟨hfirst, hrest⟩ := h
    refine ⟨fun y hy => hfirst y (hsub a List.mem_cons_self y hy), ?_⟩
    exact ih hrest fun x hx => hsub x (List.mem_cons_of_mem _ hx)

theorem Topological.closed (h : Topological E xs) (hx : x ∈ xs) (hedge : E x y) : y ∈ xs := by
  induction xs with
  | nil => cases hx
  | cons a rest ih =>
    obtain ⟨hfirst, hrest⟩ := h
    rcases List.mem_cons.mp hx with rfl | hlater
    · exact List.mem_cons_of_mem _ (hfirst y hedge)
    · exact List.mem_cons_of_mem _ (ih hrest hlater)

theorem Topological.mem_of_reach (h : Topological E xs) (hx : x ∈ xs)
    (hreach : ReflTransGen E x y) : y ∈ xs := by
  induction hreach with
  | refl => exact hx
  | tail _ hedge ih => exact h.closed ih hedge

theorem Topological.acyclic (h : Topological E xs) (hx : x ∈ xs) : ¬ TransGen E x x := by
  induction xs with
  | nil => cases hx
  | cons a rest ih =>
    obtain ⟨hfirst, hrest⟩ := h
    intro hcycle
    -- the cycle leaves its first element into the rest and never comes back
    have hlater : x ∈ rest := by
      rcases List.mem_cons.mp hx with rfl | hlater
      · obtain ⟨y, hedge, hback⟩ := TransGen.head'_iff.mp hcycle
        exact hrest.mem_of_reach (hfirst y hedge) hback
      · exact hlater
    exact ih hrest hlater hcycle

end ImportLens.Support
