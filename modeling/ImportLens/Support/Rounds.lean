import Mathlib.Data.List.Chain
import Mathlib.Logic.Relation

/-!
# Loops of rounds

A loop whose body answers the next state, or that it is done.  `rounds` runs it
for a number of rounds; `rounds_return` is the rule for termination, by a measure
every round decreases, `rounds_invariant` the rule for what is left, `rounds_eq_of_leads`
the rule for a loop followed round by round, and `Passes` the list of the states on the
way.
-/

namespace ImportLens.Support

variable {σ : Type} {round : σ → Option σ} {s t : σ} {fuel : Nat}

/-- Run a loop to its end, if it ends within `fuel` rounds. -/
def rounds (round : σ → Option σ) : Nat → σ → Option σ
  | 0, _ => none
  | fuel + 1, s =>
      match round s with
      | none => some s
      | some next => rounds round fuel next

theorem rounds_done (h : round s = none) : rounds round (fuel + 1) s = some s := by
  rw [rounds, h]

theorem rounds_next {next : σ} (h : round s = some next) :
    rounds round (fuel + 1) s = rounds round fuel next := by
  rw [rounds, h]

theorem rounds_return (measure : σ → Nat)
    (hless : ∀ s next, round s = some next → measure next < measure s)
    (hfuel : measure s < fuel) : ∃ t, rounds round fuel s = some t := by
  induction fuel generalizing s with
  | zero => omega
  | succ fuel ih =>
      cases hround : round s with
      | none => exact ⟨s, rounds_done hround⟩
      | some next =>
          rw [rounds_next hround]
          have := hless s next hround
          exact ih (by omega)

theorem rounds_return_upTo (position : σ → Nat) (limit : Nat)
    (hwalks : ∀ s next, round s = some next → position s < position next ∧ position s < limit)
    (s : σ) : ∃ t, rounds round (limit + 1) s = some t := by
  apply rounds_return (fun s => limit - position s)
  · intro s next hnext
    obtain ⟨hless, hlimit⟩ := hwalks s next hnext
    omega
  · omega

theorem rounds_invariant {I : σ → Prop}
    (hround : ∀ s next, round s = some next → I s → I next)
    (h : rounds round fuel s = some t) (hs : I s) : I t ∧ round t = none := by
  induction fuel generalizing s with
  | zero => cases h
  | succ fuel ih =>
      cases hnext : round s with
      | none =>
          rw [rounds_done hnext, Option.some.injEq] at h
          subst h
          exact ⟨hs, hnext⟩
      | some next =>
          rw [rounds_next hnext] at h
          exact ih h (hround s next hnext hs)

def Follows (round : σ → Option σ) (s t : σ) : Prop := round s = some t

theorem rounds_eq_of_leads (h : Relation.ReflTransGen (Follows round) s t) (hdone : round t = none)
    (hreturn : ∃ u, rounds round fuel s = some u) : rounds round fuel s = some t := by
  induction h using Relation.ReflTransGen.head_induction_on generalizing fuel with
  | refl =>
    cases fuel with
    | zero =>
      obtain ⟨u, hu⟩ := hreturn
      cases hu
    | succ fuel => exact rounds_done hdone
  | head hround _ ih =>
    cases fuel with
    | zero =>
      obtain ⟨u, hu⟩ := hreturn
      cases hu
    | succ fuel =>
      rw [rounds_next hround] at hreturn ⊢
      exact ih hreturn

/-! ## The states a loop goes through -/

/-- The states of a loop from the first to the one it ends in. -/
structure Passes (round : σ → Option σ) (s : σ) (states : List σ) (t : σ) : Prop where
  first : states.head? = some s
  last : states.getLast? = some t
  steps : states.IsChain fun a b => round a = some b
  done : round t = none

theorem Passes.cons {next : σ} {states : List σ} (h : Passes round next states t)
    (hround : round s = some next) : Passes round s (s :: states) t := by
  have hne : states ≠ [] := by
    rintro rfl
    cases h.first
  constructor
  · rfl
  · rw [List.getLast?_cons_of_ne_nil hne]
    exact h.last
  · apply List.IsChain.cons h.steps
    intro b hb
    have hhead := h.first
    rw [hhead] at hb
    cases hb
    exact hround
  · exact h.done

theorem rounds_passes (measure : σ → Nat)
    (hless : ∀ s next, round s = some next → measure next < measure s)
    (hfuel : measure s < fuel) :
    ∃ states t, rounds round fuel s = some t ∧ Passes round s states t ∧
      states.length ≤ measure s + 1 := by
  induction fuel generalizing s with
  | zero => omega
  | succ fuel ih =>
      cases hround : round s with
      | none => exact ⟨[s], s, rounds_done hround, ⟨rfl, rfl, .singleton s, hround⟩, by simp⟩
      | some next =>
          have hdecrease := hless s next hround
          obtain ⟨states, t, hrun, hpasses, hlength⟩ := ih (s := next) (by omega)
          refine ⟨s :: states, t, by rw [rounds_next hround, hrun], hpasses.cons hround, ?_⟩
          rw [List.length_cons]
          omega

theorem Passes.exists_turn {P : σ → Prop} {states : List σ} (h : Passes round s states t)
    (hs : ¬ P s) (ht : P t) :
    ∃ a b, a ∈ states ∧ b ∈ states ∧ round a = some b ∧ ¬ P a ∧ P b := by
  obtain ⟨hfirst, hlast, hsteps, -⟩ := h
  induction states generalizing s with
  | nil => cases hfirst
  | cons a rest ih =>
    cases hfirst
    cases rest with
    | nil =>
      cases hlast
      exact absurd ht hs
    | cons b rest =>
      obtain ⟨hround, hrest⟩ := List.isChain_cons_cons.mp hsteps
      by_cases hb : P b
      · exact ⟨a, b, List.mem_cons_self, List.mem_cons_of_mem _ List.mem_cons_self, hround, hs, hb⟩
      · obtain ⟨c, d, hc, hd, hturn⟩ := ih hb rfl (by rwa [List.getLast?_cons_cons] at hlast) hrest
        exact ⟨c, d, List.mem_cons_of_mem _ hc, List.mem_cons_of_mem _ hd, hturn⟩

end ImportLens.Support
