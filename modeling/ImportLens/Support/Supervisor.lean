import Mathlib.Data.Set.Insert
import Mathlib.Data.List.Nodup
import Mathlib.Logic.Relation

/-!
# Supervisors of one worker

A supervisor launches workers, each under a name of its own, and owns the last one until it
lets it go.  Failures are charged to the worker they end.  A latched supervisor launches
nothing.  `Move` is everything a supervisor may do but `reset`; what follows from `Sound`
is that the workers alive are owned and that no worker is charged twice.
-/

namespace ImportLens.Support

variable {ι : Type}

@[ext] structure Supervisor (ι : Type) where
  owner : Option ι
  latched : Bool
  launched : Set ι
  /-- The workers that run and were not told to stop. -/
  live : Set ι
  charged : List ι

namespace Supervisor

def letGo (s : Supervisor ι) : Supervisor ι :=
  { s with
    owner := none
    live := s.live \ {i | s.owner = some i} }

def reset (s : Supervisor ι) : Supervisor ι := { s.letGo with latched := false }

inductive Move : Supervisor ι → Supervisor ι → Prop
  | launch (s : Supervisor ι) (i : ι) (hfresh : i ∉ s.launched) (huncharged : i ∉ s.charged)
      (hvacant : s.owner = none) (hopen : s.latched = false) :
      Move s { s with
        owner := some i
        launched := insert i s.launched
        live := insert i s.live }
  /-- A launch that failed at once. -/
  | misfire (s : Supervisor ι) (i : ι) (huncharged : i ∉ s.charged) (hvacant : s.owner = none)
      (hopen : s.latched = false) :
      Move s { s with charged := s.charged ++ [i] }
  | release (s : Supervisor ι) : Move s s.letGo
  /-- The owned worker failed. -/
  | fail (s : Supervisor ι) (i : ι) (howner : s.owner = some i) :
      Move s { s.letGo with charged := s.charged ++ [i] }
  /-- A worker ended, whoever owns it. -/
  | die (s : Supervisor ι) (i : ι) : Move s { s with live := s.live \ {i} }
  | latch (s : Supervisor ι) : Move s { s with latched := true }

abbrev Moves : Supervisor ι → Supervisor ι → Prop := Relation.ReflTransGen Move

structure Sound (s : Supervisor ι) : Prop where
  live_owned : ∀ i ∈ s.live, s.owner = some i
  owner_launched : ∀ i, s.owner = some i → i ∈ s.launched
  owner_uncharged : ∀ i, s.owner = some i → i ∉ s.charged
  charged_nodup : s.charged.Nodup

variable {s t : Supervisor ι}

theorem Sound.letGo (h : Sound s) : Sound s.letGo := by
  constructor
  · intro i hi
    exact absurd (h.live_owned i hi.1) hi.2
  · intro i hi
    cases hi
  · intro i hi
    cases hi
  · exact h.charged_nodup

theorem Sound.reset (h : Sound s) : Sound s.reset := by
  obtain ⟨hlive, hlaunched, huncharged, hnodup⟩ := h.letGo
  exact ⟨hlive, hlaunched, huncharged, hnodup⟩

theorem Sound.charge (h : Sound s) {i : ι} (hvacant : s.owner = none) (hi : i ∉ s.charged) :
    Sound { s with charged := s.charged ++ [i] } := by
  constructor
  · exact h.live_owned
  · exact h.owner_launched
  · intro j hj
    rw [hvacant] at hj
    cases hj
  · rw [List.nodup_append]
    refine ⟨h.charged_nodup, List.nodup_singleton i, ?_⟩
    intro j hj k hk heq
    rw [heq, List.mem_singleton.mp hk] at hj
    exact hi hj

theorem Move.sound (hmove : Move s t) (h : Sound s) : Sound t := by
  cases hmove with
  | launch i hfresh huncharged hvacant hopen =>
    constructor
    · intro j hj
      rcases hj with rfl | hold
      · rfl
      · have howned := h.live_owned j hold
        rw [hvacant] at howned
        cases howned
    · intro j hj
      cases hj
      exact Set.mem_insert i s.launched
    · intro j hj
      cases hj
      exact huncharged
    · exact h.charged_nodup
  | misfire i huncharged hvacant hopen => exact h.charge hvacant huncharged
  | release => exact h.letGo
  | fail i howner => exact h.letGo.charge rfl (h.owner_uncharged i howner)
  | die i =>
    obtain ⟨hlive, hlaunched, huncharged, hnodup⟩ := h
    exact ⟨fun j hj => hlive j hj.1, hlaunched, huncharged, hnodup⟩
  | latch =>
    obtain ⟨hlive, hlaunched, huncharged, hnodup⟩ := h
    exact ⟨hlive, hlaunched, huncharged, hnodup⟩

theorem Moves.sound (hmoves : Moves s t) (h : Sound s) : Sound t := by
  induction hmoves with
  | refl => exact h
  | tail _ hmove ih => exact hmove.sound ih

theorem Move.of_latched (hmove : Move s t) (hlatched : s.latched = true) :
    t.latched = true ∧ t.launched = s.launched := by
  cases hmove with
  | launch i hfresh huncharged hvacant hopen =>
    rw [hlatched] at hopen
    cases hopen
  | misfire i huncharged hvacant hopen =>
    rw [hlatched] at hopen
    cases hopen
  | release => exact ⟨hlatched, rfl⟩
  | fail i howner => exact ⟨hlatched, rfl⟩
  | die i => exact ⟨hlatched, rfl⟩
  | latch => exact ⟨rfl, rfl⟩

theorem Moves.of_latched (hmoves : Moves s t) (hlatched : s.latched = true) :
    t.latched = true ∧ t.launched = s.launched := by
  induction hmoves with
  | refl => exact ⟨hlatched, rfl⟩
  | tail _ hmove ih =>
    obtain ⟨hlatch, hlaunched⟩ := hmove.of_latched ih.1
    exact ⟨hlatch, hlaunched.trans ih.2⟩

end Supervisor

end ImportLens.Support
