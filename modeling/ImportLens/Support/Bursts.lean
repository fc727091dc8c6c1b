import Mathlib.Data.List.Count
import Mathlib.Data.List.Sublists

/-!
# Bursts of events

A log of instants, oldest first, is calm when no interval of a length holds as many of them
as a limit.  A breaker that counts the recent events keeps a log calm by refusing the event
that would make a burst; it may forget what is not recent.
-/

namespace ImportLens.Support

/-- Every interval of the length holds fewer events than the limit. -/
def Calm (length limit : Nat) (log : List Nat) : Prop :=
  ∀ opens, (log.countP fun t => decide (opens ≤ t ∧ t < opens + length)) < limit

def recent (length now : Nat) (log : List Nat) : List Nat :=
  log.filter fun t => now < t + length

variable {length limit now later : Nat} {log kept : List Nat}

theorem Calm.nil (hlimit : 0 < limit) : Calm length limit [] := fun _ => hlimit

theorem recent_later (hlater : now ≤ later) :
    (recent length later log).Sublist (recent length now log) := by
  apply List.monotone_filter_right
  intro t ht
  simp only [decide_eq_true_eq] at ht ⊢
  omega

theorem recent_append (hlength : 0 < length) :
    recent length now (log ++ [now]) = recent length now log ++ [now] := by
  have hnow : now < now + length := by omega
  rw [recent, recent, List.filter_append, List.filter_singleton, decide_eq_true hnow]
  rfl

theorem recent_eq_nil (h : ∀ t ∈ log, t + length ≤ now) : recent length now log = [] := by
  rw [recent, List.filter_eq_nil_iff]
  intro t ht
  have := h t ht
  simpa using this

theorem Calm.record (h : Calm length limit log) (hpast : ∀ t ∈ log, t ≤ now)
    (hfew : (recent length now (log ++ [now])).length < limit) :
    Calm length limit (log ++ [now]) := by
  intro opens
  by_cases hin : opens ≤ now ∧ now < opens + length
  · rw [recent, ← List.countP_eq_length_filter] at hfew
    refine Nat.lt_of_le_of_lt (List.countP_mono_left ?_) hfew
    intro t ht hopens
    have hle : t ≤ now := by
      rcases List.mem_append.mp ht with hold | hnew
      · exact hpast t hold
      · exact (List.mem_singleton.mp hnew).le
    simp only [decide_eq_true_eq] at hopens ⊢
    omega
  · rw [List.countP_append, List.countP_singleton, decide_eq_false hin]
    exact h opens

end ImportLens.Support
