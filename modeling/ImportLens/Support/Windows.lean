import Mathlib.Data.List.Count

/-!
# Events counted in windows

Every event of a log belongs to a window, which is named by the instant it opens.
All windows are of one length and do not overlap.  A counter knows the window that
was opened last and how many events it has at most; `Windowed` is what holds of
the log under it, and `countP_interval_le` is the bound it buys on any interval.
-/

namespace ImportLens.Support

variable {ε : Type}

/-- The log under a counter that is at the window `opened` with `count` events. -/
structure Windowed (length budget : Nat) (window instant : ε → Nat) (opened count : Nat)
    (log : List ε) : Prop where
  within : ∀ e ∈ log, window e ≤ instant e ∧ instant e < window e + length
  before : ∀ e ∈ log, window e = opened ∨ window e + length ≤ opened
  apart : ∀ e ∈ log, ∀ f ∈ log, window e < window f → window e + length ≤ window f
  full : ∀ w, log.countP (fun e => window e = w) ≤ budget
  last : log.countP (fun e => window e = opened) ≤ count

namespace Windowed

variable {length budget opened count later : Nat} {window instant : ε → Nat}
variable {log : List ε} {e : ε}

theorem nil : Windowed length budget window instant opened count ([] : List ε) := by
  constructor <;> simp

/-- The next event of the open window. -/
theorem join (h : Windowed length budget window instant opened count log)
    (hbudget : count < budget) (hwindow : window e = opened)
    (hwithin : opened ≤ instant e ∧ instant e < opened + length) :
    Windowed length budget window instant opened (count + 1) (e :: log) := by
  have hlast := h.last
  constructor
  · intro f hf
    rcases List.mem_cons.mp hf with heq | hmem
    · rw [heq, hwindow]
      exact hwithin
    · exact h.within f hmem
  · intro f hf
    rcases List.mem_cons.mp hf with heq | hmem
    · rw [heq]
      exact .inl hwindow
    · exact h.before f hmem
  · intro f hf g hg hlt
    rcases List.mem_cons.mp hf with heq | hmem
    · rcases List.mem_cons.mp hg with heq' | hmem'
      · rw [heq, heq'] at hlt
        omega
      · have := h.before g hmem'
        rw [heq, hwindow] at hlt
        omega
    · rcases List.mem_cons.mp hg with heq' | hmem'
      · have := h.before f hmem
        rw [heq', hwindow] at hlt ⊢
        omega
      · exact h.apart f hmem g hmem' hlt
  · intro w
    rw [List.countP_cons]
    by_cases hw : opened = w
    · subst hw
      split <;> omega
    · have := h.full w
      simp only [hwindow, hw, decide_false, Bool.false_eq_true, if_false]
      omega
  · rw [List.countP_cons]
    split <;> omega

/-- The first event of a later window. -/
theorem open_later (h : Windowed length budget window instant opened count log)
    (hlength : 0 < length) (hbudget : 0 < budget) (hlater : opened + length ≤ later)
    (hwindow : window e = later) (hwithin : later ≤ instant e ∧ instant e < later + length) :
    Windowed length budget window instant later 1 (e :: log) := by
  have hbefore : ∀ f ∈ log, window f + length ≤ later := by
    intro f hf
    have := h.before f hf
    omega
  have hempty : Windowed length budget window instant later 0 log := by
    refine ⟨h.within, fun f hf => .inr (hbefore f hf), h.apart, h.full, ?_⟩
    rw [Nat.le_zero, List.countP_eq_zero]
    intro f hf
    have := hbefore f hf
    simp only [decide_eq_true_eq]
    omega
  exact hempty.join hbudget hwindow hwithin

theorem countP_same_le (h : Windowed length budget window instant opened count log)
    (p : ε → Bool) (hsame : ∀ e ∈ log, ∀ f ∈ log, p e = true → p f = true → window e = window f) :
    log.countP p ≤ budget := by
  by_cases hany : ∃ e ∈ log, p e = true
  · obtain ⟨e, he, hpe⟩ := hany
    calc log.countP p
        ≤ log.countP (fun f => window f = window e) := by
          apply List.countP_mono_left
          intro f hf hpf
          exact decide_eq_true (hsame f hf e he hpf hpe)
      _ ≤ budget := h.full (window e)
  · have hzero : log.countP p = 0 := by
      rw [List.countP_eq_zero]
      intro e he hpe
      exact hany ⟨e, he, hpe⟩
    omega

/-- Two events of an interval no longer than a window are of one window, if both windows are
open when it begins or both open in it. -/
theorem window_eq (h : Windowed length budget window instant opened count log) {start : Nat}
    {e f : ε} (he : e ∈ log) (hf : f ∈ log) (hine : start ≤ instant e ∧ instant e ≤ start + length)
    (hinf : start ≤ instant f ∧ instant f ≤ start + length)
    (hside : window e ≤ start ↔ window f ≤ start) : window e = window f := by
  have hwithine := h.within e he
  have hwithinf := h.within f hf
  rcases Nat.lt_trichotomy (window e) (window f) with hlt | heq | hlt
  · have := h.apart e he f hf hlt
    omega
  · exact heq
  · have := h.apart f hf e he hlt
    omega

theorem countP_interval_le (h : Windowed length budget window instant opened count log)
    (start : Nat) :
    log.countP (fun e => start ≤ instant e ∧ instant e ≤ start + length) ≤ 2 * budget := by
  have hopen : log.countP (fun e => decide (start ≤ instant e ∧ instant e ≤ start + length) &&
      decide (window e ≤ start)) ≤ budget := by
    apply h.countP_same_le
    intro e he f hf hpe hpf
    simp only [Bool.and_eq_true, decide_eq_true_eq] at hpe hpf
    exact h.window_eq he hf hpe.1 hpf.1 (iff_of_true hpe.2 hpf.2)
  have hopens : log.countP (fun e => decide (start ≤ instant e ∧ instant e ≤ start + length) &&
      !decide (window e ≤ start)) ≤ budget := by
    apply h.countP_same_le
    intro e he f hf hpe hpf
    simp only [Bool.and_eq_true, Bool.not_eq_true', decide_eq_true_eq, decide_eq_false_iff_not]
      at hpe hpf
    exact h.window_eq he hf hpe.1 hpf.1 (iff_of_false hpe.2 hpf.2)
  have hsplit := List.countP_eq_countP_filter_add log
    (fun e => decide (start ≤ instant e ∧ instant e ≤ start + length))
    (fun e => decide (window e ≤ start))
  rw [List.countP_filter, List.countP_filter] at hsplit
  omega

end Windowed

end ImportLens.Support
