import Mathlib.Data.Finset.Card
import Mathlib.Data.Fintype.EquivFin
import Mathlib.Logic.Function.Basic

/-!
# Interleavings of threads over shared memory

Any number of threads run one program over a shared state.  The program says
what the next atomic step of a thread does, given the thread's name, a choice
of the environment, the shared state and the thread's own position; a thread
that cannot take the step is blocked.  `Runs guard` is every interleaving whose
steps all satisfy a guard on the configuration they start from, and
`Runs.invariant` is the induction every safety argument over it uses.
-/

namespace ImportLens.Support

variable {σ π α : Type}

abbrev Program (σ π α : Type) : Type := Nat → α → σ → π → Option (σ × π)

/-- A shared state with the position of every thread. -/
structure Config (σ π : Type) where
  shared : σ
  thread : Nat → π

namespace Config

/-- Thread `t` takes its next step under the choice `a`. -/
def step (prog : Program σ π α) (c : Config σ π) (t : Nat) (a : α) : Option (Config σ π) :=
  (prog t a c.shared (c.thread t)).map fun next => ⟨next.1, Function.update c.thread t next.2⟩

/-- Run a schedule to its end, if every step of it can be taken and is taken
under the guard. -/
def run (prog : Program σ π α) (guard : Config σ π → Nat → α → Prop)
    [∀ c t a, Decidable (guard c t a)] (c : Config σ π) : List (Nat × α) → Option (Config σ π)
  | [] => some c
  | (t, a) :: rest =>
      if guard c t a then (c.step prog t a).bind fun d => d.run prog guard rest else none

variable {prog : Program σ π α} {c d : Config σ π} {t u : Nat} {a : α}

theorem step_eq_some (h : c.step prog t a = some d) :
    ∃ shared position, prog t a c.shared (c.thread t) = some (shared, position) ∧
      d = ⟨shared, Function.update c.thread t position⟩ := by
  obtain ⟨⟨shared, position⟩, hprog, rfl⟩ := Option.map_eq_some_iff.mp h
  exact ⟨shared, position, hprog, rfl⟩

theorem thread_of_step_ne (h : c.step prog t a = some d) (hu : u ≠ t) :
    d.thread u = c.thread u := by
  obtain ⟨_, _, _, rfl⟩ := step_eq_some h
  exact Function.update_of_ne hu _ _

/-- What no two threads hold, no two threads hold after a step of one of them: it
keeps what it has, or takes up something that no thread has had. -/
theorem apart_of_update (held : π → Option Nat) {thread : Nat → π} {position : π} {fresh : Nat}
    (hbound : ∀ u n, held (thread u) = some n → n < fresh)
    (hnew : ∀ n, held position = some n → held (thread t) = some n ∨ fresh ≤ n)
    (happart : ∀ u v n, held (thread u) = some n → held (thread v) = some n → u = v)
    (u v n : Nat) (hu : held (Function.update thread t position u) = some n)
    (hv : held (Function.update thread t position v) = some n) : u = v := by
  have hother : ∀ w, w ≠ t → held (Function.update thread t position w) = some n →
      held (Function.update thread t position t) = some n → w = t := by
    intro w hw hheld hself
    rw [Function.update_of_ne hw] at hheld
    rw [Function.update_self] at hself
    rcases hnew n hself with hold | hfresh
    · exact happart w t n hheld hold
    · exact absurd (hbound w n hheld) (Nat.not_lt_of_le hfresh)
  by_cases hut : u = t
  · by_cases hvt : v = t
    · rw [hut, hvt]
    · subst hut
      exact (hother v hvt hv hu).symm
  · by_cases hvt : v = t
    · subst hvt
      exact hother u hut hu hv
    · rw [Function.update_of_ne hut] at hu
      rw [Function.update_of_ne hvt] at hv
      exact happart u v n hu hv

end Config

/-! ## Counting threads -/

/-- Exactly `n` threads are at a position that satisfies `P`. -/
def Counts (P : π → Prop) (thread : Nat → π) (n : Nat) : Prop :=
  ∃ s : Finset Nat, s.card = n ∧ ∀ t, t ∈ s ↔ P (thread t)

namespace Counts

variable {P : π → Prop} {thread : Nat → π} {n t : Nat} {position : π}

theorem none_at (h : ∀ t, ¬ P (thread t)) : Counts P thread 0 :=
  ⟨∅, rfl, fun t => ⟨fun ht => absurd ht (Finset.notMem_empty t), fun ht => absurd ht (h t)⟩⟩

theorem pos (h : Counts P thread n) (ht : P (thread t)) : 0 < n := by
  obtain ⟨s, rfl, hs⟩ := h
  exact Finset.card_pos.mpr ⟨t, (hs t).mpr ht⟩

theorem exists_of_pos (h : Counts P thread n) (hn : 0 < n) : ∃ t, P (thread t) := by
  obtain ⟨s, rfl, hs⟩ := h
  obtain ⟨t, ht⟩ := Finset.card_pos.mp hn
  exact ⟨t, (hs t).mp ht⟩

theorem exists_not (h : Counts P thread n) : ∃ t, ¬ P (thread t) := by
  obtain ⟨s, _, hs⟩ := h
  obtain ⟨t, ht⟩ := Infinite.exists_notMem_finset s
  exact ⟨t, fun hP => ht ((hs t).mpr hP)⟩

theorem stay (h : Counts P thread n) (hiff : P position ↔ P (thread t)) :
    Counts P (Function.update thread t position) n := by
  obtain ⟨s, hcard, hs⟩ := h
  refine ⟨s, hcard, fun u => ?_⟩
  by_cases hu : u = t
  · subst hu
    rw [Function.update_self, hiff]
    exact hs u
  · rw [Function.update_of_ne hu]
    exact hs u

theorem enter (h : Counts P thread n) (hout : ¬ P (thread t)) (hin : P position) :
    Counts P (Function.update thread t position) (n + 1) := by
  obtain ⟨s, rfl, hs⟩ := h
  have ht : t ∉ s := fun ht => hout ((hs t).mp ht)
  refine ⟨insert t s, Finset.card_insert_of_notMem ht, fun u => ?_⟩
  by_cases hu : u = t
  · subst hu
    simp [hin]
  · rw [Function.update_of_ne hu]
    simpa [hu] using hs u

theorem leave (h : Counts P thread n) (hin : P (thread t)) (hout : ¬ P position) :
    ∃ m, n = m + 1 ∧ Counts P (Function.update thread t position) m := by
  obtain ⟨s, rfl, hs⟩ := h
  have ht : t ∈ s := (hs t).mpr hin
  refine ⟨(s.erase t).card, (Finset.card_erase_add_one ht).symm, s.erase t, rfl, fun u => ?_⟩
  by_cases hu : u = t
  · subst hu
    simp [hout]
  · rw [Function.update_of_ne hu]
    simpa [hu] using hs u

end Counts

/-- `Runs prog guard c acts d`: the schedule `acts` leads from `c` to `d`, and
each of its steps satisfies `guard` in the configuration it is taken from. -/
inductive Runs (prog : Program σ π α) (guard : Config σ π → Nat → α → Prop) :
    Config σ π → List (Nat × α) → Config σ π → Prop
  | refl (c : Config σ π) : Runs prog guard c [] c
  | cons {c d e : Config σ π} {t : Nat} {a : α} {rest : List (Nat × α)}
      (hguard : guard c t a) (hstep : c.step prog t a = some d)
      (hrest : Runs prog guard d rest e) : Runs prog guard c ((t, a) :: rest) e

namespace Runs

variable {prog : Program σ π α} {guard : Config σ π → Nat → α → Prop}
variable {c d e : Config σ π} {acts more : List (Nat × α)}

theorem invariant {I : Config σ π → Prop}
    (hstep : ∀ ⦃c d t a⦄, guard c t a → c.step prog t a = some d → I c → I d)
    (h : Runs prog guard c acts d) (hc : I c) : I d := by
  induction h with
  | refl _ => exact hc
  | cons hguard hone _ ih => exact ih (hstep hguard hone hc)

theorem mono {weaker : Config σ π → Nat → α → Prop}
    (hweak : ∀ c t a, guard c t a → weaker c t a)
    (h : Runs prog guard c acts d) : Runs prog weaker c acts d := by
  induction h with
  | refl c => exact .refl c
  | cons hguard hone _ ih => exact .cons (hweak _ _ _ hguard) hone ih

theorem of_actions {Q : α → Prop} (h : Runs prog guard c acts d)
    (hacts : ∀ act ∈ acts, Q act.2) : Runs prog (fun _ _ a => Q a) c acts d := by
  induction h with
  | refl c => exact .refl c
  | cons _ hone _ ih =>
      exact .cons (hacts _ (List.mem_cons_self ..)) hone
        (ih fun act hact => hacts act (List.mem_cons_of_mem _ hact))

theorem with_invariant {I : Config σ π → Prop}
    (hstep : ∀ ⦃c d t a⦄, guard c t a → c.step prog t a = some d → I c → I d)
    (h : Runs prog guard c acts d) (hc : I c) :
    Runs prog (fun c t a => guard c t a ∧ I c) c acts d := by
  induction h with
  | refl c => exact .refl c
  | cons hguard hone _ ih => exact .cons ⟨hguard, hc⟩ hone (ih (hstep hguard hone hc))

theorem append (h : Runs prog guard c acts d) (k : Runs prog guard d more e) :
    Runs prog guard c (acts ++ more) e := by
  induction h with
  | refl _ => exact k
  | cons hguard hone _ ih => exact .cons hguard hone (ih k)

theorem thread_of_notMem (h : Runs prog guard c acts d) {u : Nat} (hu : u ∉ acts.map Prod.fst) :
    d.thread u = c.thread u := by
  induction h with
  | refl _ => rfl
  | cons _ hone _ ih =>
      simp only [List.map_cons, List.mem_cons, not_or] at hu
      rw [ih hu.2, Config.thread_of_step_ne hone hu.1]

/-- A thread that comes to satisfy `P` takes a step at which it does. -/
theorem exists_entering {P : π → Prop} (h : Runs prog guard c acts d) {u : Nat}
    (hout : ¬ P (c.thread u)) (hin : P (d.thread u)) :
    ∃ first a rest m n, acts = first ++ (u, a) :: rest ∧ Runs prog guard c first m ∧
      m.step prog u a = some n ∧ ¬ P (m.thread u) ∧ P (n.thread u) := by
  induction h with
  | refl _ => exact absurd hin hout
  | @cons c d _ t a rest hguard hone hrest ih =>
      by_cases hd : P (d.thread u)
      · by_cases hu : u = t
        · subst hu
          exact ⟨[], a, rest, c, d, rfl, .refl c, hone, hout, hd⟩
        · rw [Config.thread_of_step_ne hone hu] at hd
          exact absurd hd hout
      · obtain ⟨first, b, last, m, n, heq, hfirst, hstep, hm, hn⟩ := ih hd hin
        exact ⟨(t, a) :: first, b, last, m, n, by rw [heq]; rfl, .cons hguard hone hfirst,
          hstep, hm, hn⟩

theorem of_run [∀ c t a, Decidable (guard c t a)] (h : c.run prog guard acts = some d) :
    Runs prog guard c acts d := by
  induction acts generalizing c with
  | nil =>
      cases h
      exact .refl _
  | cons head rest ih =>
      obtain ⟨t, a⟩ := head
      simp only [Config.run] at h
      split at h
      · rename_i hguard
        obtain ⟨next, hnext, hrest⟩ := Option.bind_eq_some_iff.mp h
        exact .cons hguard hnext (ih hrest)
      · cases h

theorem of_run_any [∀ c t a, Decidable (guard c t a)] {test : Config σ π → Bool}
    (h : (c.run prog guard acts).any test = true) :
    ∃ d, Runs prog guard c acts d ∧ test d = true := by
  cases hd : c.run prog guard acts with
  | none => simp [hd] at h
  | some d => exact ⟨d, of_run hd, by simpa [hd] using h⟩

end Runs

end ImportLens.Support
