import Mathlib.Data.List.Nodup
import Mathlib.Data.Finset.Card

/-!
# First come, first served semaphores

A counting semaphore that hands a released permit to the first waiter, so that a
permit is free only while nobody waits.  A semaphore knows its waiters and the
holders of its permits by name.  `Stage` is where a client stands towards one
semaphore, and `Fits` is what the semaphore knows of a client at that stage; the
two operations keep `Fair` and `Fits`, and no client opens the lists.
-/

namespace ImportLens.Support

structure Semaphore where
  available : Nat
  /-- The first one is served first. -/
  waiters : List Nat
  holders : List Nat
  deriving DecidableEq

namespace Semaphore

def new (permits : Nat) : Semaphore := ⟨permits, [], []⟩

def acquire (s : Semaphore) (t : Nat) : Semaphore :=
  if 0 < s.available then { s with available := s.available - 1, holders := t :: s.holders }
  else { s with waiters := s.waiters ++ [t] }

def release (s : Semaphore) (t : Nat) : Semaphore :=
  match s.waiters with
  | [] => { s with available := s.available + 1, holders := s.holders.erase t }
  | first :: rest => { s with waiters := rest, holders := first :: s.holders.erase t }

/-- Where a client stands: it has not asked for a permit, it has asked for one,
or it has seen that it holds one. -/
inductive Stage
  | outside
  | waiting
  | holding
  deriving DecidableEq

def Fits (s : Semaphore) (t : Nat) : Stage → Prop
  | .outside => t ∉ s.holders ∧ t ∉ s.waiters
  | .waiting => t ∈ s.holders ∨ t ∈ s.waiters
  | .holding => t ∈ s.holders

/-- No permit is lost or made, and none is free while somebody waits. -/
structure Fair (permits : Nat) (s : Semaphore) : Prop where
  total : s.available + s.holders.length = permits
  queue : s.waiters ≠ [] → s.available = 0
  nodup : (s.holders ++ s.waiters).Nodup

variable {permits t u : Nat} {s : Semaphore}

theorem fair_new (permits : Nat) : Fair permits (new permits) :=
  ⟨rfl, fun h => absurd rfl h, List.nodup_nil⟩

theorem fits_new (permits t : Nat) : (new permits).Fits t .outside :=
  ⟨List.not_mem_nil, List.not_mem_nil⟩

theorem Fair.holders_nodup (h : Fair permits s) : s.holders.Nodup :=
  h.nodup.of_append_left

theorem Fair.length_le (h : Fair permits s) : s.holders.length ≤ permits := by
  have := h.total
  omega

theorem Fair.card_le (h : Fair permits s) {clients : Finset Nat}
    (hclients : ∀ t ∈ clients, t ∈ s.holders) : clients.card ≤ permits := by
  have hsub : clients ⊆ s.holders.toFinset := fun t ht => List.mem_toFinset.mpr (hclients t ht)
  calc
    clients.card ≤ s.holders.toFinset.card := Finset.card_le_card hsub
    _ ≤ s.holders.length := s.holders.toFinset_card_le
    _ ≤ permits := h.length_le

theorem Fair.length_of_waits (h : Fair permits s) (hwaits : t ∈ s.waiters) :
    s.holders.length = permits := by
  have hzero := h.queue (List.ne_nil_of_mem hwaits)
  have := h.total
  omega

theorem Fair.not_waits (h : Fair permits s) (hholds : t ∈ s.holders) : t ∉ s.waiters :=
  fun hwaits => List.disjoint_of_nodup_append h.nodup hholds hwaits

/-! ## Acquiring -/

theorem Fair.acquire (h : Fair permits s) (hout : s.Fits t .outside) :
    Fair permits (s.acquire t) := by
  obtain ⟨hholds, hwaits⟩ := hout
  have htotal := h.total
  unfold Semaphore.acquire
  split
  · rename_i hfree
    have hnone : s.waiters = [] := by
      by_contra hne
      have := h.queue hne
      omega
    refine ⟨?_, fun hne => absurd hnone hne, ?_⟩
    · simp only [List.length_cons]
      omega
    · rw [List.cons_append, List.nodup_cons, List.mem_append]
      exact ⟨by simp [hholds, hwaits], h.nodup⟩
  · rename_i hnone
    refine ⟨htotal, fun _ => by simpa using hnone, ?_⟩
    rw [← List.append_assoc]
    exact h.nodup.append (List.nodup_singleton t) (by simp [hholds, hwaits])

theorem acquire_self (s : Semaphore) (t : Nat) : (s.acquire t).Fits t .waiting := by
  unfold acquire
  split
  · exact .inl List.mem_cons_self
  · exact .inr (by simp)

theorem Fits.acquire {stage : Stage} (h : s.Fits u stage) (hne : u ≠ t) :
    (s.acquire t).Fits u stage := by
  unfold Semaphore.acquire
  split <;> cases stage <;> simpa [Fits, hne] using h

/-! ## Releasing -/

theorem Fair.release (h : Fair permits s) (hholds : t ∈ s.holders) :
    Fair permits (s.release t) := by
  have htotal := h.total
  have hlength := List.length_erase_of_mem hholds
  have hpos := List.length_pos_of_mem hholds
  have hsub : (s.holders.erase t ++ s.waiters).Nodup :=
    h.nodup.sublist (List.erase_sublist.append_right _)
  unfold Semaphore.release
  cases hwaiters : s.waiters with
  | nil =>
      refine ⟨?_, fun hne => absurd rfl hne, ?_⟩
      · simp only
        omega
      · rw [hwaiters] at hsub
        simpa using hsub
  | cons first rest =>
      have hzero := h.queue (by simp [hwaiters])
      refine ⟨?_, fun _ => hzero, ?_⟩
      · simp only [List.length_cons]
        omega
      · rw [hwaiters] at hsub
        exact List.nodup_middle.mp hsub

theorem Fair.release_self (h : Fair permits s) (hholds : t ∈ s.holders) :
    (s.release t).Fits t .outside := by
  have hnot := h.not_waits hholds
  have hgone : t ∉ s.holders.erase t := h.holders_nodup.not_mem_erase
  unfold Semaphore.release
  cases hwaiters : s.waiters with
  | nil => exact ⟨hgone, by simp⟩
  | cons first rest =>
      rw [hwaiters, List.mem_cons, not_or] at hnot
      refine ⟨?_, hnot.2⟩
      rw [List.mem_cons, not_or]
      exact ⟨hnot.1, hgone⟩

theorem length_release_waiters (s : Semaphore) (t : Nat) :
    (s.release t).waiters.length = s.waiters.length - 1 := by
  unfold Semaphore.release
  cases hwaiters : s.waiters with
  | nil => simp
  | cons first rest => simp

theorem Fits.release {stage : Stage} (h : s.Fits u stage) (hne : u ≠ t) :
    (s.release t).Fits u stage := by
  have herase : u ∈ s.holders.erase t ↔ u ∈ s.holders := List.mem_erase_of_ne hne
  unfold Semaphore.release
  cases hwaiters : s.waiters with
  | nil => cases stage <;> simpa [Fits, herase, hwaiters] using h
  | cons first rest =>
      cases stage with
      | outside =>
          simp only [Fits, hwaiters, List.mem_cons, not_or] at h
          simp only [Fits, List.mem_cons, not_or, herase]
          exact ⟨⟨h.2.1, h.1⟩, h.2.2⟩
      | waiting =>
          simp only [Fits, hwaiters, List.mem_cons] at h
          simp only [Fits, List.mem_cons, herase]
          tauto
      | holding =>
          simp only [Fits, List.mem_cons, herase]
          exact .inr h

end Semaphore

end ImportLens.Support
