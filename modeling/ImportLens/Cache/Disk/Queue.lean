import ImportLens.Cache.Key
import ImportLens.Support.Keyed
import Mathlib.Data.Prod.Lex
import Mathlib.Data.String.Basic

/-!
# The queue of inserts waiting for a commit

The sections of the disk cache that run under the lock of the queue, over any
type of stored value.  Each queued value carries the clear generation of its
writer; a flush keeps the values of the current generation and, when its write
fails, puts them back behind what was queued since.
-/

namespace ImportLens.Cache

open ImportLens.Support

variable {ν : Type}

def insertFlushBatch : Nat := 64

def maxPendingInserts : Nat := 16 * insertFlushBatch

def shedOldest (seqOf : ν → Nat) (pending : Keyed Key (Nat × ν)) : Keyed Key (Nat × ν) :=
  if pending.rows.length ≤ maxPendingInserts then pending
  else
    let byRecency := (pending.rows.map fun row => (seqOf row.2.2, row.1)).mergeSort
      fun a b => decide (toLex a ≤ toLex b)
    let excess := pending.rows.length - (maxPendingInserts - insertFlushBatch)
    pending.eraseAll ((byRecency.take excess).map Prod.snd)

def keptAt (generation : Nat) (pending : Keyed Key (Nat × ν)) : Keyed Key ν :=
  pending.filterMapVal fun tagged => if tagged.1 = generation then some tagged.2 else none

def requeueRows (generation : Nat) :
    List (Key × ν) → Keyed Key (Nat × ν) → Keyed Key (Nat × ν)
  | [], pending => pending
  | (key, value) :: rest, pending =>
      if (pending.lookup key).isSome then requeueRows generation rest pending
      else requeueRows generation rest (pending.insert key (generation, value))

/-! ## What the sections keep -/

section

variable {P : Key → Nat × ν → Prop} {pending : Keyed Key (Nat × ν)}

theorem shedOldest_all (seqOf : ν → Nat) (h : pending.All P) :
    (shedOldest seqOf pending).All P := by
  unfold shedOldest
  split
  · exact h
  · exact h.eraseAll _

theorem lookup_shedOldest {seqOf : ν → Nat} {key : Key}
    (h : ((shedOldest seqOf pending).lookup key).isSome = (pending.lookup key).isSome) :
    (shedOldest seqOf pending).lookup key = pending.lookup key := by
  unfold shedOldest at h ⊢
  split
  · rfl
  · rename_i hfull
    simp only [hfull, if_false, Keyed.lookup_eraseAll] at h ⊢
    split at h
    · rename_i hshed
      rw [if_pos hshed]
      exact (Option.not_isSome_iff_eq_none.mp (by simpa using h.symm)).symm
    · rename_i hkept
      rw [if_neg hkept]

theorem length_shedOldest_le (seqOf : ν → Nat) (pending : Keyed Key (Nat × ν)) :
    (shedOldest seqOf pending).rows.length ≤ maxPendingInserts := by
  unfold shedOldest
  split
  · assumption
  · rename_i hfull
    simp only
    generalize hsorted : (pending.rows.map fun row => (seqOf row.2.2, row.1)).mergeSort
      (fun a b => decide (toLex a ≤ toLex b)) = sorted
    -- the sorted keys are those of the queue, each once
    have hperm : (sorted.map Prod.snd).Perm (pending.rows.map Prod.fst) := by
      rw [← hsorted]
      refine ((List.mergeSort_perm _ _).map Prod.snd).trans ?_
      rw [List.map_map]
      exact List.Perm.refl _
    have hlength : (sorted.map Prod.snd).length = pending.rows.length := by
      rw [hperm.length_eq, List.length_map]
    rw [List.map_take]
    have hshed := Keyed.length_eraseAll
      ((List.take_sublist (pending.rows.length - (maxPendingInserts - insertFlushBatch))
        (sorted.map Prod.snd)).nodup (hperm.nodup_iff.mpr (Keyed.nodup_rows_keys pending)))
      pending fun k hk => by
        rw [← Keyed.mem_rows_keys]
        exact hperm.mem_iff.mp (List.mem_of_mem_take hk)
    rw [List.length_take, hlength] at hshed
    have hbatch : insertFlushBatch ≤ maxPendingInserts := by decide
    omega

theorem lookup_keptAt {generation : Nat} {key : Key} {value : ν} :
    (keptAt generation pending).lookup key = some value ↔
      pending.lookup key = some (generation, value) := by
  rw [keptAt, Keyed.lookup_filterMapVal, Option.bind_eq_some_iff]
  constructor
  · rintro ⟨⟨tag, queued⟩, hqueued, hkept⟩
    split at hkept
    · next htag =>
        cases hkept
        rw [hqueued, ← htag]
    · cases hkept
  · intro hqueued
    exact ⟨(generation, value), hqueued, by simp⟩

theorem requeueRows_cons (generation : Nat) (row : Key × ν) (rest : List (Key × ν))
    (pending : Keyed Key (Nat × ν)) :
    requeueRows generation (row :: rest) pending =
      if (pending.lookup row.1).isSome then requeueRows generation rest pending
      else requeueRows generation rest (pending.insert row.1 (generation, row.2)) := rfl

theorem requeueRows_all {generation : Nat} {rows : List (Key × ν)} (h : pending.All P)
    (hrows : ∀ row ∈ rows, P row.1 (generation, row.2)) :
    (requeueRows generation rows pending).All P := by
  induction rows generalizing pending with
  | nil => exact h
  | cons row rest ih =>
      obtain ⟨key, value⟩ := row
      have hrest : ∀ row ∈ rest, P row.1 (generation, row.2) := fun r hr => hrows r (by simp [hr])
      rw [requeueRows_cons]
      split
      · exact ih h hrest
      · exact ih (h.insert (hrows (key, value) (by simp))) hrest

theorem lookup_requeueRows_of_notMem {generation : Nat} {rows : List (Key × ν)} {key : Key}
    (h : key ∉ rows.map Prod.fst) :
    (requeueRows generation rows pending).lookup key = pending.lookup key := by
  induction rows generalizing pending with
  | nil => rfl
  | cons row rest ih =>
      obtain ⟨other, value⟩ := row
      simp only [List.map_cons, List.mem_cons, not_or] at h
      rw [requeueRows_cons]
      split
      · exact ih h.2
      · rw [ih h.2, AList.lookup_insert_ne h.1]

theorem lookup_requeueRows_of_mem {generation : Nat} {rows : List (Key × ν)}
    (hnodup : (rows.map Prod.fst).Nodup) {key : Key} {value : ν} (h : (key, value) ∈ rows)
    (habsent : pending.lookup key = none) :
    (requeueRows generation rows pending).lookup key = some (generation, value) := by
  induction rows generalizing pending with
  | nil => cases h
  | cons row rest ih =>
      obtain ⟨other, queued⟩ := row
      rw [List.map_cons, List.nodup_cons] at hnodup
      rw [requeueRows_cons]
      rcases List.mem_cons.mp h with heq | hrest
      · cases heq
        rw [if_neg (by simp [habsent]), lookup_requeueRows_of_notMem hnodup.1,
          AList.lookup_insert]
      · have hne : key ≠ other := by
          rintro rfl
          exact hnodup.1 (List.mem_map.mpr ⟨_, hrest, rfl⟩)
        split
        · exact ih hnodup.2 hrest habsent
        · exact ih hnodup.2 hrest (by rw [AList.lookup_insert_ne hne, habsent])

theorem length_requeueRows_le (generation : Nat) (rows : List (Key × ν))
    (pending : Keyed Key (Nat × ν)) :
    (requeueRows generation rows pending).rows.length ≤ pending.rows.length + rows.length := by
  induction rows generalizing pending with
  | nil => exact le_refl _
  | cons row rest ih =>
      obtain ⟨key, value⟩ := row
      simp only [requeueRows_cons, List.length_cons]
      split
      · have hrest := ih pending
        omega
      · have hrest := ih (pending.insert key (generation, value))
        have hinsert := Keyed.length_insert_le pending key (generation, value)
        omega

end

end ImportLens.Cache
