import Mathlib.Data.List.AList
import Mathlib.Algebra.BigOperators.Group.List.Basic
import Mathlib.Algebra.Ring.Int.Defs
import Mathlib.Algebra.Ring.Nat

/-!
# Keyed tables

A table that maps each key to at most one value, as an association list with
distinct keys.  Mathlib's `AList` supplies `insert`, `erase` and `lookup`; this
module adds the three operations a store needs besides them (keep the rows of
some keys, convert values, sum a weight over the rows) with their lookup and
sum equations, so that no client ever opens the list of entries.
-/

namespace ImportLens.Support

variable {κ ν μ : Type}

abbrev Keyed (κ ν : Type) : Type := AList fun _ : κ => ν

namespace Keyed

/-! ## Rows -/

def rows (t : Keyed κ ν) : List (κ × ν) := t.entries.map fun e => (e.1, e.2)

theorem nodup_rows_keys (t : Keyed κ ν) : (t.rows.map Prod.fst).Nodup := by
  have hkeys : t.rows.map Prod.fst = t.keys := by
    simp [rows, AList.keys, List.keys, Function.comp_def]
  rw [hkeys]
  exact t.keys_nodup

variable [DecidableEq κ]

theorem lookup_eq_some_iff {t : Keyed κ ν} {k : κ} {v : ν} :
    t.lookup k = some v ↔ (⟨k, v⟩ : Sigma fun _ : κ => ν) ∈ t.entries :=
  AList.mem_lookup_iff

theorem mem_rows {t : Keyed κ ν} {k : κ} {v : ν} :
    (k, v) ∈ t.rows ↔ t.lookup k = some v := by
  rw [lookup_eq_some_iff]
  constructor
  · intro hmem
    obtain ⟨e, he, heq⟩ := List.mem_map.mp hmem
    cases heq
    exact he
  · intro hmem
    exact List.mem_map.mpr ⟨⟨k, v⟩, hmem, rfl⟩

theorem mem_rows_keys {t : Keyed κ ν} {k : κ} :
    k ∈ t.rows.map Prod.fst ↔ (t.lookup k).isSome := by
  rw [Option.isSome_iff_exists]
  constructor
  · intro hmem
    obtain ⟨⟨k', v⟩, hrow, rfl⟩ := List.mem_map.mp hmem
    exact ⟨v, mem_rows.mp hrow⟩
  · rintro ⟨v, hv⟩
    exact List.mem_map.mpr ⟨(k, v), mem_rows.mpr hv, rfl⟩

/-! ## Lookup after an update -/

theorem lookup_insert_eq (t : Keyed κ ν) (k k' : κ) (v : ν) :
    (t.insert k v).lookup k' = if k' = k then some v else t.lookup k' := by
  by_cases hk : k' = k
  · subst hk
    simp
  · rw [if_neg hk, AList.lookup_insert_ne hk]

theorem lookup_erase_eq (t : Keyed κ ν) (k k' : κ) :
    (t.erase k).lookup k' = if k' = k then none else t.lookup k' := by
  by_cases hk : k' = k
  · subst hk
    simp
  · rw [if_neg hk, AList.lookup_erase_ne hk]

theorem erase_absent {t : Keyed κ ν} {k : κ} (h : t.lookup k = none) : t.erase k = t := by
  have hmem : k ∉ t.entries.keys := AList.lookup_eq_none.mp h
  apply AList.ext
  exact List.kerase_of_notMem_keys hmem

/-- `entry(k).or_insert(v)`: a row that is there stays. -/
def orInsert (t : Keyed κ ν) (k : κ) (v : ν) : Keyed κ ν :=
  if (t.lookup k).isSome then t else t.insert k v

theorem lookup_orInsert (t : Keyed κ ν) (k k' : κ) (v : ν) :
    (t.orInsert k v).lookup k' = if k' = k then some ((t.lookup k).getD v) else t.lookup k' := by
  rw [orInsert]
  cases hk : t.lookup k with
  | some old =>
      by_cases hk' : k' = k
      · subst hk'
        simp [hk]
      · simp [hk']
  | none => simp [lookup_insert_eq]

/-! ## Keeping some keys, converting values -/

/-- Keep the rows whose key satisfies `p`. -/
def retain (p : κ → Bool) (t : Keyed κ ν) : Keyed κ ν where
  entries := t.entries.filter fun e => p e.1
  nodupKeys := t.nodupKeys.sublist List.filter_sublist

@[simp] theorem lookup_retain (p : κ → Bool) (t : Keyed κ ν) (k : κ) :
    (t.retain p).lookup k = if p k then t.lookup k else none := by
  apply Option.ext
  intro v
  rw [lookup_eq_some_iff]
  simp only [retain, List.mem_filter]
  by_cases hp : p k = true
  · simp [hp, lookup_eq_some_iff]
  · simp [hp]

def filterMapVal (f : ν → Option μ) (t : Keyed κ ν) : Keyed κ μ where
  entries := t.entries.filterMap fun e => (f e.2).map fun m => ⟨e.1, m⟩
  nodupKeys := by
    have hsub : List.Sublist
        (t.entries.filterMap fun e => (f e.2).map fun m => (⟨e.1, m⟩ : Sigma fun _ : κ => μ)).keys
        t.entries.keys := by
      induction t.entries with
      | nil => simp
      | cons e es ih =>
          rw [List.filterMap_cons]
          cases hf : f e.2 with
          | none => simpa using ih.cons e.1
          | some m => simpa using ih.cons_cons e.1
    exact hsub.nodup t.nodupKeys

@[simp] theorem lookup_filterMapVal (f : ν → Option μ) (t : Keyed κ ν) (k : κ) :
    (t.filterMapVal f).lookup k = (t.lookup k).bind f := by
  apply Option.ext
  intro m
  rw [lookup_eq_some_iff]
  simp only [filterMapVal, List.mem_filterMap, Option.bind_eq_some_iff]
  constructor
  · rintro ⟨e, he, hf⟩
    obtain ⟨m', hm', heq⟩ := Option.map_eq_some_iff.mp hf
    cases heq
    exact ⟨e.2, lookup_eq_some_iff.mpr he, hm'⟩
  · rintro ⟨v, hv, hm⟩
    exact ⟨⟨k, v⟩, lookup_eq_some_iff.mp hv, by simp [hm]⟩

omit [DecidableEq κ] in
theorem length_rows_filterMapVal_le (f : ν → Option μ) (t : Keyed κ ν) :
    (filterMapVal f t).rows.length ≤ t.rows.length := by
  simp only [rows, filterMapVal, List.length_map]
  exact List.length_filterMap_le _ _

/-! ## Sums over the rows -/

def total (w : ν → Nat) (t : Keyed κ ν) : Nat := (t.entries.map fun e => w e.2).sum

omit [DecidableEq κ] in
@[simp] theorem total_empty (w : ν → Nat) : total w (∅ : Keyed κ ν) = 0 := rfl

omit [DecidableEq κ] in
theorem rows_length (t : Keyed κ ν) : t.rows.length = total (fun _ => 1) t := by
  rw [rows, List.length_map, total, List.map_const', List.sum_replicate_nat, Nat.mul_one]

theorem total_eq_sum_kerase (w : ν → Nat) (t : Keyed κ ν) (k : κ) :
    total w (t.erase k) = ((t.entries.kerase k).map fun e => w e.2).sum := rfl

theorem total_erase (w : ν → Nat) (t : Keyed κ ν) (k : κ) :
    total w (t.erase k) + ((t.lookup k).map w).getD 0 = total w t := by
  cases hk : t.lookup k with
  | none => simp [erase_absent hk]
  | some v =>
      have hmem : k ∈ t.entries.keys :=
        AList.lookup_isSome.mp (by rw [hk]; rfl)
      obtain ⟨v', l₁, l₂, hl₁, hentries, hkerase⟩ := List.exists_of_kerase hmem
      have hv : v' = v := by
        have hin : (⟨k, v'⟩ : Sigma fun _ : κ => ν) ∈ t.entries := by
          rw [hentries]
          simp
        have hlook := lookup_eq_some_iff.mpr hin
        rw [hk] at hlook
        exact (Option.some.inj hlook).symm
      subst hv
      rw [total_eq_sum_kerase, hkerase, total, hentries]
      simp only [List.map_append, List.map_cons, List.sum_append, List.sum_cons,
        Option.map_some, Option.getD_some]
      omega

theorem total_insert (w : ν → Nat) (t : Keyed κ ν) (k : κ) (v : ν) :
    total w (t.insert k v) + ((t.lookup k).map w).getD 0 = total w t + w v := by
  have herase := total_erase w t k
  have hcons : total w (t.insert k v) = w v + total w (t.erase k) := by
    rw [total_eq_sum_kerase]
    simp [total, AList.insert, List.kinsert]
  omega

theorem length_insert_le (t : Keyed κ ν) (k : κ) (v : ν) :
    (rows (t.insert k v)).length ≤ t.rows.length + 1 := by
  have htotal := total_insert (fun _ => 1) t k v
  rw [← rows_length, ← rows_length] at htotal
  omega

theorem length_insert_of_some {t : Keyed κ ν} {k : κ} {old : ν} (h : t.lookup k = some old)
    (v : ν) : (rows (t.insert k v)).length = t.rows.length := by
  have htotal := total_insert (fun _ => 1) t k v
  rw [← rows_length, ← rows_length, h] at htotal
  simpa using htotal

theorem length_erase_of_some {t : Keyed κ ν} {k : κ} {old : ν} (h : t.lookup k = some old) :
    (rows (t.erase k)).length + 1 = t.rows.length := by
  have htotal := total_erase (fun _ => 1) t k
  rw [← rows_length, ← rows_length, h] at htotal
  simpa using htotal

theorem filter_kerase (p : κ → Bool) (k : κ) (es : List (Sigma fun _ : κ => ν)) :
    (es.kerase k).filter (fun e => p e.1) = (es.filter fun e => p e.1).kerase k := by
  induction es with
  | nil => rfl
  | cons e es ih =>
      by_cases hk : k = e.1
      · subst hk
        rw [List.kerase_cons_eq rfl]
        by_cases hp : p e.1 = true
        · simp only [List.filter_cons, hp, if_true]
          rw [List.kerase_cons_eq rfl]
        · simp only [List.filter_cons, hp, Bool.false_eq_true, if_false]
          rw [List.kerase_of_notMem_keys]
          intro hmem
          obtain ⟨e', he', heq⟩ := List.mem_map.mp hmem
          have hpe := (List.mem_filter.mp he').2
          rw [heq] at hpe
          exact hp hpe
      · rw [List.kerase_cons_ne hk]
        by_cases hp : p e.1 = true
        · simp only [List.filter_cons, hp, if_true]
          rw [List.kerase_cons_ne hk, ih]
        · simp only [List.filter_cons, hp, Bool.false_eq_true, if_false, ih]

theorem total_retain_insert (w : ν → Nat) (p : κ → Bool) (t : Keyed κ ν) (k : κ) (v : ν) :
    total w (retain p (t.insert k v)) + (((t.retain p).lookup k).map w).getD 0 =
      total w (t.retain p) + if p k then w v else 0 := by
  have herase := total_erase w (t.retain p) k
  have hcons : total w (retain p (t.insert k v)) =
      (if p k then w v else 0) + total w ((t.retain p).erase k) := by
    have hkerase : total w ((t.retain p).erase k) =
        (((t.entries.kerase k).filter fun e => p e.1).map fun e => w e.2).sum := by
      rw [filter_kerase]
      rfl
    rw [hkerase]
    by_cases hp : p k = true
    · simp [total, retain, AList.insert, List.kinsert, hp]
    · simp [total, retain, AList.insert, List.kinsert, hp]
  omega

theorem total_retain_eq_zero (w : ν → Nat) {p : κ → Bool} {t : Keyed κ ν}
    (h : ∀ k v, t.lookup k = some v → p k = false) : total w (t.retain p) = 0 := by
  have hnone : (t.retain p).entries = [] := by
    refine List.filter_eq_nil_iff.mpr fun e he => ?_
    rw [h e.1 e.2 (lookup_eq_some_iff.mpr he)]
    decide
  rw [total, hnone]
  rfl

theorem total_erase_le (w : ν → Nat) (t : Keyed κ ν) (k : κ) :
    total w (t.erase k) ≤ total w t := by
  have := total_erase w t k
  omega

/-! ## Many updates in a row -/

def eraseAll (keys : List κ) (t : Keyed κ ν) : Keyed κ ν := keys.foldl (fun t k => t.erase k) t

def insertAll (rows : List (κ × ν)) (t : Keyed κ ν) : Keyed κ ν :=
  rows.foldl (fun t row => t.insert row.1 row.2) t

theorem lookup_eraseAll (keys : List κ) (t : Keyed κ ν) (k : κ) :
    (eraseAll keys t).lookup k = if k ∈ keys then none else t.lookup k := by
  induction keys generalizing t with
  | nil => simp [eraseAll]
  | cons head rest ih =>
      have hstep := ih (t.erase head)
      rw [lookup_erase_eq] at hstep
      rw [show eraseAll (head :: rest) t = eraseAll rest (t.erase head) from rfl, hstep]
      by_cases hrest : k ∈ rest
      · simp [hrest]
      · by_cases hhead : k = head
        · simp [hhead]
        · simp [hrest, hhead]

theorem total_eraseAll_le (w : ν → Nat) (keys : List κ) (t : Keyed κ ν) :
    total w (eraseAll keys t) ≤ total w t := by
  induction keys generalizing t with
  | nil => exact le_refl _
  | cons head rest ih => exact (ih (t.erase head)).trans (total_erase_le w t head)

theorem total_eraseAll (w : ν → Nat) {keys : List κ} (hnodup : keys.Nodup) (t : Keyed κ ν) :
    total w (eraseAll keys t) + (keys.map fun k => ((t.lookup k).map w).getD 0).sum =
      total w t := by
  induction keys generalizing t with
  | nil => rfl
  | cons head rest ih =>
      rw [List.nodup_cons] at hnodup
      have herase := total_erase w t head
      have hrest : (rest.map fun k => (((t.erase head).lookup k).map w).getD 0) =
          rest.map fun k => ((t.lookup k).map w).getD 0 := by
        apply List.map_congr_left
        intro k hk
        have hne : k ≠ head := by
          intro heq
          exact hnodup.1 (heq ▸ hk)
        rw [AList.lookup_erase_ne hne]
      have htotal := ih hnodup.2 (t.erase head)
      rw [hrest] at htotal
      rw [show eraseAll (head :: rest) t = eraseAll rest (t.erase head) from rfl, List.map_cons,
        List.sum_cons]
      omega

theorem length_eraseAll {keys : List κ} (hnodup : keys.Nodup) (t : Keyed κ ν)
    (hkeys : ∀ k ∈ keys, (t.lookup k).isSome) :
    (eraseAll keys t).rows.length + keys.length = t.rows.length := by
  have htotal := total_eraseAll (fun _ => 1) hnodup t
  -- every key has a row, and a row weighs one
  have hones : (keys.map fun k => ((t.lookup k).map fun _ => 1).getD 0) =
      keys.map fun _ => 1 := by
    apply List.map_congr_left
    intro k hk
    obtain ⟨v, hv⟩ := Option.isSome_iff_exists.mp (hkeys k hk)
    rw [hv, Option.map_some, Option.getD_some]
  rw [hones, List.map_const', List.sum_replicate_nat, mul_one, ← rows_length,
    ← rows_length] at htotal
  exact htotal

theorem total_eraseAll_lt_iff (w : ν → Nat) (keys : List κ) (t : Keyed κ ν) :
    total w (eraseAll keys t) < total w t ↔
      ∃ k ∈ keys, ∃ v, t.lookup k = some v ∧ 0 < w v := by
  induction keys generalizing t with
  | nil => simp [eraseAll]
  | cons head rest ih =>
      have hle := total_eraseAll_le w rest (t.erase head)
      have herase := total_erase w t head
      rw [show eraseAll (head :: rest) t = eraseAll rest (t.erase head) from rfl]
      by_cases hweight : 0 < ((t.lookup head).map w).getD 0
      · refine ⟨fun _ => ?_, fun _ => by omega⟩
        cases hv : t.lookup head with
        | none => simp [hv] at hweight
        | some v => exact ⟨head, by simp, v, hv, by simpa [hv] using hweight⟩
      · have hsame : total w (t.erase head) = total w t := by omega
        rw [← hsame, ih]
        constructor
        · rintro ⟨k, hk, v, hv, hpos⟩
          rw [lookup_erase_eq] at hv
          split at hv
          · cases hv
          · exact ⟨k, by simp [hk], v, hv, hpos⟩
        · rintro ⟨k, hk, v, hv, hpos⟩
          have hne : k ≠ head := by
            rintro rfl
            simp [hv] at hweight
            omega
          refine ⟨k, (List.mem_cons.mp hk).resolve_left hne, v, ?_, hpos⟩
          rw [lookup_erase_eq, if_neg hne, hv]

theorem lookup_insertAll_of_notMem {rows : List (κ × ν)} {k : κ} (h : k ∉ rows.map Prod.fst)
    (t : Keyed κ ν) : (insertAll rows t).lookup k = t.lookup k := by
  induction rows generalizing t with
  | nil => rfl
  | cons row rest ih =>
      simp only [List.map_cons, List.mem_cons, not_or] at h
      exact (ih h.2 _).trans (AList.lookup_insert_ne h.1)

theorem lookup_insertAll_of_mem {rows : List (κ × ν)} (hnodup : (rows.map Prod.fst).Nodup)
    {k : κ} {v : ν} (h : (k, v) ∈ rows) (t : Keyed κ ν) :
    (insertAll rows t).lookup k = some v := by
  induction rows generalizing t with
  | nil => cases h
  | cons row rest ih =>
      rw [List.map_cons, List.nodup_cons] at hnodup
      rcases List.mem_cons.mp h with rfl | hrest
      · exact (lookup_insertAll_of_notMem hnodup.1 _).trans (AList.lookup_insert _)
      · exact ih hnodup.2 hrest _

theorem total_insertAll (w : ν → Nat) {rows : List (κ × ν)}
    (hnodup : (rows.map Prod.fst).Nodup) (t : Keyed κ ν) :
    (total w (insertAll rows t) : Int) = total w t +
      (rows.map fun row => (w row.2 : Int) - ((t.lookup row.1).map w).getD 0).sum := by
  induction rows generalizing t with
  | nil => simp [insertAll]
  | cons row rest ih =>
      rw [List.map_cons, List.nodup_cons] at hnodup
      have hinsert := total_insert w t row.1 row.2
      -- the rest of the rows has other keys, so it shadows the same rows of `t`
      have hrest : (rest.map fun r =>
            (w r.2 : Int) - (((t.insert row.1 row.2).lookup r.1).map w).getD 0) =
          rest.map fun r => (w r.2 : Int) - ((t.lookup r.1).map w).getD 0 := by
        apply List.map_congr_left
        intro r hr
        have hne : r.1 ≠ row.1 := by
          intro heq
          exact hnodup.1 (List.mem_map.mpr ⟨r, hr, heq⟩)
        rw [AList.lookup_insert_ne hne]
      rw [show insertAll (row :: rest) t = insertAll rest (t.insert row.1 row.2) from rfl,
        ih hnodup.2, hrest, List.map_cons, List.sum_cons]
      omega

/-! ## Predicates on every row -/

/-- Every row of a table satisfies `P`. -/
def All (P : κ → ν → Prop) (t : Keyed κ ν) : Prop := ∀ k v, t.lookup k = some v → P k v

variable {P : κ → ν → Prop} {t : Keyed κ ν}

theorem all_empty (P : κ → ν → Prop) : All P (∅ : Keyed κ ν) := by
  intro k v h
  simp at h

theorem All.imp {Q : κ → ν → Prop} (h : All P t) (himp : ∀ k v, P k v → Q k v) : All Q t :=
  fun k v hrow => himp k v (h k v hrow)

theorem All.insert (h : All P t) {k : κ} {v : ν} (hv : P k v) : All P (t.insert k v) := by
  intro k' v' hrow
  rw [lookup_insert_eq] at hrow
  split at hrow
  · cases hrow
    subst_vars
    exact hv
  · exact h k' v' hrow

theorem All.orInsert (h : All P t) {k : κ} {v : ν} (hv : P k v) : All P (t.orInsert k v) := by
  rw [Keyed.orInsert]
  split
  · exact h
  · exact h.insert hv

theorem All.erase (h : All P t) (k : κ) : All P (t.erase k) := by
  intro k' v' hrow
  rw [lookup_erase_eq] at hrow
  split at hrow
  · cases hrow
  · exact h k' v' hrow

theorem All.eraseAll (h : All P t) (keys : List κ) : All P (t.eraseAll keys) := by
  intro k' v' hrow
  rw [lookup_eraseAll] at hrow
  split at hrow
  · cases hrow
  · exact h k' v' hrow

theorem All.retain (h : All P t) (p : κ → Bool) : All P (t.retain p) := by
  intro k' v' hrow
  rw [lookup_retain] at hrow
  split at hrow
  · exact h k' v' hrow
  · cases hrow

theorem All.insertAll (h : All P t) {rows : List (κ × ν)} (hrows : ∀ row ∈ rows, P row.1 row.2) :
    All P (t.insertAll rows) := by
  induction rows generalizing t with
  | nil => exact h
  | cons row rest ih =>
      exact ih (h.insert (hrows row (by simp))) fun r hr => hrows r (by simp [hr])

theorem lookup_eq_none_iff_all {k : κ} :
    t.lookup k = none ↔ t.All fun k' _ => k' ≠ k := by
  constructor
  · rintro hnone _ v hrow rfl
    simp [hnone] at hrow
  · intro hall
    cases hrow : t.lookup k with
    | none => rfl
    | some v => exact absurd rfl (hall k v hrow)

end Keyed

end ImportLens.Support
