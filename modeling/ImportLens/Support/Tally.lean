import ImportLens.Support.SortedDedup
import Mathlib.Data.List.Induction

/-!
# Tallies in key order

An ordered map is the list of its entries by increasing key.  A loop that updates the entry
of each item's key, and opens it where there is none, makes one entry for each key there is:
the loop over the items of that key alone.
-/

namespace ImportLens.Support

variable {κ γ α : Type} [LinearOrder κ]

def upsert (key : κ) (fresh : γ) (update : γ → γ) : List (κ × γ) → List (κ × γ)
  | [] => [(key, update fresh)]
  | (k, value) :: rest =>
      if key < k then (key, update fresh) :: (k, value) :: rest
      else if key = k then (k, update value) :: rest
      else (k, value) :: upsert key fresh update rest

def tally (key : α → κ) (fresh : κ → γ) (add : γ → α → γ) (items : List α) : List (κ × γ) :=
  items.foldl (fun entries item => upsert (key item) (fresh (key item)) (add · item) entries) []

def Ordered (entries : List (κ × γ)) : Prop := (entries.map Prod.fst).Pairwise (· < ·)

variable {entries others : List (κ × γ)} {key k : κ} {fresh : γ} {update : γ → γ}

theorem Ordered.lookup_head {value : γ} (h : Ordered ((k, value) :: entries)) :
    entries.lookup k = none := by
  rw [List.lookup_eq_none_iff]
  intro entry hentry
  have hlt := (List.pairwise_cons.mp h).1 entry.1 (List.mem_map_of_mem hentry)
  exact bne_iff_ne.mpr hlt.ne

theorem Ordered.lookup_eq_none (h : Ordered ((k, fresh) :: entries)) (hlt : key < k) :
    ((k, fresh) :: entries).lookup key = none := by
  rw [List.lookup_eq_none_iff]
  intro entry hentry
  rcases List.mem_cons.mp hentry with rfl | hentry
  · exact bne_iff_ne.mpr hlt.ne
  · have hrest := (List.pairwise_cons.mp h).1 entry.1 (List.mem_map_of_mem hentry)
    exact bne_iff_ne.mpr (hlt.trans hrest).ne

theorem mem_keys_upsert :
    k ∈ (upsert key fresh update entries).map Prod.fst ↔ k = key ∨ k ∈ entries.map Prod.fst := by
  induction entries with
  | nil => simp [upsert]
  | cons entry rest ih =>
    obtain ⟨first, value⟩ := entry
    simp only [upsert]
    split
    · simp
    · split
      · rename_i heq
        simp [heq]
      · simp only [List.map_cons, List.mem_cons, ih]
        tauto

theorem Ordered.upsert (h : Ordered entries) : Ordered (upsert key fresh update entries) := by
  induction entries with
  | nil => exact List.pairwise_singleton _ _
  | cons entry rest ih =>
    obtain ⟨first, value⟩ := entry
    obtain ⟨hfirst, hrest⟩ := List.pairwise_cons.mp h
    simp only [Support.upsert]
    split
    · rename_i hlt
      refine List.pairwise_cons.mpr ⟨?_, h⟩
      intro k hk
      rcases List.mem_cons.mp hk with rfl | hk
      · exact hlt
      · exact hlt.trans (hfirst k hk)
    · rename_i hge
      split
      · exact h
      · rename_i hne
        refine List.pairwise_cons.mpr ⟨?_, ih hrest⟩
        intro k hk
        rcases mem_keys_upsert.mp hk with rfl | hk
        · exact lt_of_le_of_ne (not_lt.mp hge) (Ne.symm hne)
        · exact hfirst k hk

theorem Ordered.lookup_upsert (h : Ordered entries) (k : κ) :
    (Support.upsert key fresh update entries).lookup k =
      if k = key then some (update ((entries.lookup key).getD fresh)) else entries.lookup k := by
  induction entries with
  | nil =>
    simp only [Support.upsert, List.lookup_cons, List.lookup_nil, Option.getD_none]
    split <;> split <;> simp_all
  | cons entry rest ih =>
    obtain ⟨first, value⟩ := entry
    have hrest : Ordered rest := (List.pairwise_cons.mp h).2
    simp only [Support.upsert]
    split
    · rename_i hlt
      rw [h.lookup_eq_none hlt, List.lookup_cons]
      by_cases hk : k = key
      · simp [hk]
      · simp [hk, beq_false_of_ne hk]
    · split
      · rename_i heq
        subst heq
        by_cases hk : k = key
        · simp [hk]
        · simp [hk, List.lookup_cons, beq_false_of_ne hk]
      · rename_i hne
        rw [List.lookup_cons, ih hrest]
        by_cases hk : k = key
        · subst hk
          simp [List.lookup_cons, beq_false_of_ne hne]
        · by_cases hfirst : k = first
          · simp [hfirst, Ne.symm hne]
          · simp [hk, List.lookup_cons, beq_false_of_ne hfirst]

theorem Ordered.ext (h : Ordered entries) (h' : Ordered others)
    (hlookup : ∀ k, entries.lookup k = others.lookup k) : entries = others := by
  induction entries generalizing others with
  | nil =>
    cases others with
    | nil => rfl
    | cons other rest =>
      have hat := hlookup other.1
      rw [List.lookup_nil, List.lookup_cons_self] at hat
      cases hat
  | cons entry rest ih =>
    obtain ⟨k, value⟩ := entry
    cases others with
    | nil =>
      have hat := hlookup k
      rw [List.lookup_nil, List.lookup_cons_self] at hat
      cases hat
    | cons other rest' =>
      obtain ⟨k', value'⟩ := other
      have hkeys : k = k' := by
        rcases lt_trichotomy k k' with hlt | heq | hlt
        · have hat := hlookup k
          rw [h'.lookup_eq_none hlt, List.lookup_cons_self] at hat
          cases hat
        · exact heq
        · have hat := hlookup k'
          rw [h.lookup_eq_none hlt, List.lookup_cons_self] at hat
          cases hat
      subst hkeys
      have hvalue : value = value' := by simpa using hlookup k
      rw [hvalue, ih (List.pairwise_cons.mp h).2 (List.pairwise_cons.mp h').2]
      intro key
      by_cases hkey : key = k
      · rw [hkey, h.lookup_head, h'.lookup_head]
      · simpa [List.lookup_cons, beq_false_of_ne hkey] using hlookup key

theorem lookup_map_self (keys : List κ) (f : κ → γ) (k : κ) :
    (keys.map fun k => (k, f k)).lookup k = if k ∈ keys then some (f k) else none := by
  induction keys with
  | nil => rfl
  | cons first rest ih =>
    rw [List.map_cons, List.lookup_cons]
    by_cases hk : k = first
    · simp [hk]
    · simp [hk, beq_false_of_ne hk, ih]

section

variable {key : α → κ} {fresh : κ → γ} {add : γ → α → γ}

theorem tally_concat (items : List α) (item : α) :
    tally key fresh add (items ++ [item]) =
      upsert (key item) (fresh (key item)) (add · item) (tally key fresh add items) := by
  rw [tally, List.foldl_append]
  rfl

theorem ordered_tally (items : List α) : Ordered (tally key fresh add items) := by
  induction items using List.reverseRecOn with
  | nil => exact .nil
  | append_singleton items item ih =>
    rw [tally_concat]
    exact ih.upsert

theorem lookup_tally (items : List α) (k : κ) :
    (tally key fresh add items).lookup k =
      if k ∈ items.map key then
        some ((items.filter fun item => key item = k).foldl add (fresh k))
      else none := by
  induction items using List.reverseRecOn with
  | nil => rfl
  | append_singleton items item ih =>
    rw [tally_concat, (ordered_tally items).lookup_upsert, ih, List.map_append, List.filter_append]
    by_cases hk : k = key item
    · subst hk
      have hone : [item].filter (fun other => decide (key other = key item)) = [item] := by simp
      have hmem : key item ∈ items.map key ++ [item].map key := by simp
      rw [if_pos rfl, if_pos hmem, hone, List.foldl_append, ih]
      split
      · rfl
      · rename_i hnone
        have hempty : items.filter (fun other => decide (key other = key item)) = [] := by
          rw [List.filter_eq_nil_iff]
          intro other hother heq
          exact hnone (List.mem_map.mpr ⟨other, hother, of_decide_eq_true heq⟩)
        rw [hempty]
        rfl
    · have hempty : [item].filter (fun other => decide (key other = k)) = [] := by
        simp [Ne.symm hk]
      have hmem : k ∈ items.map key ++ [item].map key ↔ k ∈ items.map key := by
        simp [hk]
      simp only [if_neg hk, hempty, List.append_nil, hmem]

theorem tally_eq (items : List α) :
    tally key fresh add items = (sortDedup (items.map key)).map fun k =>
      (k, (items.filter fun item => key item = k).foldl add (fresh k)) := by
  apply (ordered_tally items).ext
  · rw [Ordered, List.map_map]
    exact (List.map_id _).symm ▸ sortDedup_pairwise _
  · intro k
    rw [lookup_tally, lookup_map_self]
    simp only [mem_sortDedup]

end

end ImportLens.Support
