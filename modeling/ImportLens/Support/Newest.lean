import ImportLens.Support.Keyed

/-!
# Newest rows win

Tables whose values carry an age.  One table covers another when it has, for each
of the other's rows, a row under the same key that is at least as new.  Covering
is a preorder, and a merge that keeps the newer row of each key covers both of
its sides and invents no row.
-/

namespace ImportLens.Support.Keyed

variable {κ ν : Type} [DecidableEq κ]

/-- `u` has a row at least as new for every row of `t`. -/
def Covers (age : ν → Nat) (u t : Keyed κ ν) : Prop :=
  ∀ k v, t.lookup k = some v → ∃ w, u.lookup k = some w ∧ age v ≤ age w

instance (age : ν → Nat) (u t : Keyed κ ν) : Decidable (Covers age u t) :=
  decidable_of_iff
    (∀ row ∈ t.rows, (u.lookup row.1).any fun w => decide (age row.2 ≤ age w)) (by
      constructor
      · intro h k v hv
        have hrow := h (k, v) (mem_rows.mpr hv)
        cases hw : u.lookup k with
        | none => simp [hw] at hrow
        | some w => exact ⟨w, rfl, by simpa [hw] using hrow⟩
      · intro h row hrow
        obtain ⟨w, hw, hle⟩ := h row.1 row.2 (mem_rows.mp hrow)
        simpa [hw] using hle)

def mergeRow (age : ν → Nat) (ours : Keyed κ ν) (row : κ × ν) : Keyed κ ν :=
  if (ours.lookup row.1).any fun v => decide (age row.2 ≤ age v) then ours
  else ours.insert row.1 row.2

/-- Merge all rows of `theirs` into `ours`. -/
def mergeNewest (age : ν → Nat) (ours theirs : Keyed κ ν) : Keyed κ ν :=
  theirs.rows.foldl (mergeRow age) ours

variable {age : ν → Nat} {t u w : Keyed κ ν}

theorem Covers.refl (age : ν → Nat) (t : Keyed κ ν) : Covers age t t :=
  fun _ v h => ⟨v, h, Nat.le_refl _⟩

theorem Covers.trans (h : Covers age w u) (h' : Covers age u t) : Covers age w t := by
  intro k v hv
  obtain ⟨v', hv', hle⟩ := h' k v hv
  obtain ⟨v'', hv'', hle'⟩ := h k v' hv'
  exact ⟨v'', hv'', hle.trans hle'⟩

theorem covers_empty (age : ν → Nat) (t : Keyed κ ν) : Covers age t ∅ := by
  intro k v h
  simp at h

theorem covers_of_all (h : u.All fun k v => t.lookup k = some v) : Covers age t u :=
  fun k v hv => ⟨v, h k v hv, Nat.le_refl _⟩

theorem covers_mergeRow (age : ν → Nat) (ours : Keyed κ ν) (row : κ × ν) :
    Covers age (mergeRow age ours row) ours := by
  intro k v hv
  unfold mergeRow
  split
  · exact ⟨v, hv, Nat.le_refl _⟩
  · rename_i hnewer
    by_cases hk : k = row.1
    · subst hk
      refine ⟨row.2, AList.lookup_insert _, ?_⟩
      rw [hv] at hnewer
      simp only [Option.any_some, decide_eq_true_eq] at hnewer
      omega
    · exact ⟨v, by rw [lookup_insert_eq, if_neg hk, hv], Nat.le_refl _⟩

theorem mergeRow_has (age : ν → Nat) (ours : Keyed κ ν) (row : κ × ν) :
    ∃ v, (mergeRow age ours row).lookup row.1 = some v ∧ age row.2 ≤ age v := by
  unfold mergeRow
  split
  · rename_i hkeep
    cases hv : ours.lookup row.1 with
    | none => simp [hv] at hkeep
    | some v => exact ⟨v, rfl, by simpa [hv] using hkeep⟩
  · exact ⟨row.2, AList.lookup_insert _, Nat.le_refl _⟩

theorem covers_foldl_mergeRow (age : ν → Nat) (rows : List (κ × ν)) (ours : Keyed κ ν) :
    Covers age (rows.foldl (mergeRow age) ours) ours := by
  induction rows generalizing ours with
  | nil => exact .refl age ours
  | cons row rest ih => exact (ih (mergeRow age ours row)).trans (covers_mergeRow age ours row)

theorem foldl_mergeRow_has {rows : List (κ × ν)} {row : κ × ν} (h : row ∈ rows)
    (ours : Keyed κ ν) :
    ∃ v, (rows.foldl (mergeRow age) ours).lookup row.1 = some v ∧ age row.2 ≤ age v := by
  induction rows generalizing ours with
  | nil => cases h
  | cons head rest ih =>
      obtain rfl | hrest := List.mem_cons.mp h
      · obtain ⟨v, hv, hle⟩ := mergeRow_has age ours row
        obtain ⟨v', hv', hle'⟩ :=
          covers_foldl_mergeRow age rest (mergeRow age ours row) row.1 v hv
        exact ⟨v', hv', hle.trans hle'⟩
      · exact ih hrest (mergeRow age ours head)

theorem covers_mergeNewest_left (age : ν → Nat) (ours theirs : Keyed κ ν) :
    Covers age (mergeNewest age ours theirs) ours :=
  covers_foldl_mergeRow age theirs.rows ours

theorem covers_mergeNewest_right (age : ν → Nat) (ours theirs : Keyed κ ν) :
    Covers age (mergeNewest age ours theirs) theirs :=
  fun _ _ hv => foldl_mergeRow_has (mem_rows.mpr hv) ours

theorem All.mergeNewest {P : κ → ν → Prop} {ours theirs : Keyed κ ν} (hours : ours.All P)
    (htheirs : theirs.All P) : (mergeNewest age ours theirs).All P := by
  have hfold : ∀ (rows : List (κ × ν)) (ours : Keyed κ ν), ours.All P →
      (∀ row ∈ rows, P row.1 row.2) → (rows.foldl (mergeRow age) ours).All P := by
    intro rows
    induction rows with
    | nil => exact fun _ h _ => h
    | cons row rest ih =>
        intro ours h hrows
        refine ih _ ?_ fun r hr => hrows r (List.mem_cons_of_mem _ hr)
        unfold mergeRow
        split
        · exact h
        · exact h.insert (hrows row List.mem_cons_self)
  exact hfold theirs.rows ours hours fun row hrow => htheirs row.1 row.2 (mem_rows.mp hrow)

end ImportLens.Support.Keyed
