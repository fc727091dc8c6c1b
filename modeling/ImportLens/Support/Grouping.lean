import ImportLens.Support.Keyed

/-!
# Grouping under keys

Items are collected into groups, one for each key, and the groups stand in the order
in which they were opened; a map holds the place of each key's group.  If the map is
exact, a group is found under its key, no key has two groups, and an update is seen
under its own key only.
-/

namespace ImportLens.Support

variable {κ γ : Type} [DecidableEq κ]

structure Groups (κ γ : Type) [DecidableEq κ] where
  groups : List γ := []
  indexes : Keyed κ Nat := ∅

namespace Groups

def upsert (s : Groups κ γ) (key : κ) (fresh : γ) (update : γ → γ) : Groups κ γ :=
  match s.indexes.lookup key with
  | some index => { s with groups := s.groups.modify index update }
  | none =>
      { groups := (s.groups ++ [fresh]).modify s.groups.length update
        indexes := s.indexes.insert key s.groups.length }

def contains (s : Groups κ γ) (key : κ) : Bool := (s.indexes.lookup key).isSome

def find (s : Groups κ γ) (key : κ) : Option γ :=
  (s.indexes.lookup key).bind fun index => s.groups[index]?

/-- The map names the place of every group, and no other place. -/
def Indexed (keyOf : γ → κ) (s : Groups κ γ) : Prop :=
  ∀ key index, s.indexes.lookup key = some index ↔
    ∃ group, s.groups[index]? = some group ∧ keyOf group = key

variable {s : Groups κ γ} {keyOf : γ → κ} {key k : κ} {fresh : γ} {update : γ → γ}

theorem indexed_empty (keyOf : γ → κ) : Indexed keyOf ({} : Groups κ γ) := by
  intro key index
  simp

theorem groups_upsert_of_none (h : s.indexes.lookup key = none) :
    (s.upsert key fresh update).groups = s.groups ++ [update fresh] := by
  simp [upsert, h, List.modify_eq_take_drop]

theorem Indexed.upsert (h : Indexed keyOf s) (hfresh : keyOf fresh = key)
    (hupdate : ∀ group, keyOf (update group) = keyOf group) :
    Indexed keyOf (s.upsert key fresh update) := by
  intro k index
  cases hkey : s.indexes.lookup key with
  | some place =>
      have hgroups : (s.upsert key fresh update) =
          { s with groups := s.groups.modify place update } := by
        simp [Groups.upsert, hkey]
      rw [hgroups, h k index]
      simp only [List.getElem?_modify]
      cases hat : s.groups[index]? with
      | none => simp
      | some group =>
          by_cases hplace : place = index
          · simp [hplace, hupdate]
          · simp [hplace]
  | none =>
      have hlookup : (s.upsert key fresh update).indexes.lookup k =
          if k = key then some s.groups.length else s.indexes.lookup k := by
        simp [Groups.upsert, hkey, Keyed.lookup_insert_eq]
      rw [hlookup, groups_upsert_of_none hkey, List.getElem?_append]
      by_cases hlt : index < s.groups.length
      · rw [if_pos hlt]
        by_cases hk : k = key
        · subst hk
          have hnone : s.indexes.lookup k ≠ some index := by simp [hkey]
          rw [if_pos rfl, ← h k index]
          simp only [hkey, reduceCtorEq, iff_false, Option.some.injEq]
          omega
        · rw [if_neg hk]
          exact h k index
      · rw [if_neg hlt]
        have hfar : s.indexes.lookup k ≠ some index := by
          rw [ne_eq, h k index, List.getElem?_eq_none (Nat.le_of_not_lt hlt)]
          simp
        by_cases hplace : index = s.groups.length
        · subst hplace
          simp only [Nat.sub_self, List.getElem?_cons_zero, Option.some.injEq, exists_eq_left',
            hupdate, hfresh]
          by_cases hk : k = key
          · simp [hk]
          · simp [hk, hfar, Ne.symm hk]
        · rw [List.getElem?_eq_none (by simp; omega)]
          by_cases hk : k = key
          · simp [hk, Ne.symm hplace]
          · simp [hk, hfar]

theorem Indexed.find_upsert (h : Indexed keyOf s) :
    (s.upsert key fresh update).find k =
      if k = key then some (update ((s.find key).getD fresh)) else s.find k := by
  cases hkey : s.indexes.lookup key with
  | some place =>
      obtain ⟨group, hgroup, hgroupKey⟩ := (h key place).mp hkey
      simp only [find, Groups.upsert, hkey, Option.bind_some, hgroup, Option.getD_some]
      by_cases hk : k = key
      · subst hk
        simp [hkey, hgroup]
      · cases hother : s.indexes.lookup k with
        | none => simp [hk]
        | some index =>
            have hne : place ≠ index := by
              rintro rfl
              obtain ⟨group', hgroup', hkey'⟩ := (h k place).mp hother
              rw [hgroup] at hgroup'
              cases hgroup'
              exact hk (hkey'.symm.trans hgroupKey)
            simp [hk, hne]
  | none =>
      rw [find, groups_upsert_of_none hkey]
      simp only [Groups.upsert, hkey, Keyed.lookup_insert_eq, find, Option.bind_none,
        Option.getD_none]
      by_cases hk : k = key
      · simp [hk]
      · simp only [hk, if_false]
        cases hother : s.indexes.lookup k with
        | none => rfl
        | some index =>
            obtain ⟨group, hgroup, _⟩ := (h k index).mp hother
            have hlt := (List.getElem?_eq_some_iff.mp hgroup).1
            simp [List.getElem?_append_left hlt]

theorem forall_mem_upsert {P : γ → Prop} (h : ∀ group ∈ s.groups, P group) (hfresh : P fresh)
    (hupdate : ∀ group, P group → P (update group)) :
    ∀ group ∈ (s.upsert key fresh update).groups, P group := by
  cases hkey : s.indexes.lookup key with
  | some place =>
      intro group hgroup
      simp only [Groups.upsert, hkey] at hgroup
      obtain ⟨index, hindex⟩ := List.mem_iff_getElem?.mp hgroup
      rw [List.getElem?_modify] at hindex
      obtain ⟨old, hold, rfl⟩ := Option.map_eq_some_iff.mp hindex
      have hP := h old (List.mem_of_getElem? hold)
      split
      · exact hupdate old hP
      · exact hP
  | none =>
      intro group hgroup
      rw [groups_upsert_of_none hkey, List.mem_append, List.mem_singleton] at hgroup
      obtain hold | rfl := hgroup
      · exact h group hold
      · exact hupdate fresh hfresh

theorem Indexed.contains_iff (h : Indexed keyOf s) (key : κ) :
    s.contains key = (s.find key).isSome := by
  rw [contains, find]
  cases hkey : s.indexes.lookup key with
  | none => rfl
  | some index =>
      obtain ⟨group, hgroup, _⟩ := (h key index).mp hkey
      simp [hgroup]

theorem filter_eq_singleton {p : γ → Bool} {l : List γ} {i : Nat} {group : γ}
    (hat : l[i]? = some group) (hp : p group = true)
    (honly : ∀ j other, l[j]? = some other → p other = true → j = i) : l.filter p = [group] := by
  induction l generalizing i with
  | nil => cases hat
  | cons first rest ih =>
      cases i with
      | zero =>
          cases hat
          have hrest : rest.filter p = [] := by
            rw [List.filter_eq_nil_iff]
            intro other hmem hother
            obtain ⟨j, hj⟩ := List.mem_iff_getElem?.mp hmem
            cases honly (j + 1) other hj hother
          rw [List.filter_cons_of_pos hp, hrest]
      | succ i =>
          have hfirst : ¬ p first = true := fun h => by cases honly 0 first rfl h
          rw [List.filter_cons_of_neg hfirst]
          exact ih hat fun j other hj hother => Nat.succ.inj (honly (j + 1) other hj hother)

theorem Indexed.filter_key (h : Indexed keyOf s) (key : κ) :
    s.groups.filter (fun group => keyOf group = key) = (s.find key).toList := by
  have hat : ∀ j other, s.groups[j]? = some other → decide (keyOf other = key) = true →
      s.indexes.lookup key = some j :=
    fun j other hj hother => (h key j).mpr ⟨other, hj, of_decide_eq_true hother⟩
  cases hkey : s.indexes.lookup key with
  | none =>
      rw [find, hkey, Option.bind_none, Option.toList_none, List.filter_eq_nil_iff]
      intro other hmem hother
      obtain ⟨j, hj⟩ := List.mem_iff_getElem?.mp hmem
      rw [hat j other hj hother] at hkey
      cases hkey
  | some index =>
      obtain ⟨group, hgroup, hgroupKey⟩ := (h key index).mp hkey
      rw [find, hkey, Option.bind_some, hgroup, Option.toList_some]
      refine filter_eq_singleton hgroup (decide_eq_true hgroupKey) fun j other hj hother => ?_
      have hplace := hat j other hj hother
      rw [hkey] at hplace
      exact (Option.some.inj hplace).symm

end Groups

/-! ## Sorted names -/

def dedup {α : Type} [DecidableEq α] : List α → List α
  | [] => []
  | [a] => [a]
  | a :: b :: l => if a = b then dedup (b :: l) else a :: dedup (b :: l)

section

variable {α : Type} [DecidableEq α] {l : List α}

theorem mem_dedup {a : α} : a ∈ dedup l ↔ a ∈ l := by
  fun_induction dedup l with
  | case1 => rfl
  | case2 b => rfl
  | case3 b l ih => simp [ih]
  | case4 b c l hne ih => rw [List.mem_cons, ih, List.mem_cons (l := c :: l)]

theorem pairwise_dedup {le : α → α → Prop} (hanti : ∀ a b, le a b → le b a → a = b)
    (h : l.Pairwise le) : (dedup l).Pairwise fun a b => le a b ∧ a ≠ b := by
  fun_induction dedup l with
  | case1 => exact .nil
  | case2 a => exact List.pairwise_singleton _ a
  | case3 b l ih => exact ih h.tail
  | case4 a b l hne ih =>
      rw [List.pairwise_cons] at h
      refine List.pairwise_cons.mpr ⟨fun c hc => ?_, ih h.2⟩
      have hmem := mem_dedup.mp hc
      refine ⟨h.1 c hmem, ?_⟩
      rintro rfl
      obtain rfl | hlater := List.mem_cons.mp hmem
      · exact hne rfl
      · have hback := (List.pairwise_cons.mp h.2).1 a hlater
        exact hne (hanti a b (h.1 b List.mem_cons_self) hback)

end

end ImportLens.Support
