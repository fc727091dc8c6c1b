import ImportLens.Extension.PackageJsonRuns
import Mathlib.Data.List.Nodup

/-!
# Which version a registry hint was judged against

The daemon judges a hint against the version that is installed, and sends the two in
one row.  The extension carries a hint over from row to row as long as neither version is
known to differ.  An unknown version agrees with every other, so the rule is not
transitive: what keeps a hint with its version is that the next known version is the last
one again.
-/

namespace ImportLens.Extension.PackageJson

open ImportLens.Support ImportLens.Daemon

/-! ## Rows of one dependency -/

def SameDependency (a b : DependencyState) : Prop :=
  a.sectionName = b.sectionName ∧ a.name = b.name

instance (a b : DependencyState) : Decidable (SameDependency a b) :=
  inferInstanceAs (Decidable (_ ∧ _))

theorem SameDependency.symm {a b : DependencyState} (h : SameDependency a b) :
    SameDependency b a :=
  ⟨h.1.symm, h.2.symm⟩

theorem SameDependency.trans {a b c : DependencyState} (h : SameDependency a b)
    (h' : SameDependency b c) : SameDependency a c :=
  ⟨h.1.trans h'.1, h.2.trans h'.2⟩

theorem text_no_newline (sectionName : DependencySectionName) :
    ∀ c ∈ sectionName.text.toList, c ≠ '\n' := by
  have hall : sectionName.text.toList.all (· != '\n') = true := by
    cases sectionName <;> decide
  intro c hc
  exact bne_iff_ne.mp (List.all_eq_true.mp hall c hc)

theorem text_injective {a b : DependencySectionName} (h : a.text.toList = b.text.toList) :
    a = b := by
  cases a <;> cases b <;> first | rfl | exact absurd h (by decide)

theorem dependencyIdentityKey_eq_iff {a b : DependencyState} :
    dependencyIdentityKey a = dependencyIdentityKey b ↔ SameDependency a b := by
  constructor
  · intro h
    have hchars : a.sectionName.text.toList ++ '\n' :: a.name.toList =
        b.sectionName.text.toList ++ '\n' :: b.name.toList := by
      have htext := congrArg String.toList h
      simpa [dependencyIdentityKey, String.toList_append] using htext
    have hhead : ∀ (chars rest : List Char), (∀ c ∈ chars, c ≠ '\n') →
        (chars ++ '\n' :: rest).takeWhile (fun c => c ≠ '\n') = chars := by
      intro chars rest hnone
      rw [List.takeWhile_append_of_pos (by simpa using hnone)]
      simp
    have hsection : a.sectionName.text.toList = b.sectionName.text.toList := by
      rw [← hhead _ a.name.toList (text_no_newline a.sectionName), hchars,
        hhead _ _ (text_no_newline b.sectionName)]
    refine ⟨text_injective hsection, ?_⟩
    rw [hsection] at hchars
    exact String.toList_inj.mp (List.cons.inj (List.append_cancel_left hchars)).2
  · rintro ⟨hsection, hname⟩
    rw [dependencyIdentityKey, dependencyIdentityKey, hsection, hname]

/-! ## What some rows say of a dependency -/

def lastKnownVersion (applied : List DependencyState) (row : DependencyState) : Option String :=
  ((applied.filter fun other => SameDependency other row).filterMap
    DependencyState.installedVersion).getLast?

/-- One of the rows brought this hint with this version. -/
def Judged (applied : List DependencyState) (row : DependencyState) (version : String)
    (hint : RegistryHint) : Prop :=
  ∃ arrived ∈ applied, SameDependency arrived row ∧ arrived.installedVersion = some version ∧
    arrived.registryHint = some hint

/-- Every hint that is shown beside a known version was judged against it. -/
def HintsStay (applied states : List DependencyState) : Prop :=
  ∀ row ∈ states, ∀ version ∈ row.installedVersion, ∀ hint ∈ row.registryHint,
    Judged applied row version hint

instance (applied : List DependencyState) (row : DependencyState) (version : String)
    (hint : RegistryHint) : Decidable (Judged applied row version hint) :=
  inferInstanceAs (Decidable (∃ arrived ∈ applied, _))

instance (applied states : List DependencyState) : Decidable (HintsStay applied states) :=
  inferInstanceAs (Decidable (∀ row ∈ states, _))

section

variable {applied applied' : List DependencyState} {row row' incoming : DependencyState}
variable {version : String} {hint : RegistryHint}

theorem Judged.mono (h : Judged applied row version hint) (hsub : applied ⊆ applied')
    (hsame : SameDependency row row') : Judged applied' row' version hint := by
  obtain ⟨arrived, hmem, hdependency, hversion, hhint⟩ := h
  exact ⟨arrived, hsub hmem, hdependency.trans hsame, hversion, hhint⟩

theorem lastKnownVersion_congr (h : SameDependency row row') (applied : List DependencyState) :
    lastKnownVersion applied row = lastKnownVersion applied row' := by
  have hfilter : (applied.filter fun other => SameDependency other row) =
      applied.filter fun other => SameDependency other row' := by
    apply List.filter_congr
    intro other _
    rw [decide_eq_decide]
    exact ⟨fun hother => hother.trans h, fun hother => hother.trans h.symm⟩
  rw [lastKnownVersion, lastKnownVersion, hfilter]

theorem lastKnownVersion_append (applied more : List DependencyState) (row : DependencyState) :
    lastKnownVersion (applied ++ more) row =
      (lastKnownVersion more row).or (lastKnownVersion applied row) := by
  rw [lastKnownVersion, List.filter_append, List.filterMap_append, List.getLast?_append]
  rfl

theorem lastKnownVersion_others {more : List DependencyState}
    (h : ∀ other ∈ more, ¬ SameDependency other row) :
    lastKnownVersion (applied ++ more) row = lastKnownVersion applied row := by
  have hnone : (more.filter fun other => SameDependency other row) = [] := by
    rw [List.filter_eq_nil_iff]
    simpa using h
  rw [lastKnownVersion_append, lastKnownVersion, hnone]
  rfl

def identity (row : DependencyState) : DependencySectionName × String :=
  (row.sectionName, row.name)

def entryIdentity (entry : DependencyEntry) : DependencySectionName × String :=
  (entry.sectionName, entry.name)

theorem identity_eq_iff : identity row = identity row' ↔ SameDependency row row' := by
  rw [identity, identity, Prod.mk.injEq, SameDependency]

theorem lastKnownVersion_distinct {more : List DependencyState}
    (hdistinct : (more.map identity).Nodup) (hmem : incoming ∈ more) :
    lastKnownVersion (applied ++ more) incoming =
      incoming.installedVersion.or (lastKnownVersion applied incoming) := by
  obtain ⟨before, after, rfl⟩ := List.append_of_mem hmem
  rw [List.map_append, List.map_cons, List.nodup_append] at hdistinct
  obtain ⟨-, hafter, hbefore⟩ := hdistinct
  have hnone : ∀ other ∈ after, ¬ SameDependency other incoming := by
    intro other hother hsame
    apply (List.nodup_cons.mp hafter).1
    rw [← identity_eq_iff.mpr hsame]
    exact List.mem_map_of_mem hother
  have hone : lastKnownVersion [incoming] incoming = incoming.installedVersion := by
    have hself : SameDependency incoming incoming := ⟨rfl, rfl⟩
    cases hversion : incoming.installedVersion with
    | none => simp [lastKnownVersion, hself, hversion]
    | some version => simp [lastKnownVersion, hself, hversion]
  have hfirst : ∀ other ∈ before, ¬ SameDependency other incoming := by
    intro other hother hsame
    exact hbefore _ (List.mem_map_of_mem hother) _ List.mem_cons_self (identity_eq_iff.mpr hsame)
  rw [← List.append_assoc, List.append_cons, lastKnownVersion_others hnone,
    lastKnownVersion_append, hone, lastKnownVersion_others hfirst]

end

/-! ## Merging one row -/

def eligible (privateScopes : List String) (row : DependencyState) : Bool :=
  isPublicRegistryDependency row.name row.entry.version privateScopes

/-- A row that brings a version and no hint, or an older one, onto a stored row with a hint
and no version, brings the version that was last known. -/
def RowAgrees (privateScopes : List String) (applied states : List DependencyState)
    (incoming : DependencyState) : Prop :=
  eligible privateScopes incoming = true →
    ∀ current ∈ states, SameDependency current incoming → current.installedVersion = none →
      ∀ version ∈ incoming.installedVersion, ∀ hint ∈ current.registryHint,
        (∀ brought ∈ incoming.registryHint,
          brought.fetchedAt.getD 0 < hint.fetchedAt.getD 0) →
        lastKnownVersion applied current = some version

instance (privateScopes : List String) (applied states : List DependencyState)
    (incoming : DependencyState) : Decidable (RowAgrees privateScopes applied states incoming) :=
  inferInstanceAs (Decidable (_ → ∀ current ∈ states, _))

/-- A stored row, after the rows that were applied: its version is the last known one, and so
is the one its hint was judged against, when the hint is `shown`. -/
structure RowSound (applied : List DependencyState) (row : DependencyState) (shown : Prop) :
    Prop where
  version : ∀ version, row.installedVersion = some version →
    lastKnownVersion applied row = some version
  hint : shown → ∀ hint, row.registryHint = some hint →
    ∃ version, lastKnownVersion applied row = some version ∧ Judged applied row version hint

/-- A row of the daemon as it joins the rows that were applied. -/
structure Joins (applied applied' : List DependencyState) (incoming : DependencyState) : Prop where
  subset : applied ⊆ applied'
  last : lastKnownVersion applied' incoming =
    incoming.installedVersion.or (lastKnownVersion applied incoming)
  known : incoming.installedVersion = none → incoming.registryHint = none
  arrived : ∀ version hint, incoming.installedVersion = some version →
    incoming.registryHint = some hint → Judged applied' incoming version hint

section

variable {applied applied' states : List DependencyState} {current incoming row : DependencyState}
variable {privateScopes : List String} {shown : Prop}

theorem newerRegistryHint_eq_some {current incoming : Option RegistryHint} {hint : RegistryHint}
    (h : newerRegistryHint current incoming = some hint) :
    incoming = some hint ∨ current = some hint ∧ ∀ brought, incoming = some brought →
      brought.fetchedAt.getD 0 < hint.fetchedAt.getD 0 := by
  cases incoming with
  | none => exact .inr ⟨h, fun _ hbrought => by cases hbrought⟩
  | some brought =>
    cases current with
    | none => exact .inl h
    | some held =>
      simp only [newerRegistryHint] at h
      by_cases holder : held.fetchedAt.getD 0 > brought.fetchedAt.getD 0
      · rw [if_pos holder] at h
        refine .inr ⟨h, fun other hother => ?_⟩
        rw [← Option.some.inj h, ← Option.some.inj hother]
        exact holder
      · rw [if_neg holder] at h
        exact .inl h

theorem RowSound.congr (h : RowSound applied row shown) {row' : DependencyState}
    (hsame : SameDependency row row') (hversion : row'.installedVersion = row.installedVersion)
    {shown' : Prop}
    (hhint : shown' → ∀ hint, row'.registryHint = some hint →
      shown ∧ row.registryHint = some hint) :
    RowSound applied row' shown' := by
  constructor
  · intro version hknown
    rw [← lastKnownVersion_congr hsame]
    exact h.version version (hversion ▸ hknown)
  · intro hshown hint hheld
    obtain ⟨hbefore, hrow⟩ := hhint hshown hint hheld
    obtain ⟨version, hlast, hjudged⟩ := h.hint hbefore hint hrow
    exact ⟨version, by rw [← lastKnownVersion_congr hsame, hlast],
      hjudged.mono (List.Subset.refl _) hsame⟩

theorem RowSound.others (h : RowSound applied row shown) (hsub : applied ⊆ applied')
    (hlast : lastKnownVersion applied' row = lastKnownVersion applied row) :
    RowSound applied' row shown := by
  constructor
  · intro version hknown
    rw [hlast]
    exact h.version version hknown
  · intro hshown hint hheld
    obtain ⟨version, hknown, hjudged⟩ := h.hint hshown hint hheld
    exact ⟨version, hlast.trans hknown, hjudged.mono hsub ⟨rfl, rfl⟩⟩

theorem Joins.rowSound (h : Joins applied applied' incoming) :
    RowSound applied' incoming shown := by
  constructor
  · intro version hversion
    rw [h.last, hversion, Option.some_or]
  · intro _ hint hhint
    cases hversion : incoming.installedVersion with
    | none =>
      rw [h.known hversion] at hhint
      cases hhint
    | some version =>
      refine ⟨version, ?_, h.arrived version hint hversion hhint⟩
      rw [h.last, hversion, Option.some_or]

theorem isSameInstalledVersion_known {held brought : String}
    (h : isSameInstalledVersion current incoming = true)
    (hheld : current.installedVersion = some held)
    (hbrought : incoming.installedVersion = some brought) : held = brought := by
  rw [isSameInstalledVersion, hheld, hbrought] at h
  simpa using h

/-- A row merged onto the stored row of its dependency. -/
theorem Joins.merge (h : Joins applied applied' incoming)
    (hagrees : RowAgrees privateScopes applied states incoming) (hmem : current ∈ states)
    (hsame : SameDependency current incoming) (hsound : RowSound applied current True) :
    RowSound applied' (mergePackageJsonState (some current) incoming)
      (eligible privateScopes incoming = true) := by
  unfold mergePackageJsonState
  dsimp only
  by_cases hversions : isSameInstalledVersion current incoming = true
  · rw [if_pos hversions]
    have hrow : RowSound applied' incoming (eligible privateScopes incoming = true) := h.rowSound
    constructor
    · exact hrow.version
    · intro heligible hint hhint
      rcases newerRegistryHint_eq_some hhint with hbrought | ⟨hheld, holder⟩
      · exact hrow.hint heligible hint hbrought
      · obtain ⟨version, hlast, hjudged⟩ := hsound.hint trivial hint hheld
        refine ⟨version, ?_, hjudged.mono h.subset hsame⟩
        have hbefore : lastKnownVersion applied incoming = some version := by
          rw [← lastKnownVersion_congr hsame, hlast]
        show lastKnownVersion applied' incoming = some version
        cases hbrought : incoming.installedVersion with
        | none => rw [h.last, hbrought, Option.none_or, hbefore]
        | some brought =>
          -- The version that is brought is the one the hint was judged against.
          have hagreed : lastKnownVersion applied current = some brought := by
            cases hstored : current.installedVersion with
            | none =>
              exact hagrees heligible current hmem hsame hstored brought hbrought hint hheld holder
            | some stored =>
              rw [← isSameInstalledVersion_known hversions hstored hbrought]
              exact hsound.version stored hstored
          rw [h.last, hbrought, Option.some_or, ← hagreed, hlast]
  · rw [if_neg hversions]
    exact h.rowSound

end

/-! ## Merging the rows of a response -/

/-- A row that has moved with the edits, in all that matters to a hint. -/
structure Placed (row row' : DependencyState) : Prop where
  same : SameDependency row row'
  installedVersion : row'.installedVersion = row.installedVersion
  registryHint : row'.registryHint = row.registryHint
  eligible : ∀ privateScopes, eligible privateScopes row' = eligible privateScopes row

theorem shiftPackageJsonStates_eq_map (edits : List SourceEdit) :
    ∃ place : DependencyState → DependencyState, (∀ row, Placed row (place row)) ∧
      ∀ states, shiftPackageJsonStates states edits = states.map place := by
  by_cases hnone : edits.length = 0
  · refine ⟨id, fun row => ⟨⟨rfl, rfl⟩, rfl, rfl, fun _ => rfl⟩, fun states => ?_⟩
    rw [shiftPackageJsonStates, if_pos hnone, List.map_id]
  · refine ⟨fun row => { row with entry := shiftEntry row.entry edits }, fun row => ?_,
      fun states => ?_⟩
    · refine ⟨⟨rfl, rfl⟩, rfl, rfl, fun privateScopes => ?_⟩
      have hwords : SameWords (shiftEntry row.entry edits) row.entry :=
        SameWords.shiftEntry ⟨rfl, rfl, rfl⟩ edits
      rw [PackageJson.eligible, PackageJson.eligible, hwords.version]
    · rw [shiftPackageJsonStates, if_neg hnone]

section

variable {applied more states : List DependencyState} {incoming row row' : DependencyState}
variable {privateScopes : List String} {place : DependencyState → DependencyState}

theorem RowAgrees.placed (h : RowAgrees privateScopes applied states row)
    (hplaced : Placed row row') :
    RowAgrees privateScopes applied states row' := by
  intro heligible current hmem hsame hnone version hversion hint hhint holder
  rw [hplaced.eligible] at heligible
  rw [hplaced.installedVersion] at hversion
  rw [hplaced.registryHint] at holder
  exact h heligible current hmem (hsame.trans hplaced.same.symm) hnone version hversion hint hhint
    holder

theorem joins_distinct (hdistinct : (more.map identity).Nodup) (hmem : row ∈ more)
    (hknown : row.installedVersion = none → row.registryHint = none) (hplaced : Placed row row') :
    Joins applied (applied ++ more) row' := by
  constructor
  · exact List.subset_append_left _ _
  · rw [← lastKnownVersion_congr hplaced.same, ← lastKnownVersion_congr hplaced.same,
      lastKnownVersion_distinct hdistinct hmem, hplaced.installedVersion]
  · rw [hplaced.installedVersion, hplaced.registryHint]
    exact hknown
  · intro version hint hversion hhint
    rw [hplaced.installedVersion] at hversion
    rw [hplaced.registryHint] at hhint
    exact ⟨row, List.mem_append_right _ hmem, hplaced.same, hversion, hhint⟩

theorem mergePackageJsonState_same (current : Option DependencyState) (incoming : DependencyState) :
    SameDependency (mergePackageJsonState current incoming) incoming ∧
      ∀ privateScopes, eligible privateScopes (mergePackageJsonState current incoming) =
        eligible privateScopes incoming := by
  unfold mergePackageJsonState
  split
  · exact ⟨⟨rfl, rfl⟩, fun _ => rfl⟩
  · split
    · exact ⟨⟨rfl, rfl⟩, fun _ => rfl⟩
    · exact ⟨⟨rfl, rfl⟩, fun _ => rfl⟩

/-- All rows at once, each merged onto the first stored row of its dependency. -/
theorem rowSound_mergePackageJsonFinalStates (hdistinct : (more.map identity).Nodup)
    (hknown : ∀ row ∈ more, row.installedVersion = none → row.registryHint = none)
    (hplace : ∀ row, Placed row (place row))
    (hagrees : ∀ row ∈ more, RowAgrees privateScopes applied states row)
    (hsound : ∀ row ∈ states, RowSound applied row True) :
    ∀ row ∈ mergePackageJsonFinalStates states (more.map place),
      RowSound (applied ++ more) row (eligible privateScopes row = true) := by
  intro row hrow
  unfold mergePackageJsonFinalStates at hrow
  rw [List.map_map] at hrow
  obtain ⟨sent, hsent, rfl⟩ := List.mem_map.mp hrow
  have hjoins : Joins applied (applied ++ more) (place sent) :=
    joins_distinct hdistinct hsent (hknown sent hsent) (hplace sent)
  rw [Function.comp_apply]
  cases hfind : states.find? fun state =>
      dependencyIdentityKey state = dependencyIdentityKey (place sent) with
  | none => exact hjoins.rowSound
  | some current =>
    have hmem := List.mem_of_find?_eq_some hfind
    have hkey := List.find?_some hfind
    rw [decide_eq_true_eq, dependencyIdentityKey_eq_iff] at hkey
    have hmerged := hjoins.merge ((hagrees sent hsent).placed (hplace sent)) hmem hkey
      (hsound current hmem)
    rw [(mergePackageJsonState_same (some current) (place sent)).2]
    exact hmerged

/-- The row at the position of a patch, and every other row as it was. -/
theorem getElem?_patchState {indexed : Nat × DependencyState} {j : Nat}
    (h : (patchState states indexed)[j]? = some row) :
    (j = indexed.1 ∧ SameDependency row indexed.2 ∧
      (row = indexed.2 ∨ ∃ current ∈ states, SameDependency current indexed.2 ∧
        row = mergePackageJsonState (some current) indexed.2)) ∨
      j ≠ indexed.1 ∧ states[j]? = some row := by
  unfold patchState at h
  by_cases hj : indexed.1 = j
  · left
    rw [hj] at h
    by_cases hlt : j < states.length
    · rw [List.getElem?_set_self hlt, List.getElem?_eq_getElem hlt, Option.some.injEq] at h
      dsimp only at h
      by_cases hsame : isSameDependencyState states[j] indexed.2 = true
      · rw [if_pos hsame] at h
        have hdependency : SameDependency states[j] indexed.2 := by
          simp only [isSameDependencyState, Bool.and_eq_true, decide_eq_true_eq] at hsame
          exact ⟨hsame.1.2, hsame.1.1⟩
        refine ⟨hj.symm, ?_, .inr ⟨states[j], List.getElem_mem hlt, hdependency, h.symm⟩⟩
        rw [← h]
        exact (mergePackageJsonState_same _ _).1
      · rw [if_neg hsame] at h
        exact ⟨hj.symm, by rw [← h]; exact ⟨rfl, rfl⟩, .inl h.symm⟩
    · rw [List.getElem?_eq_none (by rw [List.length_set]; omega)] at h
      cases h
  · right
    rw [List.getElem?_set_ne hj] at h
    exact ⟨Ne.symm hj, h⟩

/-- Rows at the positions of their dependencies, one after another.  A row that was
already patched is not met again, since the rows are of different dependencies. -/
theorem rowSound_patches (hplace : ∀ row, Placed row (place row))
    (indexed : List (Nat × DependencyState))
    (hdistinct : ((indexed.map Prod.snd).map identity).Nodup)
    (hknown : ∀ one ∈ indexed, one.2.installedVersion = none → one.2.registryHint = none)
    (hagrees : ∀ one ∈ indexed, RowAgrees privateScopes applied states one.2)
    (hposition : ∀ one ∈ indexed, ∀ (j : Nat) row, states[j]? = some row →
      SameDependency row one.2 → j = one.1)
    (hsound : ∀ (j : Nat) row, states[j]? = some row →
      RowSound applied row (eligible privateScopes row = true) ∧
        ((∃ one ∈ indexed, SameDependency row one.2) → RowSound applied row True)) :
    ∀ row ∈ (indexed.map (Prod.map id place)).foldl patchState states,
      RowSound (applied ++ indexed.map Prod.snd) row (eligible privateScopes row = true) := by
  induction indexed generalizing applied states with
  | nil =>
    intro row hrow
    obtain ⟨j, hj⟩ := List.mem_iff_getElem?.mp hrow
    rw [List.map_nil, List.append_nil]
    exact (hsound j row hj).1
  | cons one indexed ih =>
    rw [List.map_cons, List.map_cons, List.nodup_cons] at hdistinct
    obtain ⟨hfresh, hdistinct⟩ := hdistinct
    have hother : ∀ other ∈ indexed, ¬ SameDependency one.2 other.2 := by
      intro other hmem hsame
      apply hfresh
      rw [identity_eq_iff.mpr hsame]
      exact List.mem_map_of_mem (List.mem_map_of_mem hmem)
    have hjoins : Joins applied (applied ++ [one.2]) (place one.2) :=
      joins_distinct (List.nodup_singleton _) (List.mem_singleton_self _)
        (hknown one List.mem_cons_self) (hplace one.2)
    have hsame := (hplace one.2).same
    -- A row of another dependency is as it was.
    have hkept : ∀ (j : Nat) row, (patchState states (one.1, place one.2))[j]? = some row →
        ¬ SameDependency one.2 row → states[j]? = some row := by
      intro j row hj hne
      rcases getElem?_patchState hj with ⟨-, hdependency, -⟩ | ⟨-, hbefore⟩
      · exact absurd (hsame.trans hdependency.symm) hne
      · exact hbefore
    have hlast : ∀ row, ¬ SameDependency one.2 row →
        lastKnownVersion (applied ++ [one.2]) row = lastKnownVersion applied row := by
      intro row hne
      apply lastKnownVersion_others
      intro other hmem
      rw [List.mem_singleton.mp hmem]
      exact hne
    rw [List.map_cons, List.foldl_cons, List.map_cons, List.append_cons]
    apply ih hdistinct (fun other hmem => hknown other (List.mem_cons_of_mem _ hmem))
    · intro other hmem heligible current hcurrent hdependency hnone version hversion hint hhint
        holder
      obtain ⟨j, hj⟩ := List.mem_iff_getElem?.mp hcurrent
      have hne : ¬ SameDependency one.2 current :=
        fun hsame => hother other hmem (hsame.trans hdependency)
      rw [hlast current hne]
      exact hagrees other (List.mem_cons_of_mem _ hmem) heligible current
        (List.mem_of_getElem? (hkept j current hj hne)) hdependency hnone version hversion hint
        hhint holder
    · intro other hmem j row hj hdependency
      have hne : ¬ SameDependency one.2 row :=
        fun hsame => hother other hmem (hsame.trans hdependency)
      exact hposition other (List.mem_cons_of_mem _ hmem) j row (hkept j row hj hne) hdependency
    · intro j row hj
      by_cases hne : SameDependency one.2 row
      · refine ⟨?_, fun ⟨other, hmem, hdependency⟩ =>
          absurd (hne.trans hdependency) (hother other hmem)⟩
        rcases getElem?_patchState hj with ⟨-, -, rfl | ⟨current, hcurrent, hdependency, rfl⟩⟩ |
          ⟨hj', hbefore⟩
        · exact hjoins.rowSound
        · obtain ⟨i, hi⟩ := List.mem_iff_getElem?.mp hcurrent
          rw [(mergePackageJsonState_same _ _).2]
          exact hjoins.merge ((hagrees one List.mem_cons_self).placed (hplace one.2)) hcurrent
            hdependency ((hsound i current hi).2
              ⟨one, List.mem_cons_self, hdependency.trans hsame.symm⟩)
        · exact absurd (hposition one List.mem_cons_self j row hbefore hne.symm) hj'
      · obtain ⟨hrow, htrue⟩ := hsound j row (hkept j row hj hne)
        have hsub : applied ⊆ applied ++ [one.2] := List.subset_append_left _ _
        exact ⟨hrow.others hsub (hlast row hne), fun ⟨other, hmem, hdependency⟩ =>
          (htrue ⟨other, List.mem_cons_of_mem _ hmem, hdependency⟩).others hsub (hlast row hne)⟩

end

end ImportLens.Extension.PackageJson
