import ImportLens.Pipeline.AssetBudget
import ImportLens.Support.SortedDedup

/-!
# Conflicting observations of a file

Two observations of one path conflict when their metadata or their known hashes differ.
The scan for conflicts keeps one observation of each path; it finds a conflict exactly
when two of the list have one, so only the set of the observations counts.
-/

namespace ImportLens.Pipeline

open ImportLens.Cache ImportLens.Support AssetBudget

/-! ## The scan -/

/-- No state of the file answers both observations. -/
structure Conflict (f g : FileFingerprint) : Prop where
  path : f.path = g.path
  differ : f.len ≠ g.len ∨ f.modifiedMillis ≠ g.modifiedMillis ∨
    ∃ x y, f.contentHash = some x ∧ g.contentHash = some y ∧ x ≠ y

/-- What `g` says of a file, `f` says too. -/
def Refines (f g : FileFingerprint) : Prop :=
  g.len = f.len ∧ g.modifiedMillis = f.modifiedMillis ∧
    (g.contentHash = none ∨ g.contentHash = f.contentHash)

/-- The table holds all that the observations seen so far say of each path. -/
structure Sums (observed : Keyed String Observation) (seen : List FileFingerprint) : Prop where
  absent : ∀ path, observed.lookup path = none → ∀ f ∈ seen, f.path ≠ path
  present : ∀ path len modifiedMillis hash,
    observed.lookup path = some (len, modifiedMillis, hash) →
      (∃ f ∈ seen, f.path = path ∧ f.contentHash = hash) ∧
        ∀ f ∈ seen, f.path = path → Refines ⟨path, len, modifiedMillis, hash⟩ f

section

variable {observed : Keyed String Observation} {seen : List FileFingerprint} {f g : FileFingerprint}

theorem Sums.empty : Sums ∅ [] where
  absent _ _ _ hin := absurd hin List.not_mem_nil
  present _ _ _ _ hlookup := by cases hlookup

theorem not_conflict_of_refines {known : FileFingerprint} (hf : Refines known f)
    (hg : Refines known g) : ¬ Conflict f g := by
  rintro ⟨-, hlen | htime | ⟨x, y, hx, hy, hne⟩⟩
  · exact hlen (hf.1.trans hg.1.symm)
  · exact htime (hf.2.1.trans hg.2.1.symm)
  · rcases hf.2.2 with hnone | hknown
    · rw [hx] at hnone
      cases hnone
    · rcases hg.2.2 with hnone | hknown'
      · rw [hy] at hnone
        cases hnone
      · rw [hx] at hknown
        rw [hy, ← hknown] at hknown'
        exact hne (Option.some.inj hknown').symm

theorem Sums.no_conflict (h : Sums observed seen) (hf : f ∈ seen) (hg : g ∈ seen) :
    ¬ Conflict f g := by
  intro hconflict
  cases hlookup : observed.lookup f.path with
  | none => exact h.absent _ hlookup f hf rfl
  | some observation =>
    obtain ⟨len, modifiedMillis, hash⟩ := observation
    have hall := (h.present _ _ _ _ hlookup).2
    exact not_conflict_of_refines (hall f hf rfl) (hall g hg hconflict.path.symm) hconflict

theorem Sums.insert (h : Sums observed seen) (hold : ∀ g ∈ seen, g.path = f.path → Refines f g) :
    Sums (observed.insert f.path (f.len, f.modifiedMillis, f.contentHash)) (seen ++ [f]) := by
  constructor
  · intro path hlookup g hin hpath
    have hne : path ≠ f.path := by
      rintro rfl
      rw [AList.lookup_insert] at hlookup
      cases hlookup
    rw [AList.lookup_insert_ne hne] at hlookup
    rcases List.mem_append.mp hin with hseen | hnew
    · exact h.absent path hlookup g hseen hpath
    · rw [List.mem_singleton.mp hnew] at hpath
      exact hne hpath.symm
  · intro path len modifiedMillis hash hlookup
    by_cases hsame : path = f.path
    · subst hsame
      rw [AList.lookup_insert] at hlookup
      cases hlookup
      refine ⟨⟨f, by simp, rfl, rfl⟩, fun g hin hpath => ?_⟩
      rcases List.mem_append.mp hin with hseen | hnew
      · exact hold g hseen hpath
      · rw [List.mem_singleton.mp hnew]
        exact ⟨rfl, rfl, .inr rfl⟩
    · rw [AList.lookup_insert_ne hsame] at hlookup
      obtain ⟨⟨known, hknown, hpath, hhash⟩, hall⟩ := h.present _ _ _ _ hlookup
      refine ⟨⟨known, List.mem_append_left _ hknown, hpath, hhash⟩, fun g hin hg => ?_⟩
      rcases List.mem_append.mp hin with hseen | hnew
      · exact hall g hseen hg
      · rw [List.mem_singleton.mp hnew] at hg
        exact absurd hg.symm hsame

theorem Sums.keep (h : Sums observed seen) {hash : Option Nat}
    (hlookup : observed.lookup f.path = some (f.len, f.modifiedMillis, hash))
    (hhash : f.contentHash = none ∨ f.contentHash = hash) : Sums observed (seen ++ [f]) := by
  constructor
  · intro path hnone g hin hpath
    rcases List.mem_append.mp hin with hseen | hnew
    · exact h.absent path hnone g hseen hpath
    · rw [List.mem_singleton.mp hnew] at hpath
      rw [← hpath, hlookup] at hnone
      cases hnone
  · intro path len modifiedMillis known hsome
    obtain ⟨⟨first, hfirst, hpath, hknown⟩, hall⟩ := h.present _ _ _ _ hsome
    refine ⟨⟨first, List.mem_append_left _ hfirst, hpath, hknown⟩, fun g hin hg => ?_⟩
    rcases List.mem_append.mp hin with hseen | hnew
    · exact hall g hseen hg
    · rw [List.mem_singleton.mp hnew] at hg ⊢
      rw [← hg, hlookup] at hsome
      cases hsome
      exact ⟨rfl, rfl, hhash⟩

theorem conflictScan_iff (h : Sums observed seen) (fingerprints : List FileFingerprint) :
    conflictScan observed fingerprints = true ↔
      ∃ f ∈ seen ++ fingerprints, ∃ g ∈ seen ++ fingerprints, Conflict f g := by
  induction fingerprints generalizing observed seen with
  | nil =>
    rw [List.append_nil]
    constructor
    · intro hscan
      cases hscan
    · rintro ⟨f, hf, g, hg, hconflict⟩
      exact absurd hconflict (h.no_conflict hf hg)
  | cons f rest ih =>
    have hsplit : seen ++ f :: rest = (seen ++ [f]) ++ rest := by
      rw [List.append_assoc, List.singleton_append]
    rw [conflictScan]
    cases hlookup : observed.lookup f.path with
    | none =>
      rw [hsplit]
      apply ih
      exact h.insert fun g hg hpath => absurd hpath (h.absent _ hlookup g hg)
    | some observation =>
      obtain ⟨len, modifiedMillis, hash⟩ := observation
      obtain ⟨⟨known, hknown, hpath, hhash⟩, hall⟩ := h.present _ _ _ _ hlookup
      have hrefines := hall known hknown hpath
      have hfound (hdiffer : f.len ≠ known.len ∨ f.modifiedMillis ≠ known.modifiedMillis ∨
          ∃ x y, f.contentHash = some x ∧ known.contentHash = some y ∧ x ≠ y) :
          ∃ f' ∈ seen ++ f :: rest, ∃ g ∈ seen ++ f :: rest, Conflict f' g :=
        ⟨f, by simp, known, List.mem_append_left _ hknown, hpath.symm, hdiffer⟩
      dsimp only
      by_cases hmetadata : len ≠ f.len ∨ modifiedMillis ≠ f.modifiedMillis
      · rw [if_pos hmetadata]
        refine ⟨fun _ => hfound ?_, fun _ => rfl⟩
        rcases hmetadata with hlen | htime
        · exact .inl fun heq => hlen (hrefines.1.symm.trans heq.symm)
        · exact .inr (.inl fun heq => htime (hrefines.2.1.symm.trans heq.symm))
      · rw [if_neg hmetadata]
        obtain ⟨rfl, rfl⟩ : len = f.len ∧ modifiedMillis = f.modifiedMillis := by
          simpa only [ne_eq, not_or, not_not] using hmetadata
        cases hown : f.contentHash with
        | none =>
          have hkept : Sums observed (seen ++ [f]) := h.keep hlookup (.inl hown)
          rw [hsplit]
          cases hash <;> exact ih hkept
        | some own =>
          cases hash with
          | none =>
            rw [hsplit]
            dsimp only
            rw [← hown]
            apply ih
            apply h.insert
            intro g hg hsame
            obtain ⟨hlen, htime, hnone | hnone⟩ := hall g hg hsame <;>
              exact ⟨hlen, htime, .inl hnone⟩
          | some first =>
            dsimp only
            by_cases hdiffer : first ≠ own
            · rw [if_pos hdiffer]
              exact ⟨fun _ => hfound (.inr (.inr ⟨own, first, hown, hhash, hdiffer.symm⟩)),
                fun _ => rfl⟩
            · rw [if_neg hdiffer, hsplit]
              have hsame : f.contentHash = some first := by rw [hown, not_not.mp hdiffer]
              exact ih (h.keep hlookup (.inr hsame))

end

/-! ## Sets of observations -/

section

variable {a b : List FileFingerprint}

theorem conflicting_iff (fingerprints : List FileFingerprint) :
    fingerprintsHaveConflictingSnapshots fingerprints = true ↔
      ∃ f ∈ fingerprints, ∃ g ∈ fingerprints, Conflict f g :=
  conflictScan_iff .empty fingerprints

theorem reusable_iff (fingerprints : List FileFingerprint) :
    fingerprintsAreReusable fingerprints = true ↔
      (∀ f ∈ fingerprints, fingerprintIsUnverifiable f = false) ∧
        ∀ f ∈ fingerprints, ∀ g ∈ fingerprints, ¬ Conflict f g := by
  have hconflict : fingerprintsHaveConflictingSnapshots fingerprints = false ↔
      ∀ f ∈ fingerprints, ∀ g ∈ fingerprints, ¬ Conflict f g := by
    rw [← Bool.not_eq_true, conflicting_iff]
    simp only [not_exists, not_and]
  simp only [fingerprintsAreReusable, Bool.and_eq_true, Bool.not_eq_true', List.any_eq_false,
    hconflict, Bool.not_eq_true]

theorem conflicting_congr (h : ∀ f, f ∈ a ↔ f ∈ b) :
    fingerprintsHaveConflictingSnapshots a = fingerprintsHaveConflictingSnapshots b := by
  rw [Bool.eq_iff_iff, conflicting_iff, conflicting_iff]
  simp only [h]

theorem reusable_congr (h : ∀ f, f ∈ a ↔ f ∈ b) :
    fingerprintsAreReusable a = fingerprintsAreReusable b := by
  rw [Bool.eq_iff_iff, reusable_iff, reusable_iff]
  simp only [h]

theorem reusable_mono (h : ∀ f ∈ a, f ∈ b) (hb : fingerprintsAreReusable b = true) :
    fingerprintsAreReusable a = true := by
  rw [reusable_iff] at hb ⊢
  exact ⟨fun f hf => hb.1 f (h f hf), fun f hf g hg => hb.2 f (h f hf) g (h g hg)⟩

theorem mem_sortAndDedupFingerprints {f : FileFingerprint} :
    f ∈ sortAndDedupFingerprints a ↔ f ∈ a := by
  rw [sortAndDedupFingerprints, mem_eraseReps, List.mem_mergeSort]

end

/-! ## The observations of the ledger -/

section

variable {observations : List FileFingerprint} {f : FileFingerprint}

/-- What is dropped is an observation without a hash, for one with a hash and the same
metadata. -/
theorem mem_normalizedObservations :
    f ∈ normalizedObservations observations ↔ f ∈ observations ∧
      (f.contentHash.isSome = true ∨ ¬ ∃ known ∈ observations, known.contentHash.isSome = true ∧
        known.path = f.path ∧ known.len = f.len ∧ known.modifiedMillis = f.modifiedMillis) := by
  unfold normalizedObservations
  rw [mem_sortAndDedupFingerprints, List.mem_filter, Bool.or_eq_true, Bool.not_eq_true',
    List.any_eq_false]
  simp only [List.mem_filter, Bool.and_eq_true, beq_iff_eq, not_exists, not_and, and_imp]

theorem exists_kept (h : f ∈ observations) :
    ∃ known ∈ normalizedObservations observations, known.path = f.path ∧ Refines known f := by
  by_cases hkept : f ∈ normalizedObservations observations
  · exact ⟨f, hkept, rfl, rfl, rfl, .inr rfl⟩
  · rw [mem_normalizedObservations, not_and, not_or, not_not] at hkept
    obtain ⟨hhash, known, hin, hknown, hpath, hlen, htime⟩ := hkept h
    refine ⟨known, mem_normalizedObservations.mpr ⟨hin, .inl hknown⟩, hpath, hlen.symm,
      htime.symm, .inl ?_⟩
    exact Option.not_isSome_iff_eq_none.mp hhash

theorem Conflict.of_refines {g f' g' : FileFingerprint} (h : Conflict f g) (hf : Refines f' f)
    (hg : Refines g' g) (hfpath : f'.path = f.path) (hgpath : g'.path = g.path) :
    Conflict f' g' := by
  refine ⟨hfpath.trans (h.path.trans hgpath.symm), ?_⟩
  rcases h.differ with hlen | htime | ⟨x, y, hx, hy, hne⟩
  · exact .inl (by rwa [← hf.1, ← hg.1])
  · exact .inr (.inl (by rwa [← hf.2.1, ← hg.2.1]))
  · refine .inr (.inr ⟨x, y, ?_, ?_, hne⟩)
    · rcases hf.2.2 with hnone | hsame
      · rw [hnone] at hx
        cases hx
      · rw [← hsame, hx]
    · rcases hg.2.2 with hnone | hsame
      · rw [hnone] at hy
        cases hy
      · rw [← hsame, hy]

theorem conflicting_normalized (observations : List FileFingerprint) :
    fingerprintsHaveConflictingSnapshots (normalizedObservations observations) =
      fingerprintsHaveConflictingSnapshots observations := by
  rw [Bool.eq_iff_iff, conflicting_iff, conflicting_iff]
  constructor
  · rintro ⟨f, hf, g, hg, hconflict⟩
    exact ⟨f, (mem_normalizedObservations.mp hf).1, g, (mem_normalizedObservations.mp hg).1,
      hconflict⟩
  · rintro ⟨f, hf, g, hg, hconflict⟩
    obtain ⟨f', hf', hfpath, hfmore⟩ := exists_kept hf
    obtain ⟨g', hg', hgpath, hgmore⟩ := exists_kept hg
    exact ⟨f', hf', g', hg', hconflict.of_refines hfmore hgmore hfpath hgpath⟩

/-- A hashed observation with the all-ones metadata of an unverifiable one; no file has it. -/
def HasImpossibleFile (observations : List FileFingerprint) : Prop :=
  ∃ known ∈ observations, known.contentHash.isSome = true ∧ known.len = u64Max ∧
    known.modifiedMillis = u64Max

theorem reusable_normalized (h : ¬ HasImpossibleFile observations) :
    fingerprintsAreReusable (normalizedObservations observations) =
      fingerprintsAreReusable observations := by
  have hunverifiable : (∀ f ∈ normalizedObservations observations,
      fingerprintIsUnverifiable f = false) ↔
        ∀ f ∈ observations, fingerprintIsUnverifiable f = false := by
    constructor
    · intro hall f hin
      obtain ⟨known, hknown, -, hlen, htime, -⟩ := exists_kept hin
      have hfine := hall known hknown
      have hin' := (mem_normalizedObservations.mp hknown).1
      by_contra hf
      simp only [fingerprintIsUnverifiable, Bool.not_eq_false, Bool.and_eq_true, beq_iff_eq] at hf
      rw [hlen, htime] at hf
      by_cases hhash : known.contentHash.isSome = true
      · exact h ⟨known, hin', hhash, hf.1.1, hf.1.2⟩
      · have hnone := Option.not_isSome_iff_eq_none.mp hhash
        rw [fingerprintIsUnverifiable, hf.1.1, hf.1.2, hnone] at hfine
        cases hfine
    · exact fun hall f hin => hall f (mem_normalizedObservations.mp hin).1
  have hconflict := conflicting_normalized observations
  unfold fingerprintsAreReusable
  rw [hconflict]
  congr 2
  rw [Bool.eq_iff_iff, ← not_iff_not, Bool.not_eq_true, Bool.not_eq_true, List.any_eq_false,
    List.any_eq_false]
  simpa only [Bool.not_eq_true] using hunverifiable

end

/-- The scan for conflicts is exact; only the set of the observations counts, sorted or
not, and the normal form of the ledger's observations has their conflicts. -/
theorem conflicts_exact (fingerprints : List FileFingerprint) :
    (fingerprintsHaveConflictingSnapshots fingerprints = true ↔
      ∃ f ∈ fingerprints, ∃ g ∈ fingerprints, f.path = g.path ∧
        (f.len ≠ g.len ∨ f.modifiedMillis ≠ g.modifiedMillis ∨
          ∃ x y, f.contentHash = some x ∧ g.contentHash = some y ∧ x ≠ y)) ∧
    (∀ other, (∀ f, f ∈ other ↔ f ∈ fingerprints) →
      fingerprintsHaveConflictingSnapshots other =
          fingerprintsHaveConflictingSnapshots fingerprints ∧
        fingerprintsAreReusable other = fingerprintsAreReusable fingerprints) ∧
    fingerprintsHaveConflictingSnapshots (sortAndDedupFingerprints fingerprints) =
      fingerprintsHaveConflictingSnapshots fingerprints ∧
    fingerprintsAreReusable (sortAndDedupFingerprints fingerprints) =
      fingerprintsAreReusable fingerprints ∧
    fingerprintsHaveConflictingSnapshots (normalizedObservations fingerprints) =
      fingerprintsHaveConflictingSnapshots fingerprints ∧
    (¬ HasImpossibleFile fingerprints →
      fingerprintsAreReusable (normalizedObservations fingerprints) =
        fingerprintsAreReusable fingerprints) ∧
    ∀ other, fingerprintsAreReusable (fingerprints ++ other) = true →
      fingerprintsAreReusable fingerprints = true ∧ fingerprintsAreReusable other = true := by
  refine ⟨?_, fun other h => ⟨conflicting_congr h, reusable_congr h⟩,
    conflicting_congr fun _ => mem_sortAndDedupFingerprints,
    reusable_congr fun _ => mem_sortAndDedupFingerprints, conflicting_normalized fingerprints,
    reusable_normalized, fun other h =>
      ⟨reusable_mono (fun f => List.mem_append_left other) h,
        reusable_mono (fun f => List.mem_append_right fingerprints) h⟩⟩
  rw [conflicting_iff]
  constructor
  · rintro ⟨f, hf, g, hg, hpath, hdiffer⟩
    exact ⟨f, hf, g, hg, hpath, hdiffer⟩
  · rintro ⟨f, hf, g, hg, hpath, hdiffer⟩
    exact ⟨f, hf, g, hg, hpath, hdiffer⟩

/-- A hashed observation with all-ones metadata hides an unverifiable one. -/
theorem reusable_normalized_hidden :
    ¬ ∀ observations, fingerprintsAreReusable (normalizedObservations observations) =
      fingerprintsAreReusable observations := by
  intro hall
  have hsame := hall [unverifiableFileFingerprint "/a.css", ⟨"/a.css", u64Max, u64Max, some 1⟩]
  revert hsame
  decide +kernel

end ImportLens.Pipeline
