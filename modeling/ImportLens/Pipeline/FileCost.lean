import ImportLens.Pipeline.FileSize
import ImportLens.Support.Folds

/-!
# What the flags of a File Cost say

For every list of imports and every outcome of the stages: an unset `incomplete`
accounts for each import, `degraded` is the failure of a group, an error means
that no group contributed, and each total is the sum of what the groups shipped.
-/

namespace ImportLens.Pipeline.FileSize

open ImportLens.Daemon ImportLens.Cache ImportLens.Support

variable {stages : Stages}

/-! ## The fate of a runtime group -/

/-- Some stage of the combined build failed. -/
inductive Fails (stages : Stages) : ImportRuntime × RuntimeGroup → Prop
  | build {runtime group failure} (h : stages.bundleSync (group.request runtime) = .error failure) :
      Fails stages (runtime, group)
  | minify {runtime group artifact error}
      (hbuild : stages.bundleSync (group.request runtime) = .ok artifact)
      (h : stages.minify runtime artifact.code = .error error) : Fails stages (runtime, group)
  | compress {runtime group artifact minified error}
      (hbuild : stages.bundleSync (group.request runtime) = .ok artifact)
      (hminify : stages.minify runtime artifact.code = .ok minified)
      (h : stages.compress runtime minified = .error error) : Fails stages (runtime, group)
  | assets {runtime group artifact minified compressed failure}
      (hbuild : stages.bundleSync (group.request runtime) = .ok artifact)
      (hminify : stages.minify runtime artifact.code = .ok minified)
      (hcompress : stages.compress runtime minified = .ok compressed)
      (h : stages.processAssetsBounded runtime artifact.assets artifact.graphSourceBytes
        artifact.loadedPaths = .error failure) : Fails stages (runtime, group)

/-- A combined build all of whose stages answered. -/
structure CombinedBuild (stages : Stages) (group : ImportRuntime × RuntimeGroup) where
  artifact : BundleArtifact
  minified : String
  compressed : CompressionSizes
  assets : ProcessedAssets
  bundled : stages.bundleSync (group.2.request group.1) = .ok artifact
  minifies : stages.minify group.1 artifact.code = .ok minified
  compresses : stages.compress group.1 minified = .ok compressed
  processes : stages.processAssetsBounded group.1 artifact.assets artifact.graphSourceBytes
    artifact.loadedPaths = .ok assets

namespace CombinedBuild

def chunk {group : ImportRuntime × RuntimeGroup} (build : CombinedBuild stages group) :
    MeasuredSizes where
  rawBytes := build.artifact.code.utf8ByteSize
  minifiedBytes := build.minified.utf8ByteSize
  gzipBytes := build.compressed.gzipBytes
  brotliBytes := build.compressed.brotliBytes
  zstdBytes := build.compressed.zstdBytes

/-- No floor is disclosed, and no asset is emitted or left uncounted. -/
def Whole {group : ImportRuntime × RuntimeGroup} (build : CombinedBuild stages group) : Prop :=
  (∀ diagnostic ∈ build.artifact.diagnostics, Stage.marksAFloor diagnostic.stage = false) ∧
    build.artifact.emittedAssets = [] ∧ build.assets.uncounted = [] ∧
      build.assets.cssDependencyOmissions = []

end CombinedBuild

def SizedImport.measured (sized : SizedImport) : Option MeasuredSizes :=
  sized.result.bind ImportResult.sizes

def SizedImport.Whole (sized : SizedImport) : Prop :=
  ∃ result, sized.result = some result ∧ result.sizes.isSome ∧ result.isFloor = false

def RuntimeGroup.perImport (group : RuntimeGroup) (size : Size) : Nat :=
  (group.sized.map fun sized => (sized.measured.getD .zero).get size).sum

/-- Bytes that belong to the group are absent from what it adds. -/
inductive Short (stages : Stages) (group : ImportRuntime × RuntimeGroup) : Prop
  | combined (build : CombinedBuild stages group) (h : ¬ build.Whole)
  | fallback (hfails : Fails stages group) (h : ∃ sized ∈ group.2.sized, ¬ sized.Whole)

/-- The group has a number of its own. -/
inductive Contributes (stages : Stages) (group : ImportRuntime × RuntimeGroup) : Prop
  | combined (build : CombinedBuild stages group)
  | fallback (hfails : Fails stages group) (h : ∃ sized ∈ group.2.sized, sized.measured.isSome)

/-- What the group adds to a total. -/
inductive Share (stages : Stages) (size : Size) (group : ImportRuntime × RuntimeGroup) :
    Nat → Prop
  | combined (build : CombinedBuild stages group) :
      Share stages size group (build.chunk.get size + build.assets.total.get size)
  | fallback (hfails : Fails stages group) : Share stages size group (group.2.perImport size)

/-! ## The conservative sum -/

section

variable {sized : SizedImport} (acc : PerImportTotals × List ImportDiagnostic)

theorem addImport_unmeasured (h : sized.measured = none) :
    (addImport acc sized).1 = { acc.1 with missingInputs := true } := by
  unfold addImport
  split
  · rfl
  · rename_i result hresult
    split
    · rfl
    · rename_i sizes hsizes
      simp only [SizedImport.measured, hresult, Option.bind_some, hsizes] at h
      cases h

theorem addImport_measured {result : ImportResult} {sizes : MeasuredSizes}
    (hresult : sized.result = some result) (hsizes : result.sizes = some sizes) :
    (addImport acc sized).1 =
      { sizedAny := true
        missingInputs := acc.1.missingInputs || result.isFloor
        sizes := acc.1.sizes.add sizes
        assetBreakdown :=
          absorbAssetBreakdownInto acc.1.assetBreakdown result.assetBreakdown } := by
  simp only [addImport, hresult, hsizes]

theorem measured_cases (sized : SizedImport) :
    sized.measured = none ∨
      ∃ result sizes, sized.result = some result ∧ result.sizes = some sizes ∧
        sized.measured = some sizes := by
  unfold SizedImport.measured
  cases sized.result with
  | none => exact .inl rfl
  | some result =>
      cases hsizes : result.sizes with
      | none => exact .inl hsizes
      | some sizes => exact .inr ⟨result, sizes, rfl, hsizes, hsizes⟩

theorem whole_iff {result : ImportResult} {sizes : MeasuredSizes}
    (hresult : sized.result = some result) (hsizes : result.sizes = some sizes) :
    sized.Whole ↔ result.isFloor = false := by
  simp [SizedImport.Whole, hresult, hsizes]

theorem not_whole_of_unmeasured (h : sized.measured = none) : ¬ sized.Whole := by
  rintro ⟨result, hresult, hsizes, _⟩
  rw [SizedImport.measured, hresult, Option.bind_some] at h
  rw [h] at hsizes
  cases hsizes

end

theorem addImport_missingInputs (acc : PerImportTotals × List ImportDiagnostic)
    (sized : SizedImport) :
    (addImport acc sized).1.missingInputs = true ↔
      acc.1.missingInputs = true ∨ ¬ sized.Whole := by
  rcases measured_cases sized with hnone | ⟨result, sizes, hresult, hsizes, _⟩
  · simp [addImport_unmeasured acc hnone, not_whole_of_unmeasured hnone]
  · simp [addImport_measured acc hresult hsizes, whole_iff hresult hsizes]

theorem addImport_sizedAny (acc : PerImportTotals × List ImportDiagnostic) (sized : SizedImport) :
    (addImport acc sized).1.sizedAny = true ↔
      acc.1.sizedAny = true ∨ sized.measured.isSome = true := by
  rcases measured_cases sized with hnone | ⟨result, sizes, hresult, hsizes, hmeasured⟩
  · simp [addImport_unmeasured acc hnone, hnone]
  · simp [addImport_measured acc hresult hsizes, hmeasured]

theorem addImport_sizes (size : Size) (acc : PerImportTotals × List ImportDiagnostic)
    (sized : SizedImport) :
    (addImport acc sized).1.sizes.get size =
      acc.1.sizes.get size + (sized.measured.getD .zero).get size := by
  rcases measured_cases sized with hnone | ⟨result, sizes, hresult, hsizes, hmeasured⟩
  · simp [addImport_unmeasured acc hnone, hnone]
  · simp [addImport_measured acc hresult hsizes, hmeasured]

section

variable (sized : List SizedImport) (diagnostics : List ImportDiagnostic)

theorem perImportTotals_missingInputs :
    (perImportTotals sized diagnostics).1.missingInputs = true ↔
      ∃ one ∈ sized, ¬ one.Whole := by
  have hflag := foldl_flag (fun acc : PerImportTotals × _ => acc.1.missingInputs)
    addImport_missingInputs sized ({}, diagnostics)
  simpa [perImportTotals] using hflag

theorem perImportTotals_sizedAny :
    (perImportTotals sized diagnostics).1.sizedAny = true ↔
      ∃ one ∈ sized, one.measured.isSome = true := by
  have hflag := foldl_flag (fun acc : PerImportTotals × _ => acc.1.sizedAny) addImport_sizedAny
    sized ({}, diagnostics)
  simpa [perImportTotals] using hflag

theorem perImportTotals_sizes (size : Size) :
    (perImportTotals sized diagnostics).1.sizes.get size =
      (sized.map fun one => (one.measured.getD .zero).get size).sum := by
  have hsum := foldl_sum (fun acc : PerImportTotals × _ => acc.1.sizes.get size)
    (addImport_sizes size) sized ({}, diagnostics)
  simpa [perImportTotals] using hsum

end

theorem perImport_eq_zero {group : RuntimeGroup} (size : Size)
    (h : ¬ ∃ one ∈ group.sized, one.measured.isSome = true) : group.perImport size = 0 := by
  unfold RuntimeGroup.perImport
  rw [List.sum_eq_zero]
  intro n hn
  obtain ⟨one, hone, rfl⟩ := List.mem_map.mp hn
  have hnone : one.measured = none := by
    rw [← Option.not_isSome_iff_eq_none]
    exact fun hsome => h ⟨one, hone, hsome⟩
  simp [hnone]

/-! ## One runtime group -/

theorem absorbFallback_totals (totals : FileSizeComputation) (fallback : PerImportTotals) :
    (totals.absorbFallback fallback).1.incomplete =
        (totals.incomplete || fallback.missingInputs) ∧
      (totals.absorbFallback fallback).1.degraded = totals.degraded ∧
      (totals.absorbFallback fallback).2 = fallback.sizedAny := by
  unfold FileSizeComputation.absorbFallback
  cases fallback.sizedAny <;> simp

section

variable (acc : Summed) (group : RuntimeGroup) (diagnostic : ImportDiagnostic)

theorem degrade_incomplete :
    (acc.degrade group diagnostic).totals.incomplete = true ↔
      acc.totals.incomplete = true ∨ ∃ one ∈ group.sized, ¬ one.Whole := by
  rw [← perImportTotals_missingInputs group.sized (acc.diagnostics ++ [diagnostic]),
    Summed.degrade, (absorbFallback_totals _ _).1, Bool.or_eq_true]

theorem degrade_degraded : (acc.degrade group diagnostic).totals.degraded = true := by
  rw [Summed.degrade, (absorbFallback_totals _ _).2.1]

theorem degrade_anySized :
    (acc.degrade group diagnostic).anySized = true ↔
      acc.anySized = true ∨ ∃ one ∈ group.sized, one.measured.isSome = true := by
  rw [← perImportTotals_sizedAny group.sized (acc.diagnostics ++ [diagnostic]), Summed.degrade,
    (absorbFallback_totals _ _).2.2, Bool.or_eq_true]

theorem degrade_sizes (size : Size) :
    (acc.degrade group diagnostic).totals.sizes.get size =
      acc.totals.sizes.get size + group.perImport size := by
  have hsizes := perImportTotals_sizes group.sized (acc.diagnostics ++ [diagnostic]) size
  have hany := perImportTotals_sizedAny group.sized (acc.diagnostics ++ [diagnostic])
  unfold Summed.degrade FileSizeComputation.absorbFallback
  cases hsized : (perImportTotals group.sized (acc.diagnostics ++ [diagnostic])).1.sizedAny with
  | false =>
      rw [perImport_eq_zero size (by rw [← hany, hsized]; decide)]
      simp [hsized]
  | true => simp [hsized, hsizes, RuntimeGroup.perImport]

end

/-! ## What the stages made of a group -/

variable {one : ImportRuntime × RuntimeGroup}

theorem sizeGroup_of_fails (h : Fails stages one) (acc : Summed) :
    ∃ reported diagnostic,
      sizeGroup stages acc one = (acc.extend reported).degrade one.2 diagnostic := by
  cases h with
  | build h =>
      simp only [sizeGroup, h]
      exact ⟨_, _, rfl⟩
  | minify hbuild h =>
      simp only [sizeGroup, hbuild, h]
      exact ⟨_, _, rfl⟩
  | compress hbuild hminify h =>
      simp only [sizeGroup, hbuild, hminify, h]
      exact ⟨_, _, rfl⟩
  | assets hbuild hminify hcompress h =>
      simp only [sizeGroup, hbuild, hminify, hcompress, h]
      exact ⟨_, _, rfl⟩

theorem sizeGroup_of_combined (build : CombinedBuild stages one) (acc : Summed) :
    sizeGroup stages acc one =
      { totals := acc.totals.absorbCombined stages build.artifact build.minified build.compressed
          build.assets
        diagnostics := acc.diagnostics ++
          build.artifact.diagnostics.map EngineDiagnostic.relabel ++ assetDiagnostics build.assets
        anySized := true } := by
  simp only [sizeGroup, build.bundled, build.minifies, build.compresses, build.processes]
  rfl

theorem fails_or_combined (stages : Stages) (one : ImportRuntime × RuntimeGroup) :
    Fails stages one ∨ Nonempty (CombinedBuild stages one) := by
  cases hbuild : stages.bundleSync (one.2.request one.1) with
  | error failure => exact .inl (.build hbuild)
  | ok artifact =>
      cases hminify : stages.minify one.1 artifact.code with
      | error error => exact .inl (.minify hbuild hminify)
      | ok minified =>
          cases hcompress : stages.compress one.1 minified with
          | error error => exact .inl (.compress hbuild hminify hcompress)
          | ok compressed =>
              cases hassets : stages.processAssetsBounded one.1 artifact.assets
                  artifact.graphSourceBytes artifact.loadedPaths with
              | error failure => exact .inl (.assets hbuild hminify hcompress hassets)
              | ok assets =>
                  exact .inr ⟨⟨artifact, minified, compressed, assets, hbuild, hminify,
                    hcompress, hassets⟩⟩

theorem CombinedBuild.not_fails (build : CombinedBuild stages one) : ¬ Fails stages one := by
  intro h
  cases h with
  | build h => cases build.bundled.symm.trans h
  | minify hbuild h =>
      cases build.bundled.symm.trans hbuild
      cases build.minifies.symm.trans h
  | compress hbuild hminify h =>
      cases build.bundled.symm.trans hbuild
      cases build.minifies.symm.trans hminify
      cases build.compresses.symm.trans h
  | assets hbuild hminify hcompress h =>
      cases build.bundled.symm.trans hbuild
      cases build.minifies.symm.trans hminify
      cases build.compresses.symm.trans hcompress
      cases build.processes.symm.trans h

theorem CombinedBuild.eq (build other : CombinedBuild stages one) : build = other := by
  obtain ⟨artifact, minified, compressed, assets, hbuild, hminify, hcompress, hassets⟩ := build
  obtain ⟨_, _, _, _, hbuild', hminify', hcompress', hassets'⟩ := other
  cases hbuild.symm.trans hbuild'
  cases hminify.symm.trans hminify'
  cases hcompress.symm.trans hcompress'
  cases hassets.symm.trans hassets'
  rfl

theorem CombinedBuild.whole_iff (build : CombinedBuild stages one) :
    (!build.artifact.emittedAssets.isEmpty || build.assets.hasUncountedAssets ||
      build.artifact.diagnostics.any fun diagnostic => Stage.marksAFloor diagnostic.stage) = true ↔
      ¬ build.Whole := by
  unfold CombinedBuild.Whole ProcessedAssets.hasUncountedAssets
  simp only [Bool.or_eq_true, Bool.not_eq_true', List.isEmpty_eq_false_iff, List.any_eq_true,
    not_and_or, not_forall, Bool.not_eq_false, exists_prop]
  exact or_comm

/-! ## One step of the second loop -/

theorem sizeGroup_incomplete (stages : Stages) (acc : Summed)
    (one : ImportRuntime × RuntimeGroup) :
    (sizeGroup stages acc one).totals.incomplete = true ↔
      acc.totals.incomplete = true ∨ Short stages one := by
  rcases fails_or_combined stages one with hfails | ⟨⟨build⟩⟩
  · obtain ⟨reported, diagnostic, heq⟩ := sizeGroup_of_fails hfails acc
    rw [heq, degrade_incomplete]
    refine or_congr Iff.rfl ⟨.fallback hfails, ?_⟩
    rintro (⟨build, _⟩ | ⟨_, h⟩)
    · exact absurd hfails build.not_fails
    · exact h
  · rw [sizeGroup_of_combined build]
    simp only [FileSizeComputation.absorbCombined]
    rw [Bool.or_eq_true, build.whole_iff]
    refine or_congr Iff.rfl ⟨.combined build, ?_⟩
    rintro (⟨other, h⟩ | ⟨hfails, _⟩)
    · rwa [build.eq other]
    · exact absurd hfails build.not_fails

theorem sizeGroup_degraded (stages : Stages) (acc : Summed)
    (one : ImportRuntime × RuntimeGroup) :
    (sizeGroup stages acc one).totals.degraded = true ↔
      acc.totals.degraded = true ∨ Fails stages one := by
  rcases fails_or_combined stages one with hfails | ⟨⟨build⟩⟩
  · obtain ⟨reported, diagnostic, heq⟩ := sizeGroup_of_fails hfails acc
    rw [heq]
    exact ⟨fun _ => .inr hfails, fun _ => degrade_degraded _ _ _⟩
  · rw [sizeGroup_of_combined build]
    exact ⟨.inl, fun h => h.resolve_right build.not_fails⟩

theorem sizeGroup_anySized (stages : Stages) (acc : Summed)
    (one : ImportRuntime × RuntimeGroup) :
    (sizeGroup stages acc one).anySized = true ↔
      acc.anySized = true ∨ Contributes stages one := by
  rcases fails_or_combined stages one with hfails | ⟨⟨build⟩⟩
  · obtain ⟨reported, diagnostic, heq⟩ := sizeGroup_of_fails hfails acc
    rw [heq, degrade_anySized]
    refine or_congr Iff.rfl ⟨.fallback hfails, ?_⟩
    rintro (⟨build⟩ | ⟨_, h⟩)
    · exact absurd hfails build.not_fails
    · exact h
  · rw [sizeGroup_of_combined build]
    exact ⟨fun _ => .inr (.combined build), fun _ => rfl⟩

theorem sizeGroup_sizes (stages : Stages) (size : Size) (acc : Summed)
    (one : ImportRuntime × RuntimeGroup) :
    ∃ n, Share stages size one n ∧
      (sizeGroup stages acc one).totals.sizes.get size = acc.totals.sizes.get size + n := by
  rcases fails_or_combined stages one with hfails | ⟨⟨build⟩⟩
  · obtain ⟨reported, diagnostic, heq⟩ := sizeGroup_of_fails hfails acc
    rw [heq]
    exact ⟨_, .fallback hfails, degrade_sizes _ _ _ size⟩
  · rw [sizeGroup_of_combined build]
    refine ⟨_, .combined build, ?_⟩
    simp only [FileSizeComputation.absorbCombined, MeasuredSizes.get_add, CombinedBuild.chunk]

/-! ## The first loop -/

/-- No entry of any group, and no zero: the import's bytes are missing however
well the builds go. -/
inductive Missing (stages : Stages) (sized : SizedImport) : Prop
  | notInstalled (h : sized.package = .notInstalled)
  | unresolved {request : ImportRequest} {error : String}
      (hpackage : sized.package = .installed request)
      (hresolve : stages.resolvePackageEntry request = .error error)
      (htypes : sized.result.any ImportResult.isTypesOnly = false)
      (hnative : sized.result.any ImportResult.isNativeBinaryOnly = false)

/-- The package has no runtime entry, and the import was answered so. -/
inductive AnsweredZero (stages : Stages) (sized : SizedImport) : Prop
  | intro {request : ImportRequest} {error : String} {result : ImportResult}
      (hpackage : sized.package = .installed request)
      (hresolve : stages.resolvePackageEntry request = .error error)
      (hresult : sized.result = some result)
      (hzero : result.isTypesOnly = true ∨ result.isNativeBinaryOnly = true)

/-- The import is an entry of the group's combined build. -/
inductive EntryOf (stages : Stages) (sized : SizedImport) :
    ImportRuntime × RuntimeGroup → Prop
  | intro {request : ImportRequest} {resolved : ResolvedPackage} {group : RuntimeGroup}
      (hpackage : sized.package = .installed request)
      (hresolve : stages.resolvePackageEntry request = .ok resolved)
      (hentry : bundleEntry request resolved ∈ group.entries) (hsized : sized ∈ group.sized) :
      EntryOf stages sized (request.runtime, group)

theorem sortImport_incomplete (stages : Stages) (acc : Sorted) (sized : SizedImport) :
    (sortImport stages acc sized).totals.incomplete = true ↔
      acc.totals.incomplete = true ∨ Missing stages sized := by
  have hraises : Missing stages sized →
      (sortImport stages acc sized).totals.incomplete = true := by
    rintro (h | ⟨hpackage, hresolve, htypes, hnative⟩)
    · simp only [sortImport, h, Sorted.report, Sorted.missing]
    · simp only [sortImport, hpackage, hresolve, htypes, hnative, Bool.false_eq_true, if_false,
        Sorted.report, Sorted.missing]
  have hkeeps : ¬ Missing stages sized →
      (sortImport stages acc sized).totals = acc.totals := by
    intro hmissing
    unfold sortImport
    split
    · rename_i h
      exact absurd (.notInstalled h) hmissing
    · rfl
    · rename_i request hpackage
      split
      · rfl
      · rename_i error hresolve
        split
        · rfl
        · rename_i htypes
          split
          · rfl
          · rename_i hnative
            exact absurd (.unresolved hpackage hresolve (eq_false_of_ne_true htypes)
              (eq_false_of_ne_true hnative)) hmissing
  by_cases hmissing : Missing stages sized
  · exact ⟨fun _ => .inr hmissing, fun _ => hraises hmissing⟩
  · rw [hkeeps hmissing]
    exact ⟨.inl, fun h => h.resolve_right hmissing⟩

theorem sortImport_totals (acc : Sorted) (sized : SizedImport)
    (h : acc.totals = { incomplete := acc.totals.incomplete }) :
    (sortImport stages acc sized).totals =
      { incomplete := (sortImport stages acc sized).totals.incomplete } := by
  have hmissing : acc.missing.totals = { incomplete := true } := by
    rw [Sorted.missing, h]
  unfold sortImport
  split
  · exact hmissing
  · exact h
  · split
    · exact h
    · split
      · exact h
      · split
        · exact h
        · exact hmissing

theorem sortImport_push {acc : Sorted} {sized : SizedImport} {request : ImportRequest}
    {resolved : ResolvedPackage} (hpackage : sized.package = .installed request)
    (hresolve : stages.resolvePackageEntry request = .ok resolved) :
    (sortImport stages acc sized).groups =
      acc.groups.push request.runtime (bundleEntry request resolved) sized := by
  simp only [sortImport, hpackage, hresolve]

theorem sortImport_groups (stages : Stages) (acc : Sorted) (sized : SizedImport) :
    (sortImport stages acc sized).groups = acc.groups ∨
      ∃ runtime entry, (sortImport stages acc sized).groups =
        acc.groups.push runtime entry sized := by
  unfold sortImport
  split
  · exact .inl rfl
  · exact .inl rfl
  · split
    · exact .inr ⟨_, _, rfl⟩
    · split
      · exact .inl rfl
      · split
        · exact .inl rfl
        · exact .inl rfl

def runtimeGroups (stages : Stages) (imports : List SizedImport) :
    List (ImportRuntime × RuntimeGroup) :=
  (sortImports stages imports).groups.present

theorem mem_present {groups : Groups} :
    one ∈ groups.present ↔ one.2 = groups one.1 ∧ one.2.sized ≠ [] := by
  obtain ⟨runtime, group⟩ := one
  unfold Groups.present
  rw [List.mem_filter]
  simp only [Bool.not_eq_true', List.isEmpty_eq_false_iff]
  refine and_congr_left fun _ => ?_
  rw [List.mem_map]
  constructor
  · rintro ⟨_, _, h⟩
    cases h
    rfl
  · intro h
    refine ⟨runtime, ?_, by rw [h]⟩
    cases runtime <;> simp

/-- Every import whose entry resolves is an entry of its runtime's group. -/
theorem entry_of_resolved {imports : List SizedImport} {sized : SizedImport}
    (hmem : sized ∈ imports) {request : ImportRequest} {resolved : ResolvedPackage}
    (hpackage : sized.package = .installed request)
    (hresolve : stages.resolvePackageEntry request = .ok resolved) :
    ∃ one ∈ runtimeGroups stages imports, EntryOf stages sized one := by
  have hholds : bundleEntry request resolved ∈
        ((sortImports stages imports).groups request.runtime).entries ∧
      sized ∈ ((sortImports stages imports).groups request.runtime).sized := by
    refine foldl_of_mem (P := fun acc : Sorted =>
      bundleEntry request resolved ∈ (acc.groups request.runtime).entries ∧
        sized ∈ (acc.groups request.runtime).sized) ?_ ?_ hmem _
    · intro acc other h
      rcases sortImport_groups stages acc other with heq | ⟨runtime, entry, heq⟩
      · rwa [heq]
      · rw [heq, Groups.push]
        by_cases hruntime : request.runtime = runtime
        · rw [← hruntime, Function.update_self]
          exact ⟨List.mem_append_left _ h.1, List.mem_append_left _ h.2⟩
        · rwa [Function.update_of_ne hruntime]
    · intro acc
      rw [sortImport_push hpackage hresolve, Groups.push, Function.update_self]
      exact ⟨List.mem_append_right _ List.mem_cons_self,
        List.mem_append_right _ List.mem_cons_self⟩
  refine ⟨(request.runtime, (sortImports stages imports).groups request.runtime), ?_,
    .intro hpackage hresolve hholds.1 hholds.2⟩
  exact mem_present.mpr ⟨rfl, List.ne_nil_of_mem hholds.2⟩

theorem sortImports_incomplete (stages : Stages) (imports : List SizedImport) :
    (sortImports stages imports).totals.incomplete = true ↔
      ∃ sized ∈ imports, Missing stages sized := by
  have hflag := foldl_flag (fun acc : Sorted => acc.totals.incomplete)
    (sortImport_incomplete stages) imports {}
  simpa [sortImports] using hflag

theorem sortImports_totals (stages : Stages) (imports : List SizedImport) :
    (sortImports stages imports).totals =
      { incomplete := (sortImports stages imports).totals.incomplete } := by
  unfold sortImports
  suffices hall : ∀ acc : Sorted, acc.totals = { incomplete := acc.totals.incomplete } →
      (imports.foldl (sortImport stages) acc).totals =
        { incomplete := (imports.foldl (sortImport stages) acc).totals.incomplete } from
    hall {} rfl
  induction imports with
  | nil => exact fun _ h => h
  | cons sized imports ih => exact fun acc h => ih _ (sortImport_totals acc sized h)

/-! ## The whole computation -/

section

variable (stages : Stages) (imports : List SizedImport)

def sumGroups : Summed :=
  (runtimeGroups stages imports).foldl (sizeGroup stages)
    { totals := (sortImports stages imports).totals
      diagnostics := (sortImports stages imports).diagnostics }

theorem sumGroups_incomplete :
    (sumGroups stages imports).totals.incomplete = true ↔
      (∃ sized ∈ imports, Missing stages sized) ∨
        ∃ one ∈ runtimeGroups stages imports, Short stages one := by
  rw [← sortImports_incomplete]
  exact foldl_flag (fun acc : Summed => acc.totals.incomplete) (sizeGroup_incomplete stages) _ _

theorem sumGroups_degraded :
    (sumGroups stages imports).totals.degraded = true ↔
      ∃ one ∈ runtimeGroups stages imports, Fails stages one := by
  have hflag := foldl_flag (fun acc : Summed => acc.totals.degraded) (sizeGroup_degraded stages)
    (runtimeGroups stages imports)
    { totals := (sortImports stages imports).totals
      diagnostics := (sortImports stages imports).diagnostics }
  have hclear : (sortImports stages imports).totals.degraded = false := by
    rw [sortImports_totals]
  rw [hclear] at hflag
  simpa [sumGroups] using hflag

theorem sumGroups_anySized :
    (sumGroups stages imports).anySized = true ↔
      ∃ one ∈ runtimeGroups stages imports, Contributes stages one := by
  have hflag := foldl_flag (fun acc : Summed => acc.anySized) (sizeGroup_anySized stages)
    (runtimeGroups stages imports)
    { totals := (sortImports stages imports).totals
      diagnostics := (sortImports stages imports).diagnostics }
  simpa [sumGroups] using hflag

theorem sumGroups_sizes (size : Size) :
    ∃ shares, List.Forall₂ (Share stages size) (runtimeGroups stages imports) shares ∧
      (sumGroups stages imports).totals.sizes.get size = shares.sum := by
  obtain ⟨shares, hshares, htotal⟩ := foldl_shares
    (fun acc : Summed => acc.totals.sizes.get size) (sizeGroup_sizes stages size)
    (runtimeGroups stages imports)
    { totals := (sortImports stages imports).totals
      diagnostics := (sortImports stages imports).diagnostics }
  refine ⟨shares, hshares, htotal.trans ?_⟩
  rw [sortImports_totals, MeasuredSizes.get_zero, Nat.zero_add]

/-- The answer has the flags of the sums, and its totals unless it is an error. -/
theorem computeFileSizeWith_eq :
    (computeFileSizeWith stages imports).incomplete =
        (sumGroups stages imports).totals.incomplete ∧
      (computeFileSizeWith stages imports).degraded =
        (sumGroups stages imports).totals.degraded ∧
      ((computeFileSizeWith stages imports).error.isSome ↔
        runtimeGroups stages imports ≠ [] ∧ (sumGroups stages imports).anySized = false) ∧
      (computeFileSizeWith stages imports).sizes =
        if (computeFileSizeWith stages imports).error.isSome then .zero
        else (sumGroups stages imports).totals.sizes := by
  have hempty : (computeFileSizeWith stages imports) =
      if (runtimeGroups stages imports).isEmpty then
        { (sortImports stages imports).totals with
          diagnostics := (sortImports stages imports).diagnostics }
      else if !(sumGroups stages imports).anySized then
        errorComputation (sumGroups stages imports).totals "file_size_fallback"
          "no import could be sized conservatively" (sumGroups stages imports).diagnostics
      else
        { (sumGroups stages imports).totals with
          diagnostics := (sumGroups stages imports).diagnostics
          error := none
          dependencyFingerprints :=
            sortAndDedupFingerprints (sumGroups stages imports).totals.dependencyFingerprints } :=
    rfl
  rw [hempty]
  cases hgroups : runtimeGroups stages imports with
  | nil =>
      have hsum : (sumGroups stages imports).totals = (sortImports stages imports).totals := by
        rw [sumGroups, hgroups, List.foldl_nil]
      have herror : (sortImports stages imports).totals.error = none := by
        rw [sortImports_totals]
      simp [hsum, herror]
  | cons one rest =>
      cases hany : (sumGroups stages imports).anySized with
      | false => simp [errorComputation]
      | true => simp

end

/-- The import needs no bytes, or its bytes are in a combined build that lacks none. -/
inductive Counted (stages : Stages) (imports : List SizedImport) (sized : SizedImport) : Prop
  | pathAlias (h : sized.package = .pathAlias)
  | zero (h : AnsweredZero stages sized)
  | combined {one : ImportRuntime × RuntimeGroup} (hmem : one ∈ runtimeGroups stages imports)
      (hentry : EntryOf stages sized one) (build : CombinedBuild stages one) (hwhole : build.Whole)

/-- The import is in a group that fell back and lacks nothing: each import of it was
measured, none as a floor. -/
def FellBackWhole (stages : Stages) (imports : List SizedImport) (sized : SizedImport) : Prop :=
  ∃ one ∈ runtimeGroups stages imports, EntryOf stages sized one ∧ Fails stages one ∧
    ∀ other ∈ one.2.sized, other.Whole

/-- What a computation's flags and totals say about the imports and the builds. -/
structure Tells (stages : Stages) (imports : List SizedImport)
    (computation : FileSizeComputation) : Prop where
  complete : computation.incomplete = false →
    ∀ sized ∈ imports, Counted stages imports sized ∨ FellBackWhole stages imports sized
  degraded : computation.degraded = true ↔
    ∃ one ∈ runtimeGroups stages imports, Fails stages one
  error : computation.error.isSome ↔ runtimeGroups stages imports ≠ [] ∧
    ∀ one ∈ runtimeGroups stages imports, ¬ Contributes stages one
  /-- An error has no bytes, and still says what was missing and what failed. -/
  failed : computation.error.isSome →
    (∀ size, computation.sizes.get size = 0) ∧
      (computation.incomplete = true ↔ (∃ sized ∈ imports, Missing stages sized) ∨
        ∃ one ∈ runtimeGroups stages imports, Short stages one) ∧
      computation.degraded = true
  fileCost : computation.isFileCost = true →
    (∀ sized ∈ imports, Counted stages imports sized) ∧
      ∀ one ∈ runtimeGroups stages imports, ¬ Fails stages one
  totals : ∀ size, ∃ shares,
    List.Forall₂ (Share stages size) (runtimeGroups stages imports) shares ∧
      computation.sizes.get size = shares.sum

theorem zero_or_entry {imports : List SizedImport} {sized : SizedImport} (hmem : sized ∈ imports)
    (h : ¬ Missing stages sized) :
    sized.package = .pathAlias ∨ AnsweredZero stages sized ∨
      ∃ one ∈ runtimeGroups stages imports, EntryOf stages sized one := by
  cases hpackage : sized.package with
  | notInstalled => exact absurd (.notInstalled hpackage) h
  | pathAlias => exact .inl rfl
  | installed request =>
      cases hresolve : stages.resolvePackageEntry request with
      | ok resolved => exact .inr (.inr (entry_of_resolved hmem hpackage hresolve))
      | error error =>
          refine .inr (.inl ?_)
          by_contra hzero
          have hnone : ∀ p : ImportResult → Bool,
              (∀ result, p result = true →
                result.isTypesOnly = true ∨ result.isNativeBinaryOnly = true) →
              sized.result.any p = false := by
            intro p hp
            refine eq_false_of_ne_true fun hany => hzero ?_
            obtain ⟨result, hresult, hresult'⟩ := (Option.any_eq_true _ _).mp hany
            exact .intro hpackage hresolve hresult (hp result hresult')
          exact h (.unresolved hpackage hresolve (hnone _ fun _ => .inl) (hnone _ fun _ => .inr))

theorem whole_of_not_short (h : ¬ Short stages one) :
    (∃ build : CombinedBuild stages one, build.Whole) ∨
      (Fails stages one ∧ ∀ other ∈ one.2.sized, other.Whole) := by
  rcases fails_or_combined stages one with hfails | ⟨⟨build⟩⟩
  · refine .inr ⟨hfails, fun other hother => ?_⟩
    by_contra hother'
    exact h (.fallback hfails ⟨other, hother, hother'⟩)
  · refine .inl ⟨build, ?_⟩
    by_contra hwhole
    exact h (.combined build hwhole)

theorem share_eq_zero {size : Size} {n : Nat} (h : ¬ Contributes stages one)
    (hshare : Share stages size one n) : n = 0 := by
  cases hshare with
  | combined build => exact absurd (.combined build) h
  | fallback hfails => exact perImport_eq_zero size fun hany => h (.fallback hfails hany)

theorem shares_eq_zero {size : Size} {groups : List (ImportRuntime × RuntimeGroup)}
    {shares : List Nat} (hshares : List.Forall₂ (Share stages size) groups shares)
    (h : ∀ one ∈ groups, ¬ Contributes stages one) : shares.sum = 0 := by
  induction hshares with
  | nil => rfl
  | cons hshare _ ih =>
      rw [List.sum_cons, share_eq_zero (h _ List.mem_cons_self) hshare,
        ih fun one hone => h one (List.mem_cons_of_mem _ hone)]

theorem complete_of_not_incomplete {imports : List SizedImport}
    (h : (computeFileSizeWith stages imports).incomplete = false) :
    ∀ sized ∈ imports, Counted stages imports sized ∨ FellBackWhole stages imports sized := by
  have hiff := sumGroups_incomplete stages imports
  rw [← (computeFileSizeWith_eq stages imports).1, h] at hiff
  have hnone : ¬ ((∃ sized ∈ imports, Missing stages sized) ∨
      ∃ one ∈ runtimeGroups stages imports, Short stages one) := fun hsome =>
    Bool.false_ne_true (hiff.mpr hsome)
  rw [not_or] at hnone
  intro sized hmem
  rcases zero_or_entry hmem fun hmissing => hnone.1 ⟨sized, hmem, hmissing⟩ with
    halias | hzero | ⟨one, hone, hentry⟩
  · exact .inl (.pathAlias halias)
  · exact .inl (.zero hzero)
  · rcases whole_of_not_short fun hshort => hnone.2 ⟨one, hone, hshort⟩ with
      ⟨build, hwhole⟩ | ⟨hfails, hwhole⟩
    · exact .inl (.combined hone hentry build hwhole)
    · exact .inr ⟨one, hone, hentry, hfails, hwhole⟩

theorem not_fails_of_mayEnterAggregateCache {imports : List SizedImport}
    (h : (computeFileSizeWith stages imports).mayEnterAggregateCache = true) :
    ∀ one ∈ runtimeGroups stages imports, ¬ Fails stages one := by
  intro one hone hfails
  have hdegraded : (computeFileSizeWith stages imports).degraded = true := by
    rw [(computeFileSizeWith_eq stages imports).2.1, sumGroups_degraded]
    exact ⟨one, hone, hfails⟩
  simp [FileSizeComputation.mayEnterAggregateCache, FileSizeComputation.isFileCost,
    hdegraded] at h

/-- For every list of imports and every outcome of the stages, the flags of the
computation say what its totals are. -/
theorem flags_tell (stages : Stages) (imports : List SizedImport) :
    Tells stages imports (computeFileSizeWith stages imports) := by
  obtain ⟨hincomplete, hdegraded, herror, hsizes⟩ := computeFileSizeWith_eq stages imports
  have hfails := sumGroups_degraded stages imports
  rw [← hdegraded] at hfails
  have hcontributes : (computeFileSizeWith stages imports).error.isSome ↔
      runtimeGroups stages imports ≠ [] ∧
        ∀ one ∈ runtimeGroups stages imports, ¬ Contributes stages one := by
    rw [herror, ← Bool.not_eq_true, sumGroups_anySized]
    simp only [not_exists, not_and]
  refine ⟨complete_of_not_incomplete, hfails, hcontributes, ?_, ?_, ?_⟩
  · intro hsome
    obtain ⟨hgroups, hnone⟩ := hcontributes.mp hsome
    refine ⟨fun size => ?_, ?_, hfails.mpr ?_⟩
    · rw [hsizes, if_pos hsome, MeasuredSizes.get_zero]
    · rw [hincomplete, sumGroups_incomplete]
    · obtain ⟨one, hone⟩ := List.exists_mem_of_ne_nil _ hgroups
      refine ⟨one, hone, (fails_or_combined stages one).resolve_right ?_⟩
      rintro ⟨build⟩
      exact hnone one hone (.combined build)
  · intro hcost
    simp only [FileSizeComputation.isFileCost, Bool.and_eq_true, Bool.not_eq_true'] at hcost
    obtain ⟨⟨⟨⟨_, hcomplete⟩, hwhole⟩, _⟩, _⟩ := hcost
    have hnone : ∀ one ∈ runtimeGroups stages imports, ¬ Fails stages one :=
      fun one hone hone' => Bool.false_ne_true (hwhole.symm.trans (hfails.mpr ⟨one, hone, hone'⟩))
    refine ⟨fun sized hmem => ?_, hnone⟩
    rcases complete_of_not_incomplete hcomplete sized hmem with hcounted | ⟨one, hone, _, hone', _⟩
    · exact hcounted
    · exact absurd hone' (hnone one hone)
  · intro size
    obtain ⟨shares, hshares, htotal⟩ := sumGroups_sizes stages imports size
    refine ⟨shares, hshares, ?_⟩
    rw [hsizes]
    split
    · rename_i hsome
      rw [MeasuredSizes.get_zero, shares_eq_zero hshares (hcontributes.mp hsome).2]
    · exact htotal

end ImportLens.Pipeline.FileSize
