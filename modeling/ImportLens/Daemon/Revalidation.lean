import ImportLens.Daemon.Streaming

/-!
# The push of a revalidation

A revalidation builds the imports again that were served stale.  Their figures are shared with
the other imports of the document, so the push annotates all of them, and carries the siblings
whose figure changes along with the recomputed imports.
-/

namespace ImportLens.Daemon.Streaming

open ImportLens.Support ImportLens.Pipeline ImportLens.Extension

def recomputedImports (fresh : List ImportResult) (identities : List RefreshedImportIdentity) :
    List MeasuredImport :=
  (fresh.zip identities).map fun recomputed => ⟨recomputed.1, recomputed.2⟩

def siblingsOf (document : List MeasuredImport) (identities : List RefreshedImportIdentity) :
    List MeasuredImport :=
  document.filter fun imported => decide (imported.identity ∉ identities)

def renewed (document : List MeasuredImport) (fresh : List ImportResult)
    (identities : List RefreshedImportIdentity) : List MeasuredImport :=
  siblingsOf document identities ++ recomputedImports fresh identities

def revalidatedWithSharedBytes (document : List MeasuredImport) (fresh : List ImportResult)
    (identities : List RefreshedImportIdentity) : RefreshedResults :=
  let siblingCount := (siblingsOf document identities).length
  let document := renewed document fresh identities
  let annotated := annotateSharedBytes (document.map MeasuredImport.partition)
  let pushed := (document.zip annotated).zipIdx.filter fun entry =>
    decide (siblingCount ≤ entry.2) ||
      decide (entry.1.1.result.sharedBytes.getD 0 ≠ entry.1.2.sharedBytes.getD 0)
  { results := pushed.map fun entry => entry.1.2
    identities := pushed.map fun entry => entry.1.1.identity }

/-- What `revalidate_document_sizes` pushes once it has recomputed some imports: it reads the
document from the cache again, so the probes come after the recomputed results were stored. -/
def revalidateDocumentSizes (probed : List (DetectedImport × CacheProbe))
    (fresh : List ImportResult) (identities : List RefreshedImportIdentity) : RefreshedResults :=
  revalidatedWithSharedBytes (handleAnalyzeDocumentStreaming probed).measured fresh identities

/-! ## What the push carries -/

section

variable {document : List MeasuredImport} {fresh : List ImportResult}
  {identities : List RefreshedImportIdentity} {probed : List (DetectedImport × CacheProbe)}
  {imported : MeasuredImport} {shown : Shown}

theorem filter_zipIdx_append {α : Type} (p : α → Bool) (xs ys : List α) :
    (((xs ++ ys).zipIdx.filter fun entry => decide (xs.length ≤ entry.2) || p entry.1).map
      Prod.fst) = xs.filter p ++ ys := by
  have hfirst : (xs.zipIdx.filter fun entry => decide (xs.length ≤ entry.2) || p entry.1) =
      xs.zipIdx.filter fun entry => p entry.1 := by
    apply List.filter_congr
    intro entry hentry
    have hlt := List.snd_lt_of_mem_zipIdx hentry
    rw [decide_eq_false (by omega), Bool.false_or]
  have hsecond : ((ys.zipIdx xs.length).filter fun entry =>
      decide (xs.length ≤ entry.2) || p entry.1) = ys.zipIdx xs.length := by
    apply List.filter_eq_self.mpr
    intro entry hentry
    rw [decide_eq_true (List.le_snd_of_mem_zipIdx hentry), Bool.true_or]
  have hmap : (xs.zipIdx.filter fun entry => p entry.1).map Prod.fst = xs.filter p := by
    conv_rhs => rw [← List.zipIdx_map_fst 0 xs, List.filter_map]
    rfl
  rw [List.zipIdx_append, Nat.zero_add, List.filter_append, hfirst, hsecond, List.map_append, hmap,
    List.zipIdx_map_fst]

def carried (document : List MeasuredImport) (fresh : List ImportResult)
    (identities : List RefreshedImportIdentity) : List MeasuredImport :=
  (siblingsOf document identities).filter (differs (renewed document fresh identities)) ++
    recomputedImports fresh identities

theorem revalidated_eq (document : List MeasuredImport) (fresh : List ImportResult)
    (identities : List RefreshedImportIdentity) :
    revalidatedWithSharedBytes document fresh identities =
      { results := (carried document fresh identities).map
          (corrected (renewed document fresh identities))
        identities := (carried document fresh identities).map MeasuredImport.identity } := by
  unfold revalidatedWithSharedBytes carried
  dsimp only
  rw [zip_annotated, ← filter_zipIdx_append, List.zipIdx_map, List.filter_map, List.map_map,
    List.map_map, List.map_map, List.map_map]
  rfl

theorem identities_recomputed (hlength : fresh.length = identities.length) :
    (recomputedImports fresh identities).map MeasuredImport.identity = identities := by
  rw [recomputedImports, List.map_map]
  exact List.map_snd_zip (Nat.le_of_eq hlength.symm)

theorem new_document_nodup (hdocument : (document.map MeasuredImport.identity).Nodup)
    (hidentities : identities.Nodup) (hlength : fresh.length = identities.length) :
    ((renewed document fresh identities).map MeasuredImport.identity).Nodup := by
  rw [renewed, List.map_append, identities_recomputed hlength, List.nodup_append]
  refine ⟨(List.filter_sublist.map _).nodup hdocument, hidentities, ?_⟩
  rintro identity hsibling other hother rfl
  obtain ⟨imported, himported, rfl⟩ := List.mem_map.mp hsibling
  exact of_decide_eq_true (List.mem_filter.mp himported).2 hother

/-- The push, as the results that it brings for each import. -/
theorem zip_revalidated (document : List MeasuredImport) (fresh : List ImportResult)
    (identities : List RefreshedImportIdentity) :
    (revalidatedWithSharedBytes document fresh identities).identities.zip
        (revalidatedWithSharedBytes document fresh identities).results =
      (carried document fresh identities).map fun imported =>
        (imported.identity, corrected (renewed document fresh identities) imported) := by
  rw [revalidated_eq, List.zip_map']

/-- After the push every import of the document has the figure of the document with the
recomputed imports in place, whatever the client showed for these.  The push carries the siblings
whose figure changes, then the recomputed imports. -/
theorem revalidation_brings_the_figures (document : List MeasuredImport)
    (fresh : List ImportResult) (identities : List RefreshedImportIdentity) (shown : Shown)
    (hdocument : (document.map MeasuredImport.identity).Nodup) (hidentities : identities.Nodup)
    (hlength : fresh.length = identities.length)
    (hshown : ∀ imported ∈ siblingsOf document identities,
      shown imported.identity = some imported.result) :
    (revalidatedWithSharedBytes document fresh identities).identities =
        ((siblingsOf document identities).filter
          (differs (renewed document fresh identities))).map MeasuredImport.identity ++
            identities ∧
      ∀ imported ∈ renewed document fresh identities,
        ∃ result, applyPush shown (revalidatedWithSharedBytes document fresh identities)
            imported.identity = some result ∧
          result.sharedBytes.getD 0 =
            (corrected (renewed document fresh identities) imported).sharedBytes.getD 0 ∧
          ∃ shared, result = { imported.result with sharedBytes := shared } := by
  have hnodup := new_document_nodup hdocument hidentities hlength
  constructor
  · rw [revalidated_eq]
    dsimp only
    rw [carried, List.map_append, identities_recomputed hlength]
  intro imported himported
  have hsublist : (carried document fresh identities).Sublist
      (renewed document fresh identities) := List.filter_sublist.append_right _
  rw [applyPush, zip_revalidated]
  by_cases hcarried : imported ∈ carried document fresh identities
  · refine ⟨_, replaceAll_of_mem ?_ (List.mem_map_of_mem hcarried), rfl, _, rfl⟩
    rw [List.map_map]
    exact (hsublist.map _).nodup hnodup
  · have hsibling : imported ∈ siblingsOf document identities := by
      refine (List.mem_append.mp himported).resolve_right fun hrecomputed => hcarried ?_
      exact List.mem_append_right _ hrecomputed
    have hsame : differs (renewed document fresh identities) imported = false := by
      by_contra hdiffers
      apply hcarried
      exact List.mem_append_left _ (List.mem_filter.mpr ⟨hsibling, Bool.not_eq_false _ ▸ hdiffers⟩)
    refine ⟨imported.result, ?_, ?_, imported.result.sharedBytes, rfl⟩
    · rw [replaceAll_of_notMem, hshown imported hsibling]
      intro hlisted
      rw [List.map_map] at hlisted
      obtain ⟨other, hother, heq⟩ := List.mem_map.mp hlisted
      cases List.inj_on_of_nodup_map hnodup (hsublist.subset hother) himported heq
      exact hcarried hother
    · simpa [differs] using hsame

/-! ## The siblings of imports that the cache holds -/

def pathsOf (imported : MeasuredImport) : List (ImportRuntime × String) :=
  (resultContributions imported.result).map fun module => (imported.identity.runtime, module.path)

theorem occurrences_partition (imports : List MeasuredImport) :
    occurrences (imports.map MeasuredImport.partition) = imports.flatMap pathsOf := by
  rw [occurrences, List.flatMap_map]
  rfl

theorem pathsOf_figure (detected : DetectedImport) (result : ImportResult) (shared : Nat) :
    pathsOf (withIdentity detected (withSharedBytes result shared)) =
      pathsOf (withIdentity detected result) := rfl

theorem occurrences_measured (probed : List (DetectedImport × CacheProbe)) :
    occurrences (readyImports ((probed.map fun imported =>
      classify imported.1 imported.2).map Prod.fst)) =
      (handleAnalyzeDocumentStreaming probed).measured.flatMap pathsOf := by
  rw [measured_eq]
  generalize responseCounts probed = counts
  induction probed with
  | nil => rfl
  | cons imported rest ih =>
    obtain ⟨detected, probe⟩ := imported
    cases probe with
    | invalid => exact ih
    | miss => exact ih
    | hit result => exact congrArg (pathsOf (withIdentity detected result) ++ ·) ih
    | unresolved result => exact congrArg (pathsOf (withIdentity detected result) ++ ·) ih

theorem measured_nodup (hdistinct : Distinct probed) :
    ((handleAnalyzeDocumentStreaming probed).measured.map MeasuredImport.identity).Nodup := by
  rw [measured_eq]
  refine (map_filterMap_sublist (fun imported measured h => ?_) probed).nodup hdistinct
  obtain ⟨result, -, rfl⟩ := Option.map_eq_some_iff.mp h
  rfl

/-- The cache has an answer for each recomputed import, with the modules of its recomputed
result; the answer says besides that it is a hit. -/
def Holds (probed : List (DetectedImport × CacheProbe)) (fresh : List ImportResult)
    (identities : List RefreshedImportIdentity) : Prop :=
  ∀ recomputed ∈ fresh.zip identities, ∃ detected cached,
    (detected, CacheProbe.hit cached) ∈ probed ∧ refreshedIdentity detected = recomputed.2 ∧
      resultContributions cached = resultContributions recomputed.1

theorem Holds.measured (h : Holds probed fresh identities) {recomputed : MeasuredImport}
    (hrecomputed : recomputed ∈ recomputedImports fresh identities) :
    ∃ held ∈ (handleAnalyzeDocumentStreaming probed).measured,
      held.identity = recomputed.identity ∧ pathsOf held = pathsOf recomputed := by
  obtain ⟨entry, hentry, rfl⟩ := List.mem_map.mp hrecomputed
  obtain ⟨detected, cached, hprobed, hidentity, hmodules⟩ := h entry hentry
  refine ⟨withIdentity detected (withSharedBytes cached
    (sharedWithin ((responseCounts probed).lookup detected.runtime) cached)), ?_, hidentity, ?_⟩
  · rw [measured_eq]
    exact List.mem_filterMap.mpr ⟨_, hprobed, rfl⟩
  · rw [pathsOf_figure]
    unfold pathsOf withIdentity
    rw [hidentity, hmodules]

/-- Two lists of imports, each with distinct identities, that have the same identities with the
same paths. -/
theorem flatMap_pathsOf_perm {xs ys : List MeasuredImport}
    (hxs : (xs.map MeasuredImport.identity).Nodup) (hys : (ys.map MeasuredImport.identity).Nodup)
    (hsub : ∀ x ∈ xs, ∃ y ∈ ys, y.identity = x.identity ∧ pathsOf y = pathsOf x)
    (hsup : ∀ y ∈ ys, ∃ x ∈ xs, x.identity = y.identity ∧ pathsOf x = pathsOf y) :
    (xs.flatMap pathsOf).Perm (ys.flatMap pathsOf) := by
  have hkeyed : ∀ zs : List MeasuredImport, zs.flatMap pathsOf =
      (zs.map fun z => (z.identity, pathsOf z)).flatMap Prod.snd := by
    intro zs
    rw [List.flatMap_map]
  have hnodup : ∀ zs : List MeasuredImport, (zs.map MeasuredImport.identity).Nodup →
      (zs.map fun z => (z.identity, pathsOf z)).Nodup := by
    intro zs hzs
    refine List.Nodup.of_map Prod.fst ?_
    rwa [List.map_map]
  rw [hkeyed, hkeyed]
  refine List.Perm.flatMap_right _ ((List.perm_ext_iff_of_nodup (hnodup xs hxs) (hnodup ys hys)).mpr
    fun entry => ?_)
  simp only [List.mem_map]
  constructor
  · rintro ⟨x, hx, rfl⟩
    obtain ⟨y, hy, hidentity, hpaths⟩ := hsub x hx
    exact ⟨y, hy, by rw [hidentity, hpaths]⟩
  · rintro ⟨y, hy, rfl⟩
    obtain ⟨x, hx, hidentity, hpaths⟩ := hsup y hy
    exact ⟨x, hx, by rw [hidentity, hpaths]⟩

/-- The document that the cache holds has the paths of the one with the recomputed imports in
place. -/
theorem Holds.occurrences (h : Holds probed fresh identities) (hdistinct : Distinct probed)
    (hidentities : identities.Nodup) (hlength : fresh.length = identities.length) :
    ((renewed (handleAnalyzeDocumentStreaming probed).measured fresh identities).flatMap
      pathsOf).Perm ((handleAnalyzeDocumentStreaming probed).measured.flatMap pathsOf) := by
  have hnodup := measured_nodup hdistinct
  have hrecomputed := identities_recomputed hlength
  refine flatMap_pathsOf_perm (new_document_nodup hnodup hidentities hlength) hnodup ?_ ?_
  · intro imported himported
    rcases List.mem_append.mp himported with hsibling | hnew
    · exact ⟨imported, (List.mem_filter.mp hsibling).1, rfl, rfl⟩
    · exact h.measured hnew
  · intro imported himported
    by_cases hmember : imported.identity ∈ identities
    · rw [← hrecomputed] at hmember
      obtain ⟨recomputed, hnew, hidentity⟩ := List.mem_map.mp hmember
      obtain ⟨held, hheld, hsame, hpaths⟩ := h.measured hnew
      cases List.inj_on_of_nodup_map hnodup hheld himported (hsame.trans hidentity)
      exact ⟨recomputed, List.mem_append_right _ hnew, hidentity, hpaths.symm⟩
    · exact ⟨imported, List.mem_append_left _
        (List.mem_filter.mpr ⟨himported, decide_eq_true hmember⟩), rfl, rfl⟩

/-- The figure that the response has for an import it has measured. -/
theorem figure_of_measured (h : imported ∈ (handleAnalyzeDocumentStreaming probed).measured) :
    imported.result.sharedBytes = some (sharedFigure
      ((handleAnalyzeDocumentStreaming probed).measured.flatMap pathsOf)
      imported.identity.runtime imported.result) := by
  rw [measured_eq] at h
  obtain ⟨entry, -, hmeasured⟩ := List.mem_filterMap.mp h
  obtain ⟨result, hanswered, rfl⟩ := Option.map_eq_some_iff.mp hmeasured
  obtain ⟨settled, -, rfl⟩ := Option.map_eq_some_iff.mp hanswered
  rw [← occurrences_measured]
  exact congrArg some (sharedWithin_eq _ _ _)

/-- A document that is read after the cache took the recomputed results is annotated with their
figures already: no sibling differs, and whatever figure the client showed for one stays. -/
theorem revalidation_pushes_no_sibling (probed : List (DetectedImport × CacheProbe))
    (fresh : List ImportResult) (identities : List RefreshedImportIdentity)
    (hdistinct : Distinct probed) (hidentities : identities.Nodup)
    (hlength : fresh.length = identities.length) (hholds : Holds probed fresh identities) :
    (revalidateDocumentSizes probed fresh identities).identities = identities ∧
      ∀ (shown : Shown) (identity : RefreshedImportIdentity), identity ∉ identities →
        applyPush shown (revalidateDocumentSizes probed fresh identities) identity =
          shown identity := by
  have hpaths := hholds.occurrences hdistinct hidentities hlength
  have hnone : (siblingsOf (handleAnalyzeDocumentStreaming probed).measured identities).filter
      (differs (renewed (handleAnalyzeDocumentStreaming probed).measured fresh identities)) =
        [] := by
    rw [List.filter_eq_nil_iff]
    intro imported hsibling
    have hfigure := figure_of_measured (List.mem_filter.mp hsibling).1
    simp only [differs, corrected, withSharedBytes, occurrences_partition,
      sharedFigure_perm hpaths, hfigure, ne_eq, not_true_eq_false, decide_false,
      Bool.false_eq_true, not_false_eq_true]
  have hcarried : (carried (handleAnalyzeDocumentStreaming probed).measured fresh identities).map
      MeasuredImport.identity = identities := by
    rw [carried, hnone, List.nil_append, identities_recomputed hlength]
  constructor
  · rw [revalidateDocumentSizes, revalidated_eq]
    exact hcarried
  · intro shown identity hother
    rw [applyPush, revalidateDocumentSizes, zip_revalidated]
    apply replaceAll_of_notMem
    rw [List.map_map]
    exact fun hmem => hother (hcarried ▸ hmem)

end

def showsBoth : Shown := fun _ => some (withSharedBytes (shipping "b" "m.js") 10)

def servedBoth : List MeasuredImport :=
  [withIdentity (detectedAt "a") (withSharedBytes (shipping "a" "m.js") 10),
    withIdentity (detectedAt "b") (withSharedBytes (shipping "b" "m.js") 10)]

/-- The first of them no longer ships it, so the second shares nothing any more. -/
theorem sibling_of_a_recomputed_import :
    (revalidatedWithSharedBytes servedBoth [shipping "a" "n.js"]
      [refreshedIdentity (detectedAt "a")]).identities =
        [refreshedIdentity (detectedAt "b"), refreshedIdentity (detectedAt "a")] ∧
      ∃ result, applyPush showsBoth (revalidatedWithSharedBytes servedBoth [shipping "a" "n.js"]
        [refreshedIdentity (detectedAt "a")]) (refreshedIdentity (detectedAt "b")) = some result ∧
          result.sharedBytes.getD 0 = 0 := by
  obtain ⟨hidentities, hfigures⟩ := revalidation_brings_the_figures servedBoth
    [shipping "a" "n.js"] [refreshedIdentity (detectedAt "a")] showsBoth (by decide) (by decide) rfl
    (by decide)
  obtain ⟨result, hresult, hfigure, -⟩ := hfigures
    (withIdentity (detectedAt "b") (withSharedBytes (shipping "b" "m.js") 10)) (by decide)
  exact ⟨hidentities, result, hresult, hfigure⟩

def answeredBoth : List (DetectedImport × CacheProbe) :=
  [(detectedAt "a", .hit { shipping "a" "n.js" with cacheHit := true }),
    (detectedAt "b", .hit { shipping "b" "m.js" with cacheHit := true })]

/-- Read from the cache after that, the document hides it from the push. -/
theorem sibling_of_a_held_import :
    (revalidateDocumentSizes answeredBoth [shipping "a" "n.js"]
        [refreshedIdentity (detectedAt "a")]).identities = [refreshedIdentity (detectedAt "a")] ∧
      applyPush showsBoth (revalidateDocumentSizes answeredBoth [shipping "a" "n.js"]
          [refreshedIdentity (detectedAt "a")]) (refreshedIdentity (detectedAt "b")) =
        some (withSharedBytes (shipping "b" "m.js") 10) := by
  have hholds : Holds answeredBoth [shipping "a" "n.js"] [refreshedIdentity (detectedAt "a")] := by
    intro recomputed hrecomputed
    cases List.mem_singleton.mp hrecomputed
    exact ⟨detectedAt "a", _, List.mem_cons_self, rfl, rfl⟩
  have hpush := revalidation_pushes_no_sibling answeredBoth [shipping "a" "n.js"]
    [refreshedIdentity (detectedAt "a")] (by decide) (by decide) rfl hholds
  exact ⟨hpush.1, hpush.2 showsBoth _ (by decide)⟩

end ImportLens.Daemon.Streaming
