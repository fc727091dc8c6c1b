import ImportLens.Pipeline.SharedBytes
import ImportLens.Extension.RefreshMerge
import Mathlib.Data.List.Nodup
import Mathlib.Logic.Function.Basic

/-!
# Streamed analyses

A document is answered with what the cache knows, and every other import is pushed as
soon as it is built.  Shared bytes are a property of the whole document, so the figures
sent on the way are those of a part of it, and a closing push corrects them.
-/

namespace ImportLens.Daemon.Streaming

open ImportLens.Support ImportLens.Pipeline ImportLens.Extension

structure ImportAnalysisItem where
  detected : DetectedImport
  status : ImportAnalysisStatus
  message : Option String := none
  result : Option ImportResult := none
  deriving DecidableEq, Repr

/-- What can be said of an import without a build. -/
inductive CacheProbe
  /-- No request can be made for it. -/
  | invalid (message : String)
  | hit (result : ImportResult)
  /-- It does not resolve, and is settled by what the file system says. -/
  | unresolved (result : ImportResult)
  | miss
  deriving DecidableEq, Repr

structure MeasuredImport where
  result : ImportResult
  identity : RefreshedImportIdentity
  deriving DecidableEq, Repr

def refreshedIdentity (detected : DetectedImport) : RefreshedImportIdentity where
  specifier := detected.specifier
  importKind := detected.importKind
  named := detected.named
  runtime := detected.runtime

def MeasuredImport.partition (imported : MeasuredImport) : ImportRuntime × ImportResult :=
  (imported.identity.runtime, imported.result)

structure StreamedDocumentAnalysis where
  imports : List ImportAnalysisItem
  measured : List MeasuredImport
  pending : List DetectedImport

structure RefreshedResults where
  results : List ImportResult
  identities : List RefreshedImportIdentity
  deriving DecidableEq, Repr

/-! ## The response -/

def classify (detected : DetectedImport) : CacheProbe → ImportAnalysisItem × Option DetectedImport
  | .invalid message =>
      ({ detected := detected, status := .missing, message := some message }, none)
  | .hit result => ({ detected := detected, status := .ready, result := some result }, none)
  | .unresolved result => ({ detected := detected, status := .ready, result := some result }, none)
  | .miss => ({ detected := detected, status := .loading }, some detected)

def readyImports (items : List ImportAnalysisItem) : List (ImportRuntime × ImportResult) :=
  items.filterMap fun item => item.result.map fun result => (item.detected.runtime, result)

/-- `annotate_ready_items`: the annotation in place. -/
def annotateReadyItems (items : List ImportAnalysisItem) : List ImportAnalysisItem :=
  let counts := countPaths ∅ (readyImports items)
  items.map fun item => { item with
    result := item.result.map fun result =>
      withSharedBytes result (sharedWithin (counts.lookup item.detected.runtime) result) }

def measured (items : List ImportAnalysisItem) : List MeasuredImport :=
  items.filterMap fun item => item.result.map fun result =>
    { result := result, identity := refreshedIdentity item.detected }

def handleAnalyzeDocumentStreaming (probed : List (DetectedImport × CacheProbe)) :
    StreamedDocumentAnalysis :=
  let classified := probed.map fun imported => classify imported.1 imported.2
  let items := annotateReadyItems (classified.map Prod.fst)
  { imports := items
    measured := measured items
    pending := classified.filterMap Prod.snd }

/-! ## The pushes -/

def sharedBytesCorrections (document : List MeasuredImport) : RefreshedResults :=
  let annotated := annotateSharedBytes (document.map MeasuredImport.partition)
  let corrected := (document.zip annotated).filter fun pair =>
    decide (pair.1.result.sharedBytes.getD 0 ≠ pair.2.sharedBytes.getD 0)
  { results := corrected.map Prod.snd
    identities := corrected.map fun pair => pair.1.identity }

/-- `complete_pending_imports` of a document that is not superseded.  The workers emit
the results in one order and record them in another. -/
def completePendingImports (measured : List MeasuredImport) (build : DetectedImport → ImportResult)
    (emitted landed : List DetectedImport) : List RefreshedResults :=
  let corrections := sharedBytesCorrections (measured ++ landed.map fun detected =>
    { result := build detected, identity := refreshedIdentity detected })
  emitted.map (fun detected => ⟨[build detected], [refreshedIdentity detected]⟩) ++
    if corrections.results = [] then [] else [corrections]

/-! ## The client -/

abbrev Shown : Type := RefreshedImportIdentity → Option ImportResult

def shownIn (items : List ImportAnalysisItem) : Shown := fun identity =>
  (items.find? fun item => decide (refreshedIdentity item.detected = identity)).bind
    ImportAnalysisItem.result

def replaceAll (shown : Shown) (entries : List (RefreshedImportIdentity × ImportResult)) : Shown :=
  entries.foldl (fun shown entry => Function.update shown entry.1 (some entry.2)) shown

def applyPush (shown : Shown) (push : RefreshedResults) : Shown :=
  replaceAll shown (push.identities.zip push.results)

section

variable {shown : Shown} {entries : List (RefreshedImportIdentity × ImportResult)}
variable {identity : RefreshedImportIdentity} {result : ImportResult}

theorem replaceAll_of_notMem (h : identity ∉ entries.map Prod.fst) :
    replaceAll shown entries identity = shown identity := by
  induction entries generalizing shown with
  | nil => rfl
  | cons entry entries ih =>
    rw [List.map_cons, List.mem_cons, not_or] at h
    rw [replaceAll, List.foldl_cons]
    refine (ih h.2).trans ?_
    rw [Function.update_of_ne h.1]

theorem replaceAll_of_mem (hnodup : (entries.map Prod.fst).Nodup)
    (h : (identity, result) ∈ entries) : replaceAll shown entries identity = some result := by
  induction entries generalizing shown with
  | nil => cases h
  | cons entry entries ih =>
    rw [List.map_cons, List.nodup_cons] at hnodup
    rw [replaceAll, List.foldl_cons]
    cases h with
    | head =>
      refine (replaceAll_of_notMem hnodup.1).trans ?_
      rw [Function.update_self]
    | tail _ hlater => exact ih hnodup.2 hlater

theorem foldl_applyPush (shown : Shown) (pushes : List RefreshedResults) :
    pushes.foldl applyPush shown =
      replaceAll shown (pushes.flatMap fun push => push.identities.zip push.results) := by
  induction pushes generalizing shown with
  | nil => rfl
  | cons push pushes ih =>
    rw [List.foldl_cons, ih, List.flatMap_cons, replaceAll, replaceAll, List.foldl_append]
    rfl

end

/-! ## The whole document -/

def CacheProbe.result : CacheProbe → Option ImportResult
  | .invalid _ => none
  | .hit result => some result
  | .unresolved result => some result
  | .miss => none

def pendingOf (probed : DetectedImport × CacheProbe) : Option DetectedImport :=
  (classify probed.1 probed.2).2

def completeResult (build : DetectedImport → ImportResult) (probed : DetectedImport × CacheProbe) :
    Option ImportResult :=
  probed.2.result.or ((pendingOf probed).map build)

def withIdentity (detected : DetectedImport) (result : ImportResult) : MeasuredImport :=
  { result := result, identity := refreshedIdentity detected }

def completeImports (probed : List (DetectedImport × CacheProbe))
    (build : DetectedImport → ImportResult) : List MeasuredImport :=
  probed.filterMap fun imported => (completeResult build imported).map (withIdentity imported.1)

section

variable {probed : List (DetectedImport × CacheProbe)} {build : DetectedImport → ImportResult}

theorem classify_detected (detected : DetectedImport) (probe : CacheProbe) :
    (classify detected probe).1.detected = detected := by
  cases probe <;> rfl

theorem result_or_pending (imported : DetectedImport × CacheProbe) :
    imported.2.result = none ∨ pendingOf imported = none := by
  obtain ⟨detected, probe⟩ := imported
  cases probe with
  | invalid message => exact .inl rfl
  | hit result => exact .inr rfl
  | unresolved result => exact .inr rfl
  | miss => exact .inl rfl

theorem pendingOf_eq {imported : DetectedImport × CacheProbe} {detected : DetectedImport}
    (h : pendingOf imported = some detected) : detected = imported.1 := by
  obtain ⟨detected', probe⟩ := imported
  cases probe with
  | miss => exact (Option.some.inj h).symm
  | invalid message => cases h
  | hit result => cases h
  | unresolved result => cases h

def responseCounts (probed : List (DetectedImport × CacheProbe)) :
    Keyed ImportRuntime (Keyed String Nat) :=
  countPaths ∅ (readyImports
    ((probed.map fun imported => classify imported.1 imported.2).map Prod.fst))

def answered (counts : Keyed ImportRuntime (Keyed String Nat))
    (imported : DetectedImport × CacheProbe) : Option ImportResult :=
  imported.2.result.map fun result =>
    withSharedBytes result (sharedWithin (counts.lookup imported.1.runtime) result)

def answeredItem (counts : Keyed ImportRuntime (Keyed String Nat))
    (imported : DetectedImport × CacheProbe) : ImportAnalysisItem :=
  { (classify imported.1 imported.2).1 with result := answered counts imported }

theorem imports_eq (probed : List (DetectedImport × CacheProbe)) :
    (handleAnalyzeDocumentStreaming probed).imports =
      probed.map (answeredItem (responseCounts probed)) := by
  show ((probed.map fun imported => classify imported.1 imported.2).map Prod.fst).map _ = _
  rw [List.map_map, List.map_map]
  apply List.map_congr_left
  intro imported _
  obtain ⟨detected, probe⟩ := imported
  cases probe <;> rfl

theorem measured_eq (probed : List (DetectedImport × CacheProbe)) :
    (handleAnalyzeDocumentStreaming probed).measured = probed.filterMap fun imported =>
      (answered (responseCounts probed) imported).map (withIdentity imported.1) := by
  show measured (handleAnalyzeDocumentStreaming probed).imports = _
  rw [imports_eq, measured, List.filterMap_map]
  apply List.filterMap_congr
  intro imported _
  simp only [Function.comp_apply, answeredItem, classify_detected]
  rfl

theorem pending_eq (probed : List (DetectedImport × CacheProbe)) :
    (handleAnalyzeDocumentStreaming probed).pending = probed.filterMap pendingOf := by
  unfold handleAnalyzeDocumentStreaming
  dsimp only
  rw [List.filterMap_map]
  rfl

theorem filterMap_append_perm {α β : Type} {f g h : α → Option β}
    (hsplit : ∀ x, (f x = none ∧ h x = g x) ∨ (g x = none ∧ h x = f x)) (xs : List α) :
    (xs.filterMap f ++ xs.filterMap g).Perm (xs.filterMap h) := by
  induction xs with
  | nil => exact .refl _
  | cons x xs ih =>
    rcases hsplit x with ⟨hnone, heq⟩ | ⟨hnone, heq⟩
    · rw [List.filterMap_cons_none hnone]
      cases hx : g x with
      | none => rwa [List.filterMap_cons_none hx, List.filterMap_cons_none (heq.trans hx)]
      | some y =>
        rw [List.filterMap_cons_some hx, List.filterMap_cons_some (heq.trans hx)]
        exact List.perm_middle.trans (ih.cons y)
    · rw [List.filterMap_cons_none hnone]
      cases hx : f x with
      | none => rwa [List.filterMap_cons_none hx, List.filterMap_cons_none (heq.trans hx)]
      | some y =>
        rw [List.filterMap_cons_some hx, List.filterMap_cons_some (heq.trans hx), List.cons_append]
        exact ih.cons y

theorem map_filterMap_sublist {α β κ : Type} {f : α → Option β} {key : α → κ} {key' : β → κ}
    (hkey : ∀ x y, f x = some y → key' y = key x) (xs : List α) :
    ((xs.filterMap f).map key').Sublist (xs.map key) := by
  induction xs with
  | nil => exact .refl _
  | cons x xs ih =>
    cases hx : f x with
    | none =>
      rw [List.filterMap_cons_none hx, List.map_cons]
      exact ih.cons _
    | some y =>
      rw [List.filterMap_cons_some hx, List.map_cons, List.map_cons, hkey x y hx]
      exact ih.cons_cons _

def arrived (counts : Keyed ImportRuntime (Keyed String Nat))
    (build : DetectedImport → ImportResult) (imported : DetectedImport × CacheProbe) :
    Option MeasuredImport :=
  ((answered counts imported).or ((pendingOf imported).map build)).map (withIdentity imported.1)

/-- What has arrived of an import is its final result, up to the figure. -/
theorem arrived_eq (counts : Keyed ImportRuntime (Keyed String Nat))
    (build : DetectedImport → ImportResult) (imported : DetectedImport × CacheProbe) :
    ∃ figure : ImportResult → Option Nat, arrived counts build imported =
      (completeResult build imported).map fun result =>
        withIdentity imported.1 { result with sharedBytes := figure result } := by
  unfold arrived answered completeResult
  cases imported.2.result with
  | some settled => exact ⟨fun _ => _, rfl⟩
  | none =>
    refine ⟨ImportResult.sharedBytes, ?_⟩
    cases pendingOf imported <;> rfl

def document (probed : List (DetectedImport × CacheProbe)) (build : DetectedImport → ImportResult)
    (landed : List DetectedImport) : List MeasuredImport :=
  (handleAnalyzeDocumentStreaming probed).measured ++
    landed.map fun detected => withIdentity detected (build detected)

theorem document_perm {landed : List DetectedImport}
    (hlanded : landed.Perm (handleAnalyzeDocumentStreaming probed).pending) :
    (document probed build landed).Perm
      (probed.filterMap (arrived (responseCounts probed) build)) := by
  have hbuilt : (landed.map fun detected => withIdentity detected (build detected)).Perm
      (probed.filterMap fun imported =>
        (pendingOf imported).map fun detected => withIdentity detected (build detected)) := by
    refine (hlanded.map _).trans (.of_eq ?_)
    rw [pending_eq, List.map_filterMap]
  unfold document
  rw [measured_eq]
  refine (hbuilt.append_left _).trans (filterMap_append_perm ?_ probed)
  intro imported
  unfold arrived answered
  rcases result_or_pending imported with hnone | hnone
  · refine .inl ⟨by rw [hnone]; rfl, ?_⟩
    rw [hnone]
    cases hpending : pendingOf imported with
    | none => rfl
    | some detected =>
      rw [pendingOf_eq hpending]
      rfl
  · refine .inr ⟨by rw [hnone]; rfl, ?_⟩
    rw [hnone]
    cases imported.2.result <;> rfl

theorem arrived_identity {counts : Keyed ImportRuntime (Keyed String Nat)}
    {imported : DetectedImport × CacheProbe} {measured : MeasuredImport}
    (h : arrived counts build imported = some measured) :
    measured.identity = refreshedIdentity imported.1 := by
  obtain ⟨result, -, rfl⟩ := Option.map_eq_some_iff.mp h
  rfl

/-- The imports are pairwise distinct in what a push addresses them by. -/
def Distinct (probed : List (DetectedImport × CacheProbe)) : Prop :=
  (probed.map fun imported => refreshedIdentity imported.1).Nodup

instance (probed : List (DetectedImport × CacheProbe)) : Decidable (Distinct probed) :=
  inferInstanceAs (Decidable (List.Nodup _))

theorem document_nodup {landed : List DetectedImport} (hdistinct : Distinct probed)
    (hlanded : landed.Perm (handleAnalyzeDocumentStreaming probed).pending) :
    ((document probed build landed).map MeasuredImport.identity).Nodup := by
  rw [((document_perm hlanded).map _).nodup_iff]
  exact (map_filterMap_sublist (fun _ _ => arrived_identity) probed).nodup hdistinct

/-! ## What the client shows -/

theorem find?_of_mem {α κ : Type} [DecidableEq κ] {key : α → κ} {xs : List α}
    (hnodup : (xs.map key).Nodup) {x : α} (hx : x ∈ xs) :
    (xs.find? fun y => decide (key y = key x)) = some x := by
  induction xs with
  | nil => cases hx
  | cons y ys ih =>
    rw [List.map_cons, List.nodup_cons] at hnodup
    cases hx with
    | head => rw [List.find?_cons_of_pos (by simp)]
    | tail _ hlater =>
      have hne : ¬ key y = key x := by
        intro heq
        apply hnodup.1
        rw [heq]
        exact List.mem_map_of_mem hlater
      rw [List.find?_cons_of_neg (by simp [hne])]
      exact ih hnodup.2 hlater

theorem shownIn_of_measured (hdistinct : Distinct probed) {imported : MeasuredImport}
    (h : imported ∈ (handleAnalyzeDocumentStreaming probed).measured) :
    shownIn (handleAnalyzeDocumentStreaming probed).imports imported.identity =
      some imported.result := by
  obtain ⟨item, hitem, hmeasured⟩ := List.mem_filterMap.mp h
  obtain ⟨result, hresult, rfl⟩ := Option.map_eq_some_iff.mp hmeasured
  have hnodup : ((handleAnalyzeDocumentStreaming probed).imports.map fun item =>
      refreshedIdentity item.detected).Nodup := by
    have hkeys : (probed.map fun imported =>
        refreshedIdentity (answeredItem (responseCounts probed) imported).detected) =
          probed.map fun imported => refreshedIdentity imported.1 := by
      apply List.map_congr_left
      intro imported _
      rw [answeredItem, classify_detected]
    rw [imports_eq, List.map_map]
    exact hkeys ▸ hdistinct
  unfold shownIn
  dsimp only
  rw [find?_of_mem hnodup hitem]
  exact hresult

def builtEntries (build : DetectedImport → ImportResult) (emitted : List DetectedImport) :
    List (RefreshedImportIdentity × ImportResult) :=
  emitted.map fun detected => (refreshedIdentity detected, build detected)

/-- Before the closing push the client shows what that push is computed from. -/
theorem shown_of_document {emitted landed : List DetectedImport} (hdistinct : Distinct probed)
    (hemitted : emitted.Perm (handleAnalyzeDocumentStreaming probed).pending)
    (hlanded : landed.Perm (handleAnalyzeDocumentStreaming probed).pending)
    {imported : MeasuredImport} (h : imported ∈ document probed build landed) :
    replaceAll (shownIn (handleAnalyzeDocumentStreaming probed).imports)
      (builtEntries build emitted) imported.identity = some imported.result := by
  have hnodup := @document_nodup probed build landed hdistinct hlanded
  have hkeys : ((builtEntries build emitted).map Prod.fst).Perm
      ((landed.map fun detected => withIdentity detected (build detected)).map
        MeasuredImport.identity) := by
    rw [builtEntries, List.map_map, List.map_map]
    exact (hemitted.trans hlanded.symm).map _
  rw [document, List.map_append, List.nodup_append] at hnodup
  obtain ⟨-, hbuilt, hapart⟩ := hnodup
  rcases List.mem_append.mp h with hmeasured | hlate
  · rw [replaceAll_of_notMem]
    · exact shownIn_of_measured hdistinct hmeasured
    · intro hmem
      exact hapart _ (List.mem_map_of_mem hmeasured) _ (hkeys.subset hmem) rfl
  · obtain ⟨detected, hdetected, rfl⟩ := List.mem_map.mp hlate
    apply replaceAll_of_mem (hkeys.nodup_iff.mpr hbuilt)
    exact List.mem_map_of_mem ((hemitted.trans hlanded.symm).symm.subset hdetected)

/-! ## The closing push -/

def corrected (imports : List MeasuredImport) (imported : MeasuredImport) : ImportResult :=
  withSharedBytes imported.result
    (sharedFigure (occurrences (imports.map MeasuredImport.partition)) imported.identity.runtime
      imported.result)

def differs (imports : List MeasuredImport) (imported : MeasuredImport) : Bool :=
  decide (imported.result.sharedBytes.getD 0 ≠ (corrected imports imported).sharedBytes.getD 0)

theorem annotate_partition (imports : List MeasuredImport) :
    annotateSharedBytes (imports.map MeasuredImport.partition) =
      imports.map (corrected imports) := by
  rw [annotateSharedBytes_eq, List.map_map]
  rfl

theorem zip_annotated (imports : List MeasuredImport) :
    imports.zip (annotateSharedBytes (imports.map MeasuredImport.partition)) =
      imports.map fun imported => (imported, corrected imports imported) := by
  rw [annotate_partition, List.map_prod_left_eq_zip]

theorem corrections_eq (imports : List MeasuredImport) :
    sharedBytesCorrections imports =
      { results := (imports.filter (differs imports)).map (corrected imports)
        identities := (imports.filter (differs imports)).map MeasuredImport.identity } := by
  unfold sharedBytesCorrections
  dsimp only
  rw [zip_annotated, List.filter_map, List.map_map, List.map_map]
  rfl

def closingEntries (imports : List MeasuredImport) :
    List (RefreshedImportIdentity × ImportResult) :=
  (imports.filter (differs imports)).map fun imported =>
    (imported.identity, corrected imports imported)

theorem zip_corrections (imports : List MeasuredImport) :
    (sharedBytesCorrections imports).identities.zip (sharedBytesCorrections imports).results =
      closingEntries imports := by
  rw [corrections_eq, List.zip_map']
  rfl

def closing (imports : List MeasuredImport) : List RefreshedResults :=
  if (sharedBytesCorrections imports).results = [] then [] else [sharedBytesCorrections imports]

theorem flatMap_closing (imports : List MeasuredImport) :
    ((closing imports).flatMap fun push => push.identities.zip push.results) =
      closingEntries imports := by
  unfold closing
  split
  · rename_i hnone
    rw [← zip_corrections, hnone, List.zip_nil_right]
    rfl
  · rw [List.flatMap_cons, List.flatMap_nil, List.append_nil, zip_corrections]

theorem flatMap_closing_identities (imports : List MeasuredImport) :
    (closing imports).flatMap RefreshedResults.identities =
      (imports.filter (differs imports)).map MeasuredImport.identity := by
  unfold closing
  split
  · rename_i hnone
    rw [corrections_eq, List.map_eq_nil_iff] at hnone
    rw [hnone]
    rfl
  · rw [List.flatMap_cons, List.flatMap_nil, List.append_nil, corrections_eq]

theorem completePendingImports_eq (emitted landed : List DetectedImport) :
    completePendingImports (handleAnalyzeDocumentStreaming probed).measured build emitted landed =
      emitted.map (fun detected => ⟨[build detected], [refreshedIdentity detected]⟩) ++
        closing (document probed build landed) := rfl

theorem foldl_built (shown : Shown) (emitted : List DetectedImport) :
    (emitted.map fun detected =>
      (⟨[build detected], [refreshedIdentity detected]⟩ : RefreshedResults)).foldl applyPush shown =
      replaceAll shown (builtEntries build emitted) := by
  rw [foldl_applyPush, List.flatMap_map]
  congr 1
  induction emitted with
  | nil => rfl
  | cons detected emitted ih =>
    rw [List.flatMap_cons, ih]
    rfl

/-- After the closing push every figure is the corrected one. -/
theorem shown_after_closing {imports : List MeasuredImport} {shown : Shown}
    (hnodup : (imports.map MeasuredImport.identity).Nodup) {imported : MeasuredImport}
    (hmem : imported ∈ imports) (hshown : shown imported.identity = some imported.result) :
    ∃ result, replaceAll shown (closingEntries imports) imported.identity = some result ∧
      result.sharedBytes.getD 0 = (corrected imports imported).sharedBytes.getD 0 ∧
      ∃ shared, result = { imported.result with sharedBytes := shared } := by
  have hkeys : ((closingEntries imports).map Prod.fst) =
      (imports.filter (differs imports)).map MeasuredImport.identity := by
    rw [closingEntries, List.map_map]
    rfl
  by_cases hdiffers : differs imports imported = true
  · refine ⟨corrected imports imported, ?_, rfl, _, rfl⟩
    apply replaceAll_of_mem
    · rw [hkeys]
      exact (List.filter_sublist.map _).nodup hnodup
    · exact List.mem_map_of_mem (List.mem_filter.mpr ⟨hmem, hdiffers⟩)
  · refine ⟨imported.result, ?_, ?_, _, rfl⟩
    · rw [replaceAll_of_notMem, hshown]
      rw [hkeys]
      intro hlisted
      obtain ⟨other, hother, heq⟩ := List.mem_map.mp hlisted
      obtain ⟨hother, hdiffer⟩ := List.mem_filter.mp hother
      rw [List.inj_on_of_nodup_map hnodup hother hmem heq] at hdiffer
      exact hdiffers hdiffer
    · simpa [differs] using hdiffers

/-! ## Convergence -/

/-- An import of the complete set, as the closing pass has it. -/
theorem document_of_complete {landed : List DetectedImport}
    (hlanded : landed.Perm (handleAnalyzeDocumentStreaming probed).pending)
    {whole : MeasuredImport} (h : whole ∈ completeImports probed build) :
    ∃ imported ∈ document probed build landed, imported.identity = whole.identity ∧
      ∃ shared, imported.result = { whole.result with sharedBytes := shared } := by
  obtain ⟨imported, himported, hwhole⟩ := List.mem_filterMap.mp h
  obtain ⟨result, hresult, rfl⟩ := Option.map_eq_some_iff.mp hwhole
  obtain ⟨figure, harrived⟩ := arrived_eq (responseCounts probed) build imported
  rw [hresult] at harrived
  refine ⟨_, (document_perm hlanded).symm.subset (List.mem_filterMap.mpr
    ⟨imported, himported, harrived⟩), rfl, _, rfl⟩

/-- The paths of a document are those of the complete set. -/
theorem occurrences_document {landed : List DetectedImport}
    (hlanded : landed.Perm (handleAnalyzeDocumentStreaming probed).pending) :
    (occurrences ((document probed build landed).map MeasuredImport.partition)).Perm
      (occurrences ((completeImports probed build).map MeasuredImport.partition)) := by
  refine (occurrences_perm ((document_perm hlanded).map _)).trans (.of_eq ?_)
  generalize responseCounts probed = counts
  unfold completeImports
  clear hlanded
  induction probed with
  | nil => rfl
  | cons imported rest ih =>
    obtain ⟨figure, harrived⟩ := arrived_eq counts build imported
    cases hresult : completeResult build imported with
    | none =>
      rw [hresult] at harrived
      rw [List.filterMap_cons_none harrived, List.filterMap_cons_none (by rw [hresult]; rfl)]
      exact ih
    | some result =>
      rw [hresult] at harrived
      rw [List.filterMap_cons_some harrived, List.filterMap_cons_some (by rw [hresult]; rfl),
        List.map_cons, List.map_cons, occurrences_cons, occurrences_cons, ih]
      rfl

/-- The figure of the closing pass is that of the whole document. -/
theorem corrected_document {landed : List DetectedImport}
    (hlanded : landed.Perm (handleAnalyzeDocumentStreaming probed).pending)
    {imported whole : MeasuredImport} (hidentity : imported.identity = whole.identity)
    {shared : Option Nat}
    (hresult : imported.result = { whole.result with sharedBytes := shared }) :
    (corrected (document probed build landed) imported).sharedBytes =
      (corrected (completeImports probed build) whole).sharedBytes := by
  unfold corrected withSharedBytes
  dsimp only
  rw [sharedFigure_perm (occurrences_document hlanded), hidentity, hresult]
  rfl

end

/-- What a client shows of a streamed document in the end, and what the closing push
carries. -/
structure Converges (probed : List (DetectedImport × CacheProbe))
    (build : DetectedImport → ImportResult) (emitted landed : List DetectedImport) : Prop where
  figures : ∀ pair ∈ (completeImports probed build).zip
      (annotateSharedBytes ((completeImports probed build).map MeasuredImport.partition)),
    ∃ result,
      (completePendingImports (handleAnalyzeDocumentStreaming probed).measured build emitted
        landed).foldl applyPush (shownIn (handleAnalyzeDocumentStreaming probed).imports)
          pair.1.identity = some result ∧
      result.sharedBytes.getD 0 = pair.2.sharedBytes.getD 0 ∧
      ∃ shared, result = { pair.1.result with sharedBytes := shared }
  changed : ∀ pair ∈ (completeImports probed build).zip
      (annotateSharedBytes ((completeImports probed build).map MeasuredImport.partition)),
    (pair.1.identity ∈ ((completePendingImports (handleAnalyzeDocumentStreaming probed).measured
        build emitted landed).drop emitted.length).flatMap RefreshedResults.identities ↔
      ∃ result,
        ((completePendingImports (handleAnalyzeDocumentStreaming probed).measured build emitted
          landed).take emitted.length).foldl applyPush
            (shownIn (handleAnalyzeDocumentStreaming probed).imports) pair.1.identity =
          some result ∧
        result.sharedBytes.getD 0 ≠ pair.2.sharedBytes.getD 0)
  only : ∀ identity ∈ ((completePendingImports (handleAnalyzeDocumentStreaming probed).measured
      build emitted landed).drop emitted.length).flatMap RefreshedResults.identities,
    identity ∈ (completeImports probed build).map MeasuredImport.identity
  once : (((completePendingImports (handleAnalyzeDocumentStreaming probed).measured build emitted
    landed).drop emitted.length).flatMap RefreshedResults.identities).Nodup

/-- Whatever was cached, and in whatever order the builds land and are recorded. -/
theorem shared_bytes_converge (probed : List (DetectedImport × CacheProbe))
    (build : DetectedImport → ImportResult) (emitted landed : List DetectedImport)
    (hdistinct : Distinct probed)
    (hemitted : emitted.Perm (handleAnalyzeDocumentStreaming probed).pending)
    (hlanded : landed.Perm (handleAnalyzeDocumentStreaming probed).pending) :
    Converges probed build emitted landed := by
  have hnodup := @document_nodup probed build landed hdistinct hlanded
  have hlength : emitted.length = (emitted.map fun detected =>
      (⟨[build detected], [refreshedIdentity detected]⟩ : RefreshedResults)).length :=
    (List.length_map _).symm
  have hshown := fun imported => @shown_of_document probed build emitted landed hdistinct hemitted
    hlanded imported
  constructor
  · rw [zip_annotated]
    intro pair hpair
    obtain ⟨whole, hwhole, rfl⟩ := List.mem_map.mp hpair
    obtain ⟨imported, hmem, hidentity, shared, hresult⟩ := document_of_complete hlanded hwhole
    obtain ⟨result, hfinal, hfigure, shared', heq⟩ :=
      shown_after_closing hnodup hmem (hshown imported hmem)
    refine ⟨result, ?_, ?_, shared', ?_⟩
    · rw [completePendingImports_eq, List.foldl_append, foldl_built, foldl_applyPush,
        flatMap_closing, ← hidentity]
      exact hfinal
    · rw [hfigure, corrected_document hlanded hidentity hresult]
    · rw [heq, hresult]
  · rw [zip_annotated]
    intro pair hpair
    obtain ⟨whole, hwhole, rfl⟩ := List.mem_map.mp hpair
    obtain ⟨imported, hmem, hidentity, shared, hresult⟩ := document_of_complete hlanded hwhole
    rw [completePendingImports_eq, hlength, List.drop_left, List.take_left,
      flatMap_closing_identities, foldl_built]
    dsimp only
    rw [← hidentity, hshown imported hmem, ← corrected_document hlanded hidentity hresult]
    constructor
    · intro hlisted
      obtain ⟨other, hother, heq⟩ := List.mem_map.mp hlisted
      obtain ⟨hother, hdiffers⟩ := List.mem_filter.mp hother
      rw [List.inj_on_of_nodup_map hnodup hother hmem heq] at hdiffers
      exact ⟨imported.result, rfl, of_decide_eq_true hdiffers⟩
    · rintro ⟨result, hsome, hdiffers⟩
      cases hsome
      exact List.mem_map_of_mem (List.mem_filter.mpr ⟨hmem, decide_eq_true hdiffers⟩)
  · rw [completePendingImports_eq, hlength, List.drop_left, flatMap_closing_identities]
    intro identity hlisted
    obtain ⟨imported, himported, rfl⟩ := List.mem_map.mp hlisted
    obtain ⟨probed', hprobed, harrived⟩ :=
      List.mem_filterMap.mp ((document_perm hlanded).subset (List.mem_filter.mp himported).1)
    obtain ⟨figure, heq⟩ := arrived_eq (responseCounts probed) build probed'
    rw [heq] at harrived
    obtain ⟨result, hresult, rfl⟩ := Option.map_eq_some_iff.mp harrived
    refine List.mem_map.mpr ⟨withIdentity probed'.1 result, ?_, rfl⟩
    exact List.mem_filterMap.mpr ⟨probed', hprobed, by rw [hresult]; rfl⟩
  · rw [completePendingImports_eq, hlength, List.drop_left, flatMap_closing_identities]
    exact (List.filter_sublist.map _).nodup hnodup

def detectedAt (specifier : String) : DetectedImport :=
  let start : SourcePosition := ⟨0, 0⟩
  { specifier := specifier, packageName := specifier, named := [], importKind := .namespaceExport
    importSyntax := .staticImport, runtime := .component, line := 0, quoteEnd := start
    specifierRange := ⟨start, start⟩, statementRange := ⟨start, start⟩ }

def shipping (specifier path : String) : ImportResult :=
  { ImportResult.measured specifier ⟨10, 10, 10, 10, 10⟩ with
    moduleBreakdown := some [⟨path, 10⟩] }

theorem shared_bytes_converge_two :
    Converges [(detectedAt "a", .hit (shipping "a" "m.js")), (detectedAt "b", .miss)]
      (fun _ => shipping "b" "m.js") [detectedAt "b"] [detectedAt "b"] :=
  shared_bytes_converge _ _ _ _ (by decide) (.refl _) (.refl _)

/-- The cached import gets its figure with the closing push. -/
example :
    (completePendingImports (handleAnalyzeDocumentStreaming
        [(detectedAt "a", .hit (shipping "a" "m.js")), (detectedAt "b", .miss)]).measured
      (fun _ => shipping "b" "m.js") [detectedAt "b"] [detectedAt "b"]).map
        (fun push => push.results.map ImportResult.sharedBytes) =
      [[none], [some 10, some 10]] := by
  decide

end ImportLens.Daemon.Streaming
