import ImportLens.Extension.PackageJsonRows
import ImportLens.Pipeline.SharedBytes
import Mathlib.Data.List.Perm.Basic
import Mathlib.Data.List.Sort

/-!
# The analysis of a manifest

The daemon answers a `package.json` at once with a loading row for each dependency, then
with what is installed, then with each size as it is known.  The rows keep the order of
the manifest, and a partial says which of them it carries.
-/

namespace ImportLens.Daemon.PackageJson

open ImportLens.Support ImportLens.Pipeline ImportLens.Extension ImportLens.Extension.PackageJson

/-! ## The dependencies of a manifest -/

/-- A section of the text with the entries read from it. -/
structure DependencySectionObject where
  shown : DependencySection
  entries : List DependencyEntry
  deriving DecidableEq, Repr

def entryOrder (left right : DependencyEntry) : Bool :=
  if left.range.start.line = right.range.start.line then decide (left.name ≤ right.name)
  else decide (left.range.start.line ≤ right.range.start.line)

def packageJsonDependencyEntries (objects : List DependencySectionObject) : List DependencyEntry :=
  (objects.flatMap DependencySectionObject.entries).mergeSort entryOrder

def packageJsonDependencySections (objects : List DependencySectionObject) :
    List DependencySection :=
  objects.map DependencySectionObject.shown

/-! ## What the analysis finds -/

inductive Resolution
  | installed (version : String) (registryHint : Option RegistryHint)
  | missing (message : String)
  deriving DecidableEq, Repr

/-- What is found out about the dependency at each position. -/
structure Findings where
  resolution : Nat → Resolution
  /-- A fresh cached result, or that of a package that does not resolve. -/
  settled : Nat → Option ImportResult
  built : Nat → ImportResult

def loadingState (entry : DependencyEntry) : DependencyState where
  name := entry.name
  sectionName := entry.sectionName
  entry := entry
  status := .loading

def resolvedState (entry : DependencyEntry) : Resolution → DependencyState
  | .installed version registryHint => { loadingState entry with
      installedVersion := some version
      registryHint := registryHint }
  | .missing message => { loadingState entry with
      status := .missing
      message := some message }

def Resolution.isInstalled : Resolution → Bool
  | .installed _ _ => true
  | .missing _ => false

def readyState (state : DependencyState) (result : ImportResult) : DependencyState :=
  { state with status := .ready, result := some result }

variable (objects : List DependencySectionObject) (findings : Findings)

def resolvedStates : List DependencyState :=
  (packageJsonDependencyEntries objects).zipIdx.map fun entry =>
    resolvedState entry.1 (findings.resolution entry.2)

def installedIndexes : List Nat :=
  (List.range (packageJsonDependencyEntries objects).length).filter fun index =>
    (findings.resolution index).isInstalled

def cachedIndexedResults : List (Nat × ImportResult) :=
  (installedIndexes objects findings).filterMap fun index =>
    (findings.settled index).map fun result => (index, result)

def pendingAnalysis : List Nat :=
  (installedIndexes objects findings).filter fun index => (findings.settled index).isNone

def readyRows (results : List (Nat × ImportResult)) : List (Nat × DependencyState) :=
  results.filterMap fun indexed => (resolvedStates objects findings)[indexed.1]?.map fun state =>
    (indexed.1, readyState state indexed.2)

def indexedPartial (shown : List DependencySection) (rows : List (Nat × DependencyState)) :
    AnalyzePackageJsonResponse where
  sections := shown
  states := rows.map Prod.snd
  indexes := some (rows.map Prod.fst)

def skeleton (states : List DependencyState) : AnalyzePackageJsonResponse where
  sections := packageJsonDependencySections objects
  states := states
  indexes := some (List.range states.length)

def finalResults : List (Nat × ImportResult) :=
  let indexed := (cachedIndexedResults objects findings ++
    (pendingAnalysis objects findings).map fun index => (index, findings.built index)).mergeSort
      fun left right => decide (left.1 ≤ right.1)
  (indexed.map Prod.fst).zip
    (annotateSharedBytes (indexed.map fun result => (ImportRuntime.component, result.2)))

def finalStates : List DependencyState :=
  (finalResults objects findings).foldl
    (fun states indexed => states.modify indexed.1 fun state => readyState state indexed.2)
    (resolvedStates objects findings)

/-- `analyze_package_json` of a streaming request, with the order in which the builds
land: the partials it emits, and the response. -/
def analyzePackageJson (landed : List Nat) : List AnalyzePackageJsonResponse :=
  let entries := packageJsonDependencyEntries objects
  let cached := cachedIndexedResults objects findings
  (if entries.isEmpty then [] else [skeleton objects (entries.map loadingState)]) ++
    (if entries.isEmpty then [] else [skeleton objects (resolvedStates objects findings)]) ++
    (if cached.isEmpty then [] else [indexedPartial [] (readyRows objects findings cached)]) ++
    landed.map (fun index =>
      indexedPartial [] (readyRows objects findings [(index, findings.built index)])) ++
    [{ sections := packageJsonDependencySections objects
       states := finalStates objects findings
       indexes := none }]

/-! ## The rows that are sent -/

variable {objects findings}

theorem answers_loading (entry : DependencyEntry) : Answers entry (loadingState entry) :=
  ⟨rfl, rfl, rfl⟩

theorem answers_resolved (entry : DependencyEntry) (resolution : Resolution) :
    Answers entry (resolvedState entry resolution) := by
  cases resolution <;> exact ⟨rfl, rfl, rfl⟩

theorem answers_ready {entry : DependencyEntry} {state : DependencyState}
    (h : Answers entry state) (result : ImportResult) :
    Answers entry (readyState state result) :=
  ⟨h.name, h.sectionName, h.entry_eq⟩

theorem getElem?_resolvedStates (i : Nat) : (resolvedStates objects findings)[i]? =
    (packageJsonDependencyEntries objects)[i]?.map fun entry =>
      resolvedState entry (findings.resolution i) := by
  unfold resolvedStates
  rw [List.getElem?_map, List.getElem?_zipIdx]
  cases (packageJsonDependencyEntries objects)[i]? with
  | none => rfl
  | some entry => simp

theorem length_resolvedStates :
    (resolvedStates objects findings).length = (packageJsonDependencyEntries objects).length := by
  simp [resolvedStates]

/-- Each row of a list answers the dependency at its position. -/
theorem forall₂_of_getElem? {entries : List DependencyEntry} {states : List DependencyState}
    (hlength : states.length = entries.length)
    (h : ∀ (i : Nat) entry state, entries[i]? = some entry → states[i]? = some state →
      Answers entry state) : List.Forall₂ Answers entries states := by
  rw [List.forall₂_iff_get]
  refine ⟨hlength.symm, fun i hentry hstate => ?_⟩
  exact h i _ _ (List.getElem?_eq_getElem hentry) (List.getElem?_eq_getElem hstate)

theorem forall₂_loading : List.Forall₂ Answers (packageJsonDependencyEntries objects)
    ((packageJsonDependencyEntries objects).map loadingState) := by
  rw [List.forall₂_map_right_iff, List.forall₂_same]
  exact fun entry _ => answers_loading entry

theorem forall₂_resolved : List.Forall₂ Answers (packageJsonDependencyEntries objects)
    (resolvedStates objects findings) := by
  refine forall₂_of_getElem? length_resolvedStates fun i entry state hentry hstate => ?_
  rw [getElem?_resolvedStates, hentry] at hstate
  cases hstate
  exact answers_resolved entry _

theorem readyRows_answers (results : List (Nat × ImportResult))
    {one : Nat × DependencyState} (h : one ∈ readyRows objects findings results) :
    ∃ entry, (packageJsonDependencyEntries objects)[one.1]? = some entry ∧
      Answers entry one.2 := by
  obtain ⟨indexed, -, hrow⟩ := List.mem_filterMap.mp h
  obtain ⟨state, hstate, rfl⟩ := Option.map_eq_some_iff.mp hrow
  rw [getElem?_resolvedStates] at hstate
  obtain ⟨entry, hentry, rfl⟩ := Option.map_eq_some_iff.mp hstate
  exact ⟨entry, hentry, answers_ready (answers_resolved entry _) _⟩

theorem readyRows_ne_nil {results : List (Nat × ImportResult)} (hne : results ≠ [])
    (hrange : ∀ indexed ∈ results, indexed.1 < (packageJsonDependencyEntries objects).length) :
    readyRows objects findings results ≠ [] := by
  obtain ⟨indexed, rest, rfl⟩ := List.exists_cons_of_ne_nil hne
  have hlt := hrange indexed List.mem_cons_self
  rw [← @length_resolvedStates objects findings] at hlt
  unfold readyRows
  rw [List.filterMap_cons_some (by rw [List.getElem?_eq_getElem hlt]; rfl)]
  exact List.cons_ne_nil _ _

theorem forall₂_final : List.Forall₂ Answers (packageJsonDependencyEntries objects)
    (finalStates objects findings) := by
  unfold finalStates
  generalize finalResults objects findings = results
  have h := @forall₂_resolved objects findings
  generalize resolvedStates objects findings = states at h ⊢
  induction results generalizing states with
  | nil => exact h
  | cons indexed results ih =>
    apply ih
    rw [List.forall₂_iff_get] at h
    refine forall₂_of_getElem? (by rw [List.length_modify]; exact h.1.symm) ?_
    intro i entry state hentry hstate
    obtain ⟨hi, rfl⟩ := List.getElem?_eq_some_iff.mp hentry
    have hanswers := h.2 i hi (by rw [← h.1]; exact hi)
    rw [List.getElem?_modify, List.getElem?_eq_getElem (by rw [← h.1]; exact hi)] at hstate
    split at hstate
    · cases hstate
      exact answers_ready hanswers _
    · cases hstate
      exact hanswers

theorem sections_ne_nil (h : packageJsonDependencyEntries objects ≠ []) :
    packageJsonDependencySections objects ≠ [] := by
  intro hnone
  have hobjects : objects = [] := List.map_eq_nil_iff.mp hnone
  subst hobjects
  exact h List.mergeSort_nil

theorem isPatch_readyRows {results : List (Nat × ImportResult)} (hne : results ≠ [])
    (hrange : ∀ indexed ∈ results, indexed.1 < (packageJsonDependencyEntries objects).length) :
    IsPatch (packageJsonDependencyEntries objects)
      (indexedPartial [] (readyRows objects findings results)) := by
  obtain ⟨first, rest, hrows⟩ :=
    List.exists_cons_of_ne_nil (@readyRows_ne_nil objects findings _ hne hrange)
  refine ⟨rfl, ⟨first.1, rest.map Prod.fst, ?_, ?_⟩, rfl⟩
  · rw [indexedPartial, hrows]
    rfl
  · intro one hone
    have hzip : (first.1 :: rest.map Prod.fst).zip
        (indexedPartial [] (readyRows objects findings results)).states = first :: rest := by
      rw [indexedPartial, hrows, ← List.map_cons, List.zip_map', List.map_id']
    rw [hzip, ← hrows] at hone
    exact readyRows_answers results hone

theorem installed_lt {index : Nat} (h : index ∈ installedIndexes objects findings) :
    index < (packageJsonDependencyEntries objects).length :=
  List.mem_range.mp (List.mem_filter.mp h).1

theorem cached_lt {indexed : Nat × ImportResult}
    (h : indexed ∈ cachedIndexedResults objects findings) :
    indexed.1 < (packageJsonDependencyEntries objects).length := by
  obtain ⟨index, hindex, hresult⟩ := List.mem_filterMap.mp h
  obtain ⟨result, -, rfl⟩ := Option.map_eq_some_iff.mp hresult
  exact installed_lt hindex

def packageJsonStream (objects : List DependencySectionObject) (findings : Findings)
    (landed : List Nat) (hlanded : landed.Perm (pendingAnalysis objects findings)) :
    PackageJsonStream (packageJsonDependencyEntries objects) where
  loading := skeleton objects ((packageJsonDependencyEntries objects).map loadingState)
  resolved := skeleton objects (resolvedStates objects findings)
  patches :=
    (if (cachedIndexedResults objects findings).isEmpty then []
      else [indexedPartial []
        (readyRows objects findings (cachedIndexedResults objects findings))]) ++
    landed.map fun index =>
      indexedPartial [] (readyRows objects findings [(index, findings.built index)])
  final :=
    { sections := packageJsonDependencySections objects
      states := finalStates objects findings
      indexes := none }
  loading_skeleton := fun h =>
    ⟨sections_ne_nil h, forall₂_loading, by rw [skeleton, List.length_map], rfl⟩
  resolved_skeleton := fun h =>
    ⟨sections_ne_nil h, forall₂_resolved, by rw [skeleton, length_resolvedStates], rfl⟩
  patch := by
    intro response hresponse
    rcases List.mem_append.mp hresponse with hcached | hbuilt
    · split at hcached
      · cases hcached
      · rename_i hne
        rw [List.mem_singleton.mp hcached]
        exact isPatch_readyRows (by simpa using hne) fun indexed => cached_lt
    · obtain ⟨index, hindex, rfl⟩ := List.mem_map.mp hbuilt
      have hpending := (List.mem_filter.mp (hlanded.subset hindex)).1
      refine isPatch_readyRows (List.cons_ne_nil _ _) fun indexed hindexed => ?_
      rw [List.mem_singleton.mp hindexed]
      exact installed_lt hpending
  last := ⟨rfl, fun _ => forall₂_final⟩

/-- The emissions of the daemon are such a stream, in whatever order the builds land. -/
theorem analyzePackageJson_eq (objects : List DependencySectionObject) (findings : Findings)
    (landed : List Nat) (hlanded : landed.Perm (pendingAnalysis objects findings)) :
    analyzePackageJson objects findings landed =
      (packageJsonStream objects findings landed hlanded).responses := by
  unfold analyzePackageJson PackageJsonStream.responses packageJsonStream
  dsimp only
  by_cases hnone : packageJsonDependencyEntries objects = []
  · have hinstalled : installedIndexes objects findings = [] := by
      rw [installedIndexes, hnone]
      rfl
    have hlandednil : landed = [] := by
      apply List.Perm.eq_nil
      rw [pendingAnalysis, hinstalled] at hlanded
      exact hlanded
    rw [if_pos hnone, hnone, hlandednil, cachedIndexedResults, hinstalled]
    rfl
  · rw [if_neg hnone]
    simp [hnone]

/-! ## What becomes of each dependency -/

def found (findings : Findings) (index : Nat) : ImportResult :=
  (findings.settled index).getD (findings.built index)

/-- The cached results and the built ones are those of the installed dependencies. -/
theorem results_perm {landed : List Nat}
    (hlanded : landed.Perm (pendingAnalysis objects findings)) :
    (cachedIndexedResults objects findings ++
      landed.map fun index => (index, findings.built index)).Perm
        ((installedIndexes objects findings).map fun index => (index, found findings index)) := by
  have hcached : cachedIndexedResults objects findings =
      ((installedIndexes objects findings).filter fun index =>
        (findings.settled index).isSome).map fun index => (index, found findings index) := by
    unfold cachedIndexedResults
    induction installedIndexes objects findings with
    | nil => rfl
    | cons index rest ih =>
      cases hsettled : findings.settled index with
      | none =>
        rw [List.filterMap_cons_none (by rw [hsettled]; rfl), ih,
          List.filter_cons_of_neg (by simp [hsettled])]
      | some result =>
        rw [List.filterMap_cons_some (by rw [hsettled]; rfl), ih,
          List.filter_cons_of_pos (by simp [hsettled]), List.map_cons, found, hsettled]
        rfl
  have hbuilt :
      (pendingAnalysis objects findings).map (fun index => (index, findings.built index)) =
      (pendingAnalysis objects findings).map fun index => (index, found findings index) := by
    apply List.map_congr_left
    intro index hindex
    have hnone := Option.isNone_iff_eq_none.mp (List.mem_filter.mp hindex).2
    rw [found, hnone, Option.getD_none]
  refine ((hlanded.map _).append_left _).trans ?_
  rw [hcached, hbuilt, ← List.map_append]
  apply List.Perm.map
  have hsplit := List.filter_append_perm
    (fun index => (findings.settled index).isSome) (installedIndexes objects findings)
  have hpending : pendingAnalysis objects findings =
      (installedIndexes objects findings).filter fun index =>
        !(findings.settled index).isSome := by
    unfold pendingAnalysis
    apply List.filter_congr
    intro index _
    cases findings.settled index <;> rfl
  rw [hpending]
  exact hsplit

def sentResults (objects : List DependencySectionObject) (findings : Findings)
    (landed : List Nat) : List (List (Nat × ImportResult)) :=
  (if (cachedIndexedResults objects findings).isEmpty then []
    else [cachedIndexedResults objects findings]) ++
      landed.map fun index => [(index, findings.built index)]

theorem flatten_sentResults (landed : List Nat) : (sentResults objects findings landed).flatten =
    cachedIndexedResults objects findings ++
      landed.map fun index => (index, findings.built index) := by
  rw [sentResults, List.flatten_append]
  congr 1
  · split
    · rename_i hempty
      rw [List.isEmpty_iff.mp hempty]
      rfl
    · exact List.append_nil _
  · rw [← List.flatMap_def, ← List.map_eq_flatMap]

theorem rows_readyRows (results : List (Nat × ImportResult)) :
    (indexedPartial [] (readyRows objects findings results)).rows =
      readyRows objects findings results := by
  show ((readyRows objects findings results).map Prod.fst).zip
    ((readyRows objects findings results).map Prod.snd) = _
  rw [List.zip_map', List.map_id']

def sentRows (objects : List DependencySectionObject) (findings : Findings) (landed : List Nat) :
    List (Nat × DependencyState) :=
  ((analyzePackageJson objects findings landed).dropLast.drop
    (if (packageJsonDependencyEntries objects).isEmpty then 0 else 2)).flatMap
      AnalyzePackageJsonResponse.rows

theorem analyzePackageJson_sent (objects : List DependencySectionObject) (findings : Findings)
    (landed : List Nat) :
    (analyzePackageJson objects findings landed).dropLast.drop
        (if (packageJsonDependencyEntries objects).isEmpty then 0 else 2) =
      (sentResults objects findings landed).map fun results =>
        indexedPartial [] (readyRows objects findings results) := by
  unfold analyzePackageJson sentResults
  dsimp only
  rw [List.dropLast_concat, List.map_append, List.map_map]
  by_cases hnone : (packageJsonDependencyEntries objects).isEmpty
  · rw [if_pos hnone, if_pos hnone, if_pos hnone]
    split <;> rfl
  · rw [if_neg hnone, if_neg hnone, if_neg hnone]
    split <;> rfl

theorem sentRows_perm {landed : List Nat}
    (hlanded : landed.Perm (pendingAnalysis objects findings)) :
    (sentRows objects findings landed).Perm (readyRows objects findings
      ((installedIndexes objects findings).map fun index => (index, found findings index))) := by
  have hrows : sentRows objects findings landed =
      readyRows objects findings (sentResults objects findings landed).flatten := by
    unfold sentRows
    rw [analyzePackageJson_sent, List.flatMap_map]
    simp only [rows_readyRows]
    induction sentResults objects findings landed with
    | nil => rfl
    | cons results rest ih =>
      rw [List.flatMap_cons, ih, List.flatten_cons]
      exact List.filterMap_append.symm
  rw [hrows, flatten_sentResults]
  exact (results_perm hlanded).filterMap _

theorem resolvedStates_installed {index : Nat} (h : index ∈ installedIndexes objects findings) :
    ∃ state, (resolvedStates objects findings)[index]? = some state := by
  have hlt := installed_lt h
  rw [← @length_resolvedStates objects findings] at hlt
  exact ⟨_, List.getElem?_eq_getElem hlt⟩

theorem map_fst_readyRows {indexes : List Nat} {result : Nat → ImportResult}
    (h : ∀ index ∈ indexes, index ∈ installedIndexes objects findings) :
    (readyRows objects findings (indexes.map fun index => (index, result index))).map Prod.fst =
      indexes := by
  induction indexes with
  | nil => rfl
  | cons index rest ih =>
    obtain ⟨state, hstate⟩ := resolvedStates_installed (h index List.mem_cons_self)
    have hrest := ih fun other hother => h other (List.mem_cons_of_mem _ hother)
    unfold readyRows at hrest ⊢
    rw [List.map_cons, List.filterMap_cons_some (by rw [hstate]; rfl), List.map_cons, hrest]

/-! ## The final rows -/

def place (states : List DependencyState) (results : List (Nat × ImportResult)) :
    List DependencyState :=
  results.foldl (fun states indexed => states.modify indexed.1 fun state =>
    readyState state indexed.2) states

theorem place_of_notMem {results : List (Nat × ImportResult)} {states : List DependencyState}
    {i : Nat} (h : i ∉ results.map Prod.fst) : (place states results)[i]? = states[i]? := by
  induction results generalizing states with
  | nil => rfl
  | cons indexed rest ih =>
    rw [List.map_cons, List.mem_cons, not_or] at h
    rw [place, List.foldl_cons]
    exact (ih h.2).trans (List.getElem?_modify_ne _ _ (Ne.symm h.1))

theorem place_of_mem {results : List (Nat × ImportResult)} {states : List DependencyState}
    {indexed : Nat × ImportResult} (hnodup : (results.map Prod.fst).Nodup)
    (h : indexed ∈ results) :
    (place states results)[indexed.1]? =
      states[indexed.1]?.map fun state => readyState state indexed.2 := by
  induction results generalizing states with
  | nil => cases h
  | cons first rest ih =>
    rw [List.map_cons, List.nodup_cons] at hnodup
    rw [place, List.foldl_cons]
    rcases List.mem_cons.mp h with rfl | hlater
    · refine (place_of_notMem hnodup.1).trans ?_
      exact List.getElem?_modify_eq _ _ _
    · have hne : first.1 ≠ indexed.1 := by
        intro heq
        apply hnodup.1
        rw [heq]
        exact List.mem_map_of_mem hlater
      rw [← List.getElem?_modify_ne (fun state => readyState state first.2) states hne]
      exact ih hnodup.2 hlater

theorem finalResults_eq : ∃ figure : ImportResult → Nat,
    (finalResults objects findings).Perm ((installedIndexes objects findings).map fun index =>
      (index, withSharedBytes (found findings index) (figure (found findings index)))) := by
  unfold finalResults
  dsimp only
  generalize hindexed : (cachedIndexedResults objects findings ++
    (pendingAnalysis objects findings).map fun index => (index, findings.built index)).mergeSort
      (fun left right => decide (left.1 ≤ right.1)) = indexed
  have hperm : indexed.Perm ((installedIndexes objects findings).map fun index =>
      (index, found findings index)) := by
    rw [← hindexed]
    exact (List.mergeSort_perm _ _).trans (results_perm (.refl _))
  refine ⟨sharedFigure (occurrences (indexed.map fun result =>
    (ImportRuntime.component, result.2))) .component, ?_⟩
  rw [annotateSharedBytes_eq, List.map_map, List.zip_map']
  refine (hperm.map _).trans (.of_eq ?_)
  rw [List.map_map]
  rfl

/-- The size of each installed dependency is sent once, in a row of its own, and the final row has
the same result up to the shared bytes, in whatever order the builds land. -/
theorem every_size_is_sent_once (objects : List DependencySectionObject) (findings : Findings)
    (landed : List Nat) (hlanded : landed.Perm (pendingAnalysis objects findings)) :
    ((sentRows objects findings landed).map Prod.fst).Perm (installedIndexes objects findings) ∧
      (∀ row ∈ sentRows objects findings landed, ∃ state,
        (resolvedStates objects findings)[row.1]? = some state ∧
          row.2 = readyState state (found findings row.1)) ∧
      ∃ response, (analyzePackageJson objects findings landed).getLast? = some response ∧
        ∀ (i : Nat) (state : DependencyState),
          (resolvedStates objects findings)[i]? = some state →
            ∃ shared, response.states[i]? = some
              (if i ∈ installedIndexes objects findings then
                readyState state { found findings i with sharedBytes := shared }
              else state) := by
  have hsent := sentRows_perm hlanded
  refine ⟨?_, ?_, _, List.getLast?_concat, ?_⟩
  · refine (hsent.map _).trans (.of_eq ?_)
    exact map_fst_readyRows fun _ hindex => hindex
  · intro row hrow
    obtain ⟨indexed, hindexed, hready⟩ := List.mem_filterMap.mp (hsent.subset hrow)
    obtain ⟨index, -, rfl⟩ := List.mem_map.mp hindexed
    obtain ⟨state, hstate, rfl⟩ := Option.map_eq_some_iff.mp hready
    exact ⟨state, hstate, rfl⟩
  · intro i state hstate
    obtain ⟨figure, hfinal⟩ := @finalResults_eq objects findings
    have hkeys : ((finalResults objects findings).map Prod.fst).Perm
        (installedIndexes objects findings) := by
      refine (hfinal.map _).trans (.of_eq ?_)
      rw [List.map_map]
      exact List.map_id' _
    have hnodup : ((finalResults objects findings).map Prod.fst).Nodup :=
      hkeys.nodup_iff.mpr (List.nodup_range.filter _)
    by_cases hinstalled : i ∈ installedIndexes objects findings
    · have hmem := hfinal.symm.subset (List.mem_map_of_mem hinstalled)
      refine ⟨some (figure (found findings i)), ?_⟩
      rw [if_pos hinstalled]
      exact (place_of_mem hnodup hmem).trans (by rw [hstate]; rfl)
    · refine ⟨none, ?_⟩
      rw [if_neg hinstalled, ← hstate]
      exact place_of_notMem fun hmem => hinstalled (hkeys.subset hmem)

def manifestEntry (name : String) (sectionName : DependencySectionName) (line : Nat) :
    DependencyEntry :=
  let range : SourceRange := ⟨⟨line, 4⟩, ⟨line, 20⟩⟩
  ⟨name, "^1.0.0", sectionName, range, range, range⟩

/-- Three dependencies on lines 2 to 4, and a development dependency on line 7. -/
def mixedManifest : List DependencySectionObject :=
  let range : SourceRange := ⟨⟨1, 2⟩, ⟨5, 3⟩⟩
  let devRange : SourceRange := ⟨⟨6, 2⟩, ⟨8, 3⟩⟩
  [⟨⟨.dependencies, range, range⟩, [manifestEntry "react" .dependencies 2,
      manifestEntry "absent" .dependencies 3, manifestEntry "lodash" .dependencies 4]⟩,
    ⟨⟨.devDependencies, devRange, devRange⟩, [manifestEntry "vite" .devDependencies 7]⟩]

/-- The first is cached, the second is not installed, and the other two are built. -/
def mixedFindings : Findings where
  resolution index := if index = 1 then .missing "not installed" else .installed "1.0.0" none
  settled index :=
    if index = 0 then some (ImportResult.measured "react" ⟨10, 10, 10, 10, 10⟩) else none
  built index := ImportResult.measured "built" ⟨20 * index, 20, 20, 20, 20⟩

theorem mixedManifest_entries : packageJsonDependencyEntries mixedManifest =
    mixedManifest.flatMap DependencySectionObject.entries :=
  List.mergeSort_of_pairwise (by decide)

theorem installed_mixed : installedIndexes mixedManifest mixedFindings = [0, 2, 3] := by
  rw [installedIndexes, mixedManifest_entries]
  rfl

theorem pending_mixed : [3, 2].Perm (pendingAnalysis mixedManifest mixedFindings) := by
  rw [pendingAnalysis, installed_mixed]
  exact .swap 2 3 []

theorem sizes_of_a_mixed_manifest_are_sent :
    ((sentRows mixedManifest mixedFindings [3, 2]).map Prod.fst).Perm [0, 2, 3] ∧
      ∃ response,
        (analyzePackageJson mixedManifest mixedFindings [3, 2]).getLast? = some response ∧
        ∀ i < 4, ∃ row, response.states[i]? = some row ∧
          row.status = if i = 1 then .missing else .ready := by
  obtain ⟨hsent, -, response, hresponse, hfinal⟩ :=
    every_size_is_sent_once mixedManifest mixedFindings [3, 2] pending_mixed
  rw [installed_mixed] at hsent hfinal
  refine ⟨hsent, response, hresponse, fun i hi => ?_⟩
  have hresolved := @getElem?_resolvedStates mixedManifest mixedFindings i
  rw [mixedManifest_entries] at hresolved
  match i, hi with
  | 0, _ =>
    obtain ⟨shared, hrow⟩ := hfinal 0 _ hresolved
    exact ⟨_, hrow, rfl⟩
  | 1, _ =>
    obtain ⟨shared, hrow⟩ := hfinal 1 _ hresolved
    exact ⟨_, hrow, rfl⟩
  | 2, _ =>
    obtain ⟨shared, hrow⟩ := hfinal 2 _ hresolved
    exact ⟨_, hrow, rfl⟩
  | 3, _ =>
    obtain ⟨shared, hrow⟩ := hfinal 3 _ hresolved
    exact ⟨_, hrow, rfl⟩

end ImportLens.Daemon.PackageJson
