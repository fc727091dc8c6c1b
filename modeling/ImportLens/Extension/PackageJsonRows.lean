import ImportLens.Extension.RefreshMerge
import Mathlib.Data.List.Forall2

/-!
# The rows of a manifest

The extension keeps one row for each dependency of a `package.json`.  A partial answer
addresses its rows by their position in the dependency list of its request, and what is
carried over from the stored rows is matched by section and name.
-/

namespace ImportLens.Extension.PackageJson

open ImportLens.Support ImportLens.Daemon

inductive DependencySectionName
  | dependencies
  | devDependencies
  | peerDependencies
  | optionalDependencies
  deriving DecidableEq, Repr

def DependencySectionName.text : DependencySectionName → String
  | .dependencies => "dependencies"
  | .devDependencies => "devDependencies"
  | .peerDependencies => "peerDependencies"
  | .optionalDependencies => "optionalDependencies"

structure DependencyEntry where
  name : String
  version : String
  sectionName : DependencySectionName
  range : SourceRange
  nameRange : SourceRange
  valueRange : SourceRange
  deriving DecidableEq, Repr

structure DependencySection where
  sectionName : DependencySectionName
  range : SourceRange
  objectRange : SourceRange
  deriving DecidableEq, Repr

structure RegistryHint where
  latestVersion : Option String := none
  latestPublishedAt : Option String := none
  isLatest : Option Bool := none
  deprecated : Option Bool := none
  fetchedAt : Option Nat := none
  deriving DecidableEq, Repr

inductive RegistryHintRefreshStatus
  | fresh
  | stale
  deriving DecidableEq, Repr

/-- A row.  The daemon sends none of the last three fields. -/
structure DependencyState where
  name : String
  sectionName : DependencySectionName
  entry : DependencyEntry
  status : ImportAnalysisStatus
  installedVersion : Option String := none
  registryHint : Option RegistryHint := none
  message : Option String := none
  result : Option ImportResult := none
  registryHintRefreshStatus : Option RegistryHintRefreshStatus := none
  registryHintRefreshError : Option String := none
  registryLookup : Option Bool := none
  deriving DecidableEq, Repr

structure AnalyzePackageJsonResponse where
  sections : List DependencySection
  states : List DependencyState
  indexes : Option (List Nat)
  error : Option String := none
  deriving DecidableEq, Repr

/-! ## Merging a partial -/

def dependencyIdentityKey (state : DependencyState) : String :=
  state.sectionName.text ++ "\n" ++ state.name

def isSameInstalledVersion (current incoming : DependencyState) : Bool :=
  current.installedVersion.isNone || incoming.installedVersion.isNone ||
    current.installedVersion = incoming.installedVersion

def isSameDependencyState (current incoming : DependencyState) : Bool :=
  current.name = incoming.name && current.sectionName = incoming.sectionName &&
    current.entry.name = incoming.entry.name

def newerRegistryHint (current incoming : Option RegistryHint) : Option RegistryHint :=
  match incoming, current with
  | none, current => current
  | some incoming, none => some incoming
  | some incoming, some current =>
      if current.fetchedAt.getD 0 > incoming.fetchedAt.getD 0 then some current else some incoming

def mergePackageJsonState (current : Option DependencyState) (incoming : DependencyState) :
    DependencyState :=
  match current with
  | none => incoming
  | some current =>
      if isSameInstalledVersion current incoming then
        { incoming with
          registryHint := newerRegistryHint current.registryHint incoming.registryHint
          registryHintRefreshStatus := current.registryHintRefreshStatus
          registryHintRefreshError := current.registryHintRefreshError }
      else incoming

def mergePackageJsonFinalStates (currentStates finalStates : List DependencyState) :
    List DependencyState :=
  finalStates.map fun incoming =>
    mergePackageJsonState (currentStates.find? fun state =>
      dependencyIdentityKey state = dependencyIdentityKey incoming) incoming

def isDependencySkeleton (response : AnalyzePackageJsonResponse) : Bool :=
  !response.sections.isEmpty && response.indexes.any fun indexes =>
    indexes.length = response.states.length &&
      indexes.zipIdx.all fun indexed => indexed.1 = indexed.2

/-- Replace the row at one position.  An index past the end would leave a hole in the
stored array; the positions of a request lie within its own list. -/
def patchState (rows : List DependencyState) (indexed : Nat × DependencyState) :
    List DependencyState :=
  rows.set indexed.1 <|
    match rows[indexed.1]? with
    | none => indexed.2
    | some current =>
        if isSameDependencyState current indexed.2 then
          mergePackageJsonState (some current) indexed.2
        else indexed.2

def mergePackageJsonAnalysisPartial (currentStates : List DependencyState)
    (response : AnalyzePackageJsonResponse) : List DependencyState :=
  match response.indexes with
  | none => mergePackageJsonFinalStates currentStates response.states
  | some indexes =>
      if isDependencySkeleton response then
        mergePackageJsonFinalStates currentStates response.states
      else (indexes.zip response.states).foldl patchState currentStates

def markPackageJsonLoadingUnavailable (states : List DependencyState) (message : String) :
    List DependencyState :=
  states.map fun state =>
    if state.status = .loading then
      { state with status := .unavailable, message := some message }
    else state

inductive FinalResponseOutcome
  | apply
  | clear
  | keep
  deriving DecidableEq, Repr

def packageJsonFinalResponseOutcome (response : AnalyzePackageJsonResponse)
    (parseable : Bool) : FinalResponseOutcome :=
  if response.error.isSome then .clear
  else if response.states.length > 0 then .apply
  else if parseable then .clear
  else .keep

/-! ## Ranges after edits -/

def shiftRangeThrough (range : SourceRange) (edits : List SourceEdit) : Option SourceRange :=
  edits.foldlM shiftRange range

def collapsedRange (range : Option SourceRange) (fallback : SourceRange) : SourceRange :=
  range.getD ⟨fallback.start, fallback.start⟩

def shiftEntry (entry : DependencyEntry) (edits : List SourceEdit) : DependencyEntry :=
  match shiftRangeThrough entry.range edits with
  | none =>
      let gone := collapsedRange none entry.range
      { entry with range := gone, nameRange := gone, valueRange := gone }
  | some range =>
      { entry with
        range := range
        nameRange := collapsedRange (shiftRangeThrough entry.nameRange edits) range
        valueRange := collapsedRange (shiftRangeThrough entry.valueRange edits) range }

def shiftPackageJsonStates (states : List DependencyState) (edits : List SourceEdit) :
    List DependencyState :=
  if edits.length = 0 then states
  else states.map fun state => { state with entry := shiftEntry state.entry edits }

def shiftPackageJsonSections (sections : List DependencySection) (edits : List SourceEdit) :
    List DependencySection :=
  if edits.length = 0 then sections
  else
    sections.map fun shown => { shown with
      range := collapsedRange (shiftRangeThrough shown.range edits) shown.range
      objectRange := collapsedRange (shiftRangeThrough shown.objectRange edits) shown.objectRange }

def shiftPackageJsonResponse (response : AnalyzePackageJsonResponse) (edits : List SourceEdit) :
    AnalyzePackageJsonResponse :=
  if edits.length = 0 then response
  else { response with
    states := shiftPackageJsonStates response.states edits
    sections := shiftPackageJsonSections response.sections edits }

/-! ## Registry eligibility -/

/-- What `trim` removes. -/
def isTrimmed (c : Char) : Bool :=
  (9 ≤ c.toNat && c.toNat ≤ 13) || (8192 ≤ c.toNat && c.toNat ≤ 8202) ||
    [32, 160, 5760, 8232, 8233, 8239, 8287, 12288, 65279].contains c.toNat

def trim (text : List Char) : List Char :=
  ((text.dropWhile isTrimmed).reverse.dropWhile isTrimmed).reverse

def isPublicRegistryDependency (name spec : String) (privateScopes : List String) : Bool :=
  let trimmed := trim spec.toList
  if !("catalog:".toList.isPrefixOf trimmed) && (trimmed.contains ':' || trimmed.contains '/') then
    false
  else if name.toList.head? ≠ some '@' then true
  else !privateScopes.contains (String.ofList (name.toList.takeWhile fun c => c ≠ '/'))

def withRegistryEligibility (states : List DependencyState) (privateScopes : List String) :
    List DependencyState :=
  states.map fun state =>
    let registryLookup :=
      isPublicRegistryDependency state.name state.entry.version privateScopes
    { state with
      registryLookup := some registryLookup
      registryHint := if registryLookup then state.registryHint else none }

/-! ## The row of a dependency -/

/-- An entry with the words of another, wherever it stands. -/
structure SameWords (placed entry : DependencyEntry) : Prop where
  name : placed.name = entry.name
  version : placed.version = entry.version
  sectionName : placed.sectionName = entry.sectionName

/-- A row of a dependency.  `unedited` says that the text is still the one its entry was
read from, and `sent` which results were sent for it. -/
structure RowOf (unedited : Prop) (entry : DependencyEntry) (sent : ImportResult → Prop)
    (row : DependencyState) : Prop where
  name : row.name = entry.name
  sectionName : row.sectionName = entry.sectionName
  words : SameWords row.entry entry
  exactly : unedited → row.entry = entry
  result : ∀ result, row.result = some result → sent result

section

variable {unedited unedited' : Prop} {entry : DependencyEntry} {sent sent' : ImportResult → Prop}
variable {row row' : DependencyState}

theorem RowOf.mono (h : RowOf unedited entry sent row) (hunedited : unedited' → unedited)
    (hsent : ∀ result, sent result → sent' result) : RowOf unedited' entry sent' row :=
  ⟨h.name, h.sectionName, h.words, fun hsame => h.exactly (hunedited hsame),
    fun result hresult => hsent result (h.result result hresult)⟩

theorem RowOf.congr (h : RowOf unedited entry sent row) (hname : row'.name = row.name)
    (hsection : row'.sectionName = row.sectionName) (hentry : row'.entry = row.entry)
    (hresult : row'.result = row.result) : RowOf unedited entry sent row' := by
  constructor
  · exact hname.trans h.name
  · exact hsection.trans h.sectionName
  · rw [hentry]
    exact h.words
  · rw [hentry]
    exact h.exactly
  · rw [hresult]
    exact h.result

theorem SameWords.shiftEntry {placed : DependencyEntry} (h : SameWords placed entry)
    (edits : List SourceEdit) : SameWords (shiftEntry placed edits) entry := by
  unfold PackageJson.shiftEntry
  split <;> exact ⟨h.name, h.version, h.sectionName⟩

theorem RowOf.shift (h : RowOf unedited entry sent row) (edits : List SourceEdit)
    (hedited : ¬ unedited') :
    RowOf unedited' entry sent { row with entry := shiftEntry row.entry edits } :=
  ⟨h.name, h.sectionName, h.words.shiftEntry edits, fun hsame => absurd hsame hedited, h.result⟩

theorem RowOf.mergePackageJsonState (h : RowOf unedited entry sent row)
    (current : Option DependencyState) :
    RowOf unedited entry sent (mergePackageJsonState current row) := by
  unfold PackageJson.mergePackageJsonState
  split
  · exact h
  · split
    · exact h.congr rfl rfl rfl rfl
    · exact h

end

/-! ## The rows of a list -/

/-- One row for each dependency, in their order. -/
structure RowsOf (unedited : Prop) (entries : List DependencyEntry)
    (sent : Nat → ImportResult → Prop) (rows : List DependencyState) : Prop where
  length : rows.length = entries.length
  row : ∀ (i : Nat) entry row, entries[i]? = some entry → rows[i]? = some row →
    RowOf unedited entry (sent i) row

section

variable {unedited unedited' : Prop} {entries : List DependencyEntry}
variable {sent sent' : Nat → ImportResult → Prop} {rows : List DependencyState}

theorem RowsOf.mono (h : RowsOf unedited entries sent rows) (hunedited : unedited' → unedited)
    (hsent : ∀ i result, sent i result → sent' i result) :
    RowsOf unedited' entries sent' rows :=
  ⟨h.length, fun i entry row hentry hrow => (h.row i entry row hentry hrow).mono hunedited
    (hsent i)⟩

theorem RowsOf.map (h : RowsOf unedited entries sent rows) (f : DependencyState → DependencyState)
    (hf : ∀ entry sent row, RowOf unedited entry sent row → RowOf unedited' entry sent (f row)) :
    RowsOf unedited' entries sent (rows.map f) := by
  constructor
  · rw [List.length_map]
    exact h.length
  · intro i entry row hentry hrow
    rw [List.getElem?_map] at hrow
    obtain ⟨before, hbefore, rfl⟩ := Option.map_eq_some_iff.mp hrow
    exact hf entry (sent i) before (h.row i entry before hentry hbefore)

theorem RowsOf.mergePackageJsonFinalStates (h : RowsOf unedited entries sent rows)
    (currentStates : List DependencyState) :
    RowsOf unedited entries sent (mergePackageJsonFinalStates currentStates rows) :=
  h.map _ fun _ _ _ hrow => hrow.mergePackageJsonState _

theorem RowsOf.withRegistryEligibility (h : RowsOf unedited entries sent rows)
    (privateScopes : List String) :
    RowsOf unedited entries sent (withRegistryEligibility rows privateScopes) :=
  h.map _ fun _ _ _ hrow => hrow.congr rfl rfl rfl rfl

theorem RowsOf.markPackageJsonLoadingUnavailable (h : RowsOf unedited entries sent rows)
    (message : String) :
    RowsOf unedited entries sent (markPackageJsonLoadingUnavailable rows message) := by
  refine h.map _ fun entry sent row hrow => ?_
  split
  · exact hrow.congr rfl rfl rfl rfl
  · exact hrow

theorem RowsOf.shiftPackageJsonStates (h : RowsOf unedited entries sent rows)
    {edits : List SourceEdit} (hedited : edits ≠ [] → ¬ unedited')
    (hsame : unedited' → unedited) :
    RowsOf unedited' entries sent (shiftPackageJsonStates rows edits) := by
  unfold PackageJson.shiftPackageJsonStates
  split
  · exact h.mono hsame fun _ _ hsent => hsent
  · rename_i hedits
    refine h.map _ fun entry sent row hrow => hrow.shift edits (hedited ?_)
    intro hnone
    exact hedits (congrArg List.length hnone)

/-- A row put at the position of its dependency. -/
theorem RowsOf.patchState (h : RowsOf unedited entries sent rows)
    {indexed : Nat × DependencyState} {entry : DependencyEntry}
    (hentry : entries[indexed.1]? = some entry)
    (hrow : RowOf unedited entry (sent indexed.1) indexed.2) :
    RowsOf unedited entries sent (patchState rows indexed) := by
  obtain ⟨index, incoming⟩ := indexed
  have hpatched : ∀ current : Option DependencyState, RowOf unedited entry (sent index)
      (match current with
        | none => incoming
        | some current =>
            if isSameDependencyState current incoming then
              mergePackageJsonState (some current) incoming
            else incoming) := by
    intro current
    split
    · exact hrow
    · split
      · exact hrow.mergePackageJsonState _
      · exact hrow
  unfold PackageJson.patchState
  constructor
  · rw [List.length_set]
    exact h.length
  · intro i entry' row hentry' hget
    by_cases hi : index = i
    · subst hi
      have hlt : index < rows.length := by
        rw [h.length]
        exact (List.getElem?_eq_some_iff.mp hentry').1
      rw [List.getElem?_set_self hlt] at hget
      cases hget
      rw [Option.some.inj (hentry'.symm.trans hentry)]
      exact hpatched _
    · rw [List.getElem?_set_ne hi] at hget
      exact h.row i entry' row hentry' hget

theorem RowsOf.foldl_patchState {indexed : List (Nat × DependencyState)}
    (h : RowsOf unedited entries sent rows)
    (hindexed : ∀ one ∈ indexed, ∃ entry, entries[one.1]? = some entry ∧
      RowOf unedited entry (sent one.1) one.2) :
    RowsOf unedited entries sent (indexed.foldl PackageJson.patchState rows) := by
  induction indexed generalizing rows with
  | nil => exact h
  | cons one indexed ih =>
    obtain ⟨entry, hentry, hrow⟩ := hindexed one List.mem_cons_self
    exact ih (h.patchState hentry hrow) fun other hother =>
      hindexed other (List.mem_cons_of_mem _ hother)

end

/-! ## What a request is answered with -/

/-- A row as the daemon sends it for a dependency. -/
structure Answers (entry : DependencyEntry) (state : DependencyState) : Prop where
  name : state.name = entry.name
  sectionName : state.sectionName = entry.sectionName
  entry_eq : state.entry = entry

structure IsSkeleton (entries : List DependencyEntry) (response : AnalyzePackageJsonResponse) :
    Prop where
  sections : response.sections ≠ []
  states : List.Forall₂ Answers entries response.states
  indexes : response.indexes = some (List.range entries.length)
  error : response.error = none

/-- Some rows, addressed by the positions of their dependencies. -/
structure IsPatch (entries : List DependencyEntry) (response : AnalyzePackageJsonResponse) :
    Prop where
  sections : response.sections = []
  indexed : ∃ index indexes, response.indexes = some (index :: indexes) ∧
    ∀ one ∈ (index :: indexes).zip response.states,
      ∃ entry, entries[one.1]? = some entry ∧ Answers entry one.2
  error : response.error = none

/-- The rows of all dependencies, or an error. -/
structure IsFinal (entries : List DependencyEntry) (response : AnalyzePackageJsonResponse) :
    Prop where
  indexes : response.indexes = none
  states : response.error = none → List.Forall₂ Answers entries response.states

/-- The responses to one request: two skeletons, patches in any order and grouping, and
the final response.  A manifest without dependencies is answered by the last alone. -/
structure PackageJsonStream (entries : List DependencyEntry) where
  loading : AnalyzePackageJsonResponse
  resolved : AnalyzePackageJsonResponse
  patches : List AnalyzePackageJsonResponse
  final : AnalyzePackageJsonResponse
  loading_skeleton : entries ≠ [] → IsSkeleton entries loading
  resolved_skeleton : entries ≠ [] → IsSkeleton entries resolved
  patch : ∀ response ∈ patches, IsPatch entries response
  last : IsFinal entries final

def PackageJsonStream.responses {entries : List DependencyEntry}
    (stream : PackageJsonStream entries) : List AnalyzePackageJsonResponse :=
  if entries = [] then [stream.final]
  else stream.loading :: stream.resolved :: (stream.patches ++ [stream.final])

def AnalyzePackageJsonResponse.rows (response : AnalyzePackageJsonResponse) :
    List (Nat × DependencyState) :=
  (response.indexes.getD (List.range response.states.length)).zip response.states

/-- A result among the responses, sent for the dependency at a position. -/
def Sent (responses : List AnalyzePackageJsonResponse) (i : Nat) (result : ImportResult) : Prop :=
  ∃ response ∈ responses, ∃ state, (i, state) ∈ response.rows ∧ state.result = some result

/-! ## The rows of a response on the text of the editor -/

section

variable {unedited : Prop} {entries : List DependencyEntry} {edits : List SourceEdit}
variable {sent : Nat → ImportResult → Prop} {response : AnalyzePackageJsonResponse}

theorem states_shiftPackageJsonResponse (response : AnalyzePackageJsonResponse)
    (edits : List SourceEdit) : (shiftPackageJsonResponse response edits).states =
      shiftPackageJsonStates response.states edits := by
  unfold shiftPackageJsonResponse
  split
  · rw [shiftPackageJsonStates, if_pos (by assumption)]
  · rfl

theorem indexes_shiftPackageJsonResponse (response : AnalyzePackageJsonResponse)
    (edits : List SourceEdit) :
    (shiftPackageJsonResponse response edits).indexes = response.indexes := by
  unfold shiftPackageJsonResponse
  split <;> rfl

theorem length_shiftPackageJsonStates (states : List DependencyState) (edits : List SourceEdit) :
    (shiftPackageJsonStates states edits).length = states.length := by
  unfold shiftPackageJsonStates
  split
  · rfl
  · rw [List.length_map]

theorem sections_shiftPackageJsonResponse (response : AnalyzePackageJsonResponse)
    (edits : List SourceEdit) :
    (shiftPackageJsonResponse response edits).sections = [] ↔ response.sections = [] := by
  unfold shiftPackageJsonResponse
  split
  · rfl
  · dsimp only
    unfold shiftPackageJsonSections
    split
    · rfl
    · rw [List.map_eq_nil_iff]

theorem Answers.rowOf {entry : DependencyEntry} {state : DependencyState}
    (h : Answers entry state) : RowOf True entry (fun result => state.result = some result) state :=
  ⟨h.name, h.sectionName, by rw [h.entry_eq]; exact ⟨rfl, rfl, rfl⟩, fun _ => h.entry_eq,
    fun _ hresult => hresult⟩

theorem rowsOf_answers {states : List DependencyState} (h : List.Forall₂ Answers entries states)
    (hsent : ∀ (i : Nat) state result, states[i]? = some state → state.result = some result →
      sent i result) : RowsOf True entries sent states := by
  rw [List.forall₂_iff_get] at h
  refine ⟨h.1.symm, fun i entry row hentry hrow => ?_⟩
  obtain ⟨hi, rfl⟩ := List.getElem?_eq_some_iff.mp hentry
  obtain ⟨hi', rfl⟩ := List.getElem?_eq_some_iff.mp hrow
  exact (h.2 i hi hi').rowOf.mono id fun result hresult => hsent i _ result hrow hresult

/-- A response with all rows, in order, replaces the stored list. -/
theorem rowsOf_whole (hunedited : unedited → edits = [])
    (hstates : List.Forall₂ Answers entries response.states)
    (hindexes : response.indexes.getD (List.range response.states.length) =
      List.range response.states.length)
    (hsent : ∀ i state result, (i, state) ∈ response.rows → state.result = some result →
      sent i result) (currentStates : List DependencyState) :
    RowsOf unedited entries sent (mergePackageJsonFinalStates currentStates
      (shiftPackageJsonResponse response edits).states) := by
  have hrows : RowsOf True entries sent response.states := by
    refine rowsOf_answers hstates fun i state result hstate hresult => ?_
    refine hsent i state result ?_ hresult
    obtain ⟨hi, rfl⟩ := List.getElem?_eq_some_iff.mp hstate
    unfold AnalyzePackageJsonResponse.rows
    rw [hindexes, List.mem_iff_getElem]
    exact ⟨i, by simpa using hi, by simp⟩
  rw [states_shiftPackageJsonResponse]
  exact (hrows.shiftPackageJsonStates (fun hne hsame => hne (hunedited hsame))
    fun _ => trivial).mergePackageJsonFinalStates currentStates

theorem isDependencySkeleton_of (h : IsSkeleton entries response) :
    isDependencySkeleton (shiftPackageJsonResponse response edits) = true := by
  have hlength : response.states.length = entries.length := h.states.length_eq.symm
  have hsections : (shiftPackageJsonResponse response edits).sections ≠ [] := fun hnone =>
    h.sections ((sections_shiftPackageJsonResponse response edits).mp hnone)
  have hpositions : ((List.range entries.length).zipIdx.all fun indexed =>
      decide (indexed.1 = indexed.2)) = true := by
    rw [List.all_eq_true]
    intro indexed hmem
    rw [List.mem_zipIdx_iff_getElem?] at hmem
    obtain ⟨_, heq⟩ := List.getElem?_eq_some_iff.mp hmem
    rw [List.getElem_range] at heq
    exact decide_eq_true heq.symm
  unfold isDependencySkeleton
  rw [indexes_shiftPackageJsonResponse, states_shiftPackageJsonResponse,
    length_shiftPackageJsonStates, h.indexes, hlength, Option.any_some, hpositions]
  simp [hsections]

theorem rowsOf_skeleton (hunedited : unedited → edits = []) (h : IsSkeleton entries response)
    (hsent : ∀ i state result, (i, state) ∈ response.rows → state.result = some result →
      sent i result) (currentStates : List DependencyState) :
    RowsOf unedited entries sent (mergePackageJsonAnalysisPartial currentStates
      (shiftPackageJsonResponse response edits)) := by
  have hlength : response.states.length = entries.length := h.states.length_eq.symm
  unfold mergePackageJsonAnalysisPartial
  rw [indexes_shiftPackageJsonResponse, h.indexes]
  dsimp only
  rw [if_pos (isDependencySkeleton_of h)]
  refine rowsOf_whole hunedited h.states ?_ hsent currentStates
  rw [h.indexes, hlength]
  rfl

theorem rowsOf_final (hunedited : unedited → edits = []) (h : IsFinal entries response)
    (herror : response.error = none)
    (hsent : ∀ i state result, (i, state) ∈ response.rows → state.result = some result →
      sent i result) (currentStates : List DependencyState) :
    RowsOf unedited entries sent (mergePackageJsonAnalysisPartial currentStates
      (shiftPackageJsonResponse response edits)) := by
  unfold mergePackageJsonAnalysisPartial
  rw [indexes_shiftPackageJsonResponse, h.indexes]
  refine rowsOf_whole hunedited (h.states herror) ?_ hsent currentStates
  rw [h.indexes]
  rfl

/-- A row of a response, as it is laid onto the edits. -/
theorem mem_zip_shifted {indexes : List Nat} {states : List DependencyState}
    {one : Nat × DependencyState} (h : one ∈ indexes.zip (shiftPackageJsonStates states edits)) :
    ∃ state, (one.1, state) ∈ indexes.zip states ∧
      (one.2 = state ∨
        edits ≠ [] ∧ one.2 = { state with entry := shiftEntry state.entry edits }) := by
  unfold shiftPackageJsonStates at h
  split at h
  · exact ⟨one.2, h, .inl rfl⟩
  · rename_i hedits
    rw [List.zip_map_right] at h
    obtain ⟨⟨index, state⟩, hmem, rfl⟩ := List.mem_map.mp h
    exact ⟨state, hmem, .inr ⟨fun hnone => hedits (congrArg List.length hnone), rfl⟩⟩

/-- A patch changes rows in place, each to one of its own dependency. -/
theorem RowsOf.patch {rows : List DependencyState} (h : RowsOf unedited entries sent rows)
    (hunedited : unedited → edits = []) (hpatch : IsPatch entries response)
    (hsent : ∀ i state result, (i, state) ∈ response.rows → state.result = some result →
      sent i result) :
    RowsOf unedited entries sent (mergePackageJsonAnalysisPartial rows
      (shiftPackageJsonResponse response edits)) := by
  obtain ⟨index, indexes, hindexes, hindexed⟩ := hpatch.indexed
  have hnot : ¬ isDependencySkeleton (shiftPackageJsonResponse response edits) = true := by
    unfold isDependencySkeleton
    rw [(sections_shiftPackageJsonResponse response edits).mpr hpatch.sections]
    simp
  unfold mergePackageJsonAnalysisPartial
  rw [indexes_shiftPackageJsonResponse, hindexes]
  dsimp only
  rw [if_neg hnot, states_shiftPackageJsonResponse]
  refine h.foldl_patchState fun one hone => ?_
  obtain ⟨state, hstate, hplaced⟩ := mem_zip_shifted hone
  obtain ⟨entry, hentry, hanswers⟩ := hindexed _ hstate
  refine ⟨entry, hentry, ?_⟩
  have hrow : RowOf True entry (sent one.1) state :=
    hanswers.rowOf.mono id fun result hresult => hsent one.1 state result (by
      unfold AnalyzePackageJsonResponse.rows
      rw [hindexes]
      exact hstate) hresult
  rcases hplaced with hsame | ⟨hedits, hmoved⟩
  · rw [hsame]
    exact hrow.mono (fun _ => trivial) fun _ => id
  · rw [hmoved]
    exact hrow.shift edits fun hsame => hedits (hunedited hsame)

end

end ImportLens.Extension.PackageJson
