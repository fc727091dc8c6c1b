import ImportLens.Extension.RangeTracking

/-!
# Merging pushed results

A push carries results for some imports of a document.  It is merged into the
states of the document by the identity of each import; a result with an error
fills a state that has none and replaces no result.
-/

namespace ImportLens.Extension

open ImportLens.Support ImportLens.Daemon

/-! ## Identities -/

structure ImportIdentity where
  specifier : String
  importKind : ImportKind
  named : List String
  runtime : ImportRuntime
  deriving DecidableEq, Repr

abbrev RefreshedImportIdentity : Type := ImportIdentity

def importIdentityOf (detected : DetectedImport) : ImportIdentity :=
  ⟨detected.specifier, detected.importKind, detected.named, detected.runtime⟩

def importKindName : ImportKind → String
  | .named => "named"
  | .defaultExport => "default"
  | .namespaceExport => "namespace"
  | .dynamic => "dynamic"

def importRuntimeName : ImportRuntime → String
  | .component => "component"
  | .client => "client"
  | .server => "server"

def importIdentityKey (identity : ImportIdentity) : String :=
  identity.specifier ++ "\x00" ++ importKindName identity.importKind ++ "\x00" ++
    importRuntimeName identity.runtime ++ "\x00" ++
    String.intercalate "\x01" (identity.named.mergeSort fun a b => decide (a ≤ b))

/-! ## States -/

inductive ImportAnalysisStatus
  | loading
  | ready
  | missing
  | unavailable
  deriving DecidableEq, Repr

structure ImportAnalysisInsight where
  label : Option String
  tooltip : String
  deriving DecidableEq, Repr

structure ImportAnalysisState where
  detected : DetectedImport
  status : ImportAnalysisStatus
  result : Option ImportResult := none
  message : Option String := none
  insights : Option (List ImportAnalysisInsight) := none
  deriving DecidableEq, Repr

def ImportAnalysisState.uncaptioned (state : ImportAnalysisState) : ImportAnalysisState :=
  { state with insights := none }

/-! ## The merge -/

structure RefreshMergeOptions where
  /-- One identity for each result, unless the daemon sends none. -/
  identities : Option (List RefreshedImportIdentity) := none
  /-- `some false` for a batch that a newer analysis has superseded. -/
  isCurrent : Option Bool := none
  deriving DecidableEq, Repr

def aligned (results : List ImportResult) (options : RefreshMergeOptions) :
    Option (List RefreshedImportIdentity) :=
  options.identities.filter fun identities => identities.length = results.length

/-- `new Map(..)`: a later result of a key replaces an earlier one. -/
def resultsByKey (results : List ImportResult) (options : RefreshMergeOptions) :
    Keyed String ImportResult :=
  Keyed.insertAll
    ((aligned results options).elim (results.map fun result => (result.specifier, result))
      fun identities => (identities.map importIdentityKey).zip results) ∅

def stateKey (results : List ImportResult) (options : RefreshMergeOptions)
    (detected : DetectedImport) : String :=
  (aligned results options).elim detected.specifier fun _ =>
    importIdentityKey (importIdentityOf detected)

def refreshedFor (results : List ImportResult) (options : RefreshMergeOptions)
    (detected : DetectedImport) : Option ImportResult :=
  (resultsByKey results options).lookup (stateKey results options detected)

def takes (state : ImportAnalysisState) (refreshed : Option ImportResult) : Bool :=
  refreshed.any fun result => result.error.isNone || state.result.isNone

def mergeState (state : ImportAnalysisState) (refreshed : Option ImportResult) :
    ImportAnalysisState :=
  if takes state refreshed then
    { state with status := .ready, result := refreshed, insights := none }
  else state

structure RefreshMergeOutcome where
  next : List ImportAnalysisState
  changed : Bool

def mergeRefreshedResults (existing : List ImportAnalysisState) (results : List ImportResult)
    (options : RefreshMergeOptions) : RefreshMergeOutcome :=
  if options.isCurrent = some false then ⟨existing, false⟩
  else
    { next := existing.map fun state =>
        mergeState state (refreshedFor results options state.detected)
      changed := existing.any fun state =>
        takes state (refreshedFor results options state.detected) }

section

variable {state : ImportAnalysisState} {refreshed : Option ImportResult}
variable {existing : List ImportAnalysisState} {results : List ImportResult}
variable {options : RefreshMergeOptions}

@[simp] theorem detected_mergeState : (mergeState state refreshed).detected = state.detected := by
  unfold mergeState
  split <;> rfl

theorem mergeState_of_not_takes (h : takes state refreshed = false) :
    mergeState state refreshed = state := by
  unfold mergeState
  rw [if_neg (by simp [h])]

theorem mergeState_none : mergeState state none = state := mergeState_of_not_takes rfl

theorem next_of_not_changed (h : (mergeRefreshedResults existing results options).changed = false) :
    (mergeRefreshedResults existing results options).next = existing := by
  unfold mergeRefreshedResults at h ⊢
  by_cases hcurrent : options.isCurrent = some false
  · rw [if_pos hcurrent]
  · rw [if_neg hcurrent] at h ⊢
    show existing.map _ = existing
    rw [List.any_eq_false] at h
    calc existing.map (fun state => mergeState state (refreshedFor results options state.detected))
        = existing.map id := List.map_congr_left fun state hstate =>
          mergeState_of_not_takes (eq_false_of_ne_true (h state hstate))
      _ = existing := List.map_id existing

theorem uncaptioned_mergeState (state : ImportAnalysisState) (refreshed : Option ImportResult) :
    (mergeState state.uncaptioned refreshed).uncaptioned =
      (mergeState state refreshed).uncaptioned := by
  have htakes : takes state.uncaptioned refreshed = takes state refreshed := rfl
  unfold mergeState
  rw [htakes]
  split <;> rfl

/-- States that differ in their captions only stay so. -/
theorem uncaptioned_merge {first second : List ImportAnalysisState}
    (h : first.map ImportAnalysisState.uncaptioned = second.map ImportAnalysisState.uncaptioned) :
    (mergeRefreshedResults first results options).next.map ImportAnalysisState.uncaptioned =
      (mergeRefreshedResults second results options).next.map ImportAnalysisState.uncaptioned := by
  have hnext : ∀ states : List ImportAnalysisState,
      (mergeRefreshedResults states results options).next.map ImportAnalysisState.uncaptioned =
        (mergeRefreshedResults
          (states.map ImportAnalysisState.uncaptioned) results options).next.map
          ImportAnalysisState.uncaptioned := by
    intro states
    unfold mergeRefreshedResults
    split
    · rw [List.map_map]
      rfl
    · rw [List.map_map, List.map_map, List.map_map]
      apply List.map_congr_left
      intro state _
      exact (uncaptioned_mergeState state _).symm
  rw [hnext first, hnext second, h]

end

end ImportLens.Extension
