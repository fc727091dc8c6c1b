import ImportLens.Engine.SourceBytes
import ImportLens.Support.PosixPath
import ImportLens.Support.SortedDedup
import Mathlib.Data.List.Lex
import Mathlib.Data.List.MinMax
import Mathlib.Data.Prod.Lex
import Mathlib.Data.String.Basic

/-!
# The report of a failed build

The bundler collects its diagnostics from concurrent module tasks, and the hooks record
breaches and failed asset inputs as they meet them, so the order of either is a race.
What a failed build reports is cached and shown, and must be a function of what was
collected and recorded alone.

A path is compared by its components and keeps the spelling it was recorded with: two
spellings of one path are one key of a map, and the first of them stays.
-/

namespace ImportLens.Engine.Failures

open ImportLens.Cache ImportLens.Support ImportLens.Engine.SourceBytes
open ImportLens.Pipeline.FileSize (EngineDiagnostic)
open ImportLens.Pipeline.AssetBudget (absentFileFingerprint)
open PosixPath (Component components)

/-! ## Stages -/

namespace Stage

def panicked : String := "panic"

def timeout : String := "timeout"

def engineGone : String := "engine_gone"

def assetIo : String := "asset_io"

def moduleGraphLimit : String := "module_graph_limit"

def resolve : String := "resolve"

def parse : String := "parse"

def missingExport : String := "missing_export"

def ambiguousExport : String := "ambiguous_export"

def link : String := "link"

def generate : String := "generate"

def outputShape : String := "output_shape"

def all : List String :=
  [panicked, timeout, engineGone, assetIo, moduleGraphLimit, resolve, parse, missingExport,
    ambiguousExport, link, generate, outputShape]

def rank (stage : String) : Nat := all.idxOf stage

theorem eq_of_rank_eq {a b : String} (ha : a ∈ all) (h : rank a = rank b) : a = b :=
  (List.idxOf_inj ha).mp h

end Stage

/-! ## Diagnostics -/

/-- The kinds of the bundler's events that a stage is named for. -/
inductive EventKind
  | missingExportError
  | ambiguousExternalNamespaceError
  | parseError
  | jsonParseError
  | transformError
  | unresolvedEntry
  | unresolvedImport
  | resolveError
  | unloadableDependencyError
  | other
  deriving DecidableEq, Repr

/-- A diagnostic of the bundler: its kind, the code the kind prints as, and the text it
renders to. -/
structure BuildDiagnostic where
  kind : EventKind
  code : String
  rendered : String
  deriving DecidableEq, Repr

def stageFor (diagnostic : BuildDiagnostic) : String :=
  match diagnostic.kind with
  | .missingExportError => Stage.missingExport
  | .ambiguousExternalNamespaceError => Stage.ambiguousExport
  | .parseError | .jsonParseError | .transformError => Stage.parse
  | .unresolvedEntry | .unresolvedImport | .resolveError | .unloadableDependencyError =>
      Stage.resolve
  | .other => Stage.link

theorem stageFor_mem (diagnostic : BuildDiagnostic) : stageFor diagnostic ∈ Stage.all := by
  unfold stageFor
  cases diagnostic.kind <;> decide

def contractDiagnostic (diagnostic : BuildDiagnostic) : EngineDiagnostic :=
  ⟨stageFor diagnostic, diagnostic.code ++ ": " ++ diagnostic.rendered⟩

def contractOrder (diagnostic : EngineDiagnostic) : ℕ ×ₗ String :=
  toLex (Stage.rank diagnostic.stage, diagnostic.message)

def contractDiagnostics (diagnostics : List BuildDiagnostic) : List EngineDiagnostic :=
  sortByKey contractOrder (diagnostics.map contractDiagnostic)

theorem eq_of_contractOrder_eq {a b : EngineDiagnostic} (ha : a.stage ∈ Stage.all)
    (h : contractOrder a = contractOrder b) : a = b := by
  obtain ⟨stage, message⟩ := a
  obtain ⟨stage', message'⟩ := b
  have hpair := Prod.mk.inj (toLex.injective h)
  have hstage : stage = stage' := Stage.eq_of_rank_eq ha hpair.1
  have hmessage : message = message' := hpair.2
  rw [hstage, hmessage]

theorem contractDiagnostics_eq_of_perm {ds ds' : List BuildDiagnostic} (h : ds.Perm ds') :
    contractDiagnostics ds = contractDiagnostics ds' := by
  apply sortByKey_eq_of_perm (h.map contractDiagnostic)
  intro a ha b _ hab
  apply eq_of_contractOrder_eq _ hab
  obtain ⟨d, _, rfl⟩ := List.mem_map.mp ha
  exact stageFor_mem d

def leastStage (diagnostics : List BuildDiagnostic) : Option String :=
  (diagnostics.map stageFor).argmin Stage.rank

theorem leastStage_eq_some {ds : List BuildDiagnostic} {stage : String} :
    leastStage ds = some stage ↔
      ∃ d ∈ ds, stageFor d = stage ∧ ∀ d' ∈ ds, Stage.rank stage ≤ Stage.rank (stageFor d') := by
  unfold leastStage
  constructor
  · intro h
    obtain ⟨d, hd, rfl⟩ := List.mem_map.mp (List.argmin_mem h)
    exact ⟨d, hd, rfl, fun d' hd' => List.le_of_mem_argmin (List.mem_map_of_mem hd') h⟩
  · rintro ⟨d, hd, rfl, hleast⟩
    rw [← Option.mem_def, List.mem_argmin_iff]
    refine ⟨List.mem_map_of_mem hd, ?_, ?_⟩
    · intro other hother
      obtain ⟨d', hd', rfl⟩ := List.mem_map.mp hother
      exact hleast d' hd'
    · intro other hother hrank
      obtain ⟨d', hd', rfl⟩ := List.mem_map.mp hother
      have hsame := le_antisymm hrank (hleast d' hd')
      rw [Stage.eq_of_rank_eq (stageFor_mem d') hsame]

theorem leastStage_eq_of_perm {ds ds' : List BuildDiagnostic} (h : ds.Perm ds') :
    leastStage ds = leastStage ds' := by
  apply Option.ext
  intro stage
  rw [leastStage_eq_some, leastStage_eq_some]
  simp only [h.mem_iff]

/-! ## What a build records -/

/-- A `HashMap` under paths. -/
abbrev PathTable (ν : Type) : Type := Keyed (List Component) (String × ν)

namespace PathTable

variable {ν : Type}

/-- `entry(path).or_insert(value)`, and then `update` on the value that is there. -/
def entry (table : PathTable ν) (path : String) (value : ν) (update : ν → ν) : PathTable ν :=
  table.insert (components path)
    (match table.lookup (components path) with
    | some (spelling, recorded) => (spelling, update recorded)
    | none => (path, update value))

theorem lookup_entry (table : PathTable ν) (path : String) (value : ν) (update : ν → ν)
    (key : List Component) :
    (table.entry path value update).lookup key =
      if key = components path then
        some (((table.lookup key).map Prod.fst).getD path,
          update (((table.lookup key).map Prod.snd).getD value))
      else table.lookup key := by
  rw [entry, Keyed.lookup_insert_eq]
  by_cases hkey : key = components path
  · subst hkey
    rw [if_pos rfl, if_pos rfl]
    cases table.lookup (components path) <;> rfl
  · rw [if_neg hkey, if_neg hkey]

end PathTable

/-- The part of the state of a build that the report of its failure reads. -/
structure BuildState where
  loadedPaths : List String := []
  readTime : Keyed String FileFingerprint := ∅
  limitBreach : Option String := none
  failedAssetInputs : PathTable AssetInputFailure := ∅

inductive Record
  | loadedPath (path : String)
  | fingerprint (path : String) (fingerprint : FileFingerprint)
  | breach (message : String)
  | failedAssetInput (path : String) (failure : AssetInputFailure)
  deriving DecidableEq

namespace BuildState

def recordBreach (message : String) (state : BuildState) : BuildState :=
  { state with
    limitBreach :=
      match state.limitBreach with
      | some recorded => if recorded ≤ message then some recorded else some message
      | none => some message }

/-- `Unreadable` wins over `Absent`, in either order of arrival. -/
def recordFailedAssetInput (path : String) (failure : AssetInputFailure) (state : BuildState) :
    BuildState :=
  { state with
    failedAssetInputs := state.failedAssetInputs.entry path failure fun slot =>
      if failure = .unreadable then .unreadable else slot }

def record (state : BuildState) : Record → BuildState
  | .loadedPath path => { state with loadedPaths := path :: state.loadedPaths }
  | .fingerprint path fingerprint =>
      { state with readTime := state.readTime.orInsert path fingerprint }
  | .breach message => state.recordBreach message
  | .failedAssetInput path failure => state.recordFailedAssetInput path failure

/-- The state a build ends in whose hooks recorded `records`, in this order. -/
def recorded (records : List Record) : BuildState := records.foldl record {}

def sortedLoadedPaths (state : BuildState) : List String := sortDedup state.loadedPaths

def readTimeFingerprints (state : BuildState) : List FileFingerprint × List String :=
  (sortByKey FileFingerprint.path (state.readTime.rows.map Prod.snd),
    state.sortedLoadedPaths.filter fun path => (state.readTime.lookup path).isNone)

def unreadableAssetPaths (state : BuildState) : List String :=
  let paths := (state.failedAssetInputs.rows.filter fun row => row.2.2 = .unreadable).map
    fun row => row.2.1
  (sortByKey components paths).eraseRepsBy fun a b => components a == components b

section

variable (normalizeIdentityPath : String → String)

def assetInputFingerprints (state : BuildState) : List FileFingerprint :=
  sortAndDedupFingerprints (state.failedAssetInputs.rows.map fun row =>
    match row.2.2 with
    | .absent => absentFileFingerprint (normalizeIdentityPath row.2.1)
    | .unreadable => unverifiableFileFingerprint (normalizeIdentityPath row.2.1))

def buildObservations (state : BuildState) : List FileFingerprint × List String :=
  let (fingerprints, unhashedPaths) := state.readTimeFingerprints
  (sortAndDedupFingerprints (fingerprints ++ state.assetInputFingerprints normalizeIdentityPath),
    unhashedPaths)

end

end BuildState

/-! ## The report -/

structure BundleFailure where
  stage : String
  message : String
  diagnostics : List EngineDiagnostic
  loadedPaths : List String
  readTimeFingerprints : List FileFingerprint
  deriving DecidableEq

def BundleFailure.report (failure : BundleFailure) : String × String × List EngineDiagnostic :=
  (failure.stage, failure.message, failure.diagnostics)

def join (separator : String) (texts : List String) : String :=
  String.ofList (separator.toList.intercalate (texts.map String.toList))

def assetIoMessage (names : List String) : String :=
  "supported asset input(s) could not be read during this analysis; retry after the " ++
    "filesystem settles: " ++ join ", " names

def assetIoDiagnostic (state : BuildState) : Option EngineDiagnostic :=
  let paths := state.unreadableAssetPaths
  if paths.isEmpty then none else some ⟨Stage.assetIo, assetIoMessage paths⟩

def classifyFailure (normalizeIdentityPath : String → String)
    (diagnostics : List BuildDiagnostic) (state : BuildState) : BundleFailure :=
  let loadedPaths := state.sortedLoadedPaths
  let readTimeFingerprints := (state.buildObservations normalizeIdentityPath).1
  match state.limitBreach with
  | some breach =>
      { stage := Stage.moduleGraphLimit
        message := breach
        diagnostics := contractDiagnostics diagnostics
        loadedPaths, readTimeFingerprints }
  | none =>
      match assetIoDiagnostic state with
      | some assetIo =>
          { stage := Stage.assetIo
            message := assetIo.message
            diagnostics := contractDiagnostics diagnostics ++ [assetIo]
            loadedPaths, readTimeFingerprints }
      | none =>
          let failureStage := (leastStage diagnostics).getD Stage.link
          let diagnostics := contractDiagnostics diagnostics
          let message :=
            if diagnostics.isEmpty then "rolldown build failed without diagnostics"
            else join "\n" (diagnostics.map EngineDiagnostic.message)
          { stage := failureStage, message, diagnostics, loadedPaths, readTimeFingerprints }

/-! ## What is recorded is a function of the records -/

section

variable {records : List Record} {key : List Component}

theorem recorded_concat (records : List Record) (r : Record) :
    BuildState.recorded (records ++ [r]) = (BuildState.recorded records).record r := by
  rw [BuildState.recorded, List.foldl_append]
  rfl

def breachOf : Record → Option String
  | .breach message => some message
  | _ => none

def breaches (records : List Record) : List String := records.filterMap breachOf

theorem mem_breaches {message : String} :
    message ∈ breaches records ↔ .breach message ∈ records := by
  rw [breaches, List.mem_filterMap]
  constructor
  · rintro ⟨r, hr, hmessage⟩
    cases r with
    | breach other =>
      cases hmessage
      exact hr
    | loadedPath => cases hmessage
    | fingerprint => cases hmessage
    | failedAssetInput => cases hmessage
  · intro h
    exact ⟨_, h, rfl⟩

theorem breaches_concat (records : List Record) (r : Record) :
    breaches (records ++ [r]) = breaches records ++ (breachOf r).toList := by
  rw [breaches, List.filterMap_append, ← breaches]
  cases r <;> rfl

theorem limitBreach_recorded (records : List Record) :
    (BuildState.recorded records).limitBreach = (breaches records).argmin id := by
  induction records using List.reverseRecOn with
  | nil => rfl
  | append_singleton records r ih =>
    rw [recorded_concat, breaches_concat]
    cases r with
    | breach message =>
      have hslot : ((BuildState.recorded records).record (.breach message)).limitBreach =
          match (BuildState.recorded records).limitBreach with
          | some recorded => if recorded ≤ message then some recorded else some message
          | none => some message := rfl
      have hnew : (breachOf (.breach message)).toList = [message] := rfl
      rw [hslot, ih, hnew, List.argmin_concat]
      cases (breaches records).argmin id with
      | none => rfl
      | some least =>
        dsimp only [id]
        by_cases hle : least ≤ message
        · rw [if_pos hle, if_neg (not_lt_of_ge hle)]
        · rw [if_neg hle, if_pos (lt_of_not_ge hle)]
    | loadedPath => simpa [BuildState.record, breachOf] using ih
    | fingerprint => simpa [BuildState.record, breachOf] using ih
    | failedAssetInput =>
        simpa [BuildState.record, BuildState.recordFailedAssetInput, breachOf] using ih

theorem limitBreach_eq_some {message : String} :
    (BuildState.recorded records).limitBreach = some message ↔
      .breach message ∈ records ∧ ∀ other, .breach other ∈ records → message ≤ other := by
  rw [limitBreach_recorded, ← Option.mem_def, List.mem_argmin_iff]
  simp only [mem_breaches, id]
  constructor
  · rintro ⟨hin, hleast, _⟩
    exact ⟨hin, hleast⟩
  · rintro ⟨hin, hleast⟩
    refine ⟨hin, hleast, fun other hother hle => ?_⟩
    rw [le_antisymm hle (hleast other hother)]

theorem limitBreach_eq_none :
    (BuildState.recorded records).limitBreach = none ↔
      ∀ message, .breach message ∉ records := by
  rw [limitBreach_recorded, List.argmin_eq_none, List.eq_nil_iff_forall_not_mem]
  simp only [mem_breaches]

def spellingAt (key : List Component) : Record → Option String
  | .failedAssetInput path _ => if key = components path then some path else none
  | _ => none

def unreadableAt (key : List Component) : Record → Bool
  | .failedAssetInput path failure => key = components path && failure = .unreadable
  | _ => false

theorem any_unreadableAt_of_findSome?_eq_none (h : records.findSome? (spellingAt key) = none) :
    records.any (unreadableAt key) = false := by
  rw [List.findSome?_eq_none_iff] at h
  rw [List.any_eq_false]
  intro r hr
  have hnone := h r hr
  cases r with
  | failedAssetInput path failure =>
    by_cases hkey : key = components path
    · simp [spellingAt, hkey] at hnone
    · simp [unreadableAt, hkey]
  | loadedPath => simp [unreadableAt]
  | fingerprint => simp [unreadableAt]
  | breach => simp [unreadableAt]

theorem lookup_recorded (records : List Record) (key : List Component) :
    (BuildState.recorded records).failedAssetInputs.lookup key =
      (records.findSome? (spellingAt key)).map fun spelling =>
        (spelling, if records.any (unreadableAt key) then .unreadable else .absent) := by
  induction records using List.reverseRecOn with
  | nil => rfl
  | append_singleton records r ih =>
    rw [recorded_concat, List.findSome?_append, List.any_append]
    cases r with
    | failedAssetInput path failure =>
      have htable : ((BuildState.recorded records).record
          (.failedAssetInput path failure)).failedAssetInputs =
          (BuildState.recorded records).failedAssetInputs.entry path failure fun slot =>
            if failure = .unreadable then .unreadable else slot := rfl
      rw [htable, PathTable.lookup_entry, ih]
      by_cases hkey : key = components path
      · have hspelled : spellingAt key (.failedAssetInput path failure) = some path := if_pos hkey
        have hunread : unreadableAt key (.failedAssetInput path failure) =
            decide (failure = .unreadable) := by simp [unreadableAt, hkey]
        rw [if_pos hkey, List.findSome?_singleton, hspelled, List.any_cons, hunread, List.any_nil]
        cases hold : records.findSome? (spellingAt key) with
        | none =>
          rw [any_unreadableAt_of_findSome?_eq_none hold]
          cases failure <;> rfl
        | some old =>
          cases records.any (unreadableAt key) <;> cases failure <;> rfl
      · simp [spellingAt, unreadableAt, hkey]
    | loadedPath => simpa [BuildState.record, spellingAt, unreadableAt] using ih
    | fingerprint => simpa [BuildState.record, spellingAt, unreadableAt] using ih
    | breach =>
      simpa [BuildState.record, BuildState.recordBreach, spellingAt, unreadableAt] using ih

end

/-! ## The state the hooks share -/

/-- The same records in the state of the hooks, whose paths are canonical and compared by
their spelling. -/
def hookState (records : List Record) : SourceBytes.BuildState :=
  records.foldl (fun state r =>
    match r with
    | .loadedPath path => { state with loadedPaths := path :: state.loadedPaths }
    | .fingerprint path fingerprint => state.recordFingerprint path fingerprint
    | .breach message => state.recordBreach message
    | .failedAssetInput path failure => state.recordFailedAssetInput path failure) {}

section

variable {records : List Record}

theorem recordBreach_agrees {hooks : SourceBytes.BuildState} {build : BuildState}
    (h : hooks.limitBreach = build.limitBreach) (message : String) :
    (hooks.recordBreach message).limitBreach = (build.record (.breach message)).limitBreach := by
  cases hlimit : build.limitBreach with
  | none =>
    rw [hlimit] at h
    simp only [SourceBytes.BuildState.recordBreach, BuildState.record, BuildState.recordBreach, h,
      hlimit]
  | some recorded =>
    rw [hlimit] at h
    by_cases hle : recorded ≤ message
    · simp only [SourceBytes.BuildState.recordBreach, BuildState.record, BuildState.recordBreach,
        h, hlimit, if_pos hle]
    · simp only [SourceBytes.BuildState.recordBreach, BuildState.record, BuildState.recordBreach,
        h, hlimit, if_neg hle]

theorem hookState_agrees (records : List Record) :
    (hookState records).limitBreach = (BuildState.recorded records).limitBreach ∧
      (hookState records).loadedPaths = (BuildState.recorded records).loadedPaths ∧
      (hookState records).readTime = (BuildState.recorded records).readTime := by
  induction records using List.reverseRecOn with
  | nil => exact ⟨rfl, rfl, rfl⟩
  | append_singleton records r ih =>
    obtain ⟨hbreach, hloaded, hread⟩ := ih
    rw [recorded_concat, hookState, List.foldl_append, ← hookState]
    cases r with
    | loadedPath path => exact ⟨hbreach, congrArg (path :: ·) hloaded, hread⟩
    | fingerprint path fingerprint =>
      exact ⟨hbreach, hloaded, congrArg (Keyed.orInsert · path fingerprint) hread⟩
    | breach message =>
      refine ⟨?_, hloaded, hread⟩
      exact recordBreach_agrees hbreach message
    | failedAssetInput => exact ⟨hbreach, hloaded, hread⟩

/-- A path that has one spelling is under the same verdict in both. -/
theorem lookup_hookState {path : String}
    (h : ∀ other failure, .failedAssetInput other failure ∈ records →
      components other = components path → other = path) :
    (hookState records).failedAssetInputs.lookup path =
      ((BuildState.recorded records).failedAssetInputs.lookup (components path)).map Prod.snd := by
  induction records using List.reverseRecOn with
  | nil => rfl
  | append_singleton records r ih =>
    have hbefore := ih fun other failure hin => h other failure (List.mem_append_left _ hin)
    rw [recorded_concat, hookState, List.foldl_append, ← hookState]
    cases r with
    | loadedPath => exact hbefore
    | fingerprint => exact hbefore
    | breach => exact hbefore
    | failedAssetInput other failure =>
      have hother : path = other ↔ components path = components other := by
        constructor
        · exact congrArg components
        · intro heq
          exact (h other failure (by simp) heq.symm).symm
      have htable : ((BuildState.recorded records).record
          (.failedAssetInput other failure)).failedAssetInputs =
          (BuildState.recorded records).failedAssetInputs.entry other failure fun slot =>
            if failure = .unreadable then .unreadable else slot := rfl
      rw [htable, PathTable.lookup_entry]
      simp only [List.foldl_cons, List.foldl_nil, SourceBytes.BuildState.recordFailedAssetInput]
      by_cases hpath : path = other
      · subst hpath
        rw [if_pos rfl, Option.map_some, ← hbefore]
        cases failure with
        | absent =>
          rw [if_neg (by decide), Keyed.lookup_orInsert, if_pos rfl]
          rfl
        | unreadable =>
          rw [if_pos rfl, Keyed.lookup_insert_eq, if_pos rfl]
          rfl
      · rw [if_neg (fun heq => hpath (hother.mpr heq)), ← hbefore]
        cases failure with
        | absent => rw [if_neg (by decide), Keyed.lookup_orInsert, if_neg hpath]
        | unreadable =>
          rw [if_pos rfl, Keyed.lookup_insert_eq, if_neg hpath, Keyed.lookup_orInsert,
            if_neg hpath]

end

/-! ## The unreadable paths -/

section

variable {table table' : PathTable AssetInputFailure} {key : List Component}

/-- The key of every row is the path of its spelling. -/
def PathTable.Spelled (table : PathTable AssetInputFailure) : Prop :=
  ∀ key spelling failure, table.lookup key = some (spelling, failure) → components spelling = key

def PathTable.spelling (table : PathTable AssetInputFailure) (key : List Component) : String :=
  ((table.lookup key).map Prod.fst).getD ""

def PathTable.unreadable (table : PathTable AssetInputFailure) : List (List Component) :=
  sortByKey id ((table.rows.filter fun row => row.2.2 = .unreadable).map Prod.fst)

theorem PathTable.mem_unreadable :
    key ∈ table.unreadable ↔ ∃ spelling, table.lookup key = some (spelling, .unreadable) := by
  rw [unreadable, mem_sortByKey, List.mem_map]
  constructor
  · rintro ⟨⟨key, spelling, failure⟩, hrow, rfl⟩
    obtain ⟨hrow, hfailure⟩ := List.mem_filter.mp hrow
    have hunreadable : failure = .unreadable := of_decide_eq_true hfailure
    subst hunreadable
    exact ⟨spelling, Keyed.mem_rows.mp hrow⟩
  · rintro ⟨spelling, h⟩
    refine ⟨(key, spelling, .unreadable), List.mem_filter.mpr ⟨Keyed.mem_rows.mpr h, ?_⟩, rfl⟩
    exact decide_eq_true rfl

theorem PathTable.nodup_unreadable (table : PathTable AssetInputFailure) :
    table.unreadable.Nodup := by
  have hsub : ((table.rows.filter fun row => row.2.2 = .unreadable).map Prod.fst).Sublist
      (table.rows.map Prod.fst) := List.Sublist.map _ List.filter_sublist
  exact (sortByKey_perm.nodup_iff).mpr (hsub.nodup (Keyed.nodup_rows_keys table))

theorem PathTable.unreadable_eq (h : ∀ key, key ∈ table.unreadable ↔ key ∈ table'.unreadable) :
    table.unreadable = table'.unreadable := by
  have hperm := (List.perm_ext_iff_of_nodup table.nodup_unreadable table'.nodup_unreadable).mpr h
  exact hperm.eq_of_pairwise (fun a b _ _ hab hba => le_antisymm hab hba) sortByKey_pairwise
    sortByKey_pairwise

theorem unreadableAssetPaths_eq {state : BuildState} (h : state.failedAssetInputs.Spelled) :
    state.unreadableAssetPaths =
      state.failedAssetInputs.unreadable.map state.failedAssetInputs.spelling := by
  have hspelled : ∀ key ∈ state.failedAssetInputs.unreadable,
      components (state.failedAssetInputs.spelling key) = key := by
    intro key hkey
    obtain ⟨spelling, hlookup⟩ := PathTable.mem_unreadable.mp hkey
    rw [PathTable.spelling, hlookup]
    exact h key spelling .unreadable hlookup
  have hpaths : ((state.failedAssetInputs.rows.filter fun row => row.2.2 = .unreadable).map
      fun row => row.2.1) = ((state.failedAssetInputs.rows.filter fun row =>
        row.2.2 = .unreadable).map Prod.fst).map state.failedAssetInputs.spelling := by
    rw [List.map_map]
    apply List.map_congr_left
    intro row hrow
    have hlookup := Keyed.mem_rows.mp (List.mem_filter.mp hrow).1
    rw [Function.comp_apply, PathTable.spelling, hlookup]
    rfl
  have hsorted : sortByKey components (((state.failedAssetInputs.rows.filter fun row =>
      row.2.2 = .unreadable).map Prod.fst).map state.failedAssetInputs.spelling) =
      state.failedAssetInputs.unreadable.map state.failedAssetInputs.spelling :=
    (map_sortByKey fun key hkey => hspelled key (mem_sortByKey.mpr hkey)).symm
  unfold BuildState.unreadableAssetPaths
  dsimp only
  rw [hpaths, hsorted]
  apply eraseRepsBy_eq_self
  rw [List.pairwise_map]
  apply state.failedAssetInputs.nodup_unreadable.imp_of_mem
  intro a b ha hb hne
  rw [hspelled a ha, hspelled b hb]
  exact beq_eq_false_iff_ne.mpr hne

end

/-! ## The unreadable paths of a build -/

section

variable {records records' : List Record} {key : List Component}

theorem spellingAt_eq_some {r : Record} {spelling : String} :
    spellingAt key r = some spelling ↔
      components spelling = key ∧ ∃ failure, r = .failedAssetInput spelling failure := by
  cases r with
  | failedAssetInput path failure =>
    by_cases hkey : key = components path
    · simp only [spellingAt, if_pos hkey, Option.some.injEq, Record.failedAssetInput.injEq]
      constructor
      · rintro rfl
        exact ⟨hkey.symm, failure, rfl, rfl⟩
      · rintro ⟨_, _, hpath, _⟩
        exact hpath
    · simp only [spellingAt, if_neg hkey, Record.failedAssetInput.injEq]
      constructor
      · intro h
        cases h
      · rintro ⟨hspelling, _, rfl, _⟩
        exact absurd hspelling.symm hkey
  | loadedPath => simp [spellingAt]
  | fingerprint => simp [spellingAt]
  | breach => simp [spellingAt]

theorem unreadableAt_eq_true {r : Record} :
    unreadableAt key r = true ↔
      ∃ path, components path = key ∧ r = .failedAssetInput path .unreadable := by
  cases r with
  | failedAssetInput path failure =>
    simp only [unreadableAt, Bool.and_eq_true, decide_eq_true_eq, Record.failedAssetInput.injEq]
    constructor
    · rintro ⟨rfl, rfl⟩
      exact ⟨path, rfl, rfl, rfl⟩
    · rintro ⟨_, rfl, rfl, rfl⟩
      exact ⟨rfl, rfl⟩
  | loadedPath => simp [unreadableAt]
  | fingerprint => simp [unreadableAt]
  | breach => simp [unreadableAt]

theorem spelled_recorded (records : List Record) :
    (BuildState.recorded records).failedAssetInputs.Spelled := by
  intro key spelling failure h
  rw [lookup_recorded, Option.map_eq_some_iff] at h
  obtain ⟨first, hfirst, heq⟩ := h
  cases heq
  obtain ⟨r, _, hr⟩ := List.exists_of_findSome?_eq_some hfirst
  exact (spellingAt_eq_some.mp hr).1

theorem spelling_recorded (records : List Record) (key : List Component) :
    (BuildState.recorded records).failedAssetInputs.spelling key =
      (records.findSome? (spellingAt key)).getD "" := by
  rw [PathTable.spelling, lookup_recorded]
  cases records.findSome? (spellingAt key) <;> rfl

theorem mem_unreadable_recorded :
    key ∈ (BuildState.recorded records).failedAssetInputs.unreadable ↔
      ∃ path, components path = key ∧ .failedAssetInput path .unreadable ∈ records := by
  have hany : (∃ path, components path = key ∧ .failedAssetInput path .unreadable ∈ records) ↔
      records.any (unreadableAt key) = true := by
    rw [List.any_eq_true]
    constructor
    · rintro ⟨path, hpath, hin⟩
      exact ⟨_, hin, unreadableAt_eq_true.mpr ⟨path, hpath, rfl⟩⟩
    · rintro ⟨r, hin, hr⟩
      obtain ⟨path, hpath, rfl⟩ := unreadableAt_eq_true.mp hr
      exact ⟨path, hpath, hin⟩
  rw [PathTable.mem_unreadable, hany, lookup_recorded]
  cases hfirst : records.findSome? (spellingAt key) with
  | none =>
    rw [any_unreadableAt_of_findSome?_eq_none hfirst]
    simp
  | some first => cases records.any (unreadableAt key) <;> simp

theorem unreadable_eq_of_perm (h : records.Perm records') :
    (BuildState.recorded records).failedAssetInputs.unreadable =
      (BuildState.recorded records').failedAssetInputs.unreadable := by
  apply PathTable.unreadable_eq
  intro key
  rw [mem_unreadable_recorded, mem_unreadable_recorded]
  simp only [h.mem_iff]

/-- No path that could not be read is recorded under two spellings. -/
def SpelledAlike (records : List Record) : Prop :=
  ∀ path failure path' failure', .failedAssetInput path failure ∈ records →
    .failedAssetInput path' failure' ∈ records → components path = components path' →
      (∃ unread, components unread = components path ∧
        .failedAssetInput unread .unreadable ∈ records) → path = path'

theorem unreadableAssetPaths_eq_of_perm (hspelled : SpelledAlike records)
    (h : records.Perm records') :
    (BuildState.recorded records).unreadableAssetPaths =
      (BuildState.recorded records').unreadableAssetPaths := by
  rw [unreadableAssetPaths_eq (spelled_recorded records),
    unreadableAssetPaths_eq (spelled_recorded records'), ← unreadable_eq_of_perm h]
  apply List.map_congr_left
  intro key hkey
  obtain ⟨unread, hunread, hin⟩ := mem_unreadable_recorded.mp hkey
  have hfirst : ∀ rs : List Record, .failedAssetInput unread .unreadable ∈ rs →
      ∃ first failure, rs.findSome? (spellingAt key) = some first ∧ components first = key ∧
        .failedAssetInput first failure ∈ rs := by
    intro rs hin
    cases hsome : rs.findSome? (spellingAt key) with
    | none =>
      have hnone := List.findSome?_eq_none_iff.mp hsome _ hin
      rw [spellingAt_eq_some.mpr ⟨hunread, .unreadable, rfl⟩] at hnone
      cases hnone
    | some first =>
      obtain ⟨r, hr, hspelling⟩ := List.exists_of_findSome?_eq_some hsome
      obtain ⟨hcomponents, failure, rfl⟩ := spellingAt_eq_some.mp hspelling
      exact ⟨first, failure, rfl, hcomponents, hr⟩
  obtain ⟨a, fa, ha, hacomponents, hain⟩ := hfirst records hin
  obtain ⟨b, fb, hb, hbcomponents, hbin⟩ := hfirst records' (h.mem_iff.mp hin)
  rw [spelling_recorded, spelling_recorded, ha, hb, Option.getD_some, Option.getD_some]
  exact hspelled a fa b fb hain (h.mem_iff.mpr hbin) (hacomponents.trans hbcomponents.symm)
    ⟨unread, hunread.trans hacomponents.symm, hin⟩

theorem limitBreach_eq_of_perm (h : records.Perm records') :
    (BuildState.recorded records).limitBreach = (BuildState.recorded records').limitBreach := by
  apply Option.ext
  intro message
  rw [limitBreach_eq_some, limitBreach_eq_some]
  simp only [h.mem_iff]

theorem unreadableAssetPaths_eq_nil :
    (BuildState.recorded records).unreadableAssetPaths = [] ↔
      ∀ path, .failedAssetInput path .unreadable ∉ records := by
  rw [unreadableAssetPaths_eq (spelled_recorded records), List.map_eq_nil_iff,
    List.eq_nil_iff_forall_not_mem]
  simp only [mem_unreadable_recorded, not_exists, not_and]
  constructor
  · intro h path
    exact h (components path) path rfl
  · intro h key path _
    exact h path

end

/-! ## The report, case by case -/

section

variable {normalizeIdentityPath : String → String} {diagnostics diagnostics' : List BuildDiagnostic}
  {state state' : BuildState}

theorem report_of_breach {breach : String} (h : state.limitBreach = some breach) :
    (classifyFailure normalizeIdentityPath diagnostics state).report =
      (Stage.moduleGraphLimit, breach, contractDiagnostics diagnostics) := by
  unfold classifyFailure
  dsimp only
  rw [h]
  rfl

theorem report_of_unreadable (h : state.limitBreach = none)
    (hpaths : state.unreadableAssetPaths ≠ []) :
    (classifyFailure normalizeIdentityPath diagnostics state).report =
      (Stage.assetIo, assetIoMessage state.unreadableAssetPaths,
        contractDiagnostics diagnostics ++
          [⟨Stage.assetIo, assetIoMessage state.unreadableAssetPaths⟩]) := by
  have hdiagnostic : assetIoDiagnostic state =
      some ⟨Stage.assetIo, assetIoMessage state.unreadableAssetPaths⟩ := by
    unfold assetIoDiagnostic
    dsimp only
    rw [if_neg (by rwa [List.isEmpty_iff])]
  unfold classifyFailure
  dsimp only
  rw [h, hdiagnostic]
  rfl

theorem report_of_readable (h : state.limitBreach = none)
    (hpaths : state.unreadableAssetPaths = []) :
    (classifyFailure normalizeIdentityPath diagnostics state).report =
      ((leastStage diagnostics).getD Stage.link,
        if (contractDiagnostics diagnostics).isEmpty then
          "rolldown build failed without diagnostics"
        else join "\n" ((contractDiagnostics diagnostics).map EngineDiagnostic.message),
        contractDiagnostics diagnostics) := by
  have hdiagnostic : assetIoDiagnostic state = none := by
    unfold assetIoDiagnostic
    dsimp only
    rw [hpaths]
    rfl
  unfold classifyFailure
  dsimp only
  rw [h, hdiagnostic]
  rfl

/-- A breach leaves the unreadable paths out of the report. -/
theorem report_eq_of_perm (h : diagnostics.Perm diagnostics')
    (hbreach : state.limitBreach = state'.limitBreach)
    (hpaths : state.limitBreach = none →
      state.unreadableAssetPaths = state'.unreadableAssetPaths) :
    (classifyFailure normalizeIdentityPath diagnostics state).report =
      (classifyFailure normalizeIdentityPath diagnostics' state').report := by
  have hcontract := contractDiagnostics_eq_of_perm h
  cases hstate : state.limitBreach with
  | some breach =>
    rw [report_of_breach hstate, report_of_breach (hbreach ▸ hstate), hcontract]
  | none =>
    have hstate' : state'.limitBreach = none := hbreach ▸ hstate
    have hsame := hpaths hstate
    by_cases hnil : state.unreadableAssetPaths = []
    · rw [report_of_readable hstate hnil, report_of_readable hstate' (hsame ▸ hnil), hcontract,
        leastStage_eq_of_perm h]
    · rw [report_of_unreadable hstate hnil, report_of_unreadable hstate' (hsame ▸ hnil), hcontract,
        hsame]

end

/-! ## Two orders, two reports -/

section

variable {α β : Type}

theorem findSome?_erase_of_none [DecidableEq α] {f : α → Option β} {a : α} (h : f a = none)
    (xs : List α) : (xs.erase a).findSome? f = xs.findSome? f := by
  induction xs with
  | nil => rfl
  | cons x xs ih =>
    by_cases hx : x = a
    · rw [hx, List.erase_cons_head, List.findSome?_cons, h]
    · rw [List.erase_cons_tail (by simpa using hx), List.findSome?_cons, List.findSome?_cons, ih]

theorem intercalate_around (separator : List β) (before : List (List β)) (text : List β)
    (after : List (List β)) :
    separator.intercalate (before ++ text :: after) =
      (before.map (· ++ separator)).flatten ++ (text ++ (after.map (separator ++ ·)).flatten) := by
  induction before with
  | nil =>
    induction after generalizing text with
    | nil => simp [List.intercalate_singleton]
    | cons next after ih =>
      rw [List.nil_append, List.intercalate_cons_cons]
      have hrest := ih next
      rw [List.nil_append] at hrest
      rw [hrest]
      simp
  | cons first before ih =>
    rw [List.cons_append, List.intercalate_cons_of_ne_nil (by simp), ih]
    simp

end

/-- Two joins of texts that differ at one place differ. -/
theorem eq_of_join_eq {α : Type} {f g : α → String} {separator : String} {keys : List α} {key : α}
    (hnodup : keys.Nodup) (hkey : key ∈ keys) (hother : ∀ k ∈ keys, k ≠ key → f k = g k)
    (h : join separator (keys.map f) = join separator (keys.map g)) : f key = g key := by
  obtain ⟨before, after, rfl⟩ := List.append_of_mem hkey
  obtain ⟨hbefore, hafter, hapart⟩ := List.nodup_append.mp hnodup
  have hne : ∀ k ∈ before, k ≠ key := fun k hk => hapart k hk key List.mem_cons_self
  have hne' : ∀ k ∈ after, k ≠ key := by
    rintro k hk rfl
    exact (List.nodup_cons.mp hafter).1 hk
  have hfirst : before.map f = before.map g :=
    List.map_congr_left fun k hk => hother k (List.mem_append_left _ hk) (hne k hk)
  have hlast : after.map f = after.map g :=
    List.map_congr_left fun k hk =>
      hother k (List.mem_append_right _ (List.mem_cons_of_mem _ hk)) (hne' k hk)
  have hlists := String.ofList_injective h
  rw [List.map_append, List.map_cons, List.map_append, List.map_cons, List.map_append,
    List.map_append, List.map_cons, List.map_cons, hfirst, hlast, intercalate_around,
    intercalate_around] at hlists
  have htext := List.append_cancel_right (List.append_cancel_left hlists)
  exact String.toList_injective htext

/-! ## The report of a build -/

/-- The failure of a build that collected `diagnostics` and recorded `records`. -/
def failureOf (normalizeIdentityPath : String → String) (diagnostics : List BuildDiagnostic)
    (records : List Record) : BundleFailure :=
  classifyFailure normalizeIdentityPath diagnostics (BuildState.recorded records)

/-- What the stage of a failure tells, and the message of a breach. -/
structure Classified (diagnostics : List BuildDiagnostic) (records : List Record)
    (failure : BundleFailure) : Prop where
  breached : ∀ message, .breach message ∈ records →
    (∀ other, .breach other ∈ records → message ≤ other) →
      failure.stage = Stage.moduleGraphLimit ∧ failure.message = message
  unreadable : (∀ message, .breach message ∉ records) →
    (∃ path, .failedAssetInput path .unreadable ∈ records) → failure.stage = Stage.assetIo
  ranked : (∀ message, .breach message ∉ records) →
    (∀ path, .failedAssetInput path .unreadable ∉ records) → ∀ d ∈ diagnostics,
      (∀ other ∈ diagnostics, Stage.rank (stageFor d) ≤ Stage.rank (stageFor other)) →
        failure.stage = stageFor d
  silent : (∀ message, .breach message ∉ records) →
    (∀ path, .failedAssetInput path .unreadable ∉ records) → diagnostics = [] →
      failure.stage = Stage.link

section

variable {normalizeIdentityPath : String → String} {diagnostics : List BuildDiagnostic}
  {records : List Record}

theorem classified : Classified diagnostics records
    (failureOf normalizeIdentityPath diagnostics records) := by
  have hreadable : (∀ message, .breach message ∉ records) →
      (∀ path, .failedAssetInput path .unreadable ∉ records) →
        (failureOf normalizeIdentityPath diagnostics records).stage =
          (leastStage diagnostics).getD Stage.link := by
    intro hbreach hread
    have hreport := @report_of_readable normalizeIdentityPath diagnostics _
      (limitBreach_eq_none.mpr hbreach) (unreadableAssetPaths_eq_nil.mpr hread)
    exact congrArg Prod.fst hreport
  constructor
  · intro message hin hleast
    have hreport := @report_of_breach normalizeIdentityPath diagnostics _ message
      (limitBreach_eq_some.mpr ⟨hin, hleast⟩)
    exact ⟨congrArg Prod.fst hreport, congrArg (fun report => report.2.1) hreport⟩
  · rintro hbreach ⟨path, hin⟩
    have hpaths : (BuildState.recorded records).unreadableAssetPaths ≠ [] :=
      fun hnil => unreadableAssetPaths_eq_nil.mp hnil path hin
    have hreport := @report_of_unreadable normalizeIdentityPath diagnostics _
      (limitBreach_eq_none.mpr hbreach) hpaths
    exact congrArg Prod.fst hreport
  · intro hbreach hread d hd hleast
    rw [hreadable hbreach hread, leastStage_eq_some.mpr ⟨d, hd, rfl, hleast⟩, Option.getD_some]
  · intro hbreach hread hnil
    rw [hreadable hbreach hread, hnil]
    rfl

theorem report_failureOf_eq_of_perm {diagnostics' : List BuildDiagnostic} {records' : List Record}
    (hcondition : (∃ message, .breach message ∈ records) ∨ SpelledAlike records)
    (hdiagnostics : diagnostics.Perm diagnostics') (hrecords : records.Perm records') :
    (failureOf normalizeIdentityPath diagnostics records).report =
      (failureOf normalizeIdentityPath diagnostics' records').report := by
  apply report_eq_of_perm hdiagnostics (limitBreach_eq_of_perm hrecords)
  intro hnone
  rcases hcondition with ⟨message, hin⟩ | hspelled
  · exact absurd hin (limitBreach_eq_none.mp hnone message)
  · exact unreadableAssetPaths_eq_of_perm hspelled hrecords

theorem spelling_first {path : String} {failure : AssetInputFailure} (rest : List Record) :
    (BuildState.recorded (.failedAssetInput path failure :: rest)).failedAssetInputs.spelling
      (components path) = path := by
  rw [spelling_recorded, List.findSome?_cons, spellingAt_eq_some.mpr ⟨rfl, failure, rfl⟩,
    Option.getD_some]

/-- Recording one input earlier changes the spelling of no other path. -/
theorem spelling_moved {path : String} {failure : AssetInputFailure} {key : List Component}
    (hkey : key ≠ components path) :
    (BuildState.recorded (.failedAssetInput path failure ::
        records.erase (.failedAssetInput path failure))).failedAssetInputs.spelling key =
      (BuildState.recorded records).failedAssetInputs.spelling key := by
  have hnone : spellingAt key (.failedAssetInput path failure) = none := if_neg hkey
  rw [spelling_recorded, spelling_recorded, List.findSome?_cons, hnone]
  dsimp only
  rw [findSome?_erase_of_none hnone]

/-- Without a breach, a report that is the same whichever of two inputs came first spells
them alike if their path could not be read. -/
theorem spelling_eq_of_report_eq {path path' unread : String} {failure failure' : AssetInputFailure}
    (hbreach : ∀ message, .breach message ∉ records)
    (hin : .failedAssetInput path failure ∈ records)
    (hin' : .failedAssetInput path' failure' ∈ records)
    (hcomponents : components path = components path')
    (hunread : components unread = components path)
    (hunreadIn : .failedAssetInput unread .unreadable ∈ records)
    (hreport : (failureOf normalizeIdentityPath diagnostics (.failedAssetInput path failure ::
        records.erase (.failedAssetInput path failure))).report =
      (failureOf normalizeIdentityPath diagnostics (.failedAssetInput path' failure' ::
        records.erase (.failedAssetInput path' failure'))).report) : path = path' := by
  have hunreadable : ∀ rs : List Record, rs.Perm records →
      (failureOf normalizeIdentityPath diagnostics rs).report.2.1 =
        assetIoMessage (BuildState.recorded rs).unreadableAssetPaths := by
    intro rs hrs
    have hnone : (BuildState.recorded rs).limitBreach = none :=
      limitBreach_eq_none.mpr fun m hm => hbreach m (hrs.mem_iff.mp hm)
    have hpaths : (BuildState.recorded rs).unreadableAssetPaths ≠ [] :=
      fun hnil => unreadableAssetPaths_eq_nil.mp hnil unread (hrs.mem_iff.mpr hunreadIn)
    unfold failureOf
    rw [report_of_unreadable hnone hpaths]
  have hperm := (List.perm_cons_erase hin).symm
  have hperm' := (List.perm_cons_erase hin').symm
  have hmessages := congrArg (fun report => report.2.1) hreport
  rw [hunreadable _ hperm, hunreadable _ hperm'] at hmessages
  have hjoin := (String.append_right_inj _).mp hmessages
  rw [unreadableAssetPaths_eq (spelled_recorded _), unreadableAssetPaths_eq (spelled_recorded _),
    unreadable_eq_of_perm hperm, unreadable_eq_of_perm hperm'] at hjoin
  have hkey : components path ∈ (BuildState.recorded records).failedAssetInputs.unreadable :=
    mem_unreadable_recorded.mpr ⟨unread, hunread, hunreadIn⟩
  have hspelling := eq_of_join_eq (PathTable.nodup_unreadable _) hkey
    (fun k _ hk => (spelling_moved hk).trans (spelling_moved (hcomponents ▸ hk)).symm) hjoin
  rw [spelling_first] at hspelling
  rw [hspelling, hcomponents, spelling_first]

end

/-- A failed build reports a function of what was collected and recorded exactly if it
breached a limit or recorded no path that could not be read under two spellings. -/
theorem failure_report_stable_iff (normalizeIdentityPath : String → String)
    (diagnostics : List BuildDiagnostic) (records : List Record) :
    ((∀ diagnostics' records', diagnostics'.Perm diagnostics → records'.Perm records →
        (failureOf normalizeIdentityPath diagnostics' records').report =
          (failureOf normalizeIdentityPath diagnostics records).report) ∧
      Classified diagnostics records (failureOf normalizeIdentityPath diagnostics records) ∧
      (∀ warnings, warnings.Perm diagnostics →
        contractDiagnostics warnings = contractDiagnostics diagnostics)) ↔
      (∃ message, .breach message ∈ records) ∨ SpelledAlike records := by
  constructor
  · rintro ⟨hstable, -, -⟩
    by_cases hbreach : ∃ message, Record.breach message ∈ records
    · exact .inl hbreach
    · right
      intro path failure path' failure' hin hin' hcomponents ⟨unread, hunread, hunreadIn⟩
      have hsame := hstable diagnostics _ (.refl _) (List.perm_cons_erase hin).symm
      have hsame' := hstable diagnostics _ (.refl _) (List.perm_cons_erase hin').symm
      exact spelling_eq_of_report_eq (fun m hm => hbreach ⟨m, hm⟩) hin hin' hcomponents hunread
        hunreadIn (hsame.trans hsame'.symm)
  · intro hcondition
    refine ⟨?_, classified, fun _ hperm => contractDiagnostics_eq_of_perm hperm⟩
    intro diagnostics' records' hdiagnostics hrecords
    exact (report_failureOf_eq_of_perm hcondition hdiagnostics.symm hrecords.symm).symm

/-- A directory `theme.css`, imported as `./theme.css` and as `.//theme.css`. -/
theorem report_of_two_spellings :
    (failureOf id [⟨.unresolvedImport, "UNRESOLVED_IMPORT", "Could not resolve './theme.css'"⟩]
        [.failedAssetInput "/pkg/./theme.css" .unreadable,
          .failedAssetInput "/pkg/.//theme.css" .unreadable]).report ≠
      (failureOf id [⟨.unresolvedImport, "UNRESOLVED_IMPORT", "Could not resolve './theme.css'"⟩]
        [.failedAssetInput "/pkg/.//theme.css" .unreadable,
          .failedAssetInput "/pkg/./theme.css" .unreadable]).report := by
  intro hreport
  have hcomponents : components "/pkg/./theme.css" = components "/pkg/.//theme.css" := by
    decide
  have hsame := @spelling_eq_of_report_eq id
    [⟨.unresolvedImport, "UNRESOLVED_IMPORT", "Could not resolve './theme.css'"⟩]
    [.failedAssetInput "/pkg/./theme.css" .unreadable,
      .failedAssetInput "/pkg/.//theme.css" .unreadable] "/pkg/./theme.css" "/pkg/.//theme.css"
    "/pkg/./theme.css" .unreadable .unreadable (by simp) (by simp) (by simp) hcomponents rfl
    (by simp) hreport
  exact absurd hsame (by decide)

end ImportLens.Engine.Failures
