import ImportLens.Extension.RefreshMerge

/-!
# Budgets in the editor

Which results the extension may store or hold against a limit, what it calls a
total, and the violations it reports.  Texts print sizes through `formatBytes`.
-/

namespace ImportLens.Extension

open ImportLens.Daemon

/-! ## Stages -/

def transientAnalysisStages : List String :=
  ["panic", "timeout", "engine_gone", "entry_metadata", "asset_io", "compression"]

def durableResultStages : List String :=
  ["resolve", "parse", "link", "generate", "output_shape", "module_graph_limit",
    "missing_export", "ambiguous_export", "external", "uncounted_assets", "imprecise_assets",
    "package_validation", "package_resolution", "package_manifest", "entry_resolution",
    "no_root_entry", "oversized_entry", "minify", "types_only", "native_binary_only",
    "native_binary"]

def nonBudgetableResultStages : List String := ["imprecise_assets"]

def hasTransientStage (diagnostics : List ImportDiagnostic) : Bool :=
  diagnostics.any fun diagnostic => transientAnalysisStages.contains diagnostic.stage

def hasNonBudgetableDiagnostic (diagnostics : List ImportDiagnostic) : Bool :=
  diagnostics.any fun diagnostic => nonBudgetableResultStages.contains diagnostic.stage

def hasOnlyDurableStages (result : ImportResult) : Bool :=
  result.unmeasuredStage.all durableResultStages.contains &&
    result.diagnostics.all fun diagnostic => durableResultStages.contains diagnostic.stage

/-! ## Results -/

def measuredSizes (result : Option ImportResult) : Option MeasuredSizes :=
  result.bind ImportResult.sizes

def isDurableImportResult (result : Option ImportResult) : Bool :=
  result.any fun result => (measuredSizes (some result)).isSome && hasOnlyDurableStages result

def isBudgetableImportResult (result : Option ImportResult) : Bool :=
  isDurableImportResult result &&
    result.all fun result => !hasNonBudgetableDiagnostic result.diagnostics

/-! ## Totals -/

def isDurableFileSize (response : FileCostFlags) : Bool :=
  !response.hasError && response.incomplete != some true && response.degraded != some true &&
    !hasTransientStage response.diagnostics

def isBudgetableFileSize (response : FileCostFlags) : Bool :=
  isDurableFileSize response && !hasNonBudgetableDiagnostic response.diagnostics

inductive FileCostQuantity
  | fileCost
  | combinedImportCost
  deriving DecidableEq, Repr

structure FileCostQuality where
  quantity : FileCostQuantity
  /-- Bytes that belong in the number are not in it. -/
  short : Bool
  /-- Some bytes are counted more than once. -/
  imprecise : Bool
  deriving DecidableEq, Repr

def fileCostQuality (response : FileCostFlags) : FileCostQuality where
  quantity := if response.degraded = some true then .combinedImportCost else .fileCost
  short := response.incomplete == some true ||
    (response.degraded != some true && hasTransientStage response.diagnostics)
  imprecise := hasNonBudgetableDiagnostic response.diagnostics

def isFileCost (quality : FileCostQuality) : Bool :=
  quality.quantity == .fileCost && !quality.short && !quality.imprecise

/-- The part of a response a document keeps. -/
structure DocumentFileCost extends FileCostFlags where
  brotliBytes : Nat
  deriving DecidableEq, Repr

def documentFileCost (response : FileSizeDocumentResponse) : DocumentFileCost where
  toFileCostFlags := response.toFileCostFlags
  brotliBytes := response.brotliBytes

/-! ## Verdicts -/

structure ImportLensBudgets where
  perImportBrotliBytes : Option Nat := none
  perFileBrotliBytes : Option Nat := none
  deriving DecidableEq, Repr

inductive BudgetViolationKind
  | perImport
  | perFile
  deriving DecidableEq, Repr

structure BudgetViolation where
  kind : BudgetViolationKind
  message : String
  actualBytes : Nat
  limitBytes : Nat
  range : SourceRange
  specifier : Option String
  deriving DecidableEq, Repr

inductive FileBudgetVerdict
  | notEvaluated
  | withinBudget
  | overBudget
  deriving DecidableEq, Repr

def fileBudgetVerdict (budgets : ImportLensBudgets) (fileCost : Option DocumentFileCost) :
    FileBudgetVerdict :=
  match budgets.perFileBrotliBytes, fileCost with
  | some limit, some fileCost =>
      if !isBudgetableFileSize fileCost.toFileCostFlags then .notEvaluated
      else if fileCost.brotliBytes > limit then .overBudget else .withinBudget
  | _, _ => .notEvaluated

section

variable (formatBytes : Nat → String)

def importViolation (state : ImportAnalysisState) (budgets : ImportLensBudgets) :
    Option BudgetViolation := do
  let sizes ← if isBudgetableImportResult state.result then measuredSizes state.result else none
  let limit ← budgets.perImportBrotliBytes
  if state.status = .ready && sizes.brotliBytes > limit then
    some {
      kind := .perImport
      specifier := some state.detected.specifier
      actualBytes := sizes.brotliBytes
      limitBytes := limit
      range := state.detected.statementRange
      message := "Import Lens budget exceeded: " ++ state.detected.specifier ++ " is " ++
        formatBytes sizes.brotliBytes ++ " br, over " ++ formatBytes limit ++ " br." }
  else none

end

end ImportLens.Extension
