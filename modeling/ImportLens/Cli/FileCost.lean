import ImportLens.Daemon.Protocol
import Mathlib.Data.List.Lex
import Mathlib.Data.Nat.Basic

/-!
# What the command line check reads of a response

The stage lists, the quality of a total and the split of a file's imports into the
ones to hold against a limit and the ones that could not be judged.
-/

namespace ImportLens.Cli

open ImportLens.Daemon

/-! ## Sorting -/

def utf16Units (text : String) : List Nat :=
  text.toList.flatMap fun c =>
    if c.toNat < 0x10000 then [c.toNat]
    else [0xD800 + (c.toNat - 0x10000) / 0x400, 0xDC00 + (c.toNat - 0x10000) % 0x400]

/-- `.sort()` -/
def sorted (texts : List String) : List String :=
  texts.mergeSort fun a b => decide (utf16Units a ≤ utf16Units b)

@[simp] theorem mem_sorted {texts : List String} {text : String} :
    text ∈ sorted texts ↔ text ∈ texts := by
  exact (List.mergeSort_perm texts _).mem_iff

theorem sorted_eq_nil_iff {texts : List String} : sorted texts = [] ↔ texts = [] := by
  rw [← List.length_eq_zero_iff, ← List.length_eq_zero_iff, sorted, List.length_mergeSort]

/-! ## Stages -/

def transientStages : List String :=
  ["panic", "timeout", "engine_gone", "entry_metadata", "asset_io", "compression"]

def durableResultStages : List String :=
  ["resolve", "parse", "link", "generate", "output_shape", "module_graph_limit",
    "missing_export", "ambiguous_export", "external", "uncounted_assets", "imprecise_assets",
    "package_validation", "package_resolution", "package_manifest", "entry_resolution",
    "no_root_entry", "oversized_entry", "minify", "types_only", "native_binary_only",
    "native_binary"]

def nonBudgetableResultStages : List String := ["imprecise_assets"]

def preventsVerdict (stage : String) : Bool :=
  !durableResultStages.contains stage || nonBudgetableResultStages.contains stage

def nonBudgetableImportStages (result : ImportResult) : List String :=
  sorted ((result.unmeasuredStage.toList ++
    result.diagnostics.map fun diagnostic => diagnostic.stage).filter preventsVerdict).eraseDups

theorem nonBudgetableImportStages_eq_nil_iff {result : ImportResult} :
    nonBudgetableImportStages result = [] ↔
      (∀ stage ∈ result.unmeasuredStage, preventsVerdict stage = false) ∧
        ∀ diagnostic ∈ result.diagnostics, preventsVerdict diagnostic.stage = false := by
  rw [nonBudgetableImportStages, sorted_eq_nil_iff, List.eq_nil_iff_forall_not_mem]
  simp only [List.mem_eraseDups, List.mem_filter, List.mem_append, Option.mem_toList,
    List.mem_map, not_and, Bool.not_eq_true]
  constructor
  · intro h
    exact ⟨fun stage hin => h stage (.inl hin),
      fun diagnostic hin => h diagnostic.stage (.inr ⟨diagnostic, hin, rfl⟩)⟩
  · rintro ⟨hstage, hdiagnostics⟩ stage (hin | ⟨diagnostic, hin, rfl⟩)
    · exact hstage stage hin
    · exact hdiagnostics diagnostic hin

/-! ## Totals -/

def isUsableFileSize (response : FileCostFlags) : Bool :=
  !response.hasError && response.incomplete != some true && response.degraded != some true &&
    !response.diagnostics.any fun item =>
      transientStages.contains item.stage || nonBudgetableResultStages.contains item.stage

inductive Quantity
  | fileCost
  | combinedImportCost
  deriving DecidableEq, Repr

structure FileCostQuality where
  quantity : Quantity
  short : Bool
  imprecise : Bool
  deriving DecidableEq, Repr

def fileCostQuality (response : FileCostFlags) : FileCostQuality where
  quantity := if response.degraded = some true then .combinedImportCost else .fileCost
  short := response.incomplete == some true || (response.degraded != some true &&
    response.diagnostics.any fun item => transientStages.contains item.stage)
  imprecise := response.diagnostics.any fun item => nonBudgetableResultStages.contains item.stage

def isFileCost (quality : FileCostQuality) : Bool :=
  quality.quantity == .fileCost && !quality.short && !quality.imprecise

def missingBytes : String :=
  "bytes that belong in this file's total were not measured, so the number is a floor " ++
    "and not the file's size"

def combinedBuildFailed : String :=
  "the file's combined build failed, so the number is an un-deduplicated sum of its imports " ++
    "and not the file's size"

def assetUpperBound : String :=
  "asset processing produced a disclosed upper bound, so budgets were not evaluated"

def neitherBound : String :=
  "bytes that belong in this file's total were not measured and shared asset bytes were " ++
    "counted more than once, so the number is neither a floor nor an upper bound"

def fileCostBecause (quality : FileCostQuality) : String :=
  if quality.quantity = .combinedImportCost then
    if quality.short then
      combinedBuildFailed ++ ", and bytes that belong in it were not measured either"
    else combinedBuildFailed
  else if quality.short && quality.imprecise then neitherBound
  else if quality.short then missingBytes
  else if quality.imprecise then assetUpperBound
  else "this file's imports built as one bundle"

/-! ## A file as the check sees it -/

/-- An import that was not measured, or whose number may not be judged. -/
structure UnmeasuredImport where
  specifier : String
  stage : String
  isTransient : Bool
  blocksBudget : Bool := false
  deriving DecidableEq, Repr

structure BudgetedImport where
  specifier : String
  brotliBytes : Nat
  deriving DecidableEq, Repr

structure AnalyzedFile extends FileCostFlags where
  filePath : String
  brotliBytes : Nat
  unmeasured : List UnmeasuredImport
  imports : List BudgetedImport
  deriving DecidableEq, Repr

def isMeasured (item : ImportResult) : Bool := item.brotliBytes.isSome

def unmeasuredImport (item : ImportResult) : UnmeasuredImport :=
  let stage := item.unmeasuredStage.getD "unknown"
  { specifier := item.specifier, stage := stage, isTransient := transientStages.contains stage }

def nonBudgetableMeasurement (item : ImportResult) : Option UnmeasuredImport :=
  let stages := nonBudgetableImportStages item
  if stages.isEmpty then none
  else
    some {
      specifier := item.specifier
      stage := String.intercalate "/" stages
      isTransient := stages.any fun stage => !durableResultStages.contains stage
      blocksBudget := stages.any nonBudgetableResultStages.contains }

def budgetedImport (item : ImportResult) : Option BudgetedImport :=
  if (nonBudgetableImportStages item).isEmpty then
    item.brotliBytes.map fun brotliBytes => ⟨item.specifier, brotliBytes⟩
  else none

def analyzeFileWithDaemon (filePath : String) (response : FileSizeDocumentResponse) :
    AnalyzedFile where
  filePath := filePath
  brotliBytes := response.brotliBytes
  error := response.error
  incomplete := some (response.incomplete == some true)
  degraded := some (response.degraded == some true)
  diagnostics := response.diagnostics
  unmeasured := (response.imports.filter fun item => !isMeasured item).map unmeasuredImport ++
    (response.imports.filter isMeasured).filterMap nonBudgetableMeasurement
  imports := response.imports.filterMap budgetedImport

@[simp] theorem isUsableFileSize_analyzeFileWithDaemon {filePath : String}
    {response : FileSizeDocumentResponse} :
    isUsableFileSize (analyzeFileWithDaemon filePath response).toFileCostFlags =
      isUsableFileSize response.toFileCostFlags := by
  have hflag (flag : Option Bool) : (some (flag == some true) != some true) =
      (flag != some true) := by
    cases flag with
    | none => rfl
    | some value => cases value <;> rfl
  simp only [isUsableFileSize, analyzeFileWithDaemon, FileCostFlags.hasError, hflag]

theorem any_or {α : Type} (p q : α → Bool) (xs : List α) :
    (xs.any fun x => p x || q x) = (xs.any p || xs.any q) := by
  induction xs with
  | nil => rfl
  | cons x xs ih =>
    simp only [List.any_cons, ih]
    cases p x <;> cases q x <;> simp

theorem isUsableFileSize_eq_isFileCost (response : FileCostFlags) :
    isUsableFileSize response = (!response.hasError && isFileCost (fileCostQuality response)) := by
  unfold isUsableFileSize isFileCost fileCostQuality
  rw [any_or]
  generalize response.hasError = failed
  generalize (response.diagnostics.any fun item => transientStages.contains item.stage) = transient
  generalize (response.diagnostics.any
    fun item => nonBudgetableResultStages.contains item.stage) = imprecise
  by_cases hdegraded : response.degraded = some true
  · simp [hdegraded]
  · have hne : (response.degraded != some true) = true := by simpa using hdegraded
    rw [hne, if_neg hdegraded, bne]
    cases failed <;> cases transient <;> cases imprecise <;>
      cases response.incomplete == some true <;> rfl

end ImportLens.Cli
