import ImportLens.Daemon.Protocol
import ImportLens.Support.PosixPath
import ImportLens.Support.SortedDedup
import Mathlib.Data.Prod.Lex
import Mathlib.Data.String.Basic
import Mathlib.Order.WithBot

/-!
# The rows of a workspace report

One row for each import of the workspace, the largest first, and the two counts that are
taken from the items themselves.
-/

namespace ImportLens.Report

open ImportLens.Support ImportLens.Daemon

/-- What a report reads of a detected import. -/
structure DetectedImport where
  specifier : String
  packageName : String
  runtime : ImportRuntime
  line : Nat
  deriving DecidableEq, Repr

structure WorkspaceReportItem where
  detected : DetectedImport
  sourceFile : String
  workspaceRoot : String
  result : Option ImportResult
  warning : Option String
  deriving DecidableEq, Repr

structure WorkspaceReportBudgets where
  perImportBrotliBytes : Option Nat
  deriving DecidableEq, Repr

structure WorkspaceReportRow where
  packageName : String
  specifier : String
  sourceFile : String
  line : Nat
  runtime : String
  minifiedBytes : Option Nat
  gzipBytes : Option Nat
  brotliBytes : Option Nat
  zstdBytes : Option Nat
  sharedBytes : Nat
  confidence : String
  confidenceReasons : String
  topModules : String
  warning : String
  moduleContributions : List ModuleContribution
  deriving DecidableEq, Repr

structure WorkspaceReportRowSet where
  rows : List WorkspaceReportRow
  conservativeCount : Nat
  budgetViolationCount : Nat
  deriving DecidableEq, Repr

/-! ## Paths -/

def afterComponents : List PosixPath.Component → List (List Char) → Option (List (List Char))
  | [], parts => some parts
  | expected :: base, parts =>
      match parts.dropWhile PosixPath.isTrivial with
      | [] => none
      | part :: rest =>
          if PosixPath.component part = expected then afterComponents base rest else none

/-- `Path::strip_prefix`, for a base that is not empty. -/
def stripBase (path base : String) : Option String :=
  let below (named : List PosixPath.Component) : Option String :=
    (afterComponents named (PosixPath.parts path)).map fun parts =>
      let trimmed := (parts.dropWhile PosixPath.isTrivial).reverse.dropWhile PosixPath.isTrivial
      String.ofList (['/'].intercalate trimmed.reverse)
  match PosixPath.components base, (PosixPath.components path).head? with
  | .rootDir :: named, some .rootDir => below named
  | .curDir :: named, some .curDir => below named
  | .rootDir :: _, _ => none
  | .curDir :: _, _ => none
  | _, some .rootDir => none
  | _, some .curDir => none
  | named, _ => below named

def relativeSourceFile (workspaceRoot sourceFile : String) : String :=
  let relative := (stripBase sourceFile workspaceRoot).getD sourceFile
  let slashed := relative.toList.map fun c => if c = '\\' then '/' else c
  String.ofList (slashed.dropWhile fun c => c = '/')

def basename (path : String) : String := (PosixPath.fileName path).getD path

/-! ## Rows -/

def runtimeText : ImportRuntime → String
  | .component => "component"
  | .client => "client"
  | .server => "server"

def isConservativeItem (item : WorkspaceReportItem) : Bool :=
  item.result.any fun result =>
    result.sizes.isSome && (result.isCjs || result.sideEffects || !result.trulyTreeshakeable)

def budgetableBrotli (item : WorkspaceReportItem) : Option Nat :=
  (item.result.filter ImportResult.isBudgetable).bind ImportResult.brotliBytes

def isImportBudgetViolation (item : WorkspaceReportItem) (budgets : WorkspaceReportBudgets) :
    Bool :=
  match budgetableBrotli item, budgets.perImportBrotliBytes with
  | some brotliBytes, some limit => brotliBytes > limit
  | _, _ => false

def confidenceForResult (result : Option ImportResult) : String :=
  match result.map ImportResult.confidence with
  | some .high => "high"
  | some .medium => "medium"
  | some .low => "low"
  | none => "unknown"

def middleDot : String := " \u00b7 "

def moduleBreakdownSummary (result : Option ImportResult) : String :=
  match result.bind ImportResult.moduleBreakdown with
  | none => ""
  | some modules =>
      ", ".intercalate ((modules.take 3).map fun contribution =>
        basename contribution.path ++ " (" ++ toString contribution.bytes ++ " B)")

def confidenceReasonSuffix (result : ImportResult) : String :=
  if result.confidenceReasons.isEmpty then ""
  else ": " ++ middleDot.intercalate result.confidenceReasons

def sharedBytesOf (item : WorkspaceReportItem) : Nat :=
  (item.result.bind ImportResult.sharedBytes).getD 0

def warningsForItem (item : WorkspaceReportItem) (budgets : WorkspaceReportBudgets) : List String :=
  item.warning.toList ++
  (item.result.bind ImportResult.error).toList ++
  (if sharedBytesOf item > 0 then
    ["Shares " ++ toString (sharedBytesOf item) ++ " B with other imports in this file"]
  else []) ++
  (if isImportBudgetViolation item budgets then
    match budgetableBrotli item, budgets.perImportBrotliBytes with
    | some brotliBytes, some limit =>
        ["Budget exceeded: " ++ toString brotliBytes ++ " B br > " ++ toString limit ++ " B br"]
    | _, _ => []
  else []) ++
  (if isConservativeItem item then ["Conservative estimate"] else []) ++
  match item.result with
  | none => []
  | some result =>
      match result.confidence with
      | .low => ["Low confidence" ++ confidenceReasonSuffix result]
      | .medium => ["Medium confidence" ++ confidenceReasonSuffix result]
      | .high => []

def warningForItem (item : WorkspaceReportItem) (budgets : WorkspaceReportBudgets) : String :=
  middleDot.intercalate (warningsForItem item budgets)

def rowForItem (item : WorkspaceReportItem) (budgets : WorkspaceReportBudgets) :
    WorkspaceReportRow where
  packageName := item.detected.packageName
  specifier := item.detected.specifier
  sourceFile := relativeSourceFile item.workspaceRoot item.sourceFile
  line := item.detected.line + 1
  runtime := runtimeText item.detected.runtime
  minifiedBytes := item.result.bind ImportResult.minifiedBytes
  gzipBytes := item.result.bind ImportResult.gzipBytes
  brotliBytes := item.result.bind ImportResult.brotliBytes
  zstdBytes := item.result.bind ImportResult.zstdBytes
  sharedBytes := sharedBytesOf item
  confidence := confidenceForResult item.result
  confidenceReasons := (item.result.map fun result =>
    middleDot.intercalate result.confidenceReasons).getD ""
  topModules := moduleBreakdownSummary item.result
  warning := warningForItem item budgets
  moduleContributions := (item.result.bind ImportResult.moduleBreakdown).getD []

def rowKey (row : WorkspaceReportRow) : (WithBot Nat)ᵒᵈ ×ₗ String :=
  toLex (OrderDual.toDual row.brotliBytes,
    row.sourceFile ++ ":" ++ toString row.line ++ ":" ++ row.specifier)

def buildReportRows (items : List WorkspaceReportItem) (budgets : WorkspaceReportBudgets) :
    WorkspaceReportRowSet where
  rows := sortByKey rowKey (items.map fun item => rowForItem item budgets)
  conservativeCount := items.countP isConservativeItem
  budgetViolationCount := items.countP fun item => isImportBudgetViolation item budgets

end ImportLens.Report
