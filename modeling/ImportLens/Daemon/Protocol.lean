/-!
# Import results and their stages

The result of analysing one import, the stages a result can carry, and the one
question a durable store asks of a result: may an outcome with these stages
outlive the request?  The gate is an allowlist over stage names, so a stage
nobody has classified is refused.
-/

namespace ImportLens.Daemon

/-! ## Stages -/

namespace Stage

def transientAnalysisStages : List String :=
  ["panic", "timeout", "engine_gone", "asset_io", "entry_metadata", "compression"]

/-- `pipeline::stage::DURABLE_RESULT_STAGES`: what may enter a store that
outlives the request. -/
def durableResultStages : List String :=
  ["resolve", "parse", "link", "generate", "output_shape", "module_graph_limit",
    "missing_export", "ambiguous_export", "external", "uncounted_assets", "imprecise_assets",
    "package_validation", "package_resolution", "package_manifest", "entry_resolution",
    "no_root_entry", "oversized_entry", "minify", "types_only", "native_binary_only",
    "native_binary"]

def mayEnterADurableStore (stage : String) : Bool := durableResultStages.contains stage

def isTransient (stage : String) : Bool := transientAnalysisStages.contains stage

/-- `pipeline::stage::NON_BUDGETABLE_RESULT_STAGES`: kept by every store, but no
number to hold against a limit. -/
def nonBudgetableResultStages : List String := ["imprecise_assets"]

def preventsBudgetVerdict (stage : String) : Bool := nonBudgetableResultStages.contains stage

def marksAFloor (stage : String) : Bool :=
  ["uncounted_assets", "resolve", "missing_export"].contains stage

theorem transient_not_durable :
    ∀ stage ∈ transientAnalysisStages, mayEnterADurableStore stage = false := by
  decide

end Stage

/-! ## Requests -/

inductive ImportKind
  | named
  | defaultExport
  | namespaceExport
  | dynamic
  deriving DecidableEq, Repr

inductive ImportRuntime
  | component
  | client
  | server
  deriving DecidableEq, Repr

/-! ## Results -/

inductive ConfidenceLevel
  | high
  | medium
  | low
  deriving DecidableEq, Repr

inductive FreshnessKind
  | fresh
  | stale
  | unverified
  deriving DecidableEq, Repr

/-- Freshness of a served result, as the client sees it. -/
structure ResultFreshness where
  kind : FreshnessKind := .fresh
  revalidating : Bool := false
  reason : Option String := none
  deriving DecidableEq, Repr

namespace ResultFreshness

def fresh : ResultFreshness := {}

def stale (revalidating : Bool) : ResultFreshness :=
  { kind := .stale, revalidating := revalidating }

def unverified (reason : String) : ResultFreshness :=
  { kind := .unverified, reason := some reason }

end ResultFreshness

structure ImportDiagnostic where
  stage : String
  message : String
  details : List String
  deriving DecidableEq, Repr

structure ModuleContribution where
  path : String
  bytes : Nat
  deriving DecidableEq, Repr

inductive AssetKind
  | css
  | wasm
  | font
  | image
  deriving DecidableEq, Repr

structure MeasuredSizes where
  rawBytes : Nat
  minifiedBytes : Nat
  gzipBytes : Nat
  brotliBytes : Nat
  zstdBytes : Nat
  deriving DecidableEq, Repr

structure AssetContribution where
  kind : AssetKind
  rawBytes : Nat
  minifiedBytes : Nat
  gzipBytes : Nat
  brotliBytes : Nat
  zstdBytes : Nat
  deriving DecidableEq, Repr

/-- One import's analysis: measured (all five sizes, no stage) or unmeasured
(no size, and the stage that could not answer). -/
structure ImportResult where
  specifier : String
  rawBytes : Option Nat
  minifiedBytes : Option Nat
  gzipBytes : Option Nat
  brotliBytes : Option Nat
  zstdBytes : Option Nat
  cacheHit : Bool := false
  sideEffects : Bool := false
  trulyTreeshakeable : Bool := false
  isCjs : Bool := false
  confidence : ConfidenceLevel := .low
  confidenceReasons : List String := []
  error : Option String := none
  unmeasuredStage : Option String := none
  diagnostics : List ImportDiagnostic := []
  moduleBreakdown : Option (List ModuleContribution) := none
  sharedBytes : Option Nat := none
  assetBreakdown : List AssetContribution := []
  freshness : ResultFreshness := ResultFreshness.fresh
  internalContributions : List ModuleContribution := []
  deriving DecidableEq, Repr

namespace ImportResult

def measured (specifier : String) (sizes : MeasuredSizes) : ImportResult where
  specifier := specifier
  rawBytes := some sizes.rawBytes
  minifiedBytes := some sizes.minifiedBytes
  gzipBytes := some sizes.gzipBytes
  brotliBytes := some sizes.brotliBytes
  zstdBytes := some sizes.zstdBytes

def unmeasured (specifier stage message : String) (details : List String) : ImportResult where
  specifier := specifier
  rawBytes := none
  minifiedBytes := none
  gzipBytes := none
  brotliBytes := none
  zstdBytes := none
  sideEffects := true
  confidenceReasons := ["Analysis failed before a bundle size could be measured."]
  error := some message
  unmeasuredStage := some stage
  diagnostics := [{ stage := stage, message := message, details := details }]

/-- The gate every durable store applies: the result's own stage and the stage
of each diagnostic are on the allowlist. -/
def isDurable (result : ImportResult) : Bool :=
  result.unmeasuredStage.all Stage.mayEnterADurableStore &&
    result.diagnostics.all fun diagnostic => Stage.mayEnterADurableStore diagnostic.stage

theorem isDurable_congr {r r' : ImportResult} (hstage : r.unmeasuredStage = r'.unmeasuredStage)
    (hdiag : r.diagnostics = r'.diagnostics) : r.isDurable = r'.isDurable := by
  simp only [isDurable, hstage, hdiag]

/-! ## What an aggregate asks of a result -/

def sizes (result : ImportResult) : Option MeasuredSizes := do
  return {
    rawBytes := ← result.rawBytes
    minifiedBytes := ← result.minifiedBytes
    gzipBytes := ← result.gzipBytes
    brotliBytes := ← result.brotliBytes
    zstdBytes := ← result.zstdBytes }

def isBudgetable (result : ImportResult) : Bool :=
  result.sizes.isSome && result.isDurable &&
    result.diagnostics.all fun diagnostic => !Stage.preventsBudgetVerdict diagnostic.stage

def isFloor (result : ImportResult) : Bool :=
  result.diagnostics.any fun diagnostic => Stage.marksAFloor diagnostic.stage

/-- Measured, and `stage` is among its diagnostics. -/
def measuredWithStage (result : ImportResult) (stage : String) : Bool :=
  result.sizes.isSome && result.diagnostics.any fun diagnostic => diagnostic.stage == stage

def isTypesOnly (result : ImportResult) : Bool := result.measuredWithStage "types_only"

def isNativeBinaryOnly (result : ImportResult) : Bool :=
  result.measuredWithStage "native_binary_only"

end ImportResult

/-! ## File responses, as a client reads them -/

/-- What says whether the totals of a response are the file's.  A flag that is
absent is not set. -/
structure FileCostFlags where
  error : Option String := none
  diagnostics : List ImportDiagnostic := []
  incomplete : Option Bool := none
  degraded : Option Bool := none
  deriving DecidableEq, Repr

structure FileSizeDocumentResponse extends FileCostFlags where
  rawBytes : Nat
  minifiedBytes : Nat
  gzipBytes : Nat
  brotliBytes : Nat
  zstdBytes : Nat
  imports : List ImportResult
  deriving DecidableEq, Repr

def FileCostFlags.hasError (flags : FileCostFlags) : Bool :=
  flags.error.any fun text => text != ""

/-! ## The five sizes -/

/-- The five numbers each measurement has. -/
inductive Size
  | raw
  | minified
  | gzip
  | brotli
  | zstd
  deriving DecidableEq, Repr

namespace MeasuredSizes

def zero : MeasuredSizes := ⟨0, 0, 0, 0, 0⟩

def add (a b : MeasuredSizes) : MeasuredSizes where
  rawBytes := a.rawBytes + b.rawBytes
  minifiedBytes := a.minifiedBytes + b.minifiedBytes
  gzipBytes := a.gzipBytes + b.gzipBytes
  brotliBytes := a.brotliBytes + b.brotliBytes
  zstdBytes := a.zstdBytes + b.zstdBytes

def get (sizes : MeasuredSizes) : Size → Nat
  | .raw => sizes.rawBytes
  | .minified => sizes.minifiedBytes
  | .gzip => sizes.gzipBytes
  | .brotli => sizes.brotliBytes
  | .zstd => sizes.zstdBytes

@[simp] theorem get_zero (size : Size) : zero.get size = 0 := by
  cases size <;> rfl

@[simp] theorem get_add (a b : MeasuredSizes) (size : Size) :
    (a.add b).get size = a.get size + b.get size := by
  cases size <;> rfl

end MeasuredSizes

def AssetContribution.sizes (contribution : AssetContribution) : MeasuredSizes where
  rawBytes := contribution.rawBytes
  minifiedBytes := contribution.minifiedBytes
  gzipBytes := contribution.gzipBytes
  brotliBytes := contribution.brotliBytes
  zstdBytes := contribution.zstdBytes

end ImportLens.Daemon
