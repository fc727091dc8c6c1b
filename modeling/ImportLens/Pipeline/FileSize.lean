import ImportLens.Pipeline.Assets
import Mathlib.Logic.Function.Basic
import Mathlib.Data.List.Forall2
import Mathlib.Algebra.BigOperators.Group.List.Basic

/-!
# File Cost

The size of a file is the sum over its runtimes of one combined build each: the
imports are sorted into runtime groups, every group is bundled, minified,
compressed and its assets processed, and a group one of whose stages fails falls
back to the sum of the per-import measurements the caller already has.

The flags beside the totals say what kind of number they are.  `incomplete` is an
under-count, `degraded` an over-count, and only a total with neither is a File
Cost.
-/

namespace ImportLens.Pipeline.FileSize

open ImportLens.Daemon ImportLens.Cache

/-! ## Requests -/

structure ImportRequest where
  specifier : String
  packageName : String
  version : String
  named : List String
  importKind : ImportKind
  runtime : ImportRuntime := .component
  deriving DecidableEq, Repr

structure ResolvedPackage where
  packageRoot : String
  entryPath : String
  deriving DecidableEq, Repr

inductive BundleSelection
  | named (names : List String)
  | defaultExport
  | namespaceExport
  | full
  deriving DecidableEq, Repr

structure BundleEntry where
  entryPath : String
  packageRoot : String
  selection : BundleSelection
  deriving DecidableEq, Repr

inductive BundlePurpose
  | importSize
  | fileSize
  | fullPackageComparison
  | exportEnumeration
  deriving DecidableEq, Repr

structure BundleRequest where
  entries : List BundleEntry
  runtime : ImportRuntime
  purpose : BundlePurpose
  deriving DecidableEq, Repr

def engineSelection (request : ImportRequest) : BundleSelection :=
  match request.importKind with
  | .named => if request.named.isEmpty then .full else .named request.named
  | .defaultExport => .defaultExport
  | .namespaceExport => .namespaceExport
  | .dynamic => .full

/-! ## What the stages answer -/

/-- A diagnostic of the engine: one of the pipeline's, without details. -/
structure EngineDiagnostic where
  stage : String
  message : String
  deriving DecidableEq, Repr

def EngineDiagnostic.relabel (item : EngineDiagnostic) : ImportDiagnostic :=
  ⟨item.stage, item.message, []⟩

structure CollectedAsset where
  path : String
  kind : AssetKind
  bytes : Bytes
  fingerprint : FileFingerprint
  deriving DecidableEq

structure BundleArtifact where
  code : String
  graphSourceBytes : Nat := 0
  loadedPaths : List String := []
  readTimeFingerprints : List FileFingerprint := []
  unhashedPaths : List String := []
  diagnostics : List EngineDiagnostic := []
  assets : List CollectedAsset := []
  emittedAssets : List UncountedAsset := []
  deriving DecidableEq

structure BundleFailure where
  stage : String
  message : String
  diagnostics : List EngineDiagnostic := []
  deriving DecidableEq, Repr

structure CompressionSizes where
  gzipBytes : Nat
  brotliBytes : Nat
  zstdBytes : Nat
  deriving DecidableEq, Repr

structure AssetProcessingFailure where
  stage : String
  message : String
  deriving DecidableEq, Repr

/-- What the computation calls and does not decide.  The minifier, the compressors
and the asset stage run once for each runtime group, so their answers may differ
between two groups with the same text. -/
structure Stages where
  resolvePackageEntry : ImportRequest → Except String ResolvedPackage
  bundleSync : BundleRequest → Except BundleFailure BundleArtifact
  minify : ImportRuntime → String → Except String String
  compress : ImportRuntime → String → Except String CompressionSizes
  executeAssets : ImportRuntime → List CollectedAsset → Nat → List String →
    Except AssetProcessingFailure ProcessedAssets
  firstPartyManifests : List String → List String
  fileFingerprintReadingHash : String → Option FileFingerprint
  normalizeIdentityPath : String → String

def Stages.processAssetsBounded (stages : Stages) (runtime : ImportRuntime)
    (assets : List CollectedAsset) (graphSourceBytes : Nat) (graphLoadedPaths : List String) :
    Except AssetProcessingFailure ProcessedAssets :=
  if assets.isEmpty then .ok {}
  else stages.executeAssets runtime assets graphSourceBytes graphLoadedPaths

/-! ## The computation -/

inductive SizedPackage
  | installed (request : ImportRequest)
  | notInstalled
  | pathAlias
  deriving DecidableEq, Repr

/-- One import of the file, with the measurement the caller has for it; `none`
while its own build is in flight. -/
structure SizedImport where
  package : SizedPackage
  specifier : String
  result : Option ImportResult
  deriving DecidableEq, Repr

structure FileSizeComputation where
  /-- The five totals. -/
  sizes : MeasuredSizes := .zero
  assetBreakdown : List AssetContribution := []
  incomplete : Bool := false
  degraded : Bool := false
  error : Option String := none
  diagnostics : List ImportDiagnostic := []
  dependencyFingerprints : List FileFingerprint := []
  deriving DecidableEq, Repr

/-- The number is a measurement of the file: the rule every durable record and
verdict applies. -/
def FileSizeComputation.isFileCost (computation : FileSizeComputation) : Bool :=
  computation.error.isNone && !computation.incomplete && !computation.degraded &&
    fingerprintsAreReusable computation.dependencyFingerprints &&
      !computation.diagnostics.any fun item => Stage.isTransient item.stage

def FileSizeComputation.mayEnterAggregateCache (computation : FileSizeComputation) : Bool :=
  computation.isFileCost || (computation.error.isNone && !computation.degraded &&
    fingerprintsAreReusable computation.dependencyFingerprints &&
      computation.diagnostics.all fun item => Stage.mayEnterADurableStore item.stage)

/-- One row of `absorb_asset_breakdown_into`: it joins the first row of its kind. -/
def absorbContribution (contribution : AssetContribution) :
    List AssetContribution → List AssetContribution
  | [] => [contribution]
  | existing :: rest =>
      if existing.kind = contribution.kind then
        { existing with
          rawBytes := existing.rawBytes + contribution.rawBytes
          minifiedBytes := existing.minifiedBytes + contribution.minifiedBytes
          gzipBytes := existing.gzipBytes + contribution.gzipBytes
          brotliBytes := existing.brotliBytes + contribution.brotliBytes
          zstdBytes := existing.zstdBytes + contribution.zstdBytes } :: rest
      else existing :: absorbContribution contribution rest

def absorbAssetBreakdownInto (breakdown contributions : List AssetContribution) :
    List AssetContribution :=
  contributions.foldl (fun breakdown contribution => absorbContribution contribution breakdown)
    breakdown

/-! ### The conservative sum of a runtime group -/

structure PerImportTotals where
  sizedAny : Bool := false
  missingInputs : Bool := false
  sizes : MeasuredSizes := .zero
  assetBreakdown : List AssetContribution := []
  deriving DecidableEq, Repr

/-- One import of the loop of `per_import_totals`, with the diagnostics so far. -/
def addImport (acc : PerImportTotals × List ImportDiagnostic) (sized : SizedImport) :
    PerImportTotals × List ImportDiagnostic :=
  let specifier := "specifier: " ++ sized.specifier
  match sized.result with
  | none =>
      ({ acc.1 with missingInputs := true },
        acc.2 ++ [⟨"file_size_fallback",
          "import size is still being measured, so it is not counted in this file's " ++
            "conservative total", [specifier]⟩])
  | some result =>
      match result.sizes with
      | none =>
          let stage := result.unmeasuredStage.getD "file_size_fallback"
          let detail :=
            if Stage.isTransient stage then
              "this import's own build failed transiently, so its bytes are unknown for this " ++
                "run and the file's total is a floor"
            else
              "this import could not be measured, so its bytes are missing from the file's " ++
                "total, which is a floor"
          ({ acc.1 with missingInputs := true },
            acc.2 ++ [⟨stage, result.error.getD "import could not be measured",
              [specifier, detail]⟩])
      | some sizes =>
          let disclosed := result.diagnostics.filter fun diagnostic =>
            Stage.marksAFloor diagnostic.stage
          ({ sizedAny := true
             missingInputs := acc.1.missingInputs || result.isFloor
             sizes := acc.1.sizes.add sizes
             assetBreakdown :=
              absorbAssetBreakdownInto acc.1.assetBreakdown result.assetBreakdown },
            acc.2 ++ if result.isFloor then disclosed.map fun disclosure =>
              ⟨disclosure.stage, disclosure.message, specifier :: disclosure.details⟩ else [])

def perImportTotals (sized : List SizedImport) (diagnostics : List ImportDiagnostic) :
    PerImportTotals × List ImportDiagnostic :=
  sized.foldl addImport ({}, diagnostics)

/-- The bytes of a fallback never reach the totals without its missing-input flag.
The second component says whether it contributed anything. -/
def FileSizeComputation.absorbFallback (totals : FileSizeComputation)
    (fallback : PerImportTotals) : FileSizeComputation × Bool :=
  let totals := { totals with incomplete := totals.incomplete || fallback.missingInputs }
  if !fallback.sizedAny then (totals, false)
  else
    ({ totals with
        sizes := totals.sizes.add fallback.sizes
        assetBreakdown := absorbAssetBreakdownInto totals.assetBreakdown
          fallback.assetBreakdown }, true)

/-! ### Sorting the imports into runtime groups -/

structure RuntimeGroup where
  entries : List BundleEntry := []
  sized : List SizedImport := []
  deriving DecidableEq, Repr

/-- The map of the source from runtimes to groups.  A group is made by the import
it is made for, so the absent groups are the empty ones. -/
abbrev Groups : Type := ImportRuntime → RuntimeGroup

def Groups.push (groups : Groups) (runtime : ImportRuntime) (entry : BundleEntry)
    (sized : SizedImport) : Groups :=
  Function.update groups runtime
    { entries := (groups runtime).entries ++ [entry], sized := (groups runtime).sized ++ [sized] }

def Groups.present (groups : Groups) : List (ImportRuntime × RuntimeGroup) :=
  ([ImportRuntime.component, .client, .server].map fun runtime =>
    (runtime, groups runtime)).filter fun group => !group.2.sized.isEmpty

/-- What the first loop has gathered. -/
structure Sorted where
  totals : FileSizeComputation := {}
  diagnostics : List ImportDiagnostic := []
  groups : Groups := fun _ => {}

def bundleEntry (request : ImportRequest) (resolved : ResolvedPackage) : BundleEntry :=
  ⟨resolved.entryPath, resolved.packageRoot, engineSelection request⟩

def Sorted.report (acc : Sorted) (stage message : String) (sized : SizedImport) : Sorted :=
  { acc with
    diagnostics := acc.diagnostics ++ [⟨stage, message, ["specifier: " ++ sized.specifier]⟩] }

def Sorted.missing (acc : Sorted) : Sorted :=
  { acc with totals := { acc.totals with incomplete := true } }

def sortImport (stages : Stages) (acc : Sorted) (sized : SizedImport) : Sorted :=
  match sized.package with
  | .notInstalled =>
      acc.missing.report "package_resolution"
        ("package is not installed, so its bytes are missing from this file's total, " ++
          "which is a floor") sized
  | .pathAlias =>
      acc.report "path_alias"
        ("specifier is a path alias resolving to first-party source, not an installed " ++
          "package; Import Lens measures third-party imports, so it contributes no bytes " ++
          "to this file's total") sized
  | .installed request =>
      match stages.resolvePackageEntry request with
      | .ok resolved =>
          { acc with
            groups := acc.groups.push request.runtime (bundleEntry request resolved) sized }
      | .error error =>
          if sized.result.any ImportResult.isTypesOnly then
            acc.report "types_only"
              ("package contains declarations only; it contributes zero runtime bytes to this " ++
                "file, which is a measurement and not a gap") sized
          else if sized.result.any ImportResult.isNativeBinaryOnly then
            acc.report "native_binary_only"
              ("package ships only a native binary; it contributes zero runtime bytes to this " ++
                "file, which is a measurement and not a gap") sized
          else acc.missing.report "entry_resolution" error sized

def sortImports (stages : Stages) (imports : List SizedImport) : Sorted :=
  imports.foldl (sortImport stages) {}

/-! ### Summing the runtime groups -/

/-- What the second loop has gathered. -/
structure Summed where
  totals : FileSizeComputation
  diagnostics : List ImportDiagnostic
  anySized : Bool := false
  deriving DecidableEq, Repr

def Summed.extend (acc : Summed) (diagnostics : List ImportDiagnostic) : Summed :=
  { acc with diagnostics := acc.diagnostics ++ diagnostics }

def Summed.degrade (acc : Summed) (group : RuntimeGroup) (diagnostic : ImportDiagnostic) :
    Summed :=
  let fallback := perImportTotals group.sized (acc.diagnostics ++ [diagnostic])
  let absorbed := { acc.totals with degraded := true }.absorbFallback fallback.1
  { totals := absorbed.1
    diagnostics := fallback.2
    anySized := acc.anySized || absorbed.2 }

def FileSizeComputation.absorbCombined (totals : FileSizeComputation) (stages : Stages)
    (artifact : BundleArtifact) (minified : String) (compressed : CompressionSizes)
    (assets : ProcessedAssets) : FileSizeComputation where
  sizes := totals.sizes.add
    (MeasuredSizes.add ⟨artifact.code.utf8ByteSize, minified.utf8ByteSize, compressed.gzipBytes,
      compressed.brotliBytes, compressed.zstdBytes⟩ assets.total)
  assetBreakdown := absorbAssetBreakdownInto totals.assetBreakdown assets.contributions
  incomplete := totals.incomplete || (!artifact.emittedAssets.isEmpty ||
    assets.hasUncountedAssets ||
      artifact.diagnostics.any fun diagnostic => Stage.marksAFloor diagnostic.stage)
  degraded := totals.degraded
  error := totals.error
  diagnostics := totals.diagnostics
  dependencyFingerprints := totals.dependencyFingerprints ++ artifact.readTimeFingerprints ++
    assets.freshnessFingerprints ++
    (stages.firstPartyManifests artifact.loadedPaths).filterMap stages.fileFingerprintReadingHash ++
    artifact.unhashedPaths.map fun path =>
      unverifiableFileFingerprint (stages.normalizeIdentityPath path)

def RuntimeGroup.request (group : RuntimeGroup) (runtime : ImportRuntime) : BundleRequest :=
  ⟨group.entries, runtime, .fileSize⟩

def sizeGroup (stages : Stages) (acc : Summed) : ImportRuntime × RuntimeGroup → Summed
  | (runtime, group) =>
      match stages.bundleSync (group.request runtime) with
      | .error failure =>
          (acc.extend (failure.diagnostics.map EngineDiagnostic.relabel)).degrade group
            ⟨failure.stage, failure.message,
              ["combined file-size build failed for this runtime; its totals are " ++
                "conservative per-import sums without shared-module deduplication"]⟩
      | .ok artifact =>
          let acc := acc.extend (artifact.diagnostics.map EngineDiagnostic.relabel)
          match stages.minify runtime artifact.code with
          | .error error =>
              acc.degrade group ⟨"minify", error,
                ["minification failed for this runtime; its totals are conservative " ++
                  "per-import sums without shared-module deduplication"]⟩
          | .ok minified =>
              match stages.compress runtime minified with
              | .error error =>
                  acc.degrade group ⟨"compression", error,
                    ["compression failed for this runtime; its totals are conservative " ++
                      "per-import sums without shared-module deduplication"]⟩
              | .ok compressed =>
                  match stages.processAssetsBounded runtime artifact.assets
                      artifact.graphSourceBytes artifact.loadedPaths with
                  | .error failure =>
                      acc.degrade group ⟨failure.stage, failure.message,
                        ["asset processing failed for this runtime; its totals are conservative " ++
                          "per-import sums without shared-module or shared-asset deduplication"]⟩
                  | .ok assets =>
                      { totals := acc.totals.absorbCombined stages artifact minified compressed
                          assets
                        diagnostics := acc.diagnostics ++ assetDiagnostics assets
                        anySized := true }

def errorComputation (totals : FileSizeComputation) (stage message : String)
    (diagnostics : List ImportDiagnostic) : FileSizeComputation :=
  { error := some message
    diagnostics := diagnostics ++ [⟨stage, message, []⟩]
    incomplete := totals.incomplete
    degraded := totals.degraded }

def computeFileSizeWith (stages : Stages) (imports : List SizedImport) : FileSizeComputation :=
  let sorted := sortImports stages imports
  if sorted.groups.present.isEmpty then { sorted.totals with diagnostics := sorted.diagnostics }
  else
    let summed := sorted.groups.present.foldl (sizeGroup stages)
      { totals := sorted.totals, diagnostics := sorted.diagnostics }
    if !summed.anySized then
      errorComputation summed.totals "file_size_fallback" "no import could be sized conservatively"
        summed.diagnostics
    else
      { summed.totals with
        diagnostics := summed.diagnostics
        error := none
        dependencyFingerprints := sortAndDedupFingerprints summed.totals.dependencyFingerprints }

end ImportLens.Pipeline.FileSize
