import ImportLens.Cache.Key
import ImportLens.Support.PosixPath

/-!
# Processed assets

What the asset stage makes of the non-JavaScript modules of one build: the
counted weight of each kind, the assets it could not count, and the disclosures
both owe the user.
-/

namespace ImportLens.Pipeline

open ImportLens.Daemon ImportLens.Cache ImportLens.Support

/-! ## Asset classes -/

inductive AssetClass
  | counted (kind : AssetKind)
  | unmeasured
  deriving DecidableEq, Repr

def classifyAssetClass (path : String) : Option AssetClass :=
  (PosixPath.extension path).bind fun extension =>
    let extension := String.ofList (extension.map Char.toLower)
    if extension ∈ ["css", "scss", "sass", "less", "styl", "stylus", "pcss", "postcss"] then
      some (.counted .css)
    else if extension = "wasm" then some (.counted .wasm)
    else if extension ∈ ["woff", "woff2", "ttf", "otf", "eot"] then some (.counted .font)
    else if extension ∈ ["png", "jpg", "jpeg", "gif", "svg", "webp", "avif", "ico", "bmp"] then
      some (.counted .image)
    else if extension ∈ ["mp4", "webm", "mp3", "wav", "ogg", "node"] then some .unmeasured
    else none

/-! ## Uncounted assets -/

structure UncountedAsset where
  path : String
  bytes : Nat
  deriving DecidableEq, Repr

def uncountedAssetsMessage (assets : List UncountedAsset) (totalIsFloor : Bool) : String :=
  let disclosedBytes := (assets.map UncountedAsset.bytes).sum
  let total :=
    if !totalIsFloor && assets.all fun asset => 0 < asset.bytes then
      "totalling " ++ toString disclosedBytes ++ " bytes"
    else if 0 < disclosedBytes then
      "totalling at least " ++ toString disclosedBytes ++ " bytes"
    else "of unknown size"
  let names := ", ".intercalate
    (assets.map fun asset => (PosixPath.fileName asset.path).getD asset.path)
  "package ships " ++ toString assets.length ++ " non-JavaScript asset(s) " ++ total ++
    " that this size does NOT include: " ++ names

/-! ## The outcome of the asset stage -/

structure ProcessedAssets where
  /-- One row for each kind that is present. -/
  contributions : List AssetContribution := []
  readTimeFingerprints : List FileFingerprint := []
  uncounted : List UncountedAsset := []
  failures : List String := []
  stylesheetsMeasuredSeparately : Option String := none
  cssDependencyOmissions : List String := []
  uncountedTotalIsFloor : Bool := false
  cssDependencyExternal : List String := []
  nonDurableStages : List String := []
  deriving DecidableEq, Repr

namespace ProcessedAssets

def total (assets : ProcessedAssets) : MeasuredSizes :=
  assets.contributions.foldl (fun total contribution => total.add contribution.sizes) .zero

def hasUncountedAssets (assets : ProcessedAssets) : Bool :=
  !assets.uncounted.isEmpty || !assets.cssDependencyOmissions.isEmpty

def freshnessFingerprints (assets : ProcessedAssets) : List FileFingerprint :=
  sortAndDedupFingerprints assets.readTimeFingerprints

def unreadableInputs (assets : ProcessedAssets) : List String :=
  (((assets.readTimeFingerprints.filter fingerprintIsUnverifiable).map
    FileFingerprint.path).mergeSort fun a b => (compare a b).isLE).eraseReps

end ProcessedAssets

/-! ## Disclosures -/

def disclosure (fires : Bool) (stage message : String) (details : List String) :
    Option ImportDiagnostic :=
  if fires then some ⟨stage, message, details⟩ else none

def uncountedAssetsDiagnostic (processed : ProcessedAssets) : Option ImportDiagnostic :=
  disclosure (!processed.uncounted.isEmpty) "uncounted_assets"
    (uncountedAssetsMessage processed.uncounted processed.uncountedTotalIsFloor)
    processed.failures

def impreciseAssetsDiagnostic (processed : ProcessedAssets) : Option ImportDiagnostic :=
  disclosure processed.stylesheetsMeasuredSeparately.isSome "imprecise_assets"
    ("the stylesheets could not be bundled as one artifact, so each was measured and " ++
      "compressed on its own: bytes two sheets share are counted once per sheet, and " ++
      "no sheet's compression can use what the others contain, so this size reads HIGH")
    processed.stylesheetsMeasuredSeparately.toList

def omittedCssResourcesDiagnostic (processed : ProcessedAssets) : Option ImportDiagnostic :=
  disclosure (!processed.cssDependencyOmissions.isEmpty) "uncounted_assets"
    ("the stylesheet was measured, but local resources it references could not be " ++
      "located or inspected, so this size does NOT include their shipped bytes")
    processed.cssDependencyOmissions

def externalCssResourcesDiagnostic (processed : ProcessedAssets) : Option ImportDiagnostic :=
  disclosure (!processed.cssDependencyExternal.isEmpty) "external"
    ("the stylesheet references resources fetched at runtime; they are real weight for " ++
      "the page but are not bytes this package ships, so this size excludes them")
    processed.cssDependencyExternal

def assetIoDiagnostic (processed : ProcessedAssets) : Option ImportDiagnostic :=
  disclosure (!processed.unreadableInputs.isEmpty) "asset_io"
    ("one or more asset inputs could not be read during this analysis; the result " ++
      "reflects a changing or unavailable filesystem and will not be reused")
    (processed.unreadableInputs.map fun path => "unreadable asset input: " ++ path)

def assetCompressionDiagnostic (processed : ProcessedAssets) : Option ImportDiagnostic :=
  disclosure (processed.nonDurableStages.contains "compression") "compression"
    ("an asset compressor failed during this analysis; the partial asset size is " ++
      "request-local and will not be reused")
    []

def assetDiagnostics (processed : ProcessedAssets) : List ImportDiagnostic :=
  [uncountedAssetsDiagnostic processed, impreciseAssetsDiagnostic processed,
    omittedCssResourcesDiagnostic processed, externalCssResourcesDiagnostic processed,
    assetIoDiagnostic processed, assetCompressionDiagnostic processed].filterMap id

theorem assetDiagnostics_marksAFloor (processed : ProcessedAssets) :
    ((assetDiagnostics processed).any fun diagnostic => Stage.marksAFloor diagnostic.stage) =
      processed.hasUncountedAssets := by
  have hmarks : Stage.marksAFloor "uncounted_assets" = true := by decide
  have hquiet : ∀ stage ∈ ["imprecise_assets", "external", "asset_io", "compression"],
      Stage.marksAFloor stage = false := by decide
  have hone : ∀ fires stage message details,
      (disclosure fires stage message details).any (fun d => Stage.marksAFloor d.stage) =
        (fires && Stage.marksAFloor stage) := by
    intro fires stage message details
    cases fires <;> rfl
  have hany : ∀ (ds : List (Option ImportDiagnostic)) (p : ImportDiagnostic → Bool),
      (ds.filterMap id).any p = ds.any fun d => d.any p := by
    intro ds p
    induction ds with
    | nil => rfl
    | cons d ds ih =>
        cases d with
        | none => simpa only [List.filterMap_cons_none (rfl : id none = none), List.any_cons,
            Option.any_none, Bool.false_or] using ih
        | some d => simp only [List.filterMap_cons_some (rfl : id (some d) = some d),
            List.any_cons, Option.any_some, ih]
  rw [assetDiagnostics, hany]
  simp only [List.any_cons, List.any_nil, uncountedAssetsDiagnostic, impreciseAssetsDiagnostic,
    omittedCssResourcesDiagnostic, externalCssResourcesDiagnostic, assetIoDiagnostic,
    assetCompressionDiagnostic, hone, hmarks, hquiet _ (by simp : "imprecise_assets" ∈ _),
    hquiet _ (by simp : "external" ∈ _), hquiet _ (by simp : "asset_io" ∈ _),
    hquiet _ (by simp : "compression" ∈ _), Bool.and_true, Bool.and_false, Bool.or_false,
    Bool.false_or, ProcessedAssets.hasUncountedAssets]

end ImportLens.Pipeline
