import ImportLens.Pipeline.AssetFailures
import ImportLens.Support.SortedDedup

/-!
# Counting the assets of a build

The stylesheets of a build are bundled and compressed as one artifact, or one by one
when the union fails; then every wasm, font and image file is compressed on its own,
those a stylesheet refers to among them.  What cannot be counted is listed with its raw
size.

The bundler, the compressors and the deadline answer as they like, and the ledger may go
through any states in which a failure stays once it is recorded.
-/

namespace ImportLens.Pipeline.AssetCounting

open ImportLens.Daemon ImportLens.Cache ImportLens.Support AssetBudget
open FileSize (CompressionSizes)

/-! ## The ledger of a run -/

structure Trail where
  ledger : BudgetState
  /-- History: the states the ledger has been in, the last one first. -/
  past : List BudgetState := []

def Trail.states (t : Trail) : List BudgetState := t.ledger :: t.past

def Trail.advance (t : Trail) (next : BudgetState) : Trail := ⟨next, t.ledger :: t.past⟩

def Trail.failure (t : Trail) : Option AssetBudgetFailure := AssetBudget.failure t.ledger

def checkDeadline (expired : Bool) : Section Trail Fault Unit := fun t =>
  ((checkAvailable expired t.ledger).1, t.advance (checkAvailable expired t.ledger).2)

/-- `error.to_string()`.  No check of the deadline fails with the system's own error. -/
def faultText : Fault → String
  | .other message | .timedOut message | .panicked message => message
  | .file _ => ""

/-! ## What the stage meets -/

structure CssDependencyFailure where
  path : String
  rawBytes : Nat
  message : String
  deriving DecidableEq, Repr

structure CssBundle where
  rawBytes : Bytes
  minifiedBytes : Bytes
  referencedAssets : List CollectedAsset := []
  referencedFailures : List CssDependencyFailure := []
  referencedUncounted : List UncountedAsset := []
  dependencyOmissions : List String := []
  dependencyExternal : List String := []
  deriving DecidableEq

structure CssProcessingError where
  message : String
  nonDurableStages : List String
  deriving DecidableEq, Repr

def CssProcessingError.fromTransform (message : String) : CssProcessingError := ⟨message, []⟩

def CssProcessingError.fromCompression (message : String) : CssProcessingError :=
  ⟨message, ["compression"]⟩

/-- The artifacts the stage attempts, each at most once. -/
inductive Attempt
  /-- All stylesheets in one. -/
  | union
  /-- One stylesheet of a union that failed. -/
  | sheet (path : String)
  /-- A wasm, font or image file. -/
  | file (path : String)
  deriving DecidableEq, Repr

structure Surroundings where
  /-- `bundle_with`, for the entries of the attempt. -/
  bundleWith : Attempt → List CollectedAsset → Except String CssBundle
  compress : Attempt → Bytes → Except String CompressionSizes
  /-- What the deadline says before the attempt is compressed and after it. -/
  expiredBefore : Attempt → Bool
  expiredAfter : Attempt → Bool
  /-- The states the ledger goes through while the bundler reads. -/
  reads : Attempt → BudgetState → List BudgetState
  reads_later : ∀ attempt state, (state :: reads attempt state).IsChain Later

/-! ## What is counted -/

structure Artifact where
  /-- The collected files that ship as this artifact. -/
  paths : List String
  sizes : MeasuredSizes
  deriving DecidableEq, Repr

/-- History: the artifacts behind one contribution. -/
structure Row where
  kind : AssetKind
  artifacts : List Artifact
  deriving DecidableEq, Repr

def Row.paths (row : Row) : List String := row.artifacts.flatMap Artifact.paths

def contributionOf (kind : AssetKind) (sizes : MeasuredSizes) : AssetContribution where
  kind := kind
  rawBytes := sizes.rawBytes
  minifiedBytes := sizes.minifiedBytes
  gzipBytes := sizes.gzipBytes
  brotliBytes := sizes.brotliBytes
  zstdBytes := sizes.zstdBytes

def Row.contribution (row : Row) : AssetContribution :=
  contributionOf row.kind
    (row.artifacts.foldl (fun total artifact => total.add artifact.sizes) .zero)

structure Processing where
  processed : ProcessedAssets := {}
  rows : List Row := []
  deriving DecidableEq, Repr

def Processing.counted (p : Processing) : List String := p.rows.flatMap Row.paths

def Processing.listed (p : Processing) : List String :=
  p.processed.uncounted.map UncountedAsset.path

def uncountedOf (asset : CollectedAsset) : UncountedAsset := ⟨asset.path, asset.bytes.length⟩

/-- `extend` and `insert` of a `BTreeSet`; the compression stage is the only member there is. -/
def addStages (stages more : List String) : List String :=
  more.foldl (fun all stage => all.insert stage) stages

/-! ## Stylesheets -/

section

variable (s : Surroundings)

/-- `bundle_collected_css_set` and, for one entry, `bundle_collected_css`. -/
def bundleCollectedCss (attempt : Attempt) (entries : List CollectedAsset) :
    Section Trail CssProcessingError CssBundle := fun t =>
  if entries.isEmpty then (.error (.fromTransform "no stylesheets to bundle"), t)
  else
    ((s.bundleWith attempt entries).mapError .fromTransform,
      (s.reads attempt t.ledger).foldl Trail.advance t)

def deadlineError (check : Section Trail Fault Unit) : Section Trail CssProcessingError Unit :=
  fun t => ((check t).1.mapError fun fault => .fromTransform (faultText fault), (check t).2)

def compressBundle (attempt : Attempt) (bundle : CssBundle) :
    Section Trail CssProcessingError (CssBundle × CompressionSizes) := do
  deadlineError (checkDeadline (s.expiredBefore attempt))
  match s.compress attempt bundle.minifiedBytes with
  | .ok compressed =>
      deadlineError (checkDeadline (s.expiredAfter attempt))
      pure (bundle, compressed)
  | .error error =>
      Section.fail (.fromCompression ("failed to compress the bundled stylesheet: " ++ error))

def measure (attempt : Attempt) (entries : List CollectedAsset) :
    Section Trail CssProcessingError (CssBundle × CompressionSizes) := do
  let bundle ← bundleCollectedCss s attempt entries
  compressBundle s attempt bundle

structure CountedSheets where
  /-- History: the entries that are in the bundle. -/
  paths : List String
  bundle : CssBundle
  compressed : CompressionSizes
  deriving DecidableEq

def CountedSheets.sizes (sheets : CountedSheets) : MeasuredSizes where
  rawBytes := sheets.bundle.rawBytes.length
  minifiedBytes := sheets.bundle.minifiedBytes.length
  gzipBytes := sheets.compressed.gzipBytes
  brotliBytes := sheets.compressed.brotliBytes
  zstdBytes := sheets.compressed.zstdBytes

structure StylesheetOutcome where
  counted : List CountedSheets := []
  failures : List String := []
  uncounted : List UncountedAsset := []
  nonDurableStages : List String := []
  degraded : Option String := none
  deriving DecidableEq

def mayRetryStylesheetsSeparately (error : CssProcessingError) : Bool :=
  !error.nonDurableStages.contains "compression"

def retrySheets : List CollectedAsset → StylesheetOutcome → Trail → StylesheetOutcome × Trail
  | [], outcome, t => (outcome, t)
  | entry :: entries, outcome, t =>
      if t.failure.isSome then (outcome, t)
      else
        match measure s (.sheet entry.path) [entry] t with
        | (.ok (bundle, compressed), t) =>
            retrySheets entries
              { outcome with
                counted := outcome.counted ++ [⟨[entry.path], bundle, compressed⟩] } t
        | (.error error, t) =>
            retrySheets entries
              { outcome with
                failures := outcome.failures ++ [error.message]
                nonDurableStages := addStages outcome.nonDurableStages error.nonDurableStages
                uncounted := outcome.uncounted ++ [uncountedOf entry] } t

/-- The union of the stylesheets or, when it fails for a reason of its own, each sheet
by itself. -/
def bundleStylesheets (entries : List CollectedAsset) :
    Section Trail CssProcessingError StylesheetOutcome := fun t =>
  match measure s .union entries t with
  | (.ok (bundle, compressed), t) =>
      (.ok { counted := [⟨entries.map fun entry => entry.path, bundle, compressed⟩] }, t)
  | (.error unionError, t) =>
      if t.failure.isSome then (.error unionError, t)
      else if !mayRetryStylesheetsSeparately unionError then (.error unionError, t)
      else if entries.length = 1 then (.error unionError, t)
      else
        let (outcome, t) := retrySheets s entries
          { nonDurableStages := unionError.nonDurableStages } t
        if outcome.counted.isEmpty then
          (.error ⟨unionError.message, outcome.nonDurableStages⟩, t)
        else (.ok { outcome with degraded := some unionError.message }, t)

def discloseBundle (processed : ProcessedAssets) (bundle : CssBundle) : ProcessedAssets :=
  { processed with
    failures := processed.failures ++
      (bundle.referencedFailures.map fun failure => failure.message) ++
      bundle.referencedUncounted.map fun asset =>
        "CSS resource " ++ asset.path ++
          " is not a counted asset kind, so its bytes are disclosed " ++
          "rather than included"
    uncounted := processed.uncounted ++
      (bundle.referencedFailures.map fun failure => ⟨failure.path, failure.rawBytes⟩) ++
      bundle.referencedUncounted
    cssDependencyOmissions := processed.cssDependencyOmissions ++ bundle.dependencyOmissions
    cssDependencyExternal := processed.cssDependencyExternal ++ bundle.dependencyExternal }

def CssBundle.disclosed (bundle : CssBundle) : List String :=
  (bundle.referencedFailures.map fun failure => failure.path) ++
    bundle.referencedUncounted.map UncountedAsset.path

def settleCounted (outcome : StylesheetOutcome) (p : Processing) : Processing :=
  let processed := { p.processed with
    nonDurableStages := addStages p.processed.nonDurableStages outcome.nonDurableStages
    failures := p.processed.failures ++ outcome.failures
    uncounted := p.processed.uncounted ++ outcome.uncounted
    stylesheetsMeasuredSeparately := outcome.degraded }
  let processed :=
    outcome.counted.foldl (fun all sheets => discloseBundle all sheets.bundle) processed
  let css := outcome.counted.foldl (fun total sheets => total.add sheets.sizes) .zero
  { processed := { processed with
      contributions := processed.contributions ++ [contributionOf .css css] }
    rows := p.rows ++ [⟨.css, outcome.counted.map fun sheets => ⟨sheets.paths, sheets.sizes⟩⟩] }

def settleFailed (entries : List CollectedAsset) (error : CssProcessingError) (p : Processing) :
    Processing :=
  { p with
    processed := { p.processed with
      nonDurableStages := addStages p.processed.nonDurableStages error.nonDurableStages
      failures := p.processed.failures ++ [error.message]
      uncounted := p.processed.uncounted ++ entries.map uncountedOf } }

def cssEntries (assets : List CollectedAsset) : List CollectedAsset :=
  assets.filter fun asset => asset.kind == .css

def processStylesheets (assets : List CollectedAsset) (p : Processing) (t : Trail) :
    List CollectedAsset × Processing × Trail :=
  if (cssEntries assets).isEmpty then ([], p, t)
  else
    let (bundled, t) := bundleStylesheets s (cssEntries assets) t
    if t.failure.isSome then ([], p, t)
    else
      match bundled with
      | .ok outcome =>
          (outcome.counted.flatMap fun sheets => sheets.bundle.referencedAssets,
            settleCounted outcome p, t)
      | .error error => ([], settleFailed (cssEntries assets) error p, t)

/-! ## Binary files -/

def binaryKinds : List AssetKind := [.wasm, .font, .image]

def assetsByPath (assets referenced : List CollectedAsset) : List CollectedAsset :=
  let collected : Keyed String CollectedAsset :=
    Keyed.insertAll (assets.map fun asset => (asset.path, asset)) ∅
  let all := referenced.foldl (fun all asset => all.orInsert asset.path asset) collected
  (all.rows.map Prod.snd).mergeSort fun a b => (compare a.path b.path).isLE

structure Tally where
  sizes : MeasuredSizes := .zero
  counted : Bool := false
  processed : ProcessedAssets
  /-- History: the artifacts that are in the sizes. -/
  artifacts : List Artifact := []

def fileSizes (asset : CollectedAsset) (compressed : CompressionSizes) : MeasuredSizes where
  rawBytes := asset.bytes.length
  minifiedBytes := asset.bytes.length
  gzipBytes := compressed.gzipBytes
  brotliBytes := compressed.brotliBytes
  zstdBytes := compressed.zstdBytes

def Tally.take (tally : Tally) (asset : CollectedAsset) : Tally :=
  match s.compress (.file asset.path) asset.bytes with
  | .ok compressed =>
      { tally with
        sizes := tally.sizes.add (fileSizes asset compressed)
        counted := true
        artifacts := tally.artifacts ++ [⟨[asset.path], fileSizes asset compressed⟩] }
  | .error error =>
      { tally with
        processed := { tally.processed with
          nonDurableStages := tally.processed.nonDurableStages.insert "compression"
          failures := tally.processed.failures ++
            ["failed to compress " ++ asset.path ++ ": " ++ error]
          uncounted := tally.processed.uncounted ++ [uncountedOf asset] } }

/-- The loop over the files of one kind; `false` when the deadline ended it early. -/
def measureFiles : List CollectedAsset → Tally → Trail → Bool × Tally × Trail
  | [], tally, t => (true, tally, t)
  | asset :: assets, tally, t =>
      match checkDeadline (s.expiredBefore (.file asset.path)) t with
      | (.error _, t) => (false, tally, t)
      | (.ok _, t) =>
          let tally := tally.take s asset
          match checkDeadline (s.expiredAfter (.file asset.path)) t with
          | (.error _, t) => (false, tally, t)
          | (.ok _, t) => measureFiles assets tally t

def processBinaryKind (assets : List CollectedAsset) (kind : AssetKind) (p : Processing)
    (t : Trail) : Processing × Trail :=
  let (finished, tally, t) := measureFiles s (assets.filter fun asset => asset.kind == kind)
    { processed := p.processed } t
  if finished && tally.counted then
    ({ processed := { tally.processed with
        contributions := tally.processed.contributions ++ [contributionOf kind tally.sizes] }
       rows := p.rows ++ [⟨kind, tally.artifacts⟩] }, t)
  else ({ p with processed := tally.processed }, t)

/-! ## The stage -/

def countAssets (assets : List CollectedAsset) (p : Processing) (t : Trail) : Processing × Trail :=
  let (referenced, p, t) := processStylesheets s assets p t
  if t.failure.isSome then (p, t)
  else
    binaryKinds.foldl (fun (p, t) kind =>
      processBinaryKind s (assetsByPath assets referenced) kind p t) (p, t)

def discloseBudgetBreach (assets : List CollectedAsset) (failure : AssetBudgetFailure) :
    ProcessedAssets :=
  { readTimeFingerprints := failure.readTimeFingerprints
    failures := [failure.message]
    uncountedTotalIsFloor := true
    uncounted := assets.map uncountedOf
    cssDependencyOmissions :=
      if assets.isEmpty then
        ["asset processing stopped at its resource limit, so bytes it had not reached are not " ++
          "in this size"]
      else [] }

def kindRank : AssetKind → Nat
  | .css => 0
  | .wasm => 1
  | .font => 2
  | .image => 3

def processAssets (assets : List CollectedAsset) (t : Trail) :
    Except AssetBudgetFailure Processing × Trail :=
  let (p, t) := if t.failure.isNone then countAssets s assets {} t else ({}, t)
  match t.failure with
  | none =>
      (.ok { p with
        processed := { p.processed with
          readTimeFingerprints := normalizedObservations t.ledger.fingerprints
          contributions :=
            sortByKey (fun row => kindRank row.kind) p.processed.contributions } }, t)
  | some failed =>
      if failed.stage = .timeout then (.error failed, t)
      else (.ok { processed := discloseBudgetBreach assets failed }, t)

end

/-! ## Trails -/

/-- The present state follows every earlier one. -/
def Trail.Coherent (t : Trail) : Prop := ∀ state ∈ t.past, Later state t.ledger

structure Leads (t next : Trail) : Prop where
  later : Later t.ledger next.ledger
  coherent : t.Coherent → next.Coherent

namespace Leads

theorem refl (t : Trail) : Leads t t := ⟨.refl _, id⟩

theorem trans {a b c : Trail} (hab : Leads a b) (hbc : Leads b c) : Leads a c :=
  ⟨hab.later.trans hbc.later, fun ha => hbc.coherent (hab.coherent ha)⟩

theorem clear {t next : Trail} (h : Leads t next) (hnext : next.failure = none) :
    t.failure = none := h.later.clear hnext

end Leads

theorem leads_advance {t : Trail} {next : BudgetState} (h : Later t.ledger next) :
    Leads t (t.advance next) := by
  refine ⟨h, fun ht state hmem => ?_⟩
  rcases List.mem_cons.mp hmem with rfl | hpast
  · exact h
  · exact (ht state hpast).trans h

theorem leads_foldl_advance {states : List BudgetState} {t : Trail}
    (h : (t.ledger :: states).IsChain Later) : Leads t (states.foldl Trail.advance t) := by
  induction states generalizing t with
  | nil => exact .refl t
  | cons next states ih =>
    rw [List.isChain_cons_cons] at h
    exact (leads_advance h.1).trans (ih h.2)

theorem leads_checkDeadline (expired : Bool) : Section.Frame Leads (checkDeadline expired) :=
  fun t => leads_advance (later_checkAvailable expired t.ledger)

theorem checkDeadline_error {expired : Bool} {t next : Trail} {fault : Fault}
    (h : checkDeadline expired t = (.error fault, next)) : next.failure ≠ none := by
  cases h' : checkAvailable expired t.ledger with
  | mk outcome state =>
    rw [checkDeadline, h'] at h
    cases h
    exact checkAvailable_error h'

/-- A relation between trails that every check of the deadline and every read keeps. -/
structure Passes (s : Surroundings) (R : Trail → Trail → Prop) : Prop where
  refl : ∀ t, R t t
  trans : ∀ a b c, R a b → R b c → R a c
  before : ∀ attempt, Section.Frame R (checkDeadline (s.expiredBefore attempt))
  after : ∀ attempt, Section.Frame R (checkDeadline (s.expiredAfter attempt))
  reads : ∀ attempt t, R t ((s.reads attempt t.ledger).foldl Trail.advance t)

section

variable {s : Surroundings} {R : Trail → Trail → Prop} (hR : Passes s R)

include hR

theorem frame_bundleCollectedCss (attempt : Attempt) (entries : List CollectedAsset) :
    Section.Frame R (bundleCollectedCss s attempt entries) := by
  intro t
  unfold bundleCollectedCss
  split
  · exact hR.refl t
  · exact hR.reads attempt t

theorem frame_compressBundle (attempt : Attempt) (bundle : CssBundle) :
    Section.Frame R (compressBundle s attempt bundle) := by
  have hbefore : Section.Frame R (deadlineError (checkDeadline (s.expiredBefore attempt))) :=
    fun t => hR.before attempt t
  have hafter : Section.Frame R (deadlineError (checkDeadline (s.expiredAfter attempt))) :=
    fun t => hR.after attempt t
  refine .bind hR.trans hbefore fun _ => ?_
  split
  · exact .bind hR.trans hafter fun _ => .pure hR.refl _
  · exact .fail hR.refl _

theorem frame_measure (attempt : Attempt) (entries : List CollectedAsset) :
    Section.Frame R (measure s attempt entries) :=
  .bind hR.trans (frame_bundleCollectedCss hR attempt entries) (frame_compressBundle hR attempt)

theorem frame_retrySheets (entries : List CollectedAsset) (outcome : StylesheetOutcome)
    (t : Trail) : R t (retrySheets s entries outcome t).2 := by
  induction entries generalizing outcome t with
  | nil => exact hR.refl t
  | cons entry entries ih =>
    have hone := frame_measure hR (.sheet entry.path) [entry] t
    rw [retrySheets]
    split
    · exact hR.refl t
    · split
      · rename_i heq
        rw [heq] at hone
        exact hR.trans _ _ _ hone (ih _ _)
      · rename_i heq
        rw [heq] at hone
        exact hR.trans _ _ _ hone (ih _ _)

theorem frame_bundleStylesheets (entries : List CollectedAsset) :
    Section.Frame R (bundleStylesheets s entries) := by
  intro t
  have hunion := frame_measure hR .union entries t
  unfold bundleStylesheets
  split
  · rename_i heq
    rw [heq] at hunion
    exact hunion
  · rename_i unionError next heq
    rw [heq] at hunion
    split
    · exact hunion
    split
    · exact hunion
    split
    · exact hunion
    · have hretry := frame_retrySheets hR entries
        { nonDurableStages := unionError.nonDurableStages } next
      dsimp only
      split
      · exact hR.trans _ _ _ hunion hretry
      · exact hR.trans _ _ _ hunion hretry

theorem frame_processStylesheets (assets : List CollectedAsset) (p : Processing) (t : Trail) :
    R t (processStylesheets s assets p t).2.2 := by
  have hbundled := frame_bundleStylesheets hR (cssEntries assets) t
  unfold processStylesheets
  split
  · exact hR.refl t
  · dsimp only
    split
    · exact hbundled
    · split
      · exact hbundled
      · exact hbundled

theorem frame_measureFiles (assets : List CollectedAsset) (tally : Tally) (t : Trail) :
    R t (measureFiles s assets tally t).2.2 := by
  induction assets generalizing tally t with
  | nil => exact hR.refl t
  | cons asset assets ih =>
    have hbefore := hR.before (.file asset.path) t
    rw [measureFiles]
    split
    · rename_i heq
      rw [heq] at hbefore
      exact hbefore
    · rename_i next heq
      rw [heq] at hbefore
      have hafter := hR.after (.file asset.path) next
      dsimp only
      split
      · rename_i heq'
        rw [heq'] at hafter
        exact hR.trans _ _ _ hbefore hafter
      · rename_i heq'
        rw [heq'] at hafter
        exact hR.trans _ _ _ (hR.trans _ _ _ hbefore hafter) (ih _ _)

theorem frame_processBinaryKind (assets : List CollectedAsset) (kind : AssetKind)
    (p : Processing) (t : Trail) : R t (processBinaryKind s assets kind p t).2 := by
  have hfiles := frame_measureFiles hR (assets.filter fun asset => asset.kind == kind)
    { processed := p.processed } t
  unfold processBinaryKind
  dsimp only
  split
  · exact hfiles
  · exact hfiles

theorem frame_binaryKinds (all : List CollectedAsset) (kinds : List AssetKind) (p : Processing)
    (t : Trail) :
    R t (kinds.foldl (fun (p, t) kind => processBinaryKind s all kind p t) (p, t)).2 := by
  induction kinds generalizing p t with
  | nil => exact hR.refl t
  | cons kind kinds ih =>
    rw [List.foldl_cons]
    exact hR.trans _ _ _ (frame_processBinaryKind hR all kind p t) (ih _ _)

theorem frame_countAssets (assets : List CollectedAsset) (p : Processing) (t : Trail) :
    R t (countAssets s assets p t).2 := by
  have hsheets := frame_processStylesheets hR assets p t
  unfold countAssets
  dsimp only
  split
  · exact hsheets
  · exact hR.trans _ _ _ hsheets (frame_binaryKinds hR _ _ _ _)

theorem frame_processAssets (assets : List CollectedAsset) (t : Trail) :
    R t (processAssets s assets t).2 := by
  have hcount : R t (if t.failure.isNone = true then countAssets s assets {} t else ({}, t)).2 := by
    split
    · exact frame_countAssets hR assets {} t
    · exact hR.refl t
  unfold processAssets
  generalize (if t.failure.isNone = true then countAssets s assets {} t else ({}, t)) = run
    at hcount ⊢
  dsimp only
  split
  · exact hcount
  · split
    · exact hcount
    · exact hcount

end

theorem leads_passes (s : Surroundings) : Passes s Leads where
  refl := .refl
  trans _ _ _ := .trans
  before _ := leads_checkDeadline _
  after _ := leads_checkDeadline _
  reads attempt t := leads_foldl_advance (s.reads_later attempt t.ledger)

end ImportLens.Pipeline.AssetCounting
