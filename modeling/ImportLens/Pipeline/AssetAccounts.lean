import ImportLens.Pipeline.AssetCounting

/-!
# The accounts of a run whose ledger stays clear

Such a run settles every asset on its own account, counted or listed once; what the
measured stylesheets list besides comes on top of that.
-/

namespace ImportLens.Pipeline.AssetCounting

open ImportLens.Daemon ImportLens.Cache ImportLens.Support AssetBudget
open FileSize (CompressionSizes)

/-! ## Runs in which the ledger stays clear -/

section

variable (s : Surroundings)

/-- A check of the deadline that leaves the ledger clear has passed. -/
theorem deadlineError_bind {β : Type} {f : Unit → Section Trail CssProcessingError β}
    {expired : Bool} {t : Trail}
    (h : ((deadlineError (checkDeadline expired) >>= f) t).2.failure = none) :
    ∃ next, (deadlineError (checkDeadline expired) >>= f) t = f () next := by
  cases hcheck : checkDeadline expired t with
  | mk outcome next =>
    cases outcome with
    | ok u =>
      have hone : deadlineError (checkDeadline expired) t = (.ok (), next) := by
        rw [deadlineError, hcheck]
        rfl
      exact ⟨next, Section.bind_ok hone⟩
    | error fault =>
      have hone : deadlineError (checkDeadline expired) t =
          (.error (.fromTransform (faultText fault)), next) := by
        rw [deadlineError, hcheck]
        rfl
      rw [Section.bind_error hone] at h
      exact absurd h (checkDeadline_error hcheck)

def Surroundings.attempted (attempt : Attempt) (entries : List CollectedAsset) :
    Except CssProcessingError (CssBundle × CompressionSizes) :=
  match s.bundleWith attempt entries with
  | .error message => .error (.fromTransform message)
  | .ok bundle =>
      match s.compress attempt bundle.minifiedBytes with
      | .ok compressed => .ok (bundle, compressed)
      | .error error =>
          .error (.fromCompression ("failed to compress the bundled stylesheet: " ++ error))

theorem compressBundle_clear {attempt : Attempt} {bundle : CssBundle} {t : Trail}
    (h : (compressBundle s attempt bundle t).2.failure = none) :
    (compressBundle s attempt bundle t).1 =
      match s.compress attempt bundle.minifiedBytes with
      | .ok compressed => .ok (bundle, compressed)
      | .error error =>
          .error (.fromCompression ("failed to compress the bundled stylesheet: " ++ error)) := by
  rw [compressBundle] at h ⊢
  cases hcompress : s.compress attempt bundle.minifiedBytes with
  | error error =>
    rw [hcompress] at h
    obtain ⟨next, heq⟩ := deadlineError_bind h
    exact congrArg Prod.fst heq
  | ok compressed =>
    rw [hcompress] at h
    obtain ⟨next, heq⟩ := deadlineError_bind h
    rw [heq] at h
    obtain ⟨last, heq'⟩ := deadlineError_bind h
    exact congrArg Prod.fst (heq.trans heq')

theorem measure_clear {attempt : Attempt} {entries : List CollectedAsset} {t : Trail}
    (hentries : entries ≠ []) (h : (measure s attempt entries t).2.failure = none) :
    (measure s attempt entries t).1 = s.attempted attempt entries := by
  have hbundle : bundleCollectedCss s attempt entries t =
      ((s.bundleWith attempt entries).mapError .fromTransform,
        (s.reads attempt t.ledger).foldl Trail.advance t) := by
    rw [bundleCollectedCss, if_neg (by simpa using hentries)]
  rw [Surroundings.attempted]
  cases hwith : s.bundleWith attempt entries with
  | error message =>
    rw [hwith] at hbundle
    rw [measure, Section.bind_error hbundle]
  | ok bundle =>
    rw [hwith] at hbundle
    rw [measure, Section.bind_ok hbundle] at h ⊢
    exact compressBundle_clear s h

def bundlesOf (entries : List CollectedAsset) : List CssBundle :=
  entries.filterMap fun entry =>
    match s.attempted (.sheet entry.path) [entry] with
    | .ok counted => some counted.1
    | .error _ => none

/-- The bundles that are counted when nothing stops the stage: the union or, after a
union that failed for a reason of its own, the sheets that can be measured. -/
def measuredBundles (assets : List CollectedAsset) : List CssBundle :=
  if (cssEntries assets).isEmpty then []
  else
    match s.attempted .union (cssEntries assets) with
    | .ok counted => [counted.1]
    | .error error =>
        if !mayRetryStylesheetsSeparately error then []
        else if (cssEntries assets).length = 1 then []
        else bundlesOf s (cssEntries assets)

theorem retrySheets_clear {entries : List CollectedAsset} {outcome : StylesheetOutcome}
    {t : Trail} (h : (retrySheets s entries outcome t).2.failure = none) :
    ((retrySheets s entries outcome t).1.counted.map CountedSheets.bundle =
      outcome.counted.map CountedSheets.bundle ++ bundlesOf s entries) ∧
    ∀ path, ((retrySheets s entries outcome t).1.counted.flatMap CountedSheets.paths).count path +
        ((retrySheets s entries outcome t).1.uncounted.map UncountedAsset.path).count path =
      (outcome.counted.flatMap CountedSheets.paths).count path +
        (outcome.uncounted.map UncountedAsset.path).count path +
        (entries.map fun entry => entry.path).count path := by
  induction entries generalizing outcome t with
  | nil =>
    rw [retrySheets]
    exact ⟨(List.append_nil _).symm, fun path => rfl⟩
  | cons entry entries ih =>
    have hclear : t.failure = none := (frame_retrySheets (leads_passes s) _ _ t).clear h
    have hmeasure : (measure s (.sheet entry.path) [entry] t).2.failure = none →
        (measure s (.sheet entry.path) [entry] t).1 = s.attempted (.sheet entry.path) [entry] :=
      measure_clear s (List.cons_ne_nil _ _)
    rw [retrySheets, if_neg (by rw [hclear]; exact Bool.false_ne_true)] at h ⊢
    cases hone : measure s (.sheet entry.path) [entry] t with
    | mk result next =>
      rw [hone] at h hmeasure
      cases result with
      | ok counted =>
        obtain ⟨hbundles, hcounts⟩ := ih h
        have hattempted := hmeasure ((frame_retrySheets (leads_passes s) _ _ next).clear h)
        refine ⟨?_, fun path => ?_⟩
        · dsimp only at hbundles ⊢
          rw [hbundles, bundlesOf, bundlesOf, List.filterMap_cons, ← hattempted]
          simp
        · have hpath := hcounts path
          simp only [List.flatMap_append, List.count_append, List.flatMap_cons, List.flatMap_nil,
            List.append_nil, List.map_cons, List.count_cons, List.count_nil] at hpath ⊢
          omega
      | error error =>
        obtain ⟨hbundles, hcounts⟩ := ih h
        have hattempted := hmeasure ((frame_retrySheets (leads_passes s) _ _ next).clear h)
        refine ⟨?_, fun path => ?_⟩
        · dsimp only at hbundles ⊢
          rw [hbundles, bundlesOf, bundlesOf, List.filterMap_cons, ← hattempted]
        · have hpath := hcounts path
          simp only [List.map_append, List.count_append, uncountedOf, List.map_nil,
            List.map_cons, List.count_cons, List.count_nil] at hpath ⊢
          omega

theorem bundleStylesheets_ok {assets : List CollectedAsset} {outcome : StylesheetOutcome}
    {t next : Trail} (hcss : (cssEntries assets).isEmpty = false)
    (h : bundleStylesheets s (cssEntries assets) t = (.ok outcome, next))
    (hclear : next.failure = none) :
    outcome.counted.map CountedSheets.bundle = measuredBundles s assets ∧
    ∀ path, (outcome.counted.flatMap CountedSheets.paths).count path +
        (outcome.uncounted.map UncountedAsset.path).count path =
      ((cssEntries assets).map fun entry => entry.path).count path := by
  have hentries : cssEntries assets ≠ [] := by simpa using hcss
  have hunion : (measure s .union (cssEntries assets) t).2.failure = none →
      (measure s .union (cssEntries assets) t).1 = s.attempted .union (cssEntries assets) :=
    measure_clear s hentries
  rw [bundleStylesheets] at h
  rw [measuredBundles, hcss]
  cases hone : measure s .union (cssEntries assets) t with
  | mk result middle =>
    rw [hone] at h hunion
    cases result with
    | ok counted =>
      cases h
      rw [← hunion hclear]
      refine ⟨rfl, fun path => ?_⟩
      simp
    | error error =>
      dsimp only at h
      split at h
      · cases h
      split at h
      · cases h
      split at h
      · cases h
      · rename_i hmiddle hretry hlength
        split at h
        · cases h
        · cases h
          obtain ⟨hbundles, hcounts⟩ := retrySheets_clear s hclear
          rw [← hunion (by simpa using hmiddle)]
          dsimp only
          rw [if_neg Bool.false_ne_true, if_neg hretry, if_neg hlength]
          refine ⟨by simpa using hbundles, fun path => ?_⟩
          simpa using hcounts path

theorem bundleStylesheets_error {assets : List CollectedAsset} {error : CssProcessingError}
    {t next : Trail} (hcss : (cssEntries assets).isEmpty = false)
    (h : bundleStylesheets s (cssEntries assets) t = (.error error, next))
    (hclear : next.failure = none) : measuredBundles s assets = [] := by
  have hentries : cssEntries assets ≠ [] := by simpa using hcss
  have hunion : (measure s .union (cssEntries assets) t).2.failure = none →
      (measure s .union (cssEntries assets) t).1 = s.attempted .union (cssEntries assets) :=
    measure_clear s hentries
  rw [bundleStylesheets] at h
  rw [measuredBundles, hcss, if_neg Bool.false_ne_true]
  cases hone : measure s .union (cssEntries assets) t with
  | mk result middle =>
    rw [hone] at h hunion
    cases result with
    | ok counted => cases h
    | error unionError =>
      dsimp only at h
      split at h
      · rename_i hfailed
        cases h
        rw [hclear] at hfailed
        cases hfailed
      split at h
      · rename_i hretry
        cases h
        rw [← hunion hclear]
        exact if_pos hretry
      split at h
      · rename_i hretry hlength
        cases h
        rw [← hunion hclear]
        dsimp only
        rw [if_neg hretry, if_pos hlength]
      · rename_i hmiddle hretry hlength
        split at h
        · rename_i hnone
          cases h
          obtain ⟨hbundles, -⟩ := retrySheets_clear s hclear
          rw [← hunion (by simpa using hmiddle)]
          dsimp only
          rw [if_neg hretry, if_neg hlength]
          simpa [List.isEmpty_iff.mp hnone] using hbundles.symm
        · cases h

/-! ## Accounts -/

end

/-- Every file of a row is one of these assets, of the row's kind. -/
def Filed (assets : List CollectedAsset) (row : Row) : Prop :=
  ∀ path ∈ row.paths, ∃ asset ∈ assets, asset.path = path ∧ asset.kind = row.kind

/-- Every one of `files` is counted or listed, and what the stylesheets disclose is listed
besides; the rows are those of some of the kinds, and what they say is contributed. -/
structure Accounts (p : Processing) (files : List CollectedAsset) (disclosed : List String)
    (kinds : List AssetKind) : Prop where
  counted : ∀ path, p.counted.count path ≤ (files.map fun asset => asset.path).count path
  balance : ∀ path, p.counted.count path + p.listed.count path =
    (files.map fun asset => asset.path).count path + disclosed.count path
  contributions : p.processed.contributions = p.rows.map Row.contribution
  filed : ∀ row ∈ p.rows, Filed files row
  kinds : (p.rows.map Row.kind).Sublist kinds

theorem mem_of_count_le {paths files : List String}
    (h : ∀ path, paths.count path ≤ files.count path) {path : String} (hmem : path ∈ paths) :
    path ∈ files := by
  rw [← List.count_pos_iff] at hmem ⊢
  exact hmem.trans_le (h path)

theorem disclosed_foldl (counted : List CountedSheets) (processed : ProcessedAssets) :
    ((counted.foldl (fun all sheets => discloseBundle all sheets.bundle) processed).uncounted.map
        UncountedAsset.path =
      processed.uncounted.map UncountedAsset.path ++
        (counted.map CountedSheets.bundle).flatMap CssBundle.disclosed) ∧
    (counted.foldl (fun all sheets => discloseBundle all sheets.bundle) processed).contributions =
      processed.contributions := by
  induction counted generalizing processed with
  | nil => exact ⟨(List.append_nil _).symm, rfl⟩
  | cons sheets counted ih =>
    obtain ⟨huncounted, hcontributions⟩ := ih (discloseBundle processed sheets.bundle)
    rw [List.foldl_cons]
    refine ⟨?_, hcontributions⟩
    rw [huncounted, List.map_cons, List.flatMap_cons]
    simp [discloseBundle, CssBundle.disclosed, Function.comp_def]

section

variable {s : Surroundings}

theorem counted_settleCounted (outcome : StylesheetOutcome) :
    (settleCounted outcome {}).counted = outcome.counted.flatMap CountedSheets.paths := by
  simp [settleCounted, Processing.counted, Row.paths, List.flatMap_map]

theorem listed_settleCounted (outcome : StylesheetOutcome) :
    (settleCounted outcome {}).listed = outcome.uncounted.map UncountedAsset.path ++
      (outcome.counted.map CountedSheets.bundle).flatMap CssBundle.disclosed := by
  rw [Processing.listed, settleCounted, (disclosed_foldl outcome.counted _).1]
  simp

theorem contributions_settleCounted (outcome : StylesheetOutcome) :
    (settleCounted outcome {}).processed.contributions =
      (settleCounted outcome {}).rows.map Row.contribution := by
  rw [settleCounted]
  dsimp only
  rw [(disclosed_foldl outcome.counted _).2]
  simp [Row.contribution, List.foldl_map]

theorem kind_of_mem_cssEntries {assets : List CollectedAsset} {asset : CollectedAsset}
    (h : asset ∈ cssEntries assets) : asset.kind = .css :=
  eq_of_beq (List.mem_filter.mp h).2

theorem accounts_settleCounted {assets : List CollectedAsset} {outcome : StylesheetOutcome}
    {disclosed : List String}
    (hdisclosed : (outcome.counted.map CountedSheets.bundle).flatMap CssBundle.disclosed =
      disclosed)
    (hcounts : ∀ path, (outcome.counted.flatMap CountedSheets.paths).count path +
        (outcome.uncounted.map UncountedAsset.path).count path =
      ((cssEntries assets).map fun entry => entry.path).count path) :
    Accounts (settleCounted outcome {}) (cssEntries assets) disclosed [.css] := by
  have hcounted : ∀ path, (settleCounted outcome {}).counted.count path ≤
      ((cssEntries assets).map fun entry => entry.path).count path := by
    intro path
    have hpath := hcounts path
    rw [counted_settleCounted]
    omega
  refine ⟨hcounted, fun path => ?_, contributions_settleCounted outcome, fun row hrow => ?_,
    .refl _⟩
  · have hpath := hcounts path
    rw [counted_settleCounted, listed_settleCounted, hdisclosed, List.count_append]
    omega
  · intro path hpath
    have hin : path ∈ (settleCounted outcome {}).counted :=
      List.mem_flatMap.mpr ⟨row, hrow, hpath⟩
    obtain ⟨asset, hasset, heq⟩ := List.mem_map.mp (mem_of_count_le hcounted hin)
    rw [List.mem_singleton.mp hrow]
    exact ⟨asset, hasset, heq, kind_of_mem_cssEntries hasset⟩

theorem accounts_settleFailed {assets : List CollectedAsset} (error : CssProcessingError) :
    Accounts (settleFailed (cssEntries assets) error {}) (cssEntries assets) [] [.css] := by
  refine ⟨fun path => Nat.zero_le _, fun path => ?_, rfl,
    fun row hrow => (nomatch hrow), List.nil_sublist _⟩
  simp [settleFailed, Processing.counted, Processing.listed, Function.comp_def, uncountedOf]

/-- What the stylesheets do to the accounts. -/
theorem processStylesheets_accounts {assets : List CollectedAsset} {t : Trail}
    (h : (processStylesheets s assets {} t).2.2.failure = none) :
    (processStylesheets s assets {} t).1 =
      (measuredBundles s assets).flatMap CssBundle.referencedAssets ∧
    Accounts (processStylesheets s assets {} t).2.1 (cssEntries assets)
      ((measuredBundles s assets).flatMap CssBundle.disclosed) [.css] := by
  unfold processStylesheets at h ⊢
  cases hcss : (cssEntries assets).isEmpty with
  | true =>
    rw [measuredBundles, hcss, List.isEmpty_iff.mp hcss]
    exact ⟨rfl, fun _ => Nat.le_refl _, fun _ => rfl, rfl, fun row hrow => (nomatch hrow),
      List.nil_sublist _⟩
  | false =>
    rw [hcss] at h
    cases hone : bundleStylesheets s (cssEntries assets) t with
    | mk bundled next =>
      rw [hone] at h
      dsimp only at h ⊢
      have hclear : next.failure = none := by
        cases hnext : next.failure with
        | none => rfl
        | some failed =>
          rw [hnext] at h
          exact hnext.symm.trans h
      rw [hclear] at h ⊢
      cases bundled with
      | ok outcome =>
        obtain ⟨hbundles, hcounts⟩ := bundleStylesheets_ok s hcss hone hclear
        refine ⟨?_, accounts_settleCounted (by rw [hbundles]) hcounts⟩
        rw [← hbundles, List.flatMap_map]
        rfl
      | error error =>
        rw [bundleStylesheets_error s hcss hone hclear]
        exact ⟨rfl, accounts_settleFailed error⟩

def Tally.paths (tally : Tally) : List String := tally.artifacts.flatMap Artifact.paths

/-- The sizes are those of the artifacts, and the flag tells whether there are any. -/
structure Tally.Sound (tally : Tally) : Prop where
  sizes : tally.sizes =
    tally.artifacts.foldl (fun total artifact => total.add artifact.sizes) .zero
  counted : tally.counted = !tally.artifacts.isEmpty

/-- What the loop over some files does to a tally. -/
structure Takes (tally next : Tally) (assets : List CollectedAsset) : Prop where
  sound : tally.Sound → next.Sound
  contributions : next.processed.contributions = tally.processed.contributions
  counted : ∀ path, next.paths.count path ≤
    tally.paths.count path + (assets.map fun asset => asset.path).count path
  balance : ∀ path,
    next.paths.count path + (next.processed.uncounted.map UncountedAsset.path).count path =
      tally.paths.count path + (tally.processed.uncounted.map UncountedAsset.path).count path +
        (assets.map fun asset => asset.path).count path

theorem Takes.refl (tally : Tally) : Takes tally tally [] :=
  ⟨id, rfl, fun _ => Nat.le_refl _, fun _ => rfl⟩

theorem Takes.cons {a b c : Tally} {asset : CollectedAsset} {assets : List CollectedAsset}
    (hab : Takes a b [asset]) (hbc : Takes b c assets) : Takes a c (asset :: assets) := by
  refine ⟨fun ha => hbc.sound (hab.sound ha), hbc.contributions.trans hab.contributions,
    fun path => ?_, fun path => ?_⟩
  · have hfirst := hab.counted path
    have hrest := hbc.counted path
    simp only [List.map_cons, List.map_nil, List.count_cons, List.count_nil] at hfirst ⊢
    omega
  · have hfirst := hab.balance path
    have hrest := hbc.balance path
    simp only [List.map_cons, List.map_nil, List.count_cons, List.count_nil] at hfirst ⊢
    omega

theorem takes_take (tally : Tally) (asset : CollectedAsset) :
    Takes tally (tally.take s asset) [asset] := by
  unfold Tally.take
  split
  · refine ⟨fun h => ⟨?_, ?_⟩, rfl, fun path => ?_, fun path => ?_⟩
    · dsimp only
      rw [List.foldl_append, ← h.sizes]
      rfl
    · simp
    · simp [Tally.paths]
    · simp only [Tally.paths, List.flatMap_append, List.count_append, List.flatMap_cons,
        List.flatMap_nil, List.append_nil, List.map_cons, List.map_nil]
      omega
  · refine ⟨fun h => ⟨h.sizes, h.counted⟩, rfl, fun path => Nat.le_add_right _ _, fun path => ?_⟩
    simp only [Tally.paths, List.map_append, List.count_append, uncountedOf, List.map_cons,
      List.map_nil]
    omega

theorem measureFiles_clear {assets : List CollectedAsset} {tally : Tally} {t : Trail}
    (h : (measureFiles s assets tally t).2.2.failure = none) :
    (measureFiles s assets tally t).1 = true ∧
      Takes tally (measureFiles s assets tally t).2.1 assets := by
  induction assets generalizing tally t with
  | nil => exact ⟨rfl, .refl tally⟩
  | cons asset assets ih =>
    rw [measureFiles] at h ⊢
    cases hbefore : checkDeadline (s.expiredBefore (.file asset.path)) t with
    | mk outcome middle =>
      rw [hbefore] at h
      cases outcome with
      | error fault => exact absurd h (checkDeadline_error hbefore)
      | ok u =>
        dsimp only at h ⊢
        cases hafter : checkDeadline (s.expiredAfter (.file asset.path)) middle with
        | mk outcome last =>
          rw [hafter] at h
          cases outcome with
          | error fault => exact absurd h (checkDeadline_error hafter)
          | ok u =>
            obtain ⟨hfinished, htakes⟩ := ih h
            exact ⟨hfinished, (takes_take tally asset).cons htakes⟩

/-- What one kind of binary files does to the accounts. -/
theorem processBinaryKind_accounts {all : List CollectedAsset} {kind : AssetKind}
    {p : Processing} {t : Trail} {files : List CollectedAsset} {disclosed : List String}
    {kinds : List AssetKind} (h : (processBinaryKind s all kind p t).2.failure = none)
    (hp : Accounts p files disclosed kinds) :
    Accounts (processBinaryKind s all kind p t).1
      (files ++ all.filter fun asset => asset.kind == kind) disclosed (kinds ++ [kind]) := by
  have hfiled :
      ∀ row ∈ p.rows, Filed (files ++ all.filter fun asset => asset.kind == kind) row := by
    intro row hrow path hpath
    obtain ⟨asset, hasset, heq⟩ := hp.filed row hrow path hpath
    exact ⟨asset, List.mem_append_left _ hasset, heq⟩
  unfold processBinaryKind at h ⊢
  cases hloop : measureFiles s (all.filter fun asset => asset.kind == kind)
      { processed := p.processed } t with
  | mk finished rest =>
    obtain ⟨tally, next⟩ := rest
    rw [hloop] at h
    have hclear : next.failure = none := by
      dsimp only at h
      split at h
      · exact h
      · exact h
    have hmeasured := @measureFiles_clear s (all.filter fun asset => asset.kind == kind)
      { processed := p.processed } t (by rw [hloop]; exact hclear)
    rw [hloop] at hmeasured
    obtain ⟨hfinished, htakes⟩ := hmeasured
    have hsound : tally.Sound := htakes.sound ⟨rfl, rfl⟩
    dsimp only at hfinished htakes ⊢
    rw [hfinished, Bool.true_and]
    have hcounts := htakes.counted
    have hbalance := htakes.balance
    simp only [Tally.paths, List.flatMap_nil, List.count_nil, Nat.zero_add] at hcounts hbalance
    split
    · refine ⟨fun path => ?_, fun path => ?_, ?_, fun row hrow => ?_, ?_⟩
      · have hold := hp.counted path
        have hnew := hcounts path
        simp only [Processing.counted, List.flatMap_append, List.map_append, List.count_append,
          List.flatMap_cons, List.flatMap_nil, List.append_nil, Row.paths] at hold ⊢
        omega
      · have hold := hp.balance path
        have hnew := hbalance path
        simp only [Processing.counted, Processing.listed, List.flatMap_append, List.map_append,
          List.count_append, List.flatMap_cons, List.flatMap_nil, List.append_nil,
          Row.paths] at hold ⊢
        omega
      · dsimp only
        rw [htakes.contributions, hp.contributions, List.map_append, hsound.sizes]
        rfl
      · rcases List.mem_append.mp hrow with hold | hnew
        · exact hfiled row hold
        · rw [List.mem_singleton.mp hnew]
          intro path hpath
          obtain ⟨asset, hasset, heq⟩ := List.mem_map.mp (mem_of_count_le hcounts hpath)
          exact ⟨asset, List.mem_append_right _ hasset, heq,
            eq_of_beq (List.mem_filter.mp hasset).2⟩
      · rw [List.map_append]
        exact hp.kinds.append (.refl _)
    · rename_i hnone
      have hempty : tally.artifacts = [] := by
        rw [hsound.counted] at hnone
        simpa using hnone
      rw [hempty] at hbalance
      refine ⟨fun path => ?_, fun path => ?_, ?_, hfiled, ?_⟩
      · have hold := hp.counted path
        simp only [Processing.counted, List.map_append, List.count_append] at hold ⊢
        omega
      · have hold := hp.balance path
        have hnew := hbalance path
        simp only [Processing.counted, Processing.listed, List.map_append, List.count_append,
          List.flatMap_nil, List.count_nil] at hold hnew ⊢
        omega
      · exact htakes.contributions.trans hp.contributions
      · exact hp.kinds.trans (List.sublist_append_left _ _)

/-! ## One file a path -/

theorem lookup_foldl_orInsert (referenced : List CollectedAsset)
    (table : Keyed String CollectedAsset) {path : String} {asset : CollectedAsset}
    (h : table.lookup path = some asset) :
    (referenced.foldl (fun all asset => all.orInsert asset.path asset) table).lookup path =
      some asset := by
  induction referenced generalizing table with
  | nil => exact h
  | cons first referenced ih =>
    apply ih
    rw [Keyed.lookup_orInsert]
    split
    · rename_i heq
      rw [← heq, h]
      rfl
    · exact h

theorem all_foldl_orInsert (referenced : List CollectedAsset)
    {table : Keyed String CollectedAsset} (h : table.All fun path asset => asset.path = path) :
    (referenced.foldl (fun all asset => all.orInsert asset.path asset) table).All
      fun path asset => asset.path = path := by
  induction referenced generalizing table with
  | nil => exact h
  | cons first referenced ih => exact ih (h.orInsert rfl)

variable {assets referenced : List CollectedAsset}

theorem nodup_assetsByPath (assets referenced : List CollectedAsset) :
    ((assetsByPath assets referenced).map fun asset => asset.path).Nodup := by
  rw [assetsByPath]
  have hnamed : (referenced.foldl (fun all asset => all.orInsert asset.path asset)
      (Keyed.insertAll (assets.map fun asset => (asset.path, asset)) ∅)).All
        fun path asset => asset.path = path := by
    have hrows : ∀ row ∈ assets.map fun asset => (asset.path, asset), row.2.path = row.1 := by
      intro row hrow
      obtain ⟨asset, -, rfl⟩ := List.mem_map.mp hrow
      rfl
    exact all_foldl_orInsert _ (Keyed.All.insertAll (Keyed.all_empty _) hrows)
  refine ((List.mergeSort_perm _ _).map _).nodup_iff.mpr ?_
  have hkeys : ∀ table : Keyed String CollectedAsset,
      table.All (fun path asset => asset.path = path) →
        (table.rows.map Prod.snd).map (fun asset => asset.path) = table.rows.map Prod.fst := by
    intro table htable
    rw [List.map_map]
    apply List.map_congr_left
    rintro ⟨path, asset⟩ hrow
    exact htable path asset (Keyed.mem_rows.mp hrow)
  rw [hkeys _ hnamed]
  exact Keyed.nodup_rows_keys _

theorem mem_assetsByPath (hdistinct : (assets.map fun asset => asset.path).Nodup)
    {asset : CollectedAsset} (h : asset ∈ assets) : asset ∈ assetsByPath assets referenced := by
  rw [assetsByPath, List.mem_mergeSort]
  have hkeys : ((assets.map fun asset => (asset.path, asset)).map Prod.fst).Nodup := by
    rw [List.map_map]
    exact hdistinct
  have hrow : (asset.path, asset) ∈ assets.map fun asset => (asset.path, asset) :=
    List.mem_map.mpr ⟨asset, h, rfl⟩
  have hlookup := lookup_foldl_orInsert referenced _ (Keyed.lookup_insertAll_of_mem hkeys hrow ∅)
  exact List.mem_map.mpr ⟨_, Keyed.mem_rows.mpr hlookup, rfl⟩

theorem mem_of_mem_assetsByPath {asset : CollectedAsset}
    (h : asset ∈ assetsByPath assets referenced) : asset ∈ assets ∨ asset ∈ referenced := by
  have hrows : ∀ row ∈ assets.map fun asset => (asset.path, asset),
      row.2 ∈ assets ∨ row.2 ∈ referenced := by
    intro row hrow
    obtain ⟨asset, hasset, rfl⟩ := List.mem_map.mp hrow
    exact .inl hasset
  have hfold : ∀ (more : List CollectedAsset) (table : Keyed String CollectedAsset),
      more ⊆ referenced → table.All (fun _ asset => asset ∈ assets ∨ asset ∈ referenced) →
        (more.foldl (fun all asset => all.orInsert asset.path asset) table).All
          fun _ asset => asset ∈ assets ∨ asset ∈ referenced := by
    intro more
    induction more with
    | nil => exact fun _ _ htable => htable
    | cons first more ih =>
      intro table hsub htable
      obtain ⟨hfirst, hmore⟩ := List.cons_subset.mp hsub
      exact ih _ hmore (htable.orInsert (.inr hfirst))
  rw [assetsByPath, List.mem_mergeSort] at h
  obtain ⟨⟨path, found⟩, hrow, rfl⟩ := List.mem_map.mp h
  exact hfold referenced _ (List.Subset.refl _)
    (Keyed.All.insertAll (Keyed.all_empty _) hrows) _ _ (Keyed.mem_rows.mp hrow)

theorem eq_of_path {all : List CollectedAsset} (h : (all.map fun asset => asset.path).Nodup)
    {a b : CollectedAsset} (ha : a ∈ all) (hb : b ∈ all) (hpath : a.path = b.path) : a = b :=
  List.inj_on_of_nodup_map h ha hb hpath

end

section

variable (s : Surroundings)

/-- The wasm, font and image files, in the order in which they are compressed. -/
def binaryFiles (assets : List CollectedAsset) : List CollectedAsset :=
  let all := assetsByPath assets ((measuredBundles s assets).flatMap CssBundle.referencedAssets)
  binaryKinds.flatMap fun kind => all.filter fun asset => asset.kind == kind

def shippedFiles (assets : List CollectedAsset) : List CollectedAsset :=
  cssEntries assets ++ binaryFiles s assets

def disclosedPaths (assets : List CollectedAsset) : List String :=
  (measuredBundles s assets).flatMap CssBundle.disclosed

variable {s} {assets : List CollectedAsset}

theorem mem_shippedFiles_of_mem (hdistinct : (assets.map fun asset => asset.path).Nodup)
    {asset : CollectedAsset} (h : asset ∈ assets) : asset ∈ shippedFiles s assets := by
  cases hkind : asset.kind with
  | css =>
    apply List.mem_append_left
    exact List.mem_filter.mpr ⟨h, beq_iff_eq.mpr hkind⟩
  | _ =>
    apply List.mem_append_right
    apply List.mem_flatMap.mpr
    refine ⟨asset.kind, ?_, List.mem_filter.mpr ⟨mem_assetsByPath hdistinct h, beq_self_eq_true _⟩⟩
    rw [hkind]
    decide

theorem mem_all_of_shipped (hdistinct : (assets.map fun asset => asset.path).Nodup)
    {asset : CollectedAsset} (h : asset ∈ shippedFiles s assets) :
    asset ∈ assetsByPath assets
      ((measuredBundles s assets).flatMap CssBundle.referencedAssets) := by
  rcases List.mem_append.mp h with hcss | hbinary
  · exact mem_assetsByPath hdistinct (List.mem_of_mem_filter hcss)
  · obtain ⟨kind, -, hmem⟩ := List.mem_flatMap.mp hbinary
    exact List.mem_of_mem_filter hmem

theorem nodup_shippedFiles (hdistinct : (assets.map fun asset => asset.path).Nodup) :
    ((shippedFiles s assets).map fun asset => asset.path).Nodup := by
  have hall := nodup_assetsByPath assets
    ((measuredBundles s assets).flatMap CssBundle.referencedAssets)
  apply List.Nodup.map_on
  · intro a ha b hb heq
    exact eq_of_path hall (mem_all_of_shipped hdistinct ha) (mem_all_of_shipped hdistinct hb) heq
  · rw [shippedFiles, binaryFiles, List.nodup_append', List.nodup_flatMap]
    refine ⟨(hdistinct.of_map _).filter _, ⟨fun kind _ => (hall.of_map _).filter _, ?_⟩, ?_⟩
    · have hkinds : binaryKinds.Nodup := by decide
      apply hkinds.imp
      intro a b hne asset ha hb
      have hka := eq_of_beq (List.mem_filter.mp ha).2
      have hkb := eq_of_beq (List.mem_filter.mp hb).2
      exact hne (hka.symm.trans hkb)
    · intro asset hcss hbinary
      obtain ⟨kind, hkind, hmem⟩ := List.mem_flatMap.mp hbinary
      have hka := eq_of_beq (List.mem_filter.mp hmem).2
      rw [kind_of_mem_cssEntries hcss] at hka
      subst hka
      exact absurd hkind (by decide)

end

/-! ## The whole stage -/

section

variable {s : Surroundings} {assets : List CollectedAsset}

theorem binaryKinds_accounts {all : List CollectedAsset} {todo : List AssetKind}
    {p : Processing} {t : Trail} {files : List CollectedAsset} {disclosed : List String}
    {kinds : List AssetKind}
    (h : (todo.foldl (fun (p, t) kind => processBinaryKind s all kind p t) (p, t)).2.failure =
      none)
    (hp : Accounts p files disclosed kinds) :
    Accounts (todo.foldl (fun (p, t) kind => processBinaryKind s all kind p t) (p, t)).1
      (files ++ todo.flatMap fun kind => all.filter fun asset => asset.kind == kind) disclosed
      (kinds ++ todo) := by
  induction todo generalizing p t files kinds with
  | nil =>
    rw [List.flatMap_nil, List.append_nil, List.append_nil]
    exact hp
  | cons kind todo ih =>
    rw [List.foldl_cons] at h ⊢
    have hfirst := (frame_binaryKinds (leads_passes s) all todo _ _).clear h
    have hone := processBinaryKind_accounts hfirst hp
    have hrest := ih h hone
    rw [List.append_assoc, List.append_assoc] at hrest
    rw [List.flatMap_cons]
    exact hrest

theorem countAssets_accounts {t : Trail} (h : (countAssets s assets {} t).2.failure = none) :
    Accounts (countAssets s assets {} t).1 (shippedFiles s assets) (disclosedPaths s assets)
      (.css :: binaryKinds) := by
  unfold countAssets at h ⊢
  dsimp only at h ⊢
  cases hsheets : (processStylesheets s assets {} t).2.2.failure with
  | some failed =>
    rw [hsheets, if_pos (Option.isSome_some)] at h
    rw [hsheets] at h
    cases h
  | none =>
    rw [hsheets] at h
    rw [if_neg (by simp)] at h ⊢
    obtain ⟨hreferenced, haccounts⟩ := processStylesheets_accounts hsheets
    have hall := binaryKinds_accounts h haccounts
    rw [hreferenced] at hall ⊢
    exact hall

end

end ImportLens.Pipeline.AssetCounting
