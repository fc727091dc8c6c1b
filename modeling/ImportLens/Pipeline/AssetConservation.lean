import ImportLens.Pipeline.AssetAccounts
import ImportLens.Support.Bytes

/-!
# What becomes of the collected assets

A run in which the ledger fails either ends with the timeout or lists every asset.  A run
in which it does not conserves the assets exactly when the measured stylesheets list no
path besides that is settled already.  Which of the two a run is follows from what the
bundler's reads do to the ledger and from what the deadline says, attempt by attempt.
-/

namespace ImportLens.Pipeline.AssetCounting

open ImportLens.Daemon ImportLens.Cache ImportLens.Support AssetBudget
open FileSize (CompressionSizes)

/-! ## The attempts of a run that stays clear -/

section

variable (s : Surroundings)

/-- The ledger once the bundler has read for an attempt. -/
def Surroundings.ledgerAfter (attempt : Attempt) (state : BudgetState) : BudgetState :=
  (s.reads attempt state).getLastD state

/-- A check of the deadline that an attempt comes to fails. -/
def Surroundings.expires (attempt : Attempt) (entries : List CollectedAsset) : Bool :=
  match s.bundleWith attempt entries with
  | .error _ => false
  | .ok bundle =>
      s.expiredBefore attempt ||
        (match s.compress attempt bundle.minifiedBytes with
          | .ok _ => s.expiredAfter attempt
          | .error _ => false)

def sheetAttempts (entries : List CollectedAsset) : List (Attempt × List CollectedAsset) :=
  entries.map fun entry => (.sheet entry.path, [entry])

/-- The stylesheet attempts: the union and, if it fails for a reason of its own, the
sheets of a set of several. -/
def cssAttempts (assets : List CollectedAsset) : List (Attempt × List CollectedAsset) :=
  if (cssEntries assets).isEmpty then []
  else
    (.union, cssEntries assets) ::
      match s.attempted .union (cssEntries assets) with
      | .ok _ => []
      | .error error =>
          if !mayRetryStylesheetsSeparately error then []
          else if (cssEntries assets).length = 1 then []
          else sheetAttempts (cssEntries assets)

/-- The ledger is clear after the attempts, and no deadline expires in them. -/
def Clears : List (Attempt × List CollectedAsset) → BudgetState → Prop
  | [], state => AssetBudget.failure state = none
  | (attempt, entries) :: rest, state =>
      s.expires attempt entries = false ∧ Clears rest (s.ledgerAfter attempt state)

/-- Nothing stops the stage: the stylesheet attempts leave the ledger clear, and no
check of the deadline fails, theirs and those of the binary files. -/
structure StaysClear (assets : List CollectedAsset) (ledger : BudgetState) : Prop where
  css : Clears s (cssAttempts s assets) ledger
  files : ∀ asset ∈ binaryFiles s assets,
    s.expiredBefore (.file asset.path) = false ∧ s.expiredAfter (.file asset.path) = false

variable {s} {t : Trail}

theorem later_ledgerAfter (attempt : Attempt) (state : BudgetState) :
    Later state (s.ledgerAfter attempt state) := by
  have hreads := s.reads_later attempt state
  unfold Surroundings.ledgerAfter
  generalize s.reads attempt state = states at hreads
  induction states generalizing state with
  | nil => exact .refl state
  | cons next states ih =>
    rw [List.isChain_cons_cons] at hreads
    rw [List.getLastD_cons]
    exact hreads.1.trans (ih next hreads.2)

theorem ledger_foldl_advance (states : List BudgetState) (t : Trail) :
    (states.foldl Trail.advance t).ledger = states.getLastD t.ledger := by
  induction states generalizing t with
  | nil => rfl
  | cons next states ih =>
    rw [List.foldl_cons, ih, List.getLastD_cons]
    rfl

/-- Attempts that leave the ledger clear found it so. -/
theorem Clears.start {attempts : List (Attempt × List CollectedAsset)} {state : BudgetState}
    (h : Clears s attempts state) : AssetBudget.failure state = none := by
  induction attempts generalizing state with
  | nil => exact h
  | cons head rest ih => exact (later_ledgerAfter head.1 state).clear (ih h.2)

/-! ## When a run stays clear -/

theorem checkDeadline_cases (expired : Bool) (t : Trail) :
    (t.failure = none ∧ expired = false ∧
      ∃ next, checkDeadline expired t = (.ok (), next) ∧ next.ledger = t.ledger) ∨
    (¬ (t.failure = none ∧ expired = false) ∧ (checkDeadline expired t).2.failure ≠ none) := by
  cases hcheck : checkAvailable expired t.ledger with
  | mk outcome state =>
    have heq : checkDeadline expired t = (outcome, t.advance state) := by
      rw [checkDeadline, hcheck]
    cases outcome with
    | error fault =>
      refine .inr ⟨?_, ?_⟩
      · rintro ⟨hclear, hexpired⟩
        have hmessage := (failure_eq_none.mp hclear).1
        rw [checkAvailable, Section.get_bind, hmessage, hexpired] at hcheck
        cases hcheck
      · rw [heq]
        exact checkAvailable_error hcheck
    | ok u =>
      obtain ⟨rfl, hmessage⟩ := checkAvailable_ok hcheck
      cases hexpired : expired with
      | true =>
        rw [checkAvailable, Section.get_bind, hmessage, hexpired] at hcheck
        cases hcheck
      | false =>
        rw [hexpired] at heq
        by_cases hclear : t.failure = none
        · exact .inl ⟨hclear, rfl, _, heq, rfl⟩
        · refine .inr ⟨fun h => hclear h.1, ?_⟩
          rw [heq]
          exact hclear

theorem deadlineError_passes {β : Type} (f : Unit → Section Trail CssProcessingError β)
    {expired : Bool} (hclear : t.failure = none) (hexpired : expired = false) :
    ∃ next, next.ledger = t.ledger ∧
      (deadlineError (checkDeadline expired) >>= f) t = f () next := by
  rcases checkDeadline_cases expired t with ⟨-, -, next, hcheck, hledger⟩ | ⟨hfails, -⟩
  · refine ⟨next, hledger, Section.bind_ok ?_⟩
    rw [deadlineError, hcheck]
    rfl
  · exact absurd ⟨hclear, hexpired⟩ hfails

theorem deadlineError_clear {β : Type} {f : Unit → Section Trail CssProcessingError β}
    (hf : ∀ u, Section.Frame Leads (f u)) {expired : Bool}
    (h : ((deadlineError (checkDeadline expired) >>= f) t).2.failure = none) :
    t.failure = none ∧ expired = false := by
  rcases checkDeadline_cases expired t with ⟨hclear, hexpired, -⟩ | ⟨-, hnext⟩
  · exact ⟨hclear, hexpired⟩
  · cases hcheck : checkDeadline expired t with
    | mk outcome next =>
      rw [hcheck] at hnext
      cases outcome with
      | ok u =>
        have hone : deadlineError (checkDeadline expired) t = (.ok u, next) := by
          rw [deadlineError, hcheck]
          rfl
        rw [Section.bind_ok hone] at h
        exact absurd ((hf u next).clear h) hnext
      | error fault =>
        have hone : deadlineError (checkDeadline expired) t =
            (.error (.fromTransform (faultText fault)), next) := by
          rw [deadlineError, hcheck]
          rfl
        rw [Section.bind_error hone] at h
        exact absurd h hnext

/-- What follows the first check of `compressBundle`. -/
def compressThen (s : Surroundings) (attempt : Attempt) (bundle : CssBundle) :
    Section Trail CssProcessingError (CssBundle × CompressionSizes) :=
  match s.compress attempt bundle.minifiedBytes with
  | .ok compressed => do
      deadlineError (checkDeadline (s.expiredAfter attempt))
      pure (bundle, compressed)
  | .error error =>
      Section.fail (.fromCompression ("failed to compress the bundled stylesheet: " ++ error))

theorem leads_compressThen (attempt : Attempt) (bundle : CssBundle) :
    Section.Frame Leads (compressThen s attempt bundle) := by
  unfold compressThen
  split
  · exact .bind (fun _ _ _ => .trans) (fun t => leads_checkDeadline _ t) fun _ => .pure .refl _
  · exact .fail .refl _

theorem compressBundle_clear_iff (attempt : Attempt) (bundle : CssBundle) (t : Trail) :
    ((compressBundle s attempt bundle t).2.failure = none ↔
      t.failure = none ∧ s.expiredBefore attempt = false ∧
        (match s.compress attempt bundle.minifiedBytes with
          | .ok _ => s.expiredAfter attempt
          | .error _ => false) = false) ∧
    ((compressBundle s attempt bundle t).2.failure = none →
      (compressBundle s attempt bundle t).2.ledger = t.ledger) := by
  have hbundle : compressBundle s attempt bundle =
      (deadlineError (checkDeadline (s.expiredBefore attempt)) >>=
        fun _ => compressThen s attempt bundle) := rfl
  rw [hbundle]
  have hfirst : ((deadlineError (checkDeadline (s.expiredBefore attempt)) >>=
      fun _ => compressThen s attempt bundle) t).2.failure = none →
      t.failure = none ∧ s.expiredBefore attempt = false :=
    deadlineError_clear fun _ => leads_compressThen attempt bundle
  by_cases hstart : t.failure = none ∧ s.expiredBefore attempt = false
  · obtain ⟨next, hledger, heq⟩ := deadlineError_passes
      (fun _ => compressThen s attempt bundle) hstart.1 hstart.2
    have hnext : next.failure = none := by
      rw [Trail.failure, hledger]
      exact hstart.1
    rw [heq]
    unfold compressThen
    cases s.compress attempt bundle.minifiedBytes with
    | error error => exact ⟨⟨fun _ => ⟨hstart.1, hstart.2, rfl⟩, fun _ => hnext⟩, fun _ => hledger⟩
    | ok compressed =>
      have hsecond : ((deadlineError (checkDeadline (s.expiredAfter attempt)) >>=
          fun _ => pure (bundle, compressed)) next).2.failure = none →
          next.failure = none ∧ s.expiredAfter attempt = false :=
        deadlineError_clear fun _ => .pure .refl _
      refine ⟨⟨fun h => ⟨hstart.1, hstart.2, (hsecond h).2⟩, fun h => ?_⟩, fun h => ?_⟩
      · obtain ⟨last, hlast, heq'⟩ := deadlineError_passes
          (fun _ => pure (bundle, compressed)) hnext h.2.2
        dsimp only
        rw [heq', Section.pure_apply, Trail.failure, hlast]
        exact hnext
      · obtain ⟨last, hlast, heq'⟩ := deadlineError_passes
          (fun _ => pure (bundle, compressed)) hnext (hsecond h).2
        dsimp only
        rw [heq', Section.pure_apply]
        exact hlast.trans hledger
  · refine ⟨⟨fun h => absurd (hfirst h) hstart, fun h => absurd ⟨h.1, h.2.1⟩ hstart⟩,
      fun h => absurd (hfirst h) hstart⟩

theorem measure_clear_iff (attempt : Attempt) {entries : List CollectedAsset}
    (hentries : entries ≠ []) (t : Trail) :
    ((measure s attempt entries t).2.failure = none ↔
      AssetBudget.failure (s.ledgerAfter attempt t.ledger) = none ∧
        s.expires attempt entries = false) ∧
    ((measure s attempt entries t).2.failure = none →
      (measure s attempt entries t).2.ledger = s.ledgerAfter attempt t.ledger) := by
  have hbundle : bundleCollectedCss s attempt entries t =
      ((s.bundleWith attempt entries).mapError .fromTransform,
        (s.reads attempt t.ledger).foldl Trail.advance t) := by
    rw [bundleCollectedCss, if_neg (by simpa using hentries)]
  have hledger := ledger_foldl_advance (s.reads attempt t.ledger) t
  generalize (s.reads attempt t.ledger).foldl Trail.advance t = next at hbundle hledger
  unfold Surroundings.expires
  cases hwith : s.bundleWith attempt entries with
  | error message =>
    rw [hwith] at hbundle
    rw [measure, Section.bind_error hbundle, Trail.failure, hledger]
    exact ⟨⟨fun h => ⟨h, rfl⟩, And.left⟩, fun _ => rfl⟩
  | ok bundle =>
    rw [hwith] at hbundle
    have hcompress := compressBundle_clear_iff (s := s) attempt bundle next
    have hnext : next.failure = AssetBudget.failure (s.ledgerAfter attempt t.ledger) := by
      rw [Trail.failure, hledger]
      rfl
    rw [hnext, hledger] at hcompress
    rw [measure, Section.bind_ok hbundle]
    dsimp only
    rw [Bool.or_eq_false_iff]
    exact hcompress

theorem retrySheets_clear_iff (entries : List CollectedAsset) (outcome : StylesheetOutcome)
    (t : Trail) :
    ((retrySheets s entries outcome t).2.failure = none ↔
      Clears s (sheetAttempts entries) t.ledger) := by
  induction entries generalizing outcome t with
  | nil => exact .rfl
  | cons entry entries ih =>
    by_cases hstart : t.failure = none
    · have hone := measure_clear_iff (s := s) (.sheet entry.path)
        (List.cons_ne_nil entry []) t
      rw [retrySheets, if_neg (by rw [hstart]; exact Bool.false_ne_true)]
      -- whatever becomes of the sheet, the rest goes on from the ledger it leaves
      have hrest : ∀ (next : Trail) (outcome : StylesheetOutcome),
          (measure s (.sheet entry.path) [entry] t).2 = next →
          ((retrySheets s entries outcome next).2.failure = none ↔
            Clears s (sheetAttempts (entry :: entries)) t.ledger) := by
        rintro next outcome rfl
        constructor
        · intro h
          have hnext := (frame_retrySheets (leads_passes s) entries outcome _).clear h
          obtain ⟨-, hexpires⟩ := hone.1.mp hnext
          refine ⟨hexpires, ?_⟩
          rw [← hone.2 hnext]
          exact (ih outcome _).mp h
        · rintro ⟨hexpires, hclears⟩
          have hnext := hone.1.mpr ⟨hclears.start, hexpires⟩
          rw [ih outcome, hone.2 hnext]
          exact hclears
      cases hmeasure : measure s (.sheet entry.path) [entry] t with
      | mk result next =>
        cases result with
        | ok counted => exact hrest next _ (by rw [hmeasure])
        | error error => exact hrest next _ (by rw [hmeasure])
    · have hfailed : t.failure.isSome = true := Option.isSome_iff_ne_none.mpr hstart
      rw [retrySheets, if_pos hfailed]
      exact ⟨fun h => absurd h hstart, fun h => absurd h.start hstart⟩

theorem bundleStylesheets_clear_iff {assets : List CollectedAsset}
    (hcss : (cssEntries assets).isEmpty = false) (t : Trail) :
    (bundleStylesheets s (cssEntries assets) t).2.failure = none ↔
      Clears s (cssAttempts s assets) t.ledger := by
  have hentries : cssEntries assets ≠ [] := by simpa using hcss
  have hone := measure_clear_iff (s := s) .union hentries t
  have hresult : (measure s .union (cssEntries assets) t).2.failure = none →
      (measure s .union (cssEntries assets) t).1 = s.attempted .union (cssEntries assets) :=
    measure_clear s hentries
  rw [cssAttempts, if_neg (by rw [hcss]; exact Bool.false_ne_true), bundleStylesheets]
  cases hmeasure : measure s .union (cssEntries assets) t with
  | mk result next =>
    rw [hmeasure] at hone hresult
    dsimp only at hone hresult
    by_cases hnext : next.failure = none
    · obtain ⟨hafter, hexpires⟩ := hone.1.mp hnext
      have hledger := hone.2 hnext
      rw [← hresult hnext]
      cases result with
      | ok counted => exact ⟨fun _ => ⟨hexpires, hafter⟩, fun _ => hnext⟩
      | error unionError =>
        dsimp only
        rw [if_neg (by rw [hnext]; exact Bool.false_ne_true)]
        split
        · exact ⟨fun _ => ⟨hexpires, hafter⟩, fun _ => hnext⟩
        split
        · exact ⟨fun _ => ⟨hexpires, hafter⟩, fun _ => hnext⟩
        · have hretry := retrySheets_clear_iff (s := s) (cssEntries assets)
            { nonDurableStages := unionError.nonDurableStages } next
          rw [hledger] at hretry
          have hiff : (retrySheets s (cssEntries assets)
                { nonDurableStages := unionError.nonDurableStages } next).2.failure = none ↔
              Clears s ((.union, cssEntries assets) :: sheetAttempts (cssEntries assets))
                t.ledger :=
            hretry.trans ⟨fun h => ⟨hexpires, h⟩, And.right⟩
          split
          · exact hiff
          · exact hiff
    · have hno : ∀ rest, ¬ Clears s ((.union, cssEntries assets) :: rest) t.ledger :=
        fun rest h => hnext (hone.1.mpr ⟨Clears.start h.2, h.1⟩)
      refine ⟨fun h => ?_, fun h => absurd h (hno _)⟩
      have hframe := frame_bundleStylesheets (leads_passes s) (cssEntries assets) t
      cases result with
      | ok counted => exact absurd h hnext
      | error unionError =>
        dsimp only at h
        rw [if_pos (Option.isSome_iff_ne_none.mpr hnext)] at h
        exact absurd h hnext

theorem processStylesheets_clear_iff (assets : List CollectedAsset) (p : Processing) (t : Trail) :
    (processStylesheets s assets p t).2.2.failure = none ↔
      Clears s (cssAttempts s assets) t.ledger := by
  unfold processStylesheets
  cases hcss : (cssEntries assets).isEmpty with
  | true =>
    rw [cssAttempts, if_pos hcss]
    exact .rfl
  | false =>
    have hbundled := bundleStylesheets_clear_iff (s := s) hcss t
    dsimp only
    rw [if_neg Bool.false_ne_true]
    split
    · exact hbundled
    · split
      · exact hbundled
      · exact hbundled

theorem measureFiles_clear_iff (files : List CollectedAsset) (tally : Tally) (t : Trail) :
    (measureFiles s files tally t).2.2.failure = none ↔
      t.failure = none ∧ ∀ asset ∈ files,
        s.expiredBefore (.file asset.path) = false ∧ s.expiredAfter (.file asset.path) = false := by
  induction files generalizing tally t with
  | nil => simp [measureFiles]
  | cons asset files ih =>
    rw [measureFiles]
    rcases checkDeadline_cases (s.expiredBefore (.file asset.path)) t with
      ⟨hclear, hbefore, next, hcheck, hledger⟩ | ⟨hfails, hfailed⟩
    · have hnext : next.failure = none := by
        rw [Trail.failure, hledger]
        exact hclear
      rw [hcheck]
      dsimp only
      rcases checkDeadline_cases (s.expiredAfter (.file asset.path)) next with
        ⟨-, hafter, last, hcheck', hledger'⟩ | ⟨hfails, hfailed⟩
      · have hlast : last.failure = none := by
          rw [Trail.failure, hledger']
          exact hnext
        rw [hcheck']
        dsimp only
        rw [ih]
        simp [hclear, hbefore, hafter, hlast]
      · have hexpired : s.expiredAfter (.file asset.path) ≠ false := fun h => hfails ⟨hnext, h⟩
        refine ⟨fun h => absurd ?_ hfailed,
          fun h => absurd (h.2 asset List.mem_cons_self).2 hexpired⟩
        cases hcheck' : checkDeadline (s.expiredAfter (.file asset.path)) next with
        | mk outcome last =>
          rw [hcheck'] at h
          cases outcome with
          | error fault => exact h
          | ok u => exact (frame_measureFiles (leads_passes s) _ _ _).clear h
    · refine ⟨fun h => absurd ?_ hfailed,
        fun h => absurd ⟨h.1, (h.2 asset List.mem_cons_self).1⟩ hfails⟩
      cases hcheck : checkDeadline (s.expiredBefore (.file asset.path)) t with
      | mk outcome next =>
        rw [hcheck] at h
        cases outcome with
        | error fault => exact h
        | ok u =>
          dsimp only at h
          cases hcheck' : checkDeadline (s.expiredAfter (.file asset.path)) next with
          | mk outcome last =>
            rw [hcheck'] at h
            have hleads := leads_checkDeadline (s.expiredAfter (.file asset.path)) next
            rw [hcheck'] at hleads
            cases outcome with
            | error fault => exact hleads.clear h
            | ok u => exact hleads.clear ((frame_measureFiles (leads_passes s) _ _ _).clear h)

theorem processBinaryKind_clear_iff (all : List CollectedAsset) (kind : AssetKind)
    (p : Processing) (t : Trail) :
    (processBinaryKind s all kind p t).2.failure = none ↔
      t.failure = none ∧ ∀ asset ∈ all.filter fun asset => asset.kind == kind,
        s.expiredBefore (.file asset.path) = false ∧ s.expiredAfter (.file asset.path) = false := by
  rw [← measureFiles_clear_iff (s := s) _ { processed := p.processed } t]
  unfold processBinaryKind
  dsimp only
  split <;> exact .rfl

theorem binaryKinds_clear_iff (all : List CollectedAsset) (kinds : List AssetKind)
    (p : Processing) (t : Trail) :
    (kinds.foldl (fun (p, t) kind => processBinaryKind s all kind p t) (p, t)).2.failure = none ↔
      t.failure = none ∧
        ∀ asset ∈ kinds.flatMap fun kind => all.filter fun asset => asset.kind == kind,
          s.expiredBefore (.file asset.path) = false ∧
            s.expiredAfter (.file asset.path) = false := by
  induction kinds generalizing p t with
  | nil => simp
  | cons kind kinds ih =>
    rw [List.foldl_cons, ih, processBinaryKind_clear_iff]
    simp only [List.flatMap_cons, List.mem_append, or_imp, forall_and, and_assoc]
    tauto

theorem clear_processStylesheets {assets : List CollectedAsset} {p : Processing}
    (h : (countAssets s assets p t).2.failure = none) :
    (processStylesheets s assets p t).2.2.failure = none := by
  unfold countAssets at h
  dsimp only at h
  split at h
  · exact h
  · exact (frame_binaryKinds (leads_passes s) _ _ _ _).clear h

/-- Once the stylesheets are through, the binary files follow. -/
theorem countAssets_of_clear {assets : List CollectedAsset}
    (h : (processStylesheets s assets {} t).2.2.failure = none) :
    countAssets s assets {} t =
      binaryKinds.foldl (fun (p, t) kind => processBinaryKind s
          (assetsByPath assets ((measuredBundles s assets).flatMap CssBundle.referencedAssets))
          kind p t)
        ((processStylesheets s assets {} t).2.1, (processStylesheets s assets {} t).2.2) := by
  unfold countAssets
  dsimp only
  rw [h, if_neg (by simp), (processStylesheets_accounts h).1]

/-- What a run returns that leaves the ledger clear. -/
theorem processAssets_clear {assets : List CollectedAsset}
    (h : (processAssets s assets t).2.failure = none) :
    ∃ p, (processAssets s assets t).1 = .ok p ∧
      p.rows = (countAssets s assets {} t).1.rows ∧
      p.listed = (countAssets s assets {} t).1.listed ∧
      p.processed.contributions.Perm (countAssets s assets {} t).1.processed.contributions ∧
      (countAssets s assets {} t).2.failure = none := by
  have hstart : t.failure = none := (frame_processAssets (leads_passes s) assets t).clear h
  unfold processAssets at h ⊢
  rw [hstart] at h ⊢
  dsimp only [Option.isNone_none] at h ⊢
  rw [if_pos rfl] at h ⊢
  cases hcount : (countAssets s assets {} t).2.failure with
  | none => exact ⟨_, rfl, rfl, rfl, sortByKey_perm, rfl⟩
  | some failed =>
    rw [hcount] at h
    dsimp only at h
    split at h
    · rw [hcount] at h
      cases h
    · rw [hcount] at h
      cases h

/-- A run leaves the ledger clear exactly when its attempts do. -/
theorem clear_iff_staysClear {assets : List CollectedAsset} {ledger : BudgetState} :
    (processAssets s assets ⟨ledger, []⟩).2.failure = none ↔ StaysClear s assets ledger := by
  have hsheets := processStylesheets_clear_iff (s := s) assets {} ⟨ledger, []⟩
  constructor
  · intro h
    obtain ⟨-, -, -, -, -, hcount⟩ := processAssets_clear h
    have hcss := clear_processStylesheets hcount
    refine ⟨hsheets.mp hcss, ?_⟩
    rw [countAssets_of_clear hcss, binaryKinds_clear_iff] at hcount
    exact hcount.2
  · intro h
    have hcss := hsheets.mpr h.css
    have hcount : (countAssets s assets {} ⟨ledger, []⟩).2.failure = none := by
      rw [countAssets_of_clear hcss, binaryKinds_clear_iff]
      exact ⟨hcss, h.files⟩
    have hstart : Trail.failure ⟨ledger, []⟩ = none :=
      (frame_countAssets (leads_passes s) assets {} ⟨ledger, []⟩).clear hcount
    unfold processAssets
    rw [hstart, Option.isNone_none, if_pos rfl]
    dsimp only
    rw [hcount]
    exact hcount

end

/-! ## Conservation -/

def sumOf (contributions : List AssetContribution) : MeasuredSizes where
  rawBytes := (contributions.map AssetContribution.rawBytes).sum
  minifiedBytes := (contributions.map AssetContribution.minifiedBytes).sum
  gzipBytes := (contributions.map AssetContribution.gzipBytes).sum
  brotliBytes := (contributions.map AssetContribution.brotliBytes).sum
  zstdBytes := (contributions.map AssetContribution.zstdBytes).sum

theorem total_eq_sumOf (processed : ProcessedAssets) :
    processed.total = sumOf processed.contributions := by
  have hfold : ∀ (contributions : List AssetContribution) (total : MeasuredSizes),
      contributions.foldl (fun total contribution => total.add contribution.sizes) total =
        total.add (sumOf contributions) := by
    intro contributions
    induction contributions with
    | nil =>
      intro total
      rfl
    | cons first contributions ih =>
      intro total
      rw [List.foldl_cons, ih]
      simp [MeasuredSizes.add, sumOf, AssetContribution.sizes, Nat.add_assoc]
  rw [ProcessedAssets.total, hfold]
  simp [MeasuredSizes.add, MeasuredSizes.zero]

/-- Every collected asset is counted in one contribution, of its own kind, or listed once. -/
structure Conserved (assets : List CollectedAsset) (p : Processing) : Prop where
  settled : ∀ asset ∈ assets, p.counted.count asset.path + p.listed.count asset.path = 1
  ofKind : ∀ row ∈ p.rows, ∀ asset ∈ assets, asset.path ∈ row.paths → row.kind = asset.kind
  listedOnce : p.listed.Nodup
  apart : ∀ path ∈ p.counted, path ∉ p.listed
  rows : p.processed.contributions.Perm (p.rows.map Row.contribution)
  kinds : (p.processed.contributions.map AssetContribution.kind).Nodup
  total : p.processed.total = sumOf p.processed.contributions

/-- A run from the given ledger ends with the timeout or conserves the assets; after a
breach, at any point, nothing is counted and everything is listed. -/
structure Conservation (s : Surroundings) (assets : List CollectedAsset)
    (ledger : BudgetState) : Prop where
  timeout : ∀ failed, (processAssets s assets ⟨ledger, []⟩).1 = .error failed →
    failed.stage = .timeout
  conserved : ∀ p, (processAssets s assets ⟨ledger, []⟩).1 = .ok p → Conserved assets p
  breach : (∃ state ∈ (processAssets s assets ⟨ledger, []⟩).2.states,
      state.moduleLimitMessage.isSome) →
    ∃ p, (processAssets s assets ⟨ledger, []⟩).1 = .ok p ∧ p.counted = [] ∧
      p.processed.contributions = [] ∧ p.listed = assets.map fun asset => asset.path

/-- What the measured stylesheets list besides is no two times the same path, and no file
that is settled on its own account. -/
structure Separate (s : Surroundings) (assets : List CollectedAsset) : Prop where
  once : (disclosedPaths s assets).Nodup
  apart : ∀ path ∈ disclosedPaths s assets,
    path ∉ (shippedFiles s assets).map fun asset => asset.path

section

variable {s : Surroundings} {assets : List CollectedAsset}

theorem kinds_nodup {p : Processing} {files : List CollectedAsset} {disclosed : List String}
    (h : Accounts p files disclosed (.css :: binaryKinds)) : (p.rows.map Row.kind).Nodup := by
  have hall : (AssetKind.css :: binaryKinds).Nodup := by decide
  exact hall.sublist h.kinds

/-- The accounts decide whether the assets are conserved. -/
theorem settled_iff {p : Processing} {files : List CollectedAsset} {disclosed : List String}
    {kinds : List AssetKind} (h : Accounts p files disclosed kinds)
    (hfiles : (files.map fun asset => asset.path).Nodup)
    (hassets : ∀ asset ∈ assets, asset ∈ files) :
    ((∀ asset ∈ assets, p.counted.count asset.path + p.listed.count asset.path = 1) ∧
      p.listed.Nodup ∧ ∀ path ∈ p.counted, path ∉ p.listed) ↔
    disclosed.Nodup ∧ ∀ path ∈ disclosed, path ∉ files.map fun asset => asset.path := by
  have honce : ∀ path, (files.map fun asset => asset.path).count path ≤ 1 :=
    List.nodup_iff_count_le_one.mp hfiles
  constructor
  · rintro ⟨-, hlisted, hapart⟩
    -- no path is counted and listed together, so the two counts never exceed one
    have hle : ∀ path, p.counted.count path + p.listed.count path ≤ 1 := by
      intro path
      have hcounted := (h.counted path).trans (honce path)
      have hlist := List.nodup_iff_count_le_one.mp hlisted path
      by_cases hin : path ∈ p.counted
      · rw [List.count_eq_zero.mpr (hapart path hin)]
        omega
      · rw [List.count_eq_zero.mpr hin]
        omega
    constructor
    · apply List.nodup_iff_count_le_one.mpr
      intro path
      have hbalance := h.balance path
      have hpath := hle path
      omega
    · intro path hmem hfile
      have hbalance := h.balance path
      have hpath := hle path
      have hone := List.count_pos_iff.mpr hmem
      have htwo := List.count_pos_iff.mpr hfile
      omega
  · rintro ⟨hnodup, hapart⟩
    have hle : ∀ path, p.counted.count path + p.listed.count path ≤ 1 := by
      intro path
      have hbalance := h.balance path
      have hdisclosed := List.nodup_iff_count_le_one.mp hnodup path
      have hfile := honce path
      by_cases hin : path ∈ disclosed
      · have hzero := List.count_eq_zero.mpr (hapart path hin)
        omega
      · have hzero := List.count_eq_zero.mpr hin
        omega
    refine ⟨fun asset hasset => ?_, ?_, fun path hcounted hlisted => ?_⟩
    · have hbalance := h.balance asset.path
      have hpath := hle asset.path
      have hfile : asset.path ∈ files.map fun asset => asset.path :=
        List.mem_map.mpr ⟨asset, hassets asset hasset, rfl⟩
      have hpos := List.count_pos_iff.mpr hfile
      omega
    · apply List.nodup_iff_count_le_one.mpr
      intro path
      have hpath := hle path
      omega
    · have hpath := hle path
      have hone := List.count_pos_iff.mpr hcounted
      have htwo := List.count_pos_iff.mpr hlisted
      omega

theorem processAssets_failed {t : Trail} {failed : AssetBudgetFailure}
    (h : (processAssets s assets t).2.failure = some failed) :
    (processAssets s assets t).1 =
      if failed.stage = .timeout then .error failed
      else .ok { processed := discloseBudgetBreach assets failed } := by
  unfold processAssets at h ⊢
  generalize (if t.failure.isNone = true then countAssets s assets {} t else ({}, t)) = run at h ⊢
  obtain ⟨p, next⟩ := run
  dsimp only at h ⊢
  cases hnext : next.failure with
  | none =>
    rw [hnext] at h
    rw [hnext] at h
    cases h
  | some last =>
    rw [hnext] at h
    dsimp only at h
    split at h
    · rename_i htimeout
      rw [hnext] at h
      cases h
      simp only [if_pos htimeout]
    · rename_i htimeout
      rw [hnext] at h
      cases h
      simp only [if_neg htimeout]

theorem listed_discloseBudgetBreach (failed : AssetBudgetFailure) :
    Processing.listed { processed := discloseBudgetBreach assets failed } =
      assets.map fun asset => asset.path := by
  have hmap : (assets.map uncountedOf).map UncountedAsset.path =
      assets.map fun asset => asset.path := List.map_map
  exact hmap

theorem conserved_breach {failed : AssetBudgetFailure}
    (hdistinct : (assets.map fun asset => asset.path).Nodup) :
    Conserved assets { processed := discloseBudgetBreach assets failed } := by
  have hlisted := @listed_discloseBudgetBreach assets failed
  refine ⟨fun asset hasset => ?_, fun row hrow => (nomatch hrow), ?_, fun path hpath => ?_,
    .refl _, List.nodup_nil, rfl⟩
  · rw [hlisted, List.count_eq_one_of_mem hdistinct (List.mem_map.mpr ⟨asset, hasset, rfl⟩)]
    rfl
  · rw [hlisted]
    exact hdistinct
  · exact nomatch hpath

theorem conserved_iff {t : Trail} (hdistinct : (assets.map fun asset => asset.path).Nodup)
    (hclear : (processAssets s assets t).2.failure = none) {p : Processing}
    (hp : (processAssets s assets t).1 = .ok p) : Conserved assets p ↔ Separate s assets := by
  obtain ⟨_, hok, hrows, hlisted, hperm, hcount⟩ := processAssets_clear hclear
  rw [hp] at hok
  cases hok
  have haccounts := countAssets_accounts hcount
  have hcounted : p.counted = (countAssets s assets {} t).1.counted := by
    rw [Processing.counted, Processing.counted, hrows]
  have hcontributions : p.processed.contributions.Perm (p.rows.map Row.contribution) := by
    rw [hrows, ← haccounts.contributions]
    exact hperm
  have hiff := settled_iff haccounts (nodup_shippedFiles hdistinct)
    (fun asset hasset => mem_shippedFiles_of_mem hdistinct hasset)
  rw [← hcounted, ← hlisted] at hiff
  constructor
  · intro h
    obtain ⟨honce, hapart⟩ := hiff.mp ⟨h.settled, h.listedOnce, h.apart⟩
    exact ⟨honce, hapart⟩
  · intro h
    obtain ⟨hsettled, honce, hapart⟩ := hiff.mpr ⟨h.once, h.apart⟩
    refine ⟨hsettled, fun row hrow asset hasset hpath => ?_, honce, hapart, hcontributions, ?_,
      total_eq_sumOf _⟩
    · rw [hrows] at hrow
      obtain ⟨file, hfile, heq, hkind⟩ := haccounts.filed row hrow _ hpath
      have hsame : file = asset := eq_of_path (nodup_shippedFiles hdistinct) hfile
        (mem_shippedFiles_of_mem hdistinct hasset) heq
      rw [← hkind, hsame]
    · have hkinds : ((p.rows.map Row.contribution).map AssetContribution.kind).Nodup := by
        rw [List.map_map, hrows]
        exact kinds_nodup haccounts
      exact (hcontributions.map _).nodup_iff.mpr hkinds

theorem coherent_start (ledger : BudgetState) : Trail.Coherent ⟨ledger, []⟩ :=
  fun _ hstate => nomatch hstate

/-- A breach at any point is the failure the run ends with. -/
theorem breached_of_mem_states {ledger state : BudgetState}
    (hstate : state ∈ (processAssets s assets ⟨ledger, []⟩).2.states)
    (hbreach : state.moduleLimitMessage.isSome) :
    ∃ failed, (processAssets s assets ⟨ledger, []⟩).2.failure = some failed ∧
      failed.stage = .moduleGraphLimit := by
  obtain ⟨first, hfirst⟩ := Option.isSome_iff_exists.mp hbreach
  have hleads := frame_processAssets (leads_passes s) assets ⟨ledger, []⟩
  have hcoherent := hleads.coherent (coherent_start ledger)
  have hlast : (processAssets s assets ⟨ledger, []⟩).2.ledger.moduleLimitMessage = some first := by
    rcases List.mem_cons.mp hstate with heq | hpast
    · rw [← heq]
      exact hfirst
    · exact (hcoherent state hpast).message first hfirst
  rw [Trail.failure, AssetBudget.failure, hlast]
  exact ⟨_, rfl, rfl⟩

/-- The assets are conserved unless nothing stops the stage and the measured stylesheets
repeat a path in what they list besides. -/
theorem asset_conservation {ledger : BudgetState}
    (hdistinct : (assets.map fun asset => asset.path).Nodup) :
    Conservation s assets ledger ↔ (StaysClear s assets ledger → Separate s assets) := by
  rw [← clear_iff_staysClear]
  cases hlast : (processAssets s assets ⟨ledger, []⟩).2.failure with
  | none =>
    obtain ⟨p, hok, -⟩ := processAssets_clear hlast
    constructor
    · intro h _
      exact (conserved_iff hdistinct hlast hok).mp (h.conserved p hok)
    · intro h
      refine ⟨fun failed hfailed => ?_, fun q hq => ?_, fun ⟨state, hstate, hbreach⟩ => ?_⟩
      · rw [hok] at hfailed
        cases hfailed
      · exact (conserved_iff hdistinct hlast hq).mpr (h rfl)
      · obtain ⟨failed, hfailed, -⟩ := breached_of_mem_states hstate hbreach
        rw [hlast] at hfailed
        cases hfailed
  | some failed =>
    have hrun := processAssets_failed hlast
    refine ⟨fun _ hnone => (nomatch hnone), fun _ => ?_⟩
    refine ⟨fun error herror => ?_, fun p hp => ?_, fun ⟨state, hstate, hbreach⟩ => ?_⟩
    · rw [hrun] at herror
      split at herror
      · rename_i htimeout
        cases herror
        exact htimeout
      · cases herror
    · rw [hrun] at hp
      split at hp
      · cases hp
      · cases hp
        exact conserved_breach hdistinct
    · obtain ⟨last, heq, hstage⟩ := breached_of_mem_states hstate hbreach
      rw [hlast] at heq
      cases heq
      refine ⟨{ processed := discloseBudgetBreach assets failed }, ?_, rfl, rfl, ?_⟩
      · rw [hrun, if_neg (by rw [hstage]; decide)]
      · exact listed_discloseBudgetBreach failed

end

/-- The states of the ledger after the calls of a bundler. -/
def statesOf : List (Locked Unit) → BudgetState → List BudgetState
  | [], _ => []
  | call :: calls, state => (call state).2 :: statesOf calls (call state).2

theorem isChain_statesOf {calls : List (Locked Unit)}
    (h : ∀ call ∈ calls, Section.Frame Later call) (state : BudgetState) :
    (state :: statesOf calls state).IsChain Later := by
  induction calls generalizing state with
  | nil => exact .singleton state
  | cons call calls ih =>
    rw [statesOf, List.isChain_cons_cons]
    exact ⟨h call List.mem_cons_self state,
      ih (fun later hlater => h later (List.mem_cons_of_mem _ hlater)) _⟩

def collectedSheet (path text : String) : CollectedAsset where
  path := path
  kind := .css
  bytes := utf8 text.toList
  fingerprint := ⟨path, (utf8 text.toList).length, 0, some 0⟩

def firstFilm : CollectedAsset := collectedSheet "/p/a.css" ".a{background:url(intro.mp4)}"

def secondFilm : CollectedAsset := collectedSheet "/p/b.css" ".b{background:url(intro.mp4)}"

/-- A sheet that imports another one, which does not exist. -/
def brokenSheet : CollectedAsset := collectedSheet "/p/c.css" "@import \"./missing.css\";"

/-- What the bundler asks of the ledger for some sheets. -/
def filmCalls (sheets : List CollectedAsset) : List (Locked Unit) :=
  sheets.map (chargeCssSnapshot (.production 10000) false) ++
    [if brokenSheet ∈ sheets then recordFailedPath "/p/missing.css" true
      else observeMetadata "/p/intro.mp4" ⟨16, 0⟩]

theorem later_of_mem_filmCalls {sheets : List CollectedAsset} {call : Locked Unit}
    (h : call ∈ filmCalls sheets) : Section.Frame Later call := by
  rcases List.mem_append.mp h with hcharge | hlast
  · obtain ⟨sheet, -, rfl⟩ := List.mem_map.mp hcharge
    exact later_chargeCssSnapshot _ false sheet
  · rw [List.mem_singleton.mp hlast]
    split
    · exact later_observe _ _
    · exact later_observe _ _

/-- Sheets that show one film, and the broken one. -/
def filmSheets (sheets : List CollectedAsset) : Surroundings where
  bundleWith _ entries :=
    if brokenSheet ∈ entries then
      .error "lightningcss failed to bundle /p/c.css: No such file or directory"
    else .ok
      { rawBytes := entries.flatMap fun entry => entry.bytes
        minifiedBytes := entries.flatMap fun entry => entry.bytes
        referencedUncounted := [⟨"/p/intro.mp4", 16⟩] }
  compress _ bytes := .ok ⟨bytes.length, bytes.length, bytes.length⟩
  expiredBefore _ := false
  expiredAfter _ := false
  reads attempt :=
    match attempt with
    | .union => statesOf (filmCalls sheets)
    | .sheet path => statesOf (filmCalls (sheets.filter fun sheet => sheet.path = path))
    | .file _ => fun _ => []
  reads_later attempt state := by
    cases attempt with
    | union | sheet path => exact isChain_statesOf (fun _ => later_of_mem_filmCalls) state
    | file path => exact .singleton state

def filmLedger (sheets : List CollectedAsset) : BudgetState :=
  newState (.production 10000) 100 [] sheets

theorem asset_conservation_one_sheet :
    Conservation (filmSheets [firstFilm]) [firstFilm] (filmLedger [firstFilm]) := by
  have hbundles : (measuredBundles (filmSheets [firstFilm]) [firstFilm]).flatMap
      CssBundle.referencedAssets = [] := by
    decide
  refine (asset_conservation (by decide)).mpr fun _ => ⟨by decide, ?_⟩
  intro path hpath hfile
  have hfilm : path = "/p/intro.mp4" := by
    have hdisclosed : disclosedPaths (filmSheets [firstFilm]) [firstFilm] = ["/p/intro.mp4"] := by
      decide
    rw [hdisclosed] at hpath
    exact List.mem_singleton.mp hpath
  obtain ⟨asset, hasset, rfl⟩ := List.mem_map.mp hfile
  rcases mem_of_mem_assetsByPath (mem_all_of_shipped (by decide) hasset) with
    hsheet | hreferenced
  · rw [List.mem_singleton.mp hsheet] at hfilm
    exact absurd hfilm (by decide)
  · rw [hbundles] at hreferenced
    exact nomatch hreferenced

/-- The limits of the ledger are far off when the sheets are measured one by one. -/
theorem film_staysClear :
    StaysClear (filmSheets [firstFilm, secondFilm, brokenSheet])
      [firstFilm, secondFilm, brokenSheet]
      (filmLedger [firstFilm, secondFilm, brokenSheet]) := by
  have hattempts : cssAttempts (filmSheets [firstFilm, secondFilm, brokenSheet])
        [firstFilm, secondFilm, brokenSheet] =
      [(.union, [firstFilm, secondFilm, brokenSheet]), (.sheet "/p/a.css", [firstFilm]),
        (.sheet "/p/b.css", [secondFilm]), (.sheet "/p/c.css", [brokenSheet])] := by
    decide
  refine ⟨?_, fun _ _ => ⟨rfl, rfl⟩⟩
  rw [hattempts]
  refine ⟨by decide, by decide, by decide, by decide, ?_⟩
  unfold Clears
  decide

/-- A film that two separately measured sheets show is listed twice. -/
theorem shared_film_listed_twice :
    ¬ ∀ (s : Surroundings) (assets : List CollectedAsset) (ledger : BudgetState),
      (assets.map fun asset => asset.path).Nodup → Conservation s assets ledger := by
  intro hconserved
  have hdistinct : (([firstFilm, secondFilm, brokenSheet]).map fun asset => asset.path).Nodup := by
    decide
  have hclear := clear_iff_staysClear.mpr film_staysClear
  obtain ⟨p, hok, -⟩ := processAssets_clear hclear
  have hseparate := (conserved_iff hdistinct hclear hok).mp
    ((hconserved _ _ _ hdistinct).conserved p hok)
  exact absurd hseparate.once (by decide)

end ImportLens.Pipeline.AssetCounting
