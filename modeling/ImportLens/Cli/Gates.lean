import ImportLens.Cli.Check
import ImportLens.Extension.Budgets

/-!
# Three budget gates

The daemon's workspace report, the editor and the command line check each decide
whether a size may be held against a limit, from their own copies of the stage
lists.  On the results the daemon can send they decide alike.
-/

namespace ImportLens.Daemon

def budgetableBrotli (result : Option ImportResult) : Option Nat :=
  (result.filter ImportResult.isBudgetable).bind ImportResult.brotliBytes

def isImportBudgetViolation (result : Option ImportResult) (perImportBrotliBytes : Option Nat) :
    Bool :=
  match budgetableBrotli result, perImportBrotliBytes with
  | some brotliBytes, some limit => decide (brotliBytes > limit)
  | _, _ => false

end ImportLens.Daemon

namespace ImportLens.Cli

open ImportLens.Daemon

/-! ## The lists -/

theorem durableResultStages_eq :
    durableResultStages = Stage.durableResultStages ∧
      Extension.durableResultStages = Stage.durableResultStages := by
  exact ⟨rfl, rfl⟩

theorem transientStages_eq : transientStages = Extension.transientAnalysisStages := rfl

theorem preventsVerdict_eq (stage : String) :
    preventsVerdict stage =
      (!Stage.mayEnterADurableStore stage || Stage.preventsBudgetVerdict stage) := rfl

/-! ## Imports -/

/-- What the daemon puts on the wire: five sizes and no stage, or no size and the
stage that could not answer. -/
inductive OnTheWire (result : ImportResult) : Prop
  | measured (hsizes : result.sizes.isSome = true) (hstage : result.unmeasuredStage = none)
  | unmeasured (hraw : result.rawBytes = none) (hminified : result.minifiedBytes = none)
      (hgzip : result.gzipBytes = none) (hbrotli : result.brotliBytes = none)
      (hzstd : result.zstdBytes = none) (hstage : result.unmeasuredStage.isSome = true)

section

variable {result : ImportResult}

theorem sizes_eq_none_of_brotliBytes (h : result.brotliBytes = none) : result.sizes = none := by
  unfold ImportResult.sizes
  rw [h]
  cases result.rawBytes <;> cases result.minifiedBytes <;> cases result.gzipBytes <;> rfl

theorem brotliBytes_of_sizes {sizes : MeasuredSizes} (h : result.sizes = some sizes) :
    result.brotliBytes = some sizes.brotliBytes := by
  unfold ImportResult.sizes at h
  cases hraw : result.rawBytes <;> cases hminified : result.minifiedBytes <;>
    cases hgzip : result.gzipBytes <;> cases hbrotli : result.brotliBytes <;>
    cases hzstd : result.zstdBytes <;> simp_all
  rw [← h]

theorem isMeasured_eq (h : OnTheWire result) : isMeasured result = result.sizes.isSome := by
  cases h with
  | measured hsizes hstage =>
    obtain ⟨sizes, hsome⟩ := Option.isSome_iff_exists.mp hsizes
    rw [isMeasured, brotliBytes_of_sizes hsome, hsome]
    rfl
  | unmeasured _ _ _ hbrotli _ hstage =>
    rw [isMeasured, sizes_eq_none_of_brotliBytes hbrotli, hbrotli]
    rfl

theorem nonBudgetableImportStages_isEmpty (hstage : result.unmeasuredStage = none) :
    (nonBudgetableImportStages result).isEmpty =
      (result.isDurable &&
        result.diagnostics.all fun diagnostic =>
          !Stage.preventsBudgetVerdict diagnostic.stage) := by
  rw [Bool.eq_iff_iff, List.isEmpty_iff, nonBudgetableImportStages_eq_nil_iff]
  simp only [ImportResult.isDurable, hstage, preventsVerdict_eq, Option.all_none, Bool.true_and,
    Bool.and_eq_true, List.all_eq_true, Option.mem_def, reduceCtorEq, false_implies, implies_true,
    true_and, Bool.or_eq_false_iff, Bool.not_eq_false', Bool.not_eq_true']
  constructor
  · exact fun h => ⟨fun item hin => (h item hin).1, fun item hin => (h item hin).2⟩
  · exact fun h item hin => ⟨h.1 item hin, h.2 item hin⟩

theorem isSome_budgetedImport :
    (budgetedImport result).isSome =
      (isMeasured result && (nonBudgetableImportStages result).isEmpty) := by
  unfold budgetedImport isMeasured
  cases (nonBudgetableImportStages result).isEmpty <;> simp

theorem budgetedImport_isSome_eq (h : OnTheWire result) :
    (budgetedImport result).isSome = result.isBudgetable := by
  rw [isSome_budgetedImport, isMeasured_eq h, ImportResult.isBudgetable, Bool.and_assoc]
  cases h with
  | measured hsizes hstage => rw [nonBudgetableImportStages_isEmpty hstage]
  | unmeasured _ _ _ hbrotli _ hstage =>
    rw [sizes_eq_none_of_brotliBytes hbrotli]
    rfl

theorem isBudgetableImportResult_eq :
    Extension.isBudgetableImportResult (some result) = result.isBudgetable := by
  have hnon : (!Extension.hasNonBudgetableDiagnostic result.diagnostics) =
      result.diagnostics.all fun diagnostic => !Stage.preventsBudgetVerdict diagnostic.stage := by
    rw [Extension.hasNonBudgetableDiagnostic, List.not_any_eq_all_not]
    rfl
  unfold Extension.isBudgetableImportResult Extension.isDurableImportResult
  rw [Option.any_some, Option.all_some, hnon]
  rfl

end

/-! ## Totals -/

section

variable (response : FileCostFlags)

theorem fileCostQuality_eq :
    isFileCost (fileCostQuality response) =
      Extension.isFileCost (Extension.fileCostQuality response) := by
  unfold isFileCost Extension.isFileCost fileCostQuality Extension.fileCostQuality
  by_cases hdegraded : response.degraded = some true
  · rw [if_pos hdegraded, if_pos hdegraded]
    rfl
  · rw [if_neg hdegraded, if_neg hdegraded]
    rfl

theorem isUsableFileSize_eq :
    isUsableFileSize response = Extension.isBudgetableFileSize response := by
  unfold isUsableFileSize Extension.isBudgetableFileSize Extension.isDurableFileSize
  rw [any_or, Bool.not_or, ← Bool.and_assoc]
  rfl

end

/-! ## The same verdict for the same limit -/

/-- A ready import is a violation in the editor exactly if its row is one in the
report. -/
theorem importViolation_isSome_eq (formatBytes : Nat → String)
    (budgets : Extension.ImportLensBudgets) (state : Extension.ImportAnalysisState)
    (hready : state.status = .ready) :
    (Extension.importViolation formatBytes state budgets).isSome =
      isImportBudgetViolation state.result budgets.perImportBrotliBytes := by
  unfold Extension.importViolation isImportBudgetViolation budgetableBrotli
  cases hresult : state.result with
  | none => rfl
  | some result =>
    rw [isBudgetableImportResult_eq]
    cases hbudgetable : result.isBudgetable with
    | false => simp [Option.filter, hbudgetable]
    | true =>
      have hsizes : result.sizes.isSome = true := by
        simp only [ImportResult.isBudgetable, Bool.and_eq_true] at hbudgetable
        exact hbudgetable.1.1
      obtain ⟨sizes, hsome⟩ := Option.isSome_iff_exists.mp hsizes
      simp only [Option.filter, hbudgetable, ↓reduceIte, Extension.measuredSizes,
        Option.bind_some, brotliBytes_of_sizes hsome, hsome, hready]
      cases budgets.perImportBrotliBytes with
      | none => rfl
      | some limit => by_cases hover : sizes.brotliBytes > limit <;> simp [hover]

theorem importExceeds_eq {result : ImportResult} (h : OnTheWire result) (budgets : Budgets) :
    importExceeds budgets result =
      isImportBudgetViolation (some result) budgets.perImportBrotliBytes := by
  have hlisted := budgetedImport_isSome_eq h
  unfold importExceeds isImportBudgetViolation budgetableBrotli
  cases hbudgetable : result.isBudgetable with
  | false =>
    rw [hbudgetable, Option.isSome_eq_false_iff, Option.isNone_iff_eq_none] at hlisted
    simp [hlisted, Option.filter, hbudgetable]
  | true =>
    rw [hbudgetable] at hlisted
    obtain ⟨item, hsome⟩ := Option.isSome_iff_exists.mp hlisted
    have hbytes : result.brotliBytes = some item.brotliBytes := by
      unfold budgetedImport at hsome
      split at hsome
      · obtain ⟨brotliBytes, hbytes, rfl⟩ := Option.map_eq_some_iff.mp hsome
        exact hbytes
      · cases hsome
    simp only [hsome, Option.filter, hbudgetable, ↓reduceIte, Option.bind_some, hbytes,
      Option.any_some, exceeds]
    cases budgets.perImportBrotliBytes <;> rfl

/-- The editor's verdict on a total is the comparison the check makes, on the totals
the check judges. -/
theorem fileBudgetVerdict_eq (budgets : Extension.ImportLensBudgets)
    (response : FileSizeDocumentResponse) (limit : Nat)
    (hlimit : budgets.perFileBrotliBytes = some limit) :
    Extension.fileBudgetVerdict budgets (some (Extension.documentFileCost response)) =
      if !isUsableFileSize response.toFileCostFlags then .notEvaluated
      else if exceeds response.brotliBytes (some limit) then .overBudget
      else .withinBudget := by
  unfold Extension.fileBudgetVerdict
  rw [hlimit, isUsableFileSize_eq]
  simp only [exceeds, Option.any_some, decide_eq_true_eq]
  rfl

/-- The three gates agree: on the imports that may be judged and on the verdict for a
limit, on the totals that may be judged and on the verdict for a limit. -/
theorem gates_agree (formatBytes : Nat → String) (budgets : Extension.ImportLensBudgets) :
    (∀ result : ImportResult, OnTheWire result →
      (budgetedImport result).isSome = Extension.isBudgetableImportResult (some result) ∧
        Extension.isBudgetableImportResult (some result) = result.isBudgetable ∧
        importExceeds ⟨budgets.perImportBrotliBytes, budgets.perFileBrotliBytes⟩ result =
          isImportBudgetViolation (some result) budgets.perImportBrotliBytes ∧
        ∀ state : Extension.ImportAnalysisState, state.status = .ready →
          state.result = some result →
            (Extension.importViolation formatBytes state budgets).isSome =
              isImportBudgetViolation (some result) budgets.perImportBrotliBytes) ∧
    ∀ response : FileSizeDocumentResponse,
      isUsableFileSize response.toFileCostFlags =
          Extension.isBudgetableFileSize response.toFileCostFlags ∧
        isUsableFileSize response.toFileCostFlags =
          (!response.hasError && isFileCost (fileCostQuality response.toFileCostFlags)) ∧
        isUsableFileSize response.toFileCostFlags =
          (!response.hasError &&
            Extension.isFileCost (Extension.fileCostQuality response.toFileCostFlags)) ∧
        ∀ limit, budgets.perFileBrotliBytes = some limit →
          Extension.fileBudgetVerdict budgets (some (Extension.documentFileCost response)) =
            if !isUsableFileSize response.toFileCostFlags then .notEvaluated
            else if exceeds response.brotliBytes (some limit) then .overBudget
            else .withinBudget := by
  constructor
  · intro result hwire
    refine ⟨?_, isBudgetableImportResult_eq, importExceeds_eq hwire _, ?_⟩
    · rw [budgetedImport_isSome_eq hwire, isBudgetableImportResult_eq]
    · intro state hready hresult
      rw [importViolation_isSome_eq formatBytes budgets state hready, hresult]
  · intro response
    have husable := isUsableFileSize_eq_isFileCost response.toFileCostFlags
    refine ⟨isUsableFileSize_eq _, husable, ?_, ?_⟩
    · rw [husable, fileCostQuality_eq]
    · exact fileBudgetVerdict_eq budgets response

/-- A measured import with an upper bound among its diagnostics is refused by all. -/
theorem gates_agree_imprecise :
    (budgetedImport { ImportResult.measured "styled" ⟨9000, 4000, 1500, 1200, 1400⟩ with
      diagnostics := [⟨"imprecise_assets", "each sheet was compressed alone", []⟩] }).isSome =
    Extension.isBudgetableImportResult
      (some { ImportResult.measured "styled" ⟨9000, 4000, 1500, 1200, 1400⟩ with
        diagnostics := [⟨"imprecise_assets", "each sheet was compressed alone", []⟩] }) :=
  ((gates_agree toString { perImportBrotliBytes := some 1000 }).1 _ (.measured rfl rfl)).1

end ImportLens.Cli
