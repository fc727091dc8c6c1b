import ImportLens.Cli.FileCost

/-!
# The command line check

`importlens check` analyses the changed files one after the other, collects the
violations and the files it could not judge, and ends with 0, 1 or 3.
-/

namespace ImportLens.Cli

open ImportLens.Daemon

/-! ## The run -/

structure Budgets where
  perImportBrotliBytes : Option Nat := none
  perFileBrotliBytes : Option Nat := none
  deriving DecidableEq, Repr

def hasBudgets (budgets : Budgets) : Bool :=
  budgets.perImportBrotliBytes.isSome || budgets.perFileBrotliBytes.isSome

def exitBudgetExceeded : Nat := 1

def exitCouldNotMeasure : Nat := 3

def supportedExtensions : List String :=
  [".js", ".jsx", ".ts", ".tsx", ".mjs", ".mts", ".cjs", ".cts", ".svelte", ".vue", ".astro"]

/-- `path.extname`: from the last dot of the last component, unless nothing stands
before that dot. -/
def extname (filePath : String) : String :=
  let trimmed := (filePath.toList.reverse.dropWhile (· == '/')).takeWhile (· != '/')
  let after := trimmed.takeWhile (· != '.')
  let before := trimmed.drop (after.length + 1)
  if after.length = trimmed.length || before.isEmpty || trimmed = ['.', '.'] then ""
  else String.ofList ('.' :: after.reverse)

/-- The paths of the run and the way it prints a size. -/
structure Host where
  /-- `path.resolve(resolveRoot, filePath)` -/
  resolve : String → String
  /-- `path.relative(cwd, absolute)`, with forward slashes. -/
  relative : String → String
  formatBytes : Nat → String

/-- A file whose budgets were not evaluated. -/
structure UnmeasurableFile extends FileCostFlags where
  relative : String
  blockedImports : List UnmeasuredImport
  deriving DecidableEq, Repr

/-- What the run has collected so far. -/
structure Findings where
  violations : List String := []
  unmeasurable : List UnmeasurableFile := []
  deriving DecidableEq, Repr

section

variable (host : Host) (budgets : Budgets)

def analyzeOrRecordFailure (attempt : String → Except String AnalyzedFile) (filePath : String) :
    Except UnmeasurableFile AnalyzedFile :=
  let absolute := host.resolve filePath
  match attempt absolute with
  | .ok result => .ok result
  | .error message =>
      .error {
        relative := host.relative absolute
        blockedImports := []
        incomplete := some false
        degraded := some false
        error := some message }

def blockedImports (result : AnalyzedFile) : List UnmeasuredImport :=
  result.unmeasured.filter fun item => item.isTransient || item.blocksBudget

def exceeds (bytes : Nat) (limit : Option Nat) : Bool :=
  limit.any fun limit => decide (bytes > limit)

def fileLine (relative : String) (bytes : Nat) : String :=
  relative ++ ": file Brotli budget exceeded: " ++ host.formatBytes bytes ++ " > " ++
    host.formatBytes (budgets.perFileBrotliBytes.getD 0)

def importLine (relative : String) (item : BudgetedImport) : String :=
  relative ++ ": " ++ item.specifier ++ " Brotli budget exceeded: " ++
    host.formatBytes item.brotliBytes ++ " > " ++
    host.formatBytes (budgets.perImportBrotliBytes.getD 0)

def checkFile (findings : Findings) (attempt : Except UnmeasurableFile AnalyzedFile) : Findings :=
  match attempt with
  | .error unmeasurable =>
      { findings with unmeasurable := findings.unmeasurable ++ [unmeasurable] }
  | .ok result =>
      let relative := host.relative result.filePath
      let blocked := blockedImports result
      if !isUsableFileSize result.toFileCostFlags || blocked.length > 0 then
        { findings with
          unmeasurable := findings.unmeasurable ++ [{
            relative := relative
            blockedImports := blocked
            incomplete := some (result.incomplete == some true)
            degraded := some (result.degraded == some true)
            diagnostics := result.diagnostics
            error := result.error }] }
      else
        let violations :=
          if exceeds result.brotliBytes budgets.perFileBrotliBytes then
            findings.violations ++ [fileLine host budgets relative result.brotliBytes]
          else findings.violations
        { findings with
          violations := result.imports.foldl
            (fun violations item =>
              if exceeds item.brotliBytes budgets.perImportBrotliBytes then
                violations ++ [importLine host budgets relative item]
              else violations) violations }

def unmeasurableLine (file : UnmeasurableFile) : String :=
  let stages := String.intercalate ", "
    (sorted (file.blockedImports.map fun item => item.stage).eraseDups)
  let count := file.blockedImports.length
  let imports := toString count ++ if count = 1 then " import" else " imports"
  let impreciseImport := file.blockedImports.any fun item =>
    (item.stage.toList.splitOn '/').contains "imprecise_assets".toList
  let fileQuality := fileCostQuality file.toFileCostFlags
  let quality := if impreciseImport then { fileQuality with imprecise := true } else fileQuality
  if file.hasError then
    file.relative ++ ": could not measure this file (" ++ file.error.getD "" ++
      ") - budget not evaluated"
  else if isFileCost quality then
    file.relative ++ ": could not measure " ++ imports ++ " (stage: " ++ stages ++
      ") - budgets not evaluated"
  else
    let detail :=
      if count > 0 then
        " (" ++ toString count ++ " unmeasured " ++
          (if count = 1 then "import" else "imports") ++ "; stage: " ++ stages ++ ")"
      else ""
    file.relative ++ ": " ++ fileCostBecause quality ++ detail ++ " - budget not evaluated"

def couldNotEvaluate : String :=
  "Import Lens could not evaluate every requested budget. A request-local failure may pass on " ++
    "a re-run; a deterministic package failure will not."

def passedLine (count : Nat) : String :=
  "Import Lens budgets passed for " ++ toString count ++ " changed " ++
    (if count = 1 then "file" else "files") ++ "."

/-- The exit code, and the lines printed. -/
structure CheckResult where
  exitCode : Nat
  lines : List String
  deriving DecidableEq, Repr

def checkedFiles (changedFiles : List String) : List String :=
  sorted (changedFiles.filter fun filePath => supportedExtensions.contains (extname filePath))

def verdict (files : Nat) (findings : Findings) : CheckResult :=
  if findings.unmeasurable.length > 0 then
    { exitCode := exitCouldNotMeasure
      lines := findings.violations ++ findings.unmeasurable.map unmeasurableLine ++
        [couldNotEvaluate] }
  else if findings.violations.length > 0 then
    { exitCode := exitBudgetExceeded, lines := findings.violations }
  else { exitCode := 0, lines := findings.violations ++ [passedLine files] }

/-- `analyzeFile` answers the call with each index. -/
def runImportLensCheck (changedFiles : List String)
    (analyzeFile : Nat → String → Except String AnalyzedFile) : CheckResult :=
  if !hasBudgets budgets then ⟨0, ["No Import Lens budgets configured."]⟩
  else
    let files := checkedFiles changedFiles
    verdict files.length (files.zipIdx.foldl
      (fun findings file =>
        checkFile host budgets findings (analyzeOrRecordFailure host (analyzeFile file.2) file.1))
      {})

end

/-! ## What one file contributes -/

abbrev Outcome : Type := Except String FileSizeDocumentResponse

def blocksVerdict (item : ImportResult) : Bool :=
  if isMeasured item then !(nonBudgetableImportStages item).isEmpty
  else transientStages.contains (item.unmeasuredStage.getD "unknown")

def refused : Outcome → Bool
  | .error _ => true
  | .ok response =>
      !isUsableFileSize response.toFileCostFlags || response.imports.any blocksVerdict

def importExceeds (budgets : Budgets) (item : ImportResult) : Bool :=
  (budgetedImport item).any fun item => exceeds item.brotliBytes budgets.perImportBrotliBytes

def exceeded (budgets : Budgets) : Outcome → Bool
  | .error _ => false
  | .ok response => exceeds response.brotliBytes budgets.perFileBrotliBytes ||
      response.imports.any (importExceeds budgets)

section

variable (host : Host) (budgets : Budgets)

def responseViolations (relative : String) (response : FileSizeDocumentResponse) : List String :=
  (if exceeds response.brotliBytes budgets.perFileBrotliBytes then
    [fileLine host budgets relative response.brotliBytes]
  else []) ++
    ((response.imports.filterMap budgetedImport).filter fun item =>
      exceeds item.brotliBytes budgets.perImportBrotliBytes).map (importLine host budgets relative)

def violationsOf (file : String × Outcome) : List String :=
  if refused file.2 then []
  else
    (file.2.toOption.toList).flatMap
      (responseViolations host budgets (host.relative (host.resolve file.1)))

def attemptOf (file : String × Outcome) : Except UnmeasurableFile AnalyzedFile :=
  analyzeOrRecordFailure host (fun absolute => file.2.map (analyzeFileWithDaemon absolute)) file.1

def findingsOf (file : String × Outcome) : Findings :=
  checkFile host budgets {} (attemptOf host file)

def outcomesOf (changedFiles : List String) (outcome : Nat → String → Outcome) :
    List (String × Outcome) :=
  (checkedFiles changedFiles).zipIdx.map fun file =>
    (file.1, outcome file.2 (host.resolve file.1))

variable {host budgets}

theorem blocks_of_nonBudgetableMeasurement {item : ImportResult} {blocked : UnmeasuredImport}
    (h : nonBudgetableMeasurement item = some blocked) :
    (blocked.isTransient || blocked.blocksBudget) = true := by
  simp only [nonBudgetableMeasurement] at h
  split at h
  · cases h
  · rename_i hstages
    cases h
    obtain ⟨stage, hin⟩ := List.exists_mem_of_ne_nil _
      (show nonBudgetableImportStages item ≠ [] by simpa using hstages)
    have hprevents : preventsVerdict stage = true := by
      unfold nonBudgetableImportStages at hin
      rw [mem_sorted, List.mem_eraseDups, List.mem_filter] at hin
      exact hin.2
    rcases Bool.or_eq_true _ _ ▸ hprevents with hnot | hnon
    · apply Bool.or_eq_true_iff.mpr (.inl _)
      exact List.any_eq_true.mpr ⟨stage, hin, hnot⟩
    · apply Bool.or_eq_true_iff.mpr (.inr _)
      exact List.any_eq_true.mpr ⟨stage, hin, hnon⟩

theorem blockedImports_eq_nil_iff {filePath : String} {response : FileSizeDocumentResponse} :
    blockedImports (analyzeFileWithDaemon filePath response) = [] ↔
      response.imports.any blocksVerdict = false := by
  have hmeasurement (item : ImportResult) :
      nonBudgetableMeasurement item = none ↔ (nonBudgetableImportStages item).isEmpty = true := by
    simp only [nonBudgetableMeasurement]
    split <;> simp_all
  rw [blockedImports, List.filter_eq_nil_iff, List.any_eq_false]
  constructor
  · intro h item hin
    cases hmeasured : isMeasured item with
    | false =>
      have hnot := h (unmeasuredImport item) (List.mem_append.mpr (.inl
        (List.mem_map.mpr ⟨item, List.mem_filter.mpr ⟨hin, by simp [hmeasured]⟩, rfl⟩)))
      simpa [blocksVerdict, hmeasured, unmeasuredImport] using hnot
    | true =>
      have hnone : nonBudgetableMeasurement item = none := by
        cases hsome : nonBudgetableMeasurement item with
        | none => rfl
        | some blocked =>
          have hnot := h blocked (List.mem_append.mpr (.inr (List.mem_filterMap.mpr
            ⟨item, List.mem_filter.mpr ⟨hin, hmeasured⟩, hsome⟩)))
          exact absurd (blocks_of_nonBudgetableMeasurement hsome) hnot
      simp [blocksVerdict, hmeasured, (hmeasurement item).mp hnone]
  · intro h blocked hin
    rcases List.mem_append.mp hin with hun | hnon
    · obtain ⟨item, hitem, rfl⟩ := List.mem_map.mp hun
      obtain ⟨hitem, hmeasured⟩ := List.mem_filter.mp hitem
      have hnot := h item hitem
      simp only [Bool.not_eq_true'] at hmeasured
      simpa [blocksVerdict, hmeasured, unmeasuredImport] using hnot
    · obtain ⟨item, hitem, hsome⟩ := List.mem_filterMap.mp hnon
      obtain ⟨hitem, hmeasured⟩ := List.mem_filter.mp hitem
      have hempty : (nonBudgetableImportStages item).isEmpty = true := by
        simpa [blocksVerdict, hmeasured] using h item hitem
      rw [(hmeasurement item).mpr hempty] at hsome
      cases hsome

theorem foldl_importLine (relative : String) (imports : List BudgetedImport)
    (violations : List String) :
    imports.foldl (fun violations item =>
      if exceeds item.brotliBytes budgets.perImportBrotliBytes then
        violations ++ [importLine host budgets relative item]
      else violations) violations =
    violations ++ (imports.filter fun item =>
      exceeds item.brotliBytes budgets.perImportBrotliBytes).map
        (importLine host budgets relative) := by
  induction imports generalizing violations with
  | nil => simp
  | cons item imports ih =>
    rw [List.foldl_cons, ih]
    by_cases h : exceeds item.brotliBytes budgets.perImportBrotliBytes <;> simp [h]

theorem checkFile_append (findings : Findings) (attempt : Except UnmeasurableFile AnalyzedFile) :
    checkFile host budgets findings attempt =
      { violations := findings.violations ++ (checkFile host budgets {} attempt).violations
        unmeasurable :=
          findings.unmeasurable ++ (checkFile host budgets {} attempt).unmeasurable } := by
  unfold checkFile
  cases attempt with
  | error unmeasurable => simp
  | ok result =>
    simp only [foldl_importLine]
    split
    · simp
    · split <;> simp

theorem foldl_checkFile {α : Type} (attempt : α → Except UnmeasurableFile AnalyzedFile)
    (calls : List α) (findings : Findings) :
    calls.foldl (fun findings call => checkFile host budgets findings (attempt call)) findings =
      { violations := findings.violations ++
          calls.flatMap fun call => (checkFile host budgets {} (attempt call)).violations
        unmeasurable := findings.unmeasurable ++
          calls.flatMap fun call => (checkFile host budgets {} (attempt call)).unmeasurable } := by
  induction calls generalizing findings with
  | nil => simp
  | cons call calls ih =>
    rw [List.foldl_cons, ih, checkFile_append]
    simp

theorem attemptOf_ok (filePath : String) (response : FileSizeDocumentResponse) :
    attemptOf host (filePath, .ok response) =
      .ok (analyzeFileWithDaemon (host.resolve filePath) response) := rfl

/-- A response is refused by the test the loop makes. -/
theorem refused_eq (filePath : String) (response : FileSizeDocumentResponse) :
    refused (.ok response) =
      (!isUsableFileSize (analyzeFileWithDaemon filePath response).toFileCostFlags ||
        decide ((blockedImports (analyzeFileWithDaemon filePath response)).length > 0)) := by
  have hblocked := @blockedImports_eq_nil_iff filePath response
  rw [refused, isUsableFileSize_analyzeFileWithDaemon]
  congr 1
  rw [Bool.eq_iff_iff, decide_eq_true_iff, gt_iff_lt, List.length_pos_iff, ne_eq, hblocked,
    Bool.not_eq_false]

theorem findingsOf_eq (file : String × Outcome) :
    (findingsOf host budgets file).violations = violationsOf host budgets file ∧
      ((findingsOf host budgets file).unmeasurable = [] ↔ refused file.2 = false) := by
  obtain ⟨filePath, outcome⟩ := file
  cases outcome with
  | error message =>
    simp [findingsOf, attemptOf, analyzeOrRecordFailure, checkFile, violationsOf, refused,
      Except.map]
  | ok response =>
    have hrefused := refused_eq (host.resolve filePath) response
    unfold findingsOf
    rw [attemptOf_ok, violationsOf]
    cases hcase : refused (.ok response) with
    | true =>
      rw [hcase] at hrefused
      simp only [checkFile, ← hrefused]
      simp
    | false =>
      rw [hcase] at hrefused
      simp only [checkFile, ← hrefused, foldl_importLine]
      simp only [Bool.false_eq_true, ↓reduceIte, and_true, Except.toOption, Option.toList_some,
        List.flatMap_cons, List.flatMap_nil, List.append_nil,
        responseViolations, List.nil_append]
      rfl

theorem violationsOf_eq_nil_iff {file : String × Outcome} (h : refused file.2 = false) :
    violationsOf host budgets file = [] ↔ exceeded budgets file.2 = false := by
  obtain ⟨filePath, outcome⟩ := file
  cases outcome with
  | error message => simp [refused] at h
  | ok response =>
    have himports : ((response.imports.filterMap budgetedImport).filter fun item =>
        exceeds item.brotliBytes budgets.perImportBrotliBytes) = [] ↔
          response.imports.any (importExceeds budgets) = false := by
      rw [List.filter_eq_nil_iff, List.any_eq_false]
      constructor
      · intro hnone item hin
        cases hsome : budgetedImport item with
        | none => simp [importExceeds, hsome]
        | some budgeted =>
          have hnot := hnone budgeted (List.mem_filterMap.mpr ⟨item, hin, hsome⟩)
          simpa [importExceeds, hsome] using hnot
      · intro hnone budgeted hin
        obtain ⟨item, hitem, hsome⟩ := List.mem_filterMap.mp hin
        simpa [importExceeds, hsome] using hnone item hitem
    rw [violationsOf, if_neg (by simp [h])]
    simp only [Except.toOption, Option.toList_some, List.flatMap_cons, List.flatMap_nil,
      List.append_nil, responseViolations, List.append_eq_nil_iff, List.map_eq_nil_iff, himports,
      exceeded, Bool.or_eq_false_iff]
    cases exceeds response.brotliBytes budgets.perFileBrotliBytes <;> simp

end

/-! ## The verdict -/

/-- A total that leaves nothing out, is of one build and is not an estimate. -/
structure IsCompleteTotal (response : FileSizeDocumentResponse) : Prop where
  no_error : response.hasError = false
  complete : response.incomplete ≠ some true
  not_degraded : response.degraded ≠ some true
  precise : ∀ item ∈ response.diagnostics,
    item.stage ∉ transientStages ∧ item.stage ∉ nonBudgetableResultStages

/-- Everything a budget covers in a response was judged, and is within it. -/
structure Judged (budgets : Budgets) (response : FileSizeDocumentResponse) : Prop where
  imports : ∀ limit ∈ budgets.perImportBrotliBytes, ∀ item ∈ response.imports,
    (∀ stage ∈ item.unmeasuredStage, preventsVerdict stage = false) ∧
      (∀ diagnostic ∈ item.diagnostics, preventsVerdict diagnostic.stage = false) ∧
        ∃ brotliBytes, item.brotliBytes = some brotliBytes ∧ brotliBytes ≤ limit
  total : ∀ limit ∈ budgets.perFileBrotliBytes,
    IsCompleteTotal response ∧ response.brotliBytes ≤ limit

section

variable (host : Host) (budgets : Budgets)

def check (changedFiles : List String) (outcome : Nat → String → Outcome) : CheckResult :=
  runImportLensCheck host budgets changedFiles fun call filePath =>
    (outcome call filePath).map (analyzeFileWithDaemon filePath)

def refusalLines (file : String × Outcome) : List String :=
  (findingsOf host budgets file).unmeasurable.map unmeasurableLine

def closing (exitCode files : Nat) : List String :=
  if exitCode = exitCouldNotMeasure then [couldNotEvaluate]
  else if exitCode = exitBudgetExceeded then []
  else [passedLine files]

/-- A verdict is sound for the outcomes of the files. -/
structure Sound (files : List (String × Outcome)) (result : CheckResult) : Prop where
  could_not_measure : result.exitCode = exitCouldNotMeasure ↔ ∃ file ∈ files, refused file.2 = true
  budget_exceeded : result.exitCode = exitBudgetExceeded ↔
    (∀ file ∈ files, refused file.2 = false) ∧ ∃ file ∈ files, exceeded budgets file.2 = true
  passed : result.exitCode = 0 ↔
    (∀ file ∈ files, refused file.2 = false) ∧ ∀ file ∈ files, exceeded budgets file.2 = false
  /-- What is printed is what each file contributes by itself. -/
  printed : result.lines = files.flatMap (violationsOf host budgets) ++
    files.flatMap (refusalLines host budgets) ++ closing result.exitCode files.length
  judged : result.exitCode = 0 → ∀ file ∈ files, ∃ response, file.2 = .ok response ∧
    Judged budgets response

/-- Where the check keeps its word: no import is judged by itself, something refuses
or fails the run, or every import carries a size. -/
def Covered (files : List (String × Outcome)) : Prop :=
  budgets.perImportBrotliBytes = none ∨
    (∃ file ∈ files, refused file.2 = true ∨ exceeded budgets file.2 = true) ∨
      ∀ file ∈ files, ∀ response, file.2 = .ok response →
        ∀ item ∈ response.imports, isMeasured item = true

variable {host budgets}

theorem check_eq (h : hasBudgets budgets = true) (changedFiles : List String)
    (outcome : Nat → String → Outcome) :
    check host budgets changedFiles outcome =
      verdict (outcomesOf host changedFiles outcome).length
        { violations := (outcomesOf host changedFiles outcome).flatMap (violationsOf host budgets)
          unmeasurable := (outcomesOf host changedFiles outcome).flatMap fun file =>
            (findingsOf host budgets file).unmeasurable } := by
  have hviolations : (outcomesOf host changedFiles outcome).flatMap (violationsOf host budgets) =
      (outcomesOf host changedFiles outcome).flatMap fun file =>
        (findingsOf host budgets file).violations := by
    congr 1
    funext file
    exact (findingsOf_eq file).1.symm
  unfold check runImportLensCheck
  rw [if_neg (by simp [h]), hviolations]
  simp only [foldl_checkFile, outcomesOf, List.length_map, List.length_zipIdx, List.flatMap_map,
    List.nil_append]
  rfl

theorem unmeasurable_eq_nil_iff {files : List (String × Outcome)} :
    (files.flatMap fun file => (findingsOf host budgets file).unmeasurable) = [] ↔
      ∀ file ∈ files, refused file.2 = false := by
  rw [List.flatMap_eq_nil_iff]
  constructor
  · exact fun h file hin => (findingsOf_eq file).2.mp (h file hin)
  · exact fun h file hin => (findingsOf_eq file).2.mpr (h file hin)

theorem violations_eq_nil_iff {files : List (String × Outcome)}
    (h : ∀ file ∈ files, refused file.2 = false) :
    files.flatMap (violationsOf host budgets) = [] ↔
      ∀ file ∈ files, exceeded budgets file.2 = false := by
  rw [List.flatMap_eq_nil_iff]
  constructor
  · exact fun hnil file hin => (violationsOf_eq_nil_iff (h file hin)).mp (hnil file hin)
  · exact fun hnot file hin => (violationsOf_eq_nil_iff (h file hin)).mpr (hnot file hin)

theorem forall_false_or_exists {α : Type} (p : α → Bool) (xs : List α) :
    (∀ x ∈ xs, p x = false) ∨ ∃ x ∈ xs, p x = true := by
  cases h : xs.any p with
  | false => exact .inl (by simpa using h)
  | true => exact .inr (by simpa using h)

/-- The three ways a run can end. -/
inductive Ends (budgets : Budgets) (files : List (String × Outcome)) (exitCode : Nat) : Prop
  | couldNotMeasure (h : ∃ file ∈ files, refused file.2 = true)
      (hcode : exitCode = exitCouldNotMeasure)
  | budgetExceeded (h : ∀ file ∈ files, refused file.2 = false)
      (hexceeded : ∃ file ∈ files, exceeded budgets file.2 = true)
      (hcode : exitCode = exitBudgetExceeded)
  | passed (h : ∀ file ∈ files, refused file.2 = false)
      (hexceeded : ∀ file ∈ files, exceeded budgets file.2 = false) (hcode : exitCode = 0)

theorem check_ends (h : hasBudgets budgets = true) (changedFiles : List String)
    (outcome : Nat → String → Outcome) :
    Ends budgets (outcomesOf host changedFiles outcome)
      (check host budgets changedFiles outcome).exitCode := by
  rw [check_eq h]
  generalize outcomesOf host changedFiles outcome = files
  unfold verdict
  rcases forall_false_or_exists (fun file => refused file.2) files with hnone | hrefused
  · have hrecords := (@unmeasurable_eq_nil_iff host budgets files).mpr hnone
    rw [hrecords, if_neg (by simp)]
    rcases forall_false_or_exists (fun file => exceeded budgets file.2) files with hnot | hexceeds
    · rw [(violations_eq_nil_iff hnone).mpr hnot, if_neg (by simp)]
      exact .passed hnone hnot rfl
    · have hsome : files.flatMap (violationsOf host budgets) ≠ [] := by
        intro hnil
        obtain ⟨file, hin, hover⟩ := hexceeds
        simp [(violations_eq_nil_iff hnone).mp hnil file hin] at hover
      rw [if_pos (List.length_pos_iff.mpr hsome)]
      exact .budgetExceeded hnone hexceeds rfl
  · have hsome : (files.flatMap fun file => (findingsOf host budgets file).unmeasurable) ≠ [] := by
      intro hnil
      obtain ⟨file, hin, hyes⟩ := hrefused
      simp [unmeasurable_eq_nil_iff.mp hnil file hin] at hyes
    rw [if_pos (List.length_pos_iff.mpr hsome)]
    exact .couldNotMeasure hrefused rfl

theorem lines_check (h : hasBudgets budgets = true) (changedFiles : List String)
    (outcome : Nat → String → Outcome) :
    let files := outcomesOf host changedFiles outcome
    let result := check host budgets changedFiles outcome
    result.lines = files.flatMap (violationsOf host budgets) ++
      files.flatMap (refusalLines host budgets) ++ closing result.exitCode files.length := by
  intro files result
  have hresult : result = _ := check_eq h changedFiles outcome
  have hlines : files.flatMap (refusalLines host budgets) =
      (files.flatMap fun file => (findingsOf host budgets file).unmeasurable).map
        unmeasurableLine := by
    rw [List.map_flatMap]
    rfl
  rw [hresult, hlines]
  change (verdict files.length ⟨files.flatMap (violationsOf host budgets),
    files.flatMap fun file => (findingsOf host budgets file).unmeasurable⟩).lines = _
  generalize files.flatMap (violationsOf host budgets) = violations
  generalize (files.flatMap fun file => (findingsOf host budgets file).unmeasurable) = records
  unfold verdict
  cases records with
  | cons record records => rfl
  | nil =>
    cases violations with
    | cons violation violations =>
      simp [closing, exitBudgetExceeded, exitCouldNotMeasure]
    | nil => rfl

/-! ## Soundness -/

theorem response_of_not_refused {outcome : Outcome} (h : refused outcome = false) :
    ∃ response, outcome = .ok response ∧ isUsableFileSize response.toFileCostFlags = true ∧
      ∀ item ∈ response.imports, blocksVerdict item = false := by
  cases outcome with
  | error message => cases h
  | ok response =>
    rw [refused, Bool.or_eq_false_iff, Bool.not_eq_false', List.any_eq_false] at h
    exact ⟨response, rfl, h.1, fun item hin => by simpa using h.2 item hin⟩

theorem isCompleteTotal_of_usable {response : FileSizeDocumentResponse}
    (h : isUsableFileSize response.toFileCostFlags = true) : IsCompleteTotal response := by
  simp only [isUsableFileSize, Bool.and_eq_true, Bool.not_eq_true', bne_iff_ne,
    List.any_eq_false, Bool.or_eq_true, not_or, List.contains_iff_mem] at h
  exact ⟨h.1.1.1, h.1.1.2, h.1.2, h.2⟩

theorem not_exceeds_iff {bytes : Nat} {limit : Option Nat} :
    exceeds bytes limit = false ↔ ∀ bound ∈ limit, bytes ≤ bound := by
  cases limit with
  | none => simp [exceeds]
  | some bound => simp [exceeds]

/-- A measured import that does not block its file is judged. -/
theorem budgetedImport_of_not_blocks {item : ImportResult} {brotliBytes : Nat}
    (h : blocksVerdict item = false) (hbytes : item.brotliBytes = some brotliBytes) :
    nonBudgetableImportStages item = [] ∧
      budgetedImport item = some ⟨item.specifier, brotliBytes⟩ := by
  have hstages : nonBudgetableImportStages item = [] := by
    simpa [blocksVerdict, isMeasured, hbytes] using h
  exact ⟨hstages, by simp [budgetedImport, hstages, hbytes]⟩

/-- A run that passes judged every total, and every import that carries a size. -/
theorem judged_of_measured {response : FileSizeDocumentResponse}
    (husable : isUsableFileSize response.toFileCostFlags = true)
    (hblocks : ∀ item ∈ response.imports, blocksVerdict item = false)
    (hexceeded : exceeded budgets (.ok response) = false)
    (hmeasured : budgets.perImportBrotliBytes = none ∨
      ∀ item ∈ response.imports, isMeasured item = true) :
    Judged budgets response := by
  rw [exceeded, Bool.or_eq_false_iff, List.any_eq_false] at hexceeded
  refine ⟨?_, fun limit hlimit => ⟨isCompleteTotal_of_usable husable,
    not_exceeds_iff.mp hexceeded.1 limit hlimit⟩⟩
  intro limit hlimit item hin
  rcases hmeasured with hnone | hmeasured
  · rw [hnone] at hlimit
    cases hlimit
  · obtain ⟨brotliBytes, hbytes⟩ := Option.isSome_iff_exists.mp (hmeasured item hin)
    obtain ⟨hstages, hbudgeted⟩ := budgetedImport_of_not_blocks (hblocks item hin) hbytes
    have hwithin : exceeds brotliBytes budgets.perImportBrotliBytes = false := by
      simpa [importExceeds, hbudgeted] using hexceeded.2 item hin
    obtain ⟨hstage, hdiagnostics⟩ := nonBudgetableImportStages_eq_nil_iff.mp hstages
    exact ⟨hstage, hdiagnostics, brotliBytes, hbytes, not_exceeds_iff.mp hwithin limit hlimit⟩

section

variable {files : List (String × Outcome)} {exitCode : Nat}

theorem Ends.could_not_measure_iff (h : Ends budgets files exitCode) :
    exitCode = exitCouldNotMeasure ↔ ∃ file ∈ files, refused file.2 = true := by
  cases h with
  | couldNotMeasure hrefused hcode => exact ⟨fun _ => hrefused, fun _ => hcode⟩
  | budgetExceeded hnone _ hcode =>
    refine ⟨fun h => absurd (hcode.symm.trans h) (by decide), fun ⟨file, hin, hyes⟩ => ?_⟩
    simp [hnone file hin] at hyes
  | passed hnone _ hcode =>
    refine ⟨fun h => absurd (hcode.symm.trans h) (by decide), fun ⟨file, hin, hyes⟩ => ?_⟩
    simp [hnone file hin] at hyes

theorem Ends.budget_exceeded_iff (h : Ends budgets files exitCode) :
    exitCode = exitBudgetExceeded ↔
      (∀ file ∈ files, refused file.2 = false) ∧
        ∃ file ∈ files, exceeded budgets file.2 = true := by
  cases h with
  | couldNotMeasure hrefused hcode =>
    obtain ⟨file, hin, hyes⟩ := hrefused
    refine ⟨fun h => absurd (hcode.symm.trans h) (by decide), fun h => ?_⟩
    simp [h.1 file hin] at hyes
  | budgetExceeded hnone hexceeded hcode => exact ⟨fun _ => ⟨hnone, hexceeded⟩, fun _ => hcode⟩
  | passed _ hnot hcode =>
    refine ⟨fun h => absurd (hcode.symm.trans h) (by decide), fun ⟨_, file, hin, hyes⟩ => ?_⟩
    simp [hnot file hin] at hyes

theorem Ends.passed_iff (h : Ends budgets files exitCode) :
    exitCode = 0 ↔
      (∀ file ∈ files, refused file.2 = false) ∧
        ∀ file ∈ files, exceeded budgets file.2 = false := by
  cases h with
  | couldNotMeasure hrefused hcode =>
    obtain ⟨file, hin, hyes⟩ := hrefused
    refine ⟨fun h => absurd (hcode.symm.trans h) (by decide), fun h => ?_⟩
    simp [h.1 file hin] at hyes
  | budgetExceeded _ hexceeded hcode =>
    obtain ⟨file, hin, hyes⟩ := hexceeded
    refine ⟨fun h => absurd (hcode.symm.trans h) (by decide), fun h => ?_⟩
    simp [h.2 file hin] at hyes
  | passed hnone hnot hcode => exact ⟨fun _ => ⟨hnone, hnot⟩, fun _ => hcode⟩

end

/-- A passed run judged everything exactly if no budget is for single imports or
every import carries a size. -/
theorem judged_iff {files : List (String × Outcome)}
    (hnone : ∀ file ∈ files, refused file.2 = false)
    (hnot : ∀ file ∈ files, exceeded budgets file.2 = false) :
    (∀ file ∈ files, ∃ response, file.2 = .ok response ∧ Judged budgets response) ↔
      (budgets.perImportBrotliBytes = none ∨ ∀ file ∈ files, ∀ response, file.2 = .ok response →
        ∀ item ∈ response.imports, isMeasured item = true) := by
  constructor
  · intro hjudged
    cases hlimit : budgets.perImportBrotliBytes with
    | none => exact .inl rfl
    | some limit =>
      apply Or.inr
      intro file hin response hresponse item hitem
      obtain ⟨judged, heq, hall⟩ := hjudged file hin
      rw [hresponse] at heq
      cases heq
      obtain ⟨-, -, brotliBytes, hbytes, -⟩ := hall.imports limit hlimit item hitem
      simp [isMeasured, hbytes]
  · intro hmeasured file hin
    obtain ⟨response, hresponse, husable, hblocks⟩ := response_of_not_refused (hnone file hin)
    have hexceeded := hnot file hin
    rw [hresponse] at hexceeded
    exact ⟨response, hresponse, judged_of_measured husable hblocks hexceeded
      (hmeasured.imp_right fun h => h file hin response hresponse)⟩

/-- The check keeps its word exactly if nothing is judged by import, the run is
refused or failed, or every import carries a size. -/
theorem check_sound_iff (host : Host) (budgets : Budgets) (h : hasBudgets budgets = true)
    (changedFiles : List String) (outcome : Nat → String → Outcome) :
    Sound host budgets (outcomesOf host changedFiles outcome)
        (check host budgets changedFiles outcome) ↔
      Covered budgets (outcomesOf host changedFiles outcome) := by
  have hends := @check_ends host budgets h changedFiles outcome
  have hlines := @lines_check host budgets h changedFiles outcome
  generalize outcomesOf host changedFiles outcome = files at *
  generalize check host budgets changedFiles outcome = result at *
  constructor
  · intro hsound
    rcases forall_false_or_exists (fun file => refused file.2 || exceeded budgets file.2) files
      with hneither | ⟨file, hin, hsome⟩
    · have hnone : ∀ file ∈ files, refused file.2 = false := fun file hin =>
        (Bool.or_eq_false_iff.mp (hneither file hin)).1
      have hnot : ∀ file ∈ files, exceeded budgets file.2 = false := fun file hin =>
        (Bool.or_eq_false_iff.mp (hneither file hin)).2
      have hjudged := hsound.judged (hsound.passed.mpr ⟨hnone, hnot⟩)
      exact ((judged_iff hnone hnot).mp hjudged).imp_right .inr
    · exact .inr (.inl ⟨file, hin, Bool.or_eq_true_iff.mp hsome⟩)
  · intro hcovered
    refine ⟨hends.could_not_measure_iff, hends.budget_exceeded_iff, hends.passed_iff, hlines, ?_⟩
    intro hpassed
    obtain ⟨hnone, hnot⟩ := hends.passed_iff.mp hpassed
    apply (judged_iff hnone hnot).mpr
    rcases hcovered with hlimit | ⟨file, hin, hrefused | hexceeded⟩ | hmeasured
    · exact .inl hlimit
    · simp [hnone file hin] at hrefused
    · simp [hnot file hin] at hexceeded
    · exact .inr hmeasured

end

/-! ## A run over an import without a size -/

def minifyFailed : FileSizeDocumentResponse where
  rawBytes := 9000
  minifiedBytes := 4000
  gzipBytes := 1500
  brotliBytes := 1200
  zstdBytes := 1400
  imports := [ImportResult.unmeasured "large-lib" "minify" "minification failed" []]

def plainHost : Host where
  resolve filePath := filePath
  relative filePath := filePath
  formatBytes bytes := toString bytes ++ " B"

def largeImport : FileSizeDocumentResponse :=
  { minifyFailed with
    imports := [ImportResult.measured "large-lib" ⟨9000, 4000, 1500, 1200, 1400⟩] }

theorem outcomesOf_one (outcome : Nat → String → Outcome) :
    outcomesOf plainHost ["app.ts"] outcome = [("app.ts", outcome 0 "app.ts")] := by
  have hfiles : checkedFiles ["app.ts"] = ["app.ts"] := by decide +kernel
  rw [outcomesOf, hfiles]
  rfl

/-- The per-import limit is never held against anything, and the run passes. -/
theorem check_passes_unmeasured :
    ¬ ∀ (host : Host) (budgets : Budgets), hasBudgets budgets = true →
      ∀ (changedFiles : List String) (outcome : Nat → String → Outcome),
        Sound host budgets (outcomesOf host changedFiles outcome)
          (check host budgets changedFiles outcome) := by
  intro hsound
  have hrun := hsound plainHost { perImportBrotliBytes := some 1000 } (by decide) ["app.ts"]
    fun _ _ => .ok minifyFailed
  have hjudged := hrun.judged (by decide +kernel)
  rw [outcomesOf_one] at hjudged
  obtain ⟨response, heq, hall⟩ := hjudged _ (List.mem_singleton.mpr rfl)
  cases heq
  obtain ⟨-, -, brotliBytes, hbytes, -⟩ := hall.imports 1000 rfl _ (List.mem_singleton.mpr rfl)
  cases hbytes

/-- A run over an import that is measured. -/
theorem check_sound_iff_measured :
    Sound plainHost { perImportBrotliBytes := some 1000 }
      (outcomesOf plainHost ["app.ts"] fun _ _ => .ok largeImport)
      (check plainHost { perImportBrotliBytes := some 1000 } ["app.ts"] fun _ _ =>
        .ok largeImport) := by
  apply (check_sound_iff plainHost { perImportBrotliBytes := some 1000 } (by decide) ["app.ts"]
    fun _ _ => .ok largeImport).mpr
  rw [outcomesOf_one]
  exact .inr (.inl ⟨_, List.mem_singleton.mpr rfl, .inr (by decide +kernel)⟩)

end ImportLens.Cli
