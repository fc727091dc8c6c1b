import ImportLens.Report.Rows
import ImportLens.Support.Tally
import Mathlib.Algebra.Ring.Nat
import Mathlib.Algebra.Order.BigOperators.Group.List
import Mathlib.Data.List.Infix

/-!
# The summary of a workspace report

Every import of one specifier, every module that more than one import reaches, and the ten
largest imports as shares of the combined cost.  The groups say exactly what the rows say,
and nothing of the summary depends on the order in which the files were analyzed, as long
as no two rows stand in one place.
-/

namespace ImportLens.Report

open ImportLens.Support ImportLens.Daemon

structure DuplicateImportGroup where
  specifier : String
  count : Nat
  combinedImportCostBrotliBytes : Nat
  sourceFiles : List String
  deriving DecidableEq, Repr

structure DuplicateModuleGroup where
  modulePath : String
  basename : String
  count : Nat
  moduleBytes : Nat
  combinedImportCostBytes : Nat
  specifiers : List String
  vendored : Bool
  deriving DecidableEq, Repr

structure WorkspaceReportTreemapItem where
  packageName : String
  specifier : String
  sourceFile : String
  brotliBytes : Nat
  percentage : Nat
  confidence : String
  deriving DecidableEq, Repr

structure WorkspaceReportSummary where
  importCount : Nat
  combinedImportCostBrotliBytes : Nat
  lowConfidenceCount : Nat
  mediumConfidenceCount : Nat
  conservativeCount : Nat
  budgetViolationCount : Nat
  duplicateImports : List DuplicateImportGroup
  sharedModules : List DuplicateModuleGroup
  treemap : List WorkspaceReportTreemapItem
  deriving DecidableEq, Repr

/-! ## Groups -/

def groupKey (count cost : Nat) (name : String) : Natᵒᵈ ×ₗ Natᵒᵈ ×ₗ String :=
  toLex (OrderDual.toDual count, toLex (OrderDual.toDual cost, name))

def DuplicateImportGroup.key (group : DuplicateImportGroup) : Natᵒᵈ ×ₗ Natᵒᵈ ×ₗ String :=
  groupKey group.count group.combinedImportCostBrotliBytes group.specifier

def DuplicateImportGroup.add (group : DuplicateImportGroup) (row : WorkspaceReportRow) :
    DuplicateImportGroup :=
  { group with
    count := group.count + 1
    combinedImportCostBrotliBytes :=
      group.combinedImportCostBrotliBytes + row.brotliBytes.getD 0
    sourceFiles := group.sourceFiles ++ [row.sourceFile] }

def buildDuplicateImportGroups (rows : List WorkspaceReportRow) : List DuplicateImportGroup :=
  let groups := (tally WorkspaceReportRow.specifier (fun specifier => ⟨specifier, 0, 0, []⟩)
    DuplicateImportGroup.add rows).map Prod.snd
  sortByKey DuplicateImportGroup.key <|
    (groups.filter fun group => group.count > 1).map fun group =>
      { group with sourceFiles := sortDedup group.sourceFiles }

def countMatches (pattern : List Char) : Nat → List Char → Nat
  | _, [] => 0
  | skip + 1, _ :: rest => countMatches pattern skip rest
  | 0, c :: rest =>
      if pattern <+: c :: rest then countMatches pattern (pattern.length - 1) rest + 1
      else countMatches pattern 0 rest

def isVendoredModulePath (modulePath : String) : Bool :=
  let normalized := modulePath.toList.map fun c => if c = '\\' then '/' else c
  decide ("/vendor/".toList <:+: normalized) || decide ("/vendors/".toList <:+: normalized) ||
    decide ("/vendored/".toList <:+: normalized) ||
    (decide ("/node_modules/".toList <:+: normalized) &&
      decide (countMatches "/node_modules/".toList 0 normalized > 1))

def DuplicateModuleGroup.key (group : DuplicateModuleGroup) : Natᵒᵈ ×ₗ Natᵒᵈ ×ₗ String :=
  groupKey group.count group.combinedImportCostBytes group.modulePath

def DuplicateModuleGroup.add (group : DuplicateModuleGroup)
    (site : String × ModuleContribution) : DuplicateModuleGroup :=
  { group with
    count := group.count + 1
    moduleBytes := max group.moduleBytes site.2.bytes
    combinedImportCostBytes := group.combinedImportCostBytes + site.2.bytes
    specifiers := group.specifiers ++ [site.1] }

def moduleSites (rows : List WorkspaceReportRow) : List (String × ModuleContribution) :=
  rows.flatMap fun row => row.moduleContributions.map fun contribution =>
    (row.specifier, contribution)

def buildDuplicateModuleGroups (rows : List WorkspaceReportRow) : List DuplicateModuleGroup :=
  let groups := (tally (fun site => site.2.path)
    (fun path => ⟨path, basename path, 0, 0, 0, [], isVendoredModulePath path⟩)
    DuplicateModuleGroup.add (moduleSites rows)).map Prod.snd
  sortByKey DuplicateModuleGroup.key <|
    (groups.filter fun group => group.count > 1).map fun group =>
      { group with specifiers := sortDedup group.specifiers }

/-! ## The treemap -/

def percentage (brotliBytes combined : Nat) : Nat :=
  if combined = 0 then 0 else (brotliBytes * 100 + combined / 2) / combined

def treemapItem (combined : Nat) (row : WorkspaceReportRow) (brotliBytes : Nat) :
    WorkspaceReportTreemapItem where
  packageName := row.packageName
  specifier := row.specifier
  sourceFile := row.sourceFile
  brotliBytes := brotliBytes
  percentage := percentage brotliBytes combined
  confidence := row.confidence

def slices (rows : List WorkspaceReportRow) : List (WorkspaceReportRow × Nat) :=
  rows.filterMap fun row =>
    (row.brotliBytes.filter fun bytes => bytes > 0).map fun bytes => (row, bytes)

def buildTreemap (rows : List WorkspaceReportRow) (combined : Nat) :
    List WorkspaceReportTreemapItem :=
  ((slices rows).take 10).map fun slice => treemapItem combined slice.1 slice.2

/-! ## The summary -/

def combinedImportCost (rows : List WorkspaceReportRow) : Nat :=
  (rows.filterMap WorkspaceReportRow.brotliBytes).sum

def buildReportSummary (rowSet : WorkspaceReportRowSet) : WorkspaceReportSummary where
  importCount := rowSet.rows.length
  combinedImportCostBrotliBytes := combinedImportCost rowSet.rows
  lowConfidenceCount := rowSet.rows.countP fun row => row.confidence = "low"
  mediumConfidenceCount := rowSet.rows.countP fun row => row.confidence = "medium"
  conservativeCount := rowSet.conservativeCount
  budgetViolationCount := rowSet.budgetViolationCount
  duplicateImports := buildDuplicateImportGroups rowSet.rows
  sharedModules := buildDuplicateModuleGroups rowSet.rows
  treemap := buildTreemap rowSet.rows (combinedImportCost rowSet.rows)

/-! ## What the groups say -/

section

variable {rows rows' : List WorkspaceReportRow}

def importGroup (rows : List WorkspaceReportRow) (specifier : String) : DuplicateImportGroup :=
  let mine := rows.filter fun row => row.specifier = specifier
  { specifier
    count := mine.length
    combinedImportCostBrotliBytes := (mine.map fun row => row.brotliBytes.getD 0).sum
    sourceFiles := sortDedup (mine.map WorkspaceReportRow.sourceFile) }

def moduleGroup (rows : List WorkspaceReportRow) (path : String) : DuplicateModuleGroup :=
  let mine := (moduleSites rows).filter fun site => site.2.path = path
  { modulePath := path
    basename := basename path
    count := mine.length
    moduleBytes := (mine.map fun site => site.2.bytes).foldr max 0
    combinedImportCostBytes := (mine.map fun site => site.2.bytes).sum
    specifiers := sortDedup (mine.map Prod.fst)
    vendored := isVendoredModulePath path }

theorem foldl_importGroup (mine : List WorkspaceReportRow) (group : DuplicateImportGroup) :
    mine.foldl DuplicateImportGroup.add group =
      { group with
        count := group.count + mine.length
        combinedImportCostBrotliBytes := group.combinedImportCostBrotliBytes +
          (mine.map fun row => row.brotliBytes.getD 0).sum
        sourceFiles := group.sourceFiles ++ mine.map WorkspaceReportRow.sourceFile } := by
  induction mine generalizing group with
  | nil => simp
  | cons row rest ih =>
    rw [List.foldl_cons, ih]
    simp only [DuplicateImportGroup.add, List.length_cons, List.map_cons, List.sum_cons,
      List.append_assoc, List.singleton_append, DuplicateImportGroup.mk.injEq, true_and, and_true]
    omega

theorem foldl_moduleGroup (mine : List (String × ModuleContribution))
    (group : DuplicateModuleGroup) :
    mine.foldl DuplicateModuleGroup.add group =
      { group with
        count := group.count + mine.length
        moduleBytes := max group.moduleBytes ((mine.map fun site => site.2.bytes).foldr max 0)
        combinedImportCostBytes := group.combinedImportCostBytes +
          (mine.map fun site => site.2.bytes).sum
        specifiers := group.specifiers ++ mine.map Prod.fst } := by
  induction mine generalizing group with
  | nil => simp
  | cons site rest ih =>
    rw [List.foldl_cons, ih]
    simp only [DuplicateModuleGroup.add, List.length_cons, List.map_cons, List.sum_cons,
      List.foldr_cons, List.append_assoc, List.singleton_append, DuplicateModuleGroup.mk.injEq,
      true_and, and_true]
    omega

/-- Groups are filtered by a count that finishing them does not change. -/
theorem finish_filter_map {β γ : Type} {count : γ → Nat} {finish : γ → γ} {group : β → γ}
    {whole : β → γ} (hwhole : ∀ b, finish (group b) = whole b)
    (hcount : ∀ g, count (finish g) = count g) (keys : List β) :
    ((keys.map group).filter fun g => count g > 1).map finish =
      (keys.map whole).filter fun g => count g > 1 := by
  have hsame : (fun g => decide (count g > 1)) ∘ group =
      (fun g => decide (count g > 1)) ∘ whole := by
    funext b
    simp only [Function.comp_apply, ← hwhole b, hcount]
  have hfinish : finish ∘ group = whole := funext hwhole
  rw [List.filter_map, List.filter_map, List.map_map, hsame, hfinish]

theorem buildDuplicateImportGroups_eq (rows : List WorkspaceReportRow) :
    buildDuplicateImportGroups rows = sortByKey DuplicateImportGroup.key
      (((sortDedup (rows.map WorkspaceReportRow.specifier)).map (importGroup rows)).filter
        fun group => group.count > 1) := by
  rw [buildDuplicateImportGroups, tally_eq, List.map_map]
  congr 1
  apply finish_filter_map
  · intro specifier
    rw [Function.comp_apply, foldl_importGroup]
    simp [importGroup]
  · exact fun _ => rfl

theorem buildDuplicateModuleGroups_eq (rows : List WorkspaceReportRow) :
    buildDuplicateModuleGroups rows = sortByKey DuplicateModuleGroup.key
      (((sortDedup ((moduleSites rows).map fun site => site.2.path)).map (moduleGroup rows)).filter
        fun group => group.count > 1) := by
  rw [buildDuplicateModuleGroups, tally_eq, List.map_map]
  congr 1
  apply finish_filter_map
  · intro path
    rw [Function.comp_apply, foldl_moduleGroup]
    simp [moduleGroup]
  · exact fun _ => rfl

theorem importGroup_congr (h : rows.Perm rows') (specifier : String) :
    importGroup rows specifier = importGroup rows' specifier := by
  have hmine := h.filter fun row => decide (row.specifier = specifier)
  have hfiles := hmine.map WorkspaceReportRow.sourceFile
  simp only [importGroup, DuplicateImportGroup.mk.injEq, true_and]
  exact ⟨hmine.length_eq, (hmine.map _).sum_eq, sortDedup_eq_iff.mpr fun _ => hfiles.mem_iff⟩

theorem moduleSites_perm (h : rows.Perm rows') : (moduleSites rows).Perm (moduleSites rows') :=
  h.flatMap_right _

theorem moduleGroup_congr (h : rows.Perm rows') (path : String) :
    moduleGroup rows path = moduleGroup rows' path := by
  have hmine := (moduleSites_perm h).filter fun site => decide (site.2.path = path)
  have hspecifiers := hmine.map Prod.fst
  have hbytes := hmine.map fun site => site.2.bytes
  simp only [moduleGroup, DuplicateModuleGroup.mk.injEq, true_and, and_true]
  exact ⟨hmine.length_eq, hbytes.foldr_eq' (by omega) 0, hbytes.sum_eq,
    sortDedup_eq_iff.mpr fun _ => hspecifiers.mem_iff⟩

theorem importGroup_key_inj {specifier specifier' : String}
    (h : (importGroup rows specifier).key = (importGroup rows specifier').key) :
    specifier = specifier' := congrArg (fun key => (ofLex (ofLex key).2).2) h

theorem moduleGroup_key_inj {path path' : String}
    (h : (moduleGroup rows path).key = (moduleGroup rows path').key) : path = path' :=
  congrArg (fun key => (ofLex (ofLex key).2).2) h

/-- A group that has anything is of one of the keys. -/
theorem mem_groups {β γ κ : Type} [LinearOrder κ] {key : γ → κ} {group : β → γ} {count : γ → Nat}
    {keys : List β} (hkeys : ∀ b, 0 < count (group b) → b ∈ keys) {g : γ} :
    g ∈ sortByKey key ((keys.map group).filter fun g => count g > 1) ↔
      ∃ b, g = group b ∧ 1 < count g := by
  rw [mem_sortByKey, List.mem_filter, List.mem_map, decide_eq_true_eq]
  constructor
  · rintro ⟨⟨b, -, rfl⟩, hcount⟩
    exact ⟨b, rfl, hcount⟩
  · rintro ⟨b, rfl, hcount⟩
    exact ⟨⟨b, hkeys b (Nat.lt_of_succ_lt hcount), rfl⟩, hcount⟩

theorem mem_buildDuplicateImportGroups {group : DuplicateImportGroup} :
    group ∈ buildDuplicateImportGroups rows ↔
      ∃ specifier, group = importGroup rows specifier ∧ 1 < group.count := by
  rw [buildDuplicateImportGroups_eq]
  apply mem_groups
  intro specifier hcount
  obtain ⟨row, hrow⟩ := List.exists_mem_of_length_pos hcount
  rw [List.mem_filter, decide_eq_true_eq] at hrow
  exact mem_sortDedup.mpr (List.mem_map.mpr ⟨row, hrow.1, hrow.2⟩)

theorem mem_buildDuplicateModuleGroups {group : DuplicateModuleGroup} :
    group ∈ buildDuplicateModuleGroups rows ↔
      ∃ path, group = moduleGroup rows path ∧ 1 < group.count := by
  rw [buildDuplicateModuleGroups_eq]
  apply mem_groups
  intro path hcount
  obtain ⟨site, hsite⟩ := List.exists_mem_of_length_pos hcount
  rw [List.mem_filter, decide_eq_true_eq] at hsite
  exact mem_sortDedup.mpr (List.mem_map.mpr ⟨site, hsite.1, hsite.2⟩)

/-- Groups of different keys that were sorted are in strict order. -/
theorem pairwise_lt_of_sorted {β γ κ : Type} [LinearOrder κ] {key : γ → κ} {group : β → γ}
    {p : γ → Bool} {keys : List β} (hkeys : keys.Nodup)
    (hkey : ∀ b b', key (group b) = key (group b') → b = b') :
    (sortByKey key ((keys.map group).filter p)).Pairwise fun a b => key a < key b := by
  have hnodup : ((keys.map group).map key).Nodup := by
    rw [List.map_map]
    exact hkeys.map hkey
  have hfiltered : (((keys.map group).filter p).map key).Nodup :=
    hnodup.sublist ((List.filter_sublist).map key)
  have hsorted : ((sortByKey key ((keys.map group).filter p)).map key).Nodup :=
    (sortByKey_perm.map key).nodup_iff.mpr hfiltered
  have hne := List.pairwise_map.mp hsorted
  exact sortByKey_pairwise.imp₂ (fun _ _ hle hne => lt_of_le_of_ne hle hne) hne

theorem buildDuplicateImportGroups_pairwise (rows : List WorkspaceReportRow) :
    (buildDuplicateImportGroups rows).Pairwise fun a b => a.key < b.key := by
  rw [buildDuplicateImportGroups_eq]
  exact pairwise_lt_of_sorted ((sortDedup_pairwise _).imp ne_of_lt) fun _ _ => importGroup_key_inj

theorem buildDuplicateModuleGroups_pairwise (rows : List WorkspaceReportRow) :
    (buildDuplicateModuleGroups rows).Pairwise fun a b => a.key < b.key := by
  rw [buildDuplicateModuleGroups_eq]
  exact pairwise_lt_of_sorted ((sortDedup_pairwise _).imp ne_of_lt) fun _ _ => moduleGroup_key_inj

end

/-! ## The order of the items -/

section

variable {items items' : List WorkspaceReportItem} {budgets : WorkspaceReportBudgets}

def plainRows (items : List WorkspaceReportItem) (budgets : WorkspaceReportBudgets) :
    List WorkspaceReportRow := items.map fun item => rowForItem item budgets

theorem rows_perm (items : List WorkspaceReportItem) (budgets : WorkspaceReportBudgets) :
    (buildReportRows items budgets).rows.Perm (plainRows items budgets) := sortByKey_perm

/-- The summary of a report lists exactly the specifiers of several rows and the modules that
several imports reach, each once, and says of each what the rows say: how many there are,
what they cost together, where they stand, and how large the module is at its fullest. -/
theorem groups_are_exact (items : List WorkspaceReportItem) (budgets : WorkspaceReportBudgets) :
    let summary := buildReportSummary (buildReportRows items budgets)
    (∀ group, group ∈ summary.duplicateImports ↔
      ∃ specifier, group = importGroup (plainRows items budgets) specifier ∧ 1 < group.count) ∧
    (∀ group, group ∈ summary.sharedModules ↔
      ∃ path, group = moduleGroup (plainRows items budgets) path ∧ 1 < group.count) ∧
    summary.duplicateImports.Pairwise (fun a b => a.key < b.key) ∧
    summary.sharedModules.Pairwise (fun a b => a.key < b.key) := by
  have hrows := rows_perm items budgets
  refine ⟨?_, ?_, buildDuplicateImportGroups_pairwise _, buildDuplicateModuleGroups_pairwise _⟩
  · intro group
    rw [buildReportSummary, mem_buildDuplicateImportGroups]
    simp only [importGroup_congr hrows]
  · intro group
    rw [buildReportSummary, mem_buildDuplicateModuleGroups]
    simp only [moduleGroup_congr hrows]

theorem buildDuplicateImportGroups_of_perm {rows rows' : List WorkspaceReportRow}
    (h : rows.Perm rows') : buildDuplicateImportGroups rows = buildDuplicateImportGroups rows' := by
  have hspecifiers := h.map WorkspaceReportRow.specifier
  rw [buildDuplicateImportGroups_eq, buildDuplicateImportGroups_eq,
    sortDedup_eq_iff.mpr fun _ => hspecifiers.mem_iff, funext (importGroup_congr h)]

theorem buildDuplicateModuleGroups_of_perm {rows rows' : List WorkspaceReportRow}
    (h : rows.Perm rows') : buildDuplicateModuleGroups rows = buildDuplicateModuleGroups rows' := by
  have hpaths := (moduleSites_perm h).map fun site => site.2.path
  rw [buildDuplicateModuleGroups_eq, buildDuplicateModuleGroups_eq,
    sortDedup_eq_iff.mpr fun _ => hpaths.mem_iff, funext (moduleGroup_congr h)]

/-- Whatever the order in which the imports of a workspace were analyzed, the report counts and
groups the same; and where no two rows have one key it is the same report. -/
theorem report_of_perm (items items' : List WorkspaceReportItem) (budgets : WorkspaceReportBudgets)
    (h : items.Perm items') :
    { buildReportSummary (buildReportRows items budgets) with treemap := [] } =
      { buildReportSummary (buildReportRows items' budgets) with treemap := [] } ∧
    (((plainRows items budgets).map rowKey).Nodup →
      buildReportRows items budgets = buildReportRows items' budgets) := by
  have hplain : (plainRows items budgets).Perm (plainRows items' budgets) := h.map _
  have hrows : (buildReportRows items budgets).rows.Perm (buildReportRows items' budgets).rows :=
    ((rows_perm items budgets).trans hplain).trans (rows_perm items' budgets).symm
  have hconservative : (buildReportRows items budgets).conservativeCount =
      (buildReportRows items' budgets).conservativeCount := h.countP_eq _
  have hviolation : (buildReportRows items budgets).budgetViolationCount =
      (buildReportRows items' budgets).budgetViolationCount := h.countP_eq _
  constructor
  · simp only [buildReportSummary, WorkspaceReportSummary.mk.injEq, and_true]
    refine ⟨hrows.length_eq, (hrows.filterMap _).sum_eq, hrows.countP_eq _, hrows.countP_eq _,
      hconservative, hviolation, ?_, ?_⟩
    · exact buildDuplicateImportGroups_of_perm hrows
    · exact buildDuplicateModuleGroups_of_perm hrows
  · intro hnodup
    have hsame : (buildReportRows items budgets).rows = (buildReportRows items' budgets).rows :=
      sortByKey_eq_of_perm hplain fun a ha b hb heq =>
        List.inj_on_of_nodup_map hnodup ha hb heq
    calc buildReportRows items budgets
        = ⟨(buildReportRows items budgets).rows, (buildReportRows items budgets).conservativeCount,
            (buildReportRows items budgets).budgetViolationCount⟩ := rfl
      _ = buildReportRows items' budgets := by rw [hsame, hconservative, hviolation]

def importOf (specifier sourceFile : String) (bytes : Nat) : WorkspaceReportItem where
  detected := ⟨specifier, specifier, .component, 0⟩
  sourceFile := sourceFile
  workspaceRoot := "/ws"
  result := some (.measured specifier ⟨bytes, bytes, bytes, bytes, bytes⟩)
  warning := none

theorem report_of_two_files :
    buildReportRows [importOf "react" "/ws/a.ts" 10, importOf "react" "/ws/b.ts" 20] ⟨none⟩ =
      buildReportRows [importOf "react" "/ws/b.ts" 20, importOf "react" "/ws/a.ts" 10] ⟨none⟩ := by
  apply (report_of_perm [importOf "react" "/ws/a.ts" 10, importOf "react" "/ws/b.ts" 20]
    [importOf "react" "/ws/b.ts" 20, importOf "react" "/ws/a.ts" 10] ⟨none⟩
    (List.Perm.swap _ _ _)).2
  have hne : rowKey (rowForItem (importOf "react" "/ws/a.ts" 10) ⟨none⟩) ≠
      rowKey (rowForItem (importOf "react" "/ws/b.ts" 20) ⟨none⟩) := by
    intro heq
    have hbytes := congrArg (fun key => (ofLex key).1) heq
    exact absurd (Option.some.inj hbytes) (by decide)
  exact List.nodup_cons.mpr ⟨fun hmem => hne (List.mem_singleton.mp hmem), List.nodup_singleton _⟩

end

/-! ## The ten largest -/

section

variable {rows : List WorkspaceReportRow}

theorem mem_slices {row : WorkspaceReportRow} {bytes : Nat} :
    (row, bytes) ∈ slices rows ↔ row ∈ rows ∧ row.brotliBytes = some bytes ∧ 0 < bytes := by
  simp only [slices, List.mem_filterMap, Option.map_eq_some_iff, Option.filter_eq_some_iff,
    decide_eq_true_eq, Prod.mk.injEq]
  constructor
  · rintro ⟨other, hother, size, ⟨hsize, hpositive⟩, rfl, rfl⟩
    exact ⟨hother, hsize, hpositive⟩
  · rintro ⟨hrow, hbytes, hpositive⟩
    exact ⟨row, hrow, bytes, ⟨hbytes, hpositive⟩, rfl, rfl⟩

theorem slices_pairwise (hsorted : rows.Pairwise fun a b => rowKey a ≤ rowKey b) :
    (slices rows).Pairwise fun a b => b.2 ≤ a.2 := by
  rw [slices, List.pairwise_filterMap]
  apply hsorted.imp
  intro a b hle slice hslice slice' hslice'
  simp only [Option.map_eq_some_iff, Option.filter_eq_some_iff] at hslice hslice'
  obtain ⟨bytes, ⟨hbytes, -⟩, rfl⟩ := hslice
  obtain ⟨bytes', ⟨hbytes', -⟩, rfl⟩ := hslice'
  have hfirst : @LE.le (WithBot Nat) _ b.brotliBytes a.brotliBytes := by
    rcases (Prod.Lex.le_iff).mp hle with hlt | ⟨heq, -⟩
    · exact le_of_lt (OrderDual.toDual_lt_toDual.mp hlt)
    · exact le_of_eq (OrderDual.toDual_inj.mp heq).symm
  rw [hbytes, hbytes'] at hfirst
  exact WithBot.coe_le_coe.mp hfirst

theorem slices_cons (row : WorkspaceReportRow) (rest : List WorkspaceReportRow) :
    slices (row :: rest) =
      ((row.brotliBytes.filter fun bytes => bytes > 0).map fun bytes => (row, bytes)).toList ++
        slices rest := by
  rw [slices, List.filterMap_cons]
  cases (row.brotliBytes.filter fun bytes => bytes > 0).map fun bytes => (row, bytes) with
  | none => rfl
  | some slice => rfl

theorem sum_slices (rows : List WorkspaceReportRow) :
    ((slices rows).map Prod.snd).sum = combinedImportCost rows := by
  induction rows with
  | nil => rfl
  | cons row rest ih =>
    rw [slices_cons, List.map_append, List.sum_append, ih]
    cases hbytes : row.brotliBytes with
    | none => simp [combinedImportCost, hbytes]
    | some bytes =>
      by_cases hpositive : 0 < bytes
      · simp [combinedImportCost, hbytes, Option.filter, hpositive]
      · have hzero : bytes = 0 := by omega
        simp [combinedImportCost, hbytes, Option.filter, hzero]

/-- A rounded share is within half a percent of the exact one. -/
theorem percentage_near {bytes combined : Nat} (hpositive : 0 < bytes) (hle : bytes ≤ combined) :
    percentage bytes combined ≤ 100 ∧
      2 * (percentage bytes combined * combined) ≤ 200 * bytes + combined ∧
      200 * bytes < 2 * (percentage bytes combined * combined) + combined + 1 := by
  have hcombined : combined ≠ 0 := by omega
  rw [percentage, if_neg hcombined]
  have hdivision := Nat.div_add_mod (bytes * 100 + combined / 2) combined
  have hrest := Nat.mod_lt (bytes * 100 + combined / 2) (Nat.pos_of_ne_zero hcombined)
  rw [Nat.mul_comm] at hdivision
  refine ⟨?_, ?_, ?_⟩
  · rw [Nat.div_le_iff_le_mul (Nat.pos_of_ne_zero hcombined)]
    omega
  · omega
  · omega

def WorkspaceReportRow.isMeasured (row : WorkspaceReportRow) : Bool :=
  row.brotliBytes.any fun bytes => bytes > 0

/-- `shown` are the `count` largest of `measured`, and all of them where there are no more. -/
structure Largest (count : Nat) (measured shown rest : List WorkspaceReportRow) : Prop where
  perm : (shown ++ rest).Perm measured
  atMost : shown.length ≤ count
  full : rest ≠ [] → shown.length = count
  larger : ∀ row ∈ shown, ∀ other ∈ rest, other.brotliBytes.getD 0 ≤ row.brotliBytes.getD 0

/-- An item that stands for a row. -/
structure WorkspaceReportTreemapItem.Shows (item : WorkspaceReportTreemapItem)
    (row : WorkspaceReportRow) : Prop where
  packageName : item.packageName = row.packageName
  specifier : item.specifier = row.specifier
  sourceFile : item.sourceFile = row.sourceFile
  brotliBytes : row.brotliBytes = some item.brotliBytes
  confidence : item.confidence = row.confidence

theorem map_fst_slices (rows : List WorkspaceReportRow) :
    (slices rows).map Prod.fst = rows.filter WorkspaceReportRow.isMeasured := by
  induction rows with
  | nil => rfl
  | cons row rest ih =>
    rw [slices_cons, List.map_append, ih, List.filter_cons, WorkspaceReportRow.isMeasured]
    cases row.brotliBytes with
    | none => rfl
    | some bytes =>
      by_cases hpositive : bytes > 0
      · simp [Option.filter, hpositive]
      · simp [Option.filter, hpositive]

/-- The first of some sorted slices are the largest. -/
theorem largest_take {count : Nat} {all : List (WorkspaceReportRow × Nat)}
    {measured : List WorkspaceReportRow} (hmeasured : (all.map Prod.fst).Perm measured)
    (hbytes : ∀ slice ∈ all, slice.1.brotliBytes = some slice.2)
    (hsorted : all.Pairwise fun a b => b.2 ≤ a.2) :
    Largest count measured ((all.take count).map Prod.fst) ((all.drop count).map Prod.fst) := by
  refine ⟨?_, ?_, fun hrest => ?_, ?_⟩
  · rw [← List.map_append, List.take_append_drop]
    exact hmeasured
  · rw [List.length_map, List.length_take]
    exact Nat.min_le_left _ _
  · have hmore : 0 < (all.drop count).length := by
      rw [← List.length_map (f := Prod.fst)]
      exact List.length_pos_of_ne_nil hrest
    rw [List.length_drop] at hmore
    rw [List.length_map, List.length_take]
    omega
  · intro row hrow other hother
    obtain ⟨slice, hslice, rfl⟩ := List.mem_map.mp hrow
    obtain ⟨slice', hslice', rfl⟩ := List.mem_map.mp hother
    rw [hbytes slice (List.mem_of_mem_take hslice), hbytes slice' (List.mem_of_mem_drop hslice')]
    rw [← List.take_append_drop count all] at hsorted
    exact (List.pairwise_append.mp hsorted).2.2 slice hslice slice' hslice'

theorem forall₂_shows {combined : Nat} {all : List (WorkspaceReportRow × Nat)}
    (hbytes : ∀ slice ∈ all, slice.1.brotliBytes = some slice.2) :
    List.Forall₂ WorkspaceReportTreemapItem.Shows
      (all.map fun slice => treemapItem combined slice.1 slice.2) (all.map Prod.fst) := by
  rw [List.forall₂_map_left_iff, List.forall₂_map_right_iff]
  exact List.forall₂_same.mpr fun slice hslice => ⟨rfl, rfl, rfl, hbytes slice hslice, rfl⟩

/-- The treemap of a report shows the ten largest measured imports, by falling size, and all of
them where there are no more; each is shown with its share of the combined cost, off by half
a percent at most. -/
theorem treemap_is_the_largest (items : List WorkspaceReportItem)
    (budgets : WorkspaceReportBudgets) :
    let summary := buildReportSummary (buildReportRows items budgets)
    summary.treemap.length ≤ 10 ∧
    (∃ shown rest,
      Largest 10 ((plainRows items budgets).filter WorkspaceReportRow.isMeasured) shown rest ∧
      List.Forall₂ WorkspaceReportTreemapItem.Shows summary.treemap shown ∧
      (rest = [] → (summary.treemap.map WorkspaceReportTreemapItem.brotliBytes).sum =
        summary.combinedImportCostBrotliBytes)) ∧
    summary.treemap.Pairwise (fun a b => b.brotliBytes ≤ a.brotliBytes) ∧
    (∀ item ∈ summary.treemap, item.percentage ≤ 100 ∧
      2 * (item.percentage * summary.combinedImportCostBrotliBytes) ≤
        200 * item.brotliBytes + summary.combinedImportCostBrotliBytes ∧
      200 * item.brotliBytes ≤
        2 * (item.percentage * summary.combinedImportCostBrotliBytes) +
          summary.combinedImportCostBrotliBytes) ∧
    (summary.treemap.map WorkspaceReportTreemapItem.brotliBytes).sum ≤
      summary.combinedImportCostBrotliBytes := by
  intro summary
  have hsorted : (slices (buildReportRows items budgets).rows).Pairwise fun a b => b.2 ≤ a.2 :=
    slices_pairwise sortByKey_pairwise
  have hsum := sum_slices (buildReportRows items budgets).rows
  have hmeasured : ((slices (buildReportRows items budgets).rows).map Prod.fst).Perm
      ((plainRows items budgets).filter WorkspaceReportRow.isMeasured) := by
    rw [map_fst_slices]
    exact (rows_perm items budgets).filter _
  have hslice : ∀ slice ∈ slices (buildReportRows items budgets).rows,
      slice.1.brotliBytes = some slice.2 ∧ 0 < slice.2 := fun _ h => (mem_slices.mp h).2
  generalize hslices : slices (buildReportRows items budgets).rows = all
    at hsorted hsum hmeasured hslice
  have htreemap : summary.treemap = (all.take 10).map fun slice =>
      treemapItem summary.combinedImportCostBrotliBytes slice.1 slice.2 := by
    rw [← hslices]
    rfl
  have hcombined : summary.combinedImportCostBrotliBytes = (all.map Prod.snd).sum := hsum.symm
  have hbytes : summary.treemap.map WorkspaceReportTreemapItem.brotliBytes =
      (all.take 10).map Prod.snd := by
    rw [htreemap, List.map_map]
    rfl
  have hpart : ((all.take 10).map Prod.snd).sum + ((all.drop 10).map Prod.snd).sum =
      summary.combinedImportCostBrotliBytes := by
    rw [hcombined, ← List.sum_append, ← List.map_append, List.take_append_drop]
  refine ⟨?_, ⟨_, _, largest_take hmeasured (fun slice h => (hslice slice h).1) hsorted, ?_, ?_⟩,
    ?_, ?_, ?_⟩
  · rw [htreemap, List.length_map, List.length_take]
    exact Nat.min_le_left _ _
  · rw [htreemap]
    exact forall₂_shows fun slice h => (hslice slice (List.mem_of_mem_take h)).1
  · intro hrest
    rw [List.map_eq_nil_iff.mp hrest] at hpart
    rw [hbytes, ← hpart]
    rfl
  · rw [htreemap, List.pairwise_map]
    exact hsorted.sublist (List.take_sublist 10 all)
  · intro item hitem
    rw [htreemap] at hitem
    obtain ⟨slice, hmem, rfl⟩ := List.mem_map.mp hitem
    have hin := List.mem_of_mem_take hmem
    have hle : slice.2 ≤ summary.combinedImportCostBrotliBytes := by
      rw [hcombined]
      exact List.single_le_sum (fun _ _ => Nat.zero_le _) _ (List.mem_map_of_mem hin)
    obtain ⟨hlow, hhigh, hnear⟩ := percentage_near (hslice slice hin).2 hle
    exact ⟨hlow, hhigh, Nat.le_of_lt_succ hnear⟩
  · rw [hbytes]
    omega

end

end ImportLens.Report
