import ImportLens.Document.Positions
import ImportLens.Document.Specifier
import ImportLens.Support.Grouping

/-!
# Imports of a script region

The static imports that a region's module record names, one group for each
statement, and what is detected from each group.  The record is the parser's; its
requested modules come in any order.
-/

namespace ImportLens.Document

open ImportLens.Support ImportLens.Daemon

/-! ## The module record -/

structure Span where
  start : Nat
  finish : Nat
  deriving DecidableEq, Repr

inductive ImportImportName
  | default
  | namespaceObject
  | name (name : String)
  deriving DecidableEq, Repr

/-- A binding of an import statement. -/
structure ImportEntry where
  specifier : String
  moduleRequestSpan : Span
  statementSpan : Span
  importName : ImportImportName
  localSpan : Span
  isType : Bool
  deriving DecidableEq, Repr

/-- A statement that names a module. -/
structure RequestedModule where
  span : Span
  statementSpan : Span
  isType : Bool
  isImport : Bool
  deriving DecidableEq, Repr

structure ModuleRecord where
  importEntries : List ImportEntry
  requestedModules : List (String × List RequestedModule)

/-! ## Detected imports -/

inductive ImportSyntax
  | staticImport
  | reexport
  | starReexport
  | dynamicImport
  deriving DecidableEq, Repr

structure SourceRange where
  start : SourcePosition
  finish : SourcePosition
  deriving DecidableEq, Repr

structure DetectedImport where
  specifier : String
  packageName : String
  named : List String
  importKind : ImportKind
  importSyntax : ImportSyntax
  runtime : ImportRuntime
  line : Nat
  quoteEnd : SourcePosition
  specifierRange : SourceRange
  statementRange : SourceRange
  deriving DecidableEq, Repr

structure DetectedImportParts where
  specifier : String
  importKind : ImportKind
  importSyntax : ImportSyntax
  named : List String
  statementSpan : Span
  moduleRequestSpan : Span
  deriving DecidableEq, Repr

def LineIndex.rangeFromOffsets (index : LineIndex) (text : List Char) (start finish : Nat) :
    Option SourceRange := do
  return ⟨← index.positionAt text start, ← index.positionAt text finish⟩

/-- `create_detected_import` for a region at `offset`. -/
def createDetectedImport (text : List Char) (lineIndex : LineIndex) (region : ScriptRegion)
    (parts : DetectedImportParts) : Option DetectedImport := do
  let statementStart := region.offset + parts.statementSpan.start
  let statementEnd := region.offset + parts.statementSpan.finish
  let specifierStart := region.offset + parts.moduleRequestSpan.start
  let quoteEnd := region.offset + parts.moduleRequestSpan.finish
  let position ← lineIndex.positionAt text statementStart
  return {
    specifier := parts.specifier
    packageName := getPackageName parts.specifier
    named := parts.named
    importKind := parts.importKind
    importSyntax := parts.importSyntax
    runtime := region.runtime
    line := position.line
    quoteEnd := ← lineIndex.positionAt text quoteEnd
    specifierRange := ← lineIndex.rangeFromOffsets text specifierStart quoteEnd
    statementRange := ← lineIndex.rangeFromOffsets text statementStart statementEnd }

/-! ## Groups -/

structure ImportGroup where
  specifier : String
  statementSpan : Span
  moduleRequestSpan : Span
  hasDefault : Bool
  hasNamespace : Bool
  named : List String
  deriving DecidableEq, Repr

abbrev StatementKey : Type := String × Nat × Nat

def keyOf (specifier : String) (statementSpan : Span) : StatementKey :=
  (specifier, statementSpan.start, statementSpan.finish)

def ImportEntry.key (entry : ImportEntry) : StatementKey :=
  keyOf entry.specifier entry.statementSpan

def ImportGroup.key (group : ImportGroup) : StatementKey :=
  keyOf group.specifier group.statementSpan

def DetectedImportParts.key (parts : DetectedImportParts) : StatementKey :=
  keyOf parts.specifier parts.statementSpan

def applyImportEntry (entry : ImportEntry) (group : ImportGroup) : ImportGroup :=
  match entry.importName with
  | .default => { group with hasDefault := true }
  | .namespaceObject => { group with hasNamespace := true }
  | .name name => { group with named := group.named ++ [name] }

/-- The two maps and the groups of `imports_from_static_imports`. -/
structure Grouping where
  bindings : Groups StatementKey ImportGroup := {}
  elidedStatements : List StatementKey := []

def ImportEntry.isErased (typeOnlySpans : List Span) (entry : ImportEntry) : Bool :=
  entry.isType || typeOnlySpans.contains entry.localSpan

def ImportEntry.freshGroup (entry : ImportEntry) : ImportGroup where
  specifier := entry.specifier
  statementSpan := entry.statementSpan
  moduleRequestSpan := entry.moduleRequestSpan
  hasDefault := false
  hasNamespace := false
  named := []

def groupEntry (typeOnlySpans : List Span) (s : Grouping) (entry : ImportEntry) : Grouping :=
  if !isRuntimePackageSpecifier entry.specifier then s
  else if entry.isErased typeOnlySpans then
    { s with elidedStatements := entry.key :: s.elidedStatements }
  else
    { s with bindings := s.bindings.upsert entry.key entry.freshGroup (applyImportEntry entry) }

def RequestedModule.namespaceGroup (specifier : String) (request : RequestedModule) :
    ImportGroup where
  specifier := specifier
  statementSpan := request.statementSpan
  moduleRequestSpan := request.span
  hasDefault := false
  hasNamespace := true
  named := []

def groupRequest (specifier : String) (s : Grouping) (request : RequestedModule) : Grouping :=
  let key := keyOf specifier request.statementSpan
  if s.bindings.contains key || s.elidedStatements.contains key then s
  else { s with bindings := s.bindings.upsert key (request.namespaceGroup specifier) id }

def groupRequests (s : Grouping) (requested : String × List RequestedModule) : Grouping :=
  if !isRuntimePackageSpecifier requested.1 then s
  else
    (requested.2.filter fun request => request.isImport && !request.isType).foldl
      (groupRequest requested.1) s

def staticGroups (record : ModuleRecord) (typeOnlySpans : List Span) : List ImportGroup :=
  let entries := record.importEntries.foldl (groupEntry typeOnlySpans) {}
  (record.requestedModules.foldl groupRequests entries).bindings.groups

def statementOrder (a b : ImportGroup) : Bool :=
  decide (a.statementSpan.start < b.statementSpan.start ∨
    a.statementSpan.start = b.statementSpan.start ∧
      a.moduleRequestSpan.start ≤ b.moduleRequestSpan.start)

/-- What `detected_imports_from_group` creates, in turn. -/
def ImportGroup.parts (group : ImportGroup) (importSyntax : ImportSyntax) :
    List DetectedImportParts :=
  let named := dedup (group.named.mergeSort fun a b => decide (a ≤ b))
  let part (importKind : ImportKind) (importSyntax : ImportSyntax) (named : List String) :
      DetectedImportParts :=
    ⟨group.specifier, importKind, importSyntax, named, group.statementSpan,
      group.moduleRequestSpan⟩
  (if group.hasDefault then [part .defaultExport importSyntax []] else []) ++
    (if group.hasNamespace then
      [part .namespaceExport (if importSyntax = .reexport then .starReexport else importSyntax) []]
    else []) ++
    if named.isEmpty then [] else [part .named importSyntax named]

def detectedImportsFromGroup (text : List Char) (lineIndex : LineIndex) (region : ScriptRegion)
    (importSyntax : ImportSyntax) (group : ImportGroup) : Option (List DetectedImport) :=
  (group.parts importSyntax).mapM (createDetectedImport text lineIndex region)

/-- `imports_from_static_imports`; `none` is a span that does not stand between two
characters of the document. -/
def importsFromStaticImports (text : List Char) (lineIndex : LineIndex) (region : ScriptRegion)
    (record : ModuleRecord) (typeOnlySpans : List Span) : Option (List DetectedImport) :=
  (((staticGroups record typeOnlySpans).mergeSort statementOrder).mapM
    (detectedImportsFromGroup text lineIndex region .staticImport)).map List.flatten

/-! ## Bindings -/

def ImportEntry.isDefault (entry : ImportEntry) : Bool := entry.importName = .default

def ImportEntry.isNamespace (entry : ImportEntry) : Bool := entry.importName = .namespaceObject

def ImportEntry.importedName (entry : ImportEntry) : Option String :=
  match entry.importName with
  | .name name => some name
  | _ => none

def ImportEntry.survivesAt (typeOnlySpans : List Span) (key : StatementKey)
    (entry : ImportEntry) : Bool :=
  isRuntimePackageSpecifier entry.specifier && !entry.isErased typeOnlySpans && entry.key = key

def ModuleRecord.surviving (record : ModuleRecord) (typeOnlySpans : List Span)
    (key : StatementKey) : List ImportEntry :=
  record.importEntries.filter fun entry => entry.survivesAt typeOnlySpans key

def ModuleRecord.requests (record : ModuleRecord) : List (String × RequestedModule) :=
  record.requestedModules.flatMap fun requested =>
    if !isRuntimePackageSpecifier requested.1 then []
    else
      (requested.2.filter fun request => request.isImport && !request.isType).map fun request =>
        (requested.1, request)

def requestKey (request : String × RequestedModule) : StatementKey :=
  keyOf request.1 request.2.statementSpan

section

variable {typeOnlySpans : List Span} {entry : ImportEntry} {group : ImportGroup} {s : Grouping}
variable {k : StatementKey}

@[simp] theorem key_applyImportEntry (entry : ImportEntry) (group : ImportGroup) :
    (applyImportEntry entry group).key = group.key := by
  unfold applyImportEntry
  split <;> rfl

theorem applyImportEntry_fields (entry : ImportEntry) (group : ImportGroup) :
    (applyImportEntry entry group).hasDefault = (group.hasDefault || entry.isDefault) ∧
      (applyImportEntry entry group).hasNamespace = (group.hasNamespace || entry.isNamespace) ∧
        (applyImportEntry entry group).named = group.named ++ entry.importedName.toList := by
  unfold applyImportEntry ImportEntry.isDefault ImportEntry.isNamespace ImportEntry.importedName
  cases entry.importName with
  | default | namespaceObject | name => simp

def addBinding (found : Option ImportGroup) (entry : ImportEntry) : Option ImportGroup :=
  some (applyImportEntry entry (found.getD entry.freshGroup))

/-- What the bindings of a statement leave in a group that is open. -/
theorem foldl_addBinding (entries : List ImportEntry) (group : ImportGroup) :
    ∃ grouped, entries.foldl addBinding (some group) = some grouped ∧
      grouped.key = group.key ∧
      grouped.hasDefault = (group.hasDefault || entries.any ImportEntry.isDefault) ∧
      grouped.hasNamespace = (group.hasNamespace || entries.any ImportEntry.isNamespace) ∧
      grouped.named = group.named ++ entries.filterMap ImportEntry.importedName := by
  induction entries generalizing group with
  | nil => exact ⟨group, rfl, rfl, by simp, by simp, by simp⟩
  | cons entry entries ih =>
      obtain ⟨grouped, hrun, hkey, hdefault, hnamespace, hnamed⟩ :=
        ih (applyImportEntry entry group)
      obtain ⟨hfirst, hsecond, hthird⟩ := applyImportEntry_fields entry group
      refine ⟨grouped, hrun, ?_, ?_, ?_, ?_⟩
      · rw [hkey, key_applyImportEntry]
      · rw [hdefault, hfirst, List.any_cons, Bool.or_assoc]
      · rw [hnamespace, hsecond, List.any_cons, Bool.or_assoc]
      · rw [hnamed, hthird, List.append_assoc, List.filterMap_cons]
        cases entry.importedName <;> rfl

/-- The group of a statement with at least one binding that is not erased. -/
theorem foldl_addBinding_none {entries : List ImportEntry} (hne : entries ≠ [])
    (hkey : ∀ entry ∈ entries, entry.key = k) :
    ∃ grouped, entries.foldl addBinding none = some grouped ∧ grouped.key = k ∧
      grouped.hasDefault = entries.any ImportEntry.isDefault ∧
      grouped.hasNamespace = entries.any ImportEntry.isNamespace ∧
      grouped.named = entries.filterMap ImportEntry.importedName := by
  cases entries with
  | nil => exact absurd rfl hne
  | cons entry entries =>
      obtain ⟨grouped, hrun, hgrouped, hdefault, hnamespace, hnamed⟩ :=
        foldl_addBinding entries (applyImportEntry entry entry.freshGroup)
      obtain ⟨hfirst, hsecond, hthird⟩ := applyImportEntry_fields entry entry.freshGroup
      refine ⟨grouped, hrun, ?_, ?_, ?_, ?_⟩
      · rw [hgrouped, key_applyImportEntry]
        exact hkey entry List.mem_cons_self
      · rw [hdefault, hfirst, List.any_cons]
        rfl
      · rw [hnamespace, hsecond, List.any_cons]
        rfl
      · rw [hnamed, hthird, List.filterMap_cons]
        cases entry.importedName <;> rfl

/-! ## The two passes -/

/-- One binding reaches the group of its own statement, or none. -/
theorem find_groupEntry (hs : s.bindings.Indexed ImportGroup.key) (entry : ImportEntry) :
    (groupEntry typeOnlySpans s entry).bindings.Indexed ImportGroup.key ∧
      (groupEntry typeOnlySpans s entry).bindings.find k =
        (if entry.survivesAt typeOnlySpans k then addBinding (s.bindings.find k) entry
        else s.bindings.find k) := by
  unfold groupEntry ImportEntry.survivesAt
  by_cases hruntime : isRuntimePackageSpecifier entry.specifier = true
  · by_cases herased : entry.isErased typeOnlySpans = true
    · simp [hruntime, herased, hs]
    · simp only [hruntime, herased, Bool.not_true, Bool.false_eq_true, if_false]
      refine ⟨hs.upsert rfl (key_applyImportEntry entry), ?_⟩
      rw [hs.find_upsert]
      by_cases hk : k = entry.key
      · simp [hk, addBinding]
      · simp [hk, Ne.symm hk]
  · simp [hruntime, hs]

/-- The first pass collects the surviving bindings of each statement. -/
theorem find_groupEntries (entries : List ImportEntry)
    (hs : s.bindings.Indexed ImportGroup.key) :
    (entries.foldl (groupEntry typeOnlySpans) s).bindings.Indexed ImportGroup.key ∧
      (entries.foldl (groupEntry typeOnlySpans) s).bindings.find k =
        (entries.filter fun entry => entry.survivesAt typeOnlySpans k).foldl addBinding
          (s.bindings.find k) := by
  induction entries generalizing s with
  | nil => exact ⟨hs, rfl⟩
  | cons entry entries ih =>
      obtain ⟨hindexed, hfind⟩ := find_groupEntry (k := k) hs entry
      obtain ⟨hlast, hrest⟩ := ih hindexed
      refine ⟨hlast, ?_⟩
      rw [List.foldl_cons, hrest, hfind, List.filter_cons]
      split <;> rfl

/-- The first pass remembers the statements that have an erased binding. -/
theorem mem_elided_groupEntries (entries : List ImportEntry) :
    k ∈ (entries.foldl (groupEntry typeOnlySpans) s).elidedStatements ↔
      k ∈ s.elidedStatements ∨ ∃ entry ∈ entries,
        isRuntimePackageSpecifier entry.specifier = true ∧
          entry.isErased typeOnlySpans = true ∧ entry.key = k := by
  induction entries generalizing s with
  | nil => simp
  | cons entry entries ih =>
      rw [List.foldl_cons, ih]
      have hone : k ∈ (groupEntry typeOnlySpans s entry).elidedStatements ↔
          k ∈ s.elidedStatements ∨ isRuntimePackageSpecifier entry.specifier = true ∧
            entry.isErased typeOnlySpans = true ∧ entry.key = k := by
        unfold groupEntry
        by_cases hruntime : isRuntimePackageSpecifier entry.specifier = true
        · by_cases herased : entry.isErased typeOnlySpans = true
          · simp only [hruntime, herased, Bool.not_true, Bool.false_eq_true, if_false, if_true,
              List.mem_cons, true_and]
            rw [or_comm, eq_comm]
          · simp [hruntime, herased]
        · simp [hruntime]
      rw [hone]
      simp only [List.exists_mem_cons_iff, or_assoc]

/-- A request opens a group for a statement of which nothing has been seen. -/
theorem find_groupRequest (hs : s.bindings.Indexed ImportGroup.key)
    (request : String × RequestedModule) :
    (groupRequest request.1 s request.2).bindings.Indexed ImportGroup.key ∧
      (groupRequest request.1 s request.2).elidedStatements = s.elidedStatements ∧
      (groupRequest request.1 s request.2).bindings.find k =
        (s.bindings.find k).or
          (if requestKey request = k ∧ k ∉ s.elidedStatements then
            some (request.2.namespaceGroup request.1)
          else none) := by
  have hupsert : (s.bindings.upsert (requestKey request)
      (request.2.namespaceGroup request.1) id).Indexed ImportGroup.key :=
    hs.upsert rfl fun _ => rfl
  unfold groupRequest
  simp only [← requestKey.eq_1]
  by_cases hbound : s.bindings.contains (requestKey request) = true
  · rw [hbound, Bool.true_or, if_pos rfl]
    refine ⟨hs, rfl, ?_⟩
    rw [hs.contains_iff] at hbound
    obtain ⟨group, hgroup⟩ := Option.isSome_iff_exists.mp hbound
    by_cases hk : requestKey request = k
    · rw [← hk, hgroup, Option.some_or]
    · simp [hk]
  · have hnone : s.bindings.find (requestKey request) = none := by
      rw [hs.contains_iff] at hbound
      exact Option.not_isSome_iff_eq_none.mp hbound
    by_cases helided : requestKey request ∈ s.elidedStatements
    · rw [List.contains_iff_mem.mpr helided, Bool.or_true, if_pos rfl]
      refine ⟨hs, rfl, ?_⟩
      by_cases hk : requestKey request = k
      · simp [← hk, helided]
      · simp [hk]
    · have hnot : (s.bindings.contains (requestKey request) ||
          s.elidedStatements.contains (requestKey request)) = false := by
        simp [hbound, helided]
      rw [hnot, if_neg Bool.false_ne_true]
      refine ⟨hupsert, rfl, ?_⟩
      rw [hs.find_upsert]
      by_cases hk : k = requestKey request
      · simp [hk, hnone, helided]
      · simp [hk, Ne.symm hk]

/-- The second pass takes the first request of each statement that was not seen. -/
theorem find_groupRequests (requests : List (String × RequestedModule))
    (hs : s.bindings.Indexed ImportGroup.key) :
    (requests.foldl (fun s request => groupRequest request.1 s request.2) s).bindings.Indexed
        ImportGroup.key ∧
      (requests.foldl (fun s request => groupRequest request.1 s request.2) s).bindings.find k =
        (s.bindings.find k).or
          (if k ∈ s.elidedStatements then none
          else (requests.find? fun request => requestKey request = k).map fun request =>
            request.2.namespaceGroup request.1) := by
  induction requests generalizing s with
  | nil => simp [hs]
  | cons request requests ih =>
      obtain ⟨hindexed, helided, hfind⟩ := find_groupRequest (k := k) hs request
      obtain ⟨hlast, hrest⟩ := ih hindexed
      refine ⟨hlast, ?_⟩
      rw [List.foldl_cons, hrest, hfind, helided, Option.or_assoc]
      congr 1
      by_cases hmem : k ∈ s.elidedStatements
      · simp [hmem]
      · by_cases hk : requestKey request = k
        · simp [hmem, hk]
        · simp [hmem, hk]

theorem foldl_requests (record : ModuleRecord) (s : Grouping) :
    record.requestedModules.foldl groupRequests s =
      record.requests.foldl (fun s request => groupRequest request.1 s request.2) s := by
  rw [ModuleRecord.requests, List.foldl_flatMap]
  congr 1
  funext s requested
  unfold groupRequests
  split
  · rfl
  · rw [List.foldl_map]

end

/-! ## What is detected of a statement -/

section

variable {record : ModuleRecord} {typeOnlySpans : List Span} {k : StatementKey}

def ModuleRecord.bindingFree (record : ModuleRecord) (k : StatementKey) : Prop :=
  (∀ entry ∈ record.importEntries, entry.key ≠ k) ∧ ∃ request ∈ record.requests,
    requestKey request = k

instance (record : ModuleRecord) (k : StatementKey) : Decidable (record.bindingFree k) :=
  inferInstanceAs (Decidable (_ ∧ _))

/-- The group of a statement, if it has one. -/
structure GroupedAs (record : ModuleRecord) (typeOnlySpans : List Span) (k : StatementKey)
    (found : Option ImportGroup) : Prop where
  isSome : found.isSome = true ↔ record.surviving typeOnlySpans k ≠ [] ∨ record.bindingFree k
  key : ∀ group, found = some group → group.key = k
  hasDefault : ∀ group, found = some group →
    group.hasDefault = (record.surviving typeOnlySpans k).any ImportEntry.isDefault
  hasNamespace : ∀ group, found = some group →
    (group.hasNamespace = true ↔
      (record.surviving typeOnlySpans k).any ImportEntry.isNamespace = true ∨
        record.bindingFree k)
  named : ∀ group, found = some group →
    group.named = (record.surviving typeOnlySpans k).filterMap ImportEntry.importedName

theorem importedName_eq_some {entry : ImportEntry} {name : String} :
    entry.importedName = some name ↔ entry.importName = .name name := by
  unfold ImportEntry.importedName
  cases entry.importName with
  | default | namespaceObject => simp
  | name other => simp

theorem any_isDefault {entries : List ImportEntry} :
    entries.any ImportEntry.isDefault = true ↔ ∃ entry ∈ entries, entry.importName = .default := by
  simp [ImportEntry.isDefault]

theorem any_isNamespace {entries : List ImportEntry} :
    entries.any ImportEntry.isNamespace = true ↔
      ∃ entry ∈ entries, entry.importName = .namespaceObject := by
  simp [ImportEntry.isNamespace]

theorem key_of_mem_surviving {entry : ImportEntry}
    (h : entry ∈ record.surviving typeOnlySpans k) :
    entry ∈ record.importEntries ∧ entry.key = k := by
  obtain ⟨hmem, hsurvives⟩ := List.mem_filter.mp h
  simp only [ImportEntry.survivesAt, Bool.and_eq_true, decide_eq_true_eq] at hsurvives
  exact ⟨hmem, hsurvives.2⟩

theorem isRuntime_of_mem_requests {request : String × RequestedModule}
    (h : request ∈ record.requests) : isRuntimePackageSpecifier request.1 = true := by
  obtain ⟨requested, _, hrequest⟩ := List.mem_flatMap.mp h
  by_cases hruntime : isRuntimePackageSpecifier requested.1 = true
  · simp only [hruntime, Bool.not_true, Bool.false_eq_true, if_false, List.mem_map] at hrequest
    obtain ⟨_, _, rfl⟩ := hrequest
    exact hruntime
  · simp [hruntime] at hrequest

/-- The items of a statement, by its surviving bindings. -/
theorem GroupedAs.items {found : Option ImportGroup}
    (h : GroupedAs record typeOnlySpans k found) :
    (found.toList.flatMap fun group => group.parts .staticImport).map
        (fun part => (part.importKind, part.named)) =
      (if ∃ entry ∈ record.surviving typeOnlySpans k, entry.importName = .default then
        [(.defaultExport, [])] else []) ++
      (if (∃ entry ∈ record.surviving typeOnlySpans k,
          entry.importName = .namespaceObject) ∨ record.bindingFree k then
        [(.namespaceExport, [])] else []) ++
      (if dedup (((record.surviving typeOnlySpans k).filterMap
          ImportEntry.importedName).mergeSort fun a b => decide (a ≤ b)) = [] then []
      else [(.named, dedup (((record.surviving typeOnlySpans k).filterMap
          ImportEntry.importedName).mergeSort fun a b => decide (a ≤ b)))]) := by
  cases found with
  | none =>
      obtain ⟨hnone, hbound⟩ : record.surviving typeOnlySpans k = [] ∧ ¬ record.bindingFree k := by
        have hsome := h.isSome
        simp only [Option.isSome_none, Bool.false_eq_true, false_iff, not_or, ne_eq,
          not_not] at hsome
        exact hsome
      simp [hnone, hbound, dedup]
  | some group =>
      have hdefault := h.hasDefault group rfl
      have hnamespace := h.hasNamespace group rfl
      have hnamed := h.named group rfl
      simp only [Option.toList_some, List.flatMap_cons, List.flatMap_nil, List.append_nil,
        ImportGroup.parts, hdefault, hnamed, List.map_append, apply_ite (List.map _),
        List.map_cons, List.map_nil, any_isDefault, hnamespace, any_isNamespace,
        List.isEmpty_iff]

theorem groupedAs_of_surviving (hne : record.surviving typeOnlySpans k ≠ []) :
    ∃ group, (record.surviving typeOnlySpans k).foldl addBinding none = some group ∧
      GroupedAs record typeOnlySpans k (some group) := by
  obtain ⟨group, hrun, hkey, hdefault, hnamespace, hnamed⟩ :=
    foldl_addBinding_none hne fun entry hentry => (key_of_mem_surviving hentry).2
  have hbound : ¬ record.bindingFree k := by
    rintro ⟨hnone, _⟩
    obtain ⟨entry, hentry⟩ := List.exists_mem_of_ne_nil _ hne
    obtain ⟨hmem, hentryKey⟩ := key_of_mem_surviving hentry
    exact hnone entry hmem hentryKey
  refine ⟨group, hrun, ?_, ?_, ?_, ?_, ?_⟩
  · exact ⟨fun _ => .inl hne, fun _ => rfl⟩
  · rintro _ ⟨⟩
    exact hkey
  · rintro _ ⟨⟩
    exact hdefault
  · rintro _ ⟨⟩
    rw [hnamespace]
    exact ⟨.inl, fun h => h.resolve_right hbound⟩
  · rintro _ ⟨⟩
    exact hnamed

/-- A statement without bindings has the namespace group of its first request. -/
theorem groupedAs_of_bindingFree (hnone : record.surviving typeOnlySpans k = [])
    {found : Option ImportGroup}
    (hfound : (found = none ∧ ¬ record.bindingFree k) ∨
      record.bindingFree k ∧ ∃ request, requestKey request = k ∧
        found = some (request.2.namespaceGroup request.1)) :
    GroupedAs record typeOnlySpans k found := by
  rcases hfound with ⟨rfl, hbound⟩ | ⟨hfree, request, hkey, rfl⟩
  · refine ⟨?_, ?_, ?_, ?_, ?_⟩
    · simp [hnone, hbound]
    all_goals rintro _ ⟨⟩
  · refine ⟨?_, ?_, ?_, ?_, ?_⟩
    · exact ⟨fun _ => .inr hfree, fun _ => rfl⟩
    all_goals rintro _ ⟨⟩
    · exact hkey
    · rw [hnone]
      rfl
    · exact ⟨fun _ => .inr hfree, fun _ => rfl⟩
    · rw [hnone]
      rfl

/-- Each statement has the group that its bindings and its request call for, and no
other one. -/
theorem staticGroups_at (record : ModuleRecord) (typeOnlySpans : List Span) (k : StatementKey) :
    ∃ found : Option ImportGroup,
      (staticGroups record typeOnlySpans).filter (fun group => group.key = k) = found.toList ∧
        GroupedAs record typeOnlySpans k found := by
  have hempty : ({} : Grouping).bindings.Indexed ImportGroup.key :=
    Groups.indexed_empty ImportGroup.key
  obtain ⟨hentries, hbound⟩ := @find_groupEntries typeOnlySpans _ k record.importEntries hempty
  obtain ⟨hlast, hfind⟩ := find_groupRequests (k := k) record.requests hentries
  rw [← foldl_requests] at hlast hfind
  refine ⟨_, hlast.filter_key k, ?_⟩
  rw [hfind, hbound]
  show GroupedAs record typeOnlySpans k
    (((record.surviving typeOnlySpans k).foldl addBinding none).or _)
  by_cases hne : record.surviving typeOnlySpans k = []
  · rw [hne, List.foldl_nil, Option.none_or]
    apply groupedAs_of_bindingFree hne
    by_cases helided : k ∈ (record.importEntries.foldl (groupEntry typeOnlySpans)
        {}).elidedStatements
    · refine .inl ⟨if_pos helided, fun hfree => ?_⟩
      obtain hnil | ⟨entry, hentry, _, _, hkey⟩ := (mem_elided_groupEntries _).mp helided
      · cases hnil
      · exact hfree.1 entry hentry hkey
    · rw [if_neg helided]
      cases hrequest : record.requests.find? fun request => requestKey request = k with
      | none =>
          refine .inl ⟨rfl, fun hfree => ?_⟩
          obtain ⟨request, hmem, hkey⟩ := hfree.2
          exact List.find?_eq_none.mp hrequest request hmem (decide_eq_true hkey)
      | some request =>
          have hkey : requestKey request = k := by simpa using List.find?_some hrequest
          have hmem := List.mem_of_find?_eq_some hrequest
          refine .inr ⟨⟨fun entry hentry hentryKey => ?_, request, hmem, hkey⟩,
            request, hkey, rfl⟩
          -- a binding of the statement would have survived, or made it elided
          have hruntime : isRuntimePackageSpecifier entry.specifier = true := by
            have hspecifier : entry.specifier = request.1 :=
              congrArg Prod.fst (hentryKey.trans hkey.symm)
            rw [hspecifier]
            exact isRuntime_of_mem_requests hmem
          by_cases herased : entry.isErased typeOnlySpans = true
          · exact helided ((mem_elided_groupEntries _).mpr
              (.inr ⟨entry, hentry, hruntime, herased, hentryKey⟩))
          · have hsurvives : entry ∈ record.surviving typeOnlySpans k := by
              refine List.mem_filter.mpr ⟨hentry, ?_⟩
              simp [ImportEntry.survivesAt, hruntime, herased, hentryKey]
            rw [hne] at hsurvives
            cases hsurvives
  · obtain ⟨group, hrun, hgrouped⟩ := groupedAs_of_surviving hne
    rw [hrun, Option.some_or]
    exact hgrouped

end

/-! ## Parts of a document -/

section

variable {text : List Char} {region : ScriptRegion} {record : ModuleRecord}
variable {typeOnlySpans : List Span} {k : StatementKey} {offset : Nat}

/-- The span stands between characters of the document. -/
def Span.StandsIn (text : List Char) (offset : Nat) (span : Span) : Prop :=
  CharBoundary text (offset + span.start) ∧ CharBoundary text (offset + span.finish)

/-- The parser's spans stand in the region at `offset`. -/
structure ModuleRecord.StandsIn (text : List Char) (offset : Nat) (record : ModuleRecord) :
    Prop where
  entries : ∀ entry ∈ record.importEntries,
    entry.statementSpan.StandsIn text offset ∧ entry.moduleRequestSpan.StandsIn text offset
  requests : ∀ requested ∈ record.requestedModules, ∀ request ∈ requested.2,
    request.statementSpan.StandsIn text offset ∧ request.span.StandsIn text offset

/-- The spans of a group stand in the region. -/
def ImportGroup.StandsIn (text : List Char) (offset : Nat) (group : ImportGroup) : Prop :=
  group.statementSpan.StandsIn text offset ∧ group.moduleRequestSpan.StandsIn text offset

theorem standsIn_applyImportEntry {entry : ImportEntry} {group : ImportGroup}
    (h : group.StandsIn text offset) : (applyImportEntry entry group).StandsIn text offset := by
  unfold applyImportEntry
  split <;> exact h

theorem standsIn_groupEntries {entries : List ImportEntry} {s : Grouping}
    (hentries : ∀ entry ∈ entries,
      entry.statementSpan.StandsIn text offset ∧ entry.moduleRequestSpan.StandsIn text offset)
    (hs : ∀ group ∈ s.bindings.groups, group.StandsIn text offset) :
    ∀ group ∈ (entries.foldl (groupEntry typeOnlySpans) s).bindings.groups,
      group.StandsIn text offset := by
  induction entries generalizing s with
  | nil => exact hs
  | cons entry entries ih =>
      rw [List.foldl_cons]
      apply ih fun other hother => hentries other (List.mem_cons_of_mem _ hother)
      unfold groupEntry
      split
      · exact hs
      · split
        · exact hs
        · exact Groups.forall_mem_upsert hs (hentries entry List.mem_cons_self)
            fun _ => standsIn_applyImportEntry

theorem standsIn_groupRequests {requests : List (String × RequestedModule)} {s : Grouping}
    (hrequests : ∀ request ∈ requests,
      request.2.statementSpan.StandsIn text offset ∧ request.2.span.StandsIn text offset)
    (hs : ∀ group ∈ s.bindings.groups, group.StandsIn text offset) :
    ∀ group ∈ (requests.foldl (fun s request => groupRequest request.1 s request.2)
      s).bindings.groups, group.StandsIn text offset := by
  induction requests generalizing s with
  | nil => exact hs
  | cons request requests ih =>
      rw [List.foldl_cons]
      apply ih fun other hother => hrequests other (List.mem_cons_of_mem _ hother)
      unfold groupRequest
      simp only
      split
      · exact hs
      · exact Groups.forall_mem_upsert hs (hrequests request List.mem_cons_self) fun _ h => h

theorem standsIn_staticGroups (h : record.StandsIn text offset) :
    ∀ group ∈ staticGroups record typeOnlySpans, group.StandsIn text offset := by
  rw [staticGroups, foldl_requests]
  apply standsIn_groupRequests
  · intro request hrequest
    obtain ⟨requested, hmem, hrequest⟩ := List.mem_flatMap.mp hrequest
    split at hrequest
    · cases hrequest
    · obtain ⟨inner, hinner, rfl⟩ := List.mem_map.mp hrequest
      exact h.requests requested hmem inner (List.mem_of_mem_filter hinner)
  · exact standsIn_groupEntries h.entries fun _ hmem => absurd hmem List.not_mem_nil

def staticParts (record : ModuleRecord) (typeOnlySpans : List Span) :
    List DetectedImportParts :=
  ((staticGroups record typeOnlySpans).mergeSort statementOrder).flatMap
    fun group => group.parts .staticImport

theorem mapM_flatten {α β γ : Type} (l : List α) (f : α → List β) (g : β → Option γ) :
    (l.mapM fun a => (f a).mapM g).map List.flatten = (l.flatMap f).mapM g := by
  induction l with
  | nil => rfl
  | cons a l ih =>
      rw [List.flatMap_cons, List.mapM_append, ← ih, List.mapM_cons]
      cases (f a).mapM g with
      | none => rfl
      | some first =>
          cases l.mapM fun a => (f a).mapM g with
          | none => rfl
          | some rest => rfl

theorem mapM_of_isSome {α β : Type} {f : α → Option β} {l : List α}
    (h : ∀ a ∈ l, (f a).isSome = true) :
    ∃ items, l.mapM f = some items ∧ List.Forall₂ (fun a b => f a = some b) l items := by
  induction l with
  | nil => exact ⟨[], rfl, .nil⟩
  | cons a l ih =>
      obtain ⟨b, hb⟩ := Option.isSome_iff_exists.mp (h a List.mem_cons_self)
      obtain ⟨items, hitems, hall⟩ := ih fun c hc => h c (List.mem_cons_of_mem _ hc)
      exact ⟨b :: items, by simp [List.mapM_cons, hb, hitems], .cons hb hall⟩

theorem importsFromStaticImports_eq (text : List Char) (lineIndex : LineIndex)
    (region : ScriptRegion) (record : ModuleRecord) (typeOnlySpans : List Span) :
    importsFromStaticImports text lineIndex region record typeOnlySpans =
      (staticParts record typeOnlySpans).mapM (createDetectedImport text lineIndex region) :=
  mapM_flatten _ _ _

theorem mem_parts {group : ImportGroup} {importSyntax : ImportSyntax}
    {part : DetectedImportParts} (h : part ∈ group.parts importSyntax) :
    part.specifier = group.specifier ∧ part.statementSpan = group.statementSpan ∧
      part.moduleRequestSpan = group.moduleRequestSpan := by
  simp only [ImportGroup.parts, List.mem_append] at h
  rcases h with (h | h) | h
  · split at h
    · rw [List.mem_singleton.mp h]
      exact ⟨rfl, rfl, rfl⟩
    · cases h
  · split at h
    · rw [List.mem_singleton.mp h]
      exact ⟨rfl, rfl, rfl⟩
    · cases h
  · split at h
    · cases h
    · rw [List.mem_singleton.mp h]
      exact ⟨rfl, rfl, rfl⟩

theorem key_of_mem_parts {group : ImportGroup} {importSyntax : ImportSyntax}
    {part : DetectedImportParts} (h : part ∈ group.parts importSyntax) : part.key = group.key := by
  obtain ⟨hspecifier, hstatement, _⟩ := mem_parts h
  rw [DetectedImportParts.key, ImportGroup.key, hspecifier, hstatement]

/-- The items of one statement are those of its group. -/
theorem filter_staticParts {found : Option ImportGroup}
    (h : (staticGroups record typeOnlySpans).filter (fun group => group.key = k) =
      found.toList) :
    (staticParts record typeOnlySpans).filter (fun part => part.key = k) =
      found.toList.flatMap fun group => group.parts .staticImport := by
  have hgroups : ∀ groups : List ImportGroup,
      (groups.flatMap fun group => group.parts .staticImport).filter
          (fun part => part.key = k) =
        (groups.filter fun group => group.key = k).flatMap
          fun group => group.parts .staticImport := by
    intro groups
    induction groups with
    | nil => rfl
    | cons group groups ih =>
        rw [List.flatMap_cons, List.filter_append, ih, List.filter_cons]
        by_cases hkey : group.key = k
        · rw [if_pos (decide_eq_true hkey), List.flatMap_cons, List.filter_eq_self.mpr]
          exact fun part hpart => decide_eq_true ((key_of_mem_parts hpart).trans hkey)
        · rw [if_neg (by simpa using hkey), List.filter_eq_nil_iff.mpr, List.nil_append]
          intro part hpart
          rw [decide_eq_true_eq, key_of_mem_parts hpart]
          exact hkey
  have hperm := (List.mergeSort_perm (staticGroups record typeOnlySpans) statementOrder).filter
    fun group => group.key = k
  rw [staticParts, hgroups]
  rw [h] at hperm
  congr 1
  cases found with
  | none => exact hperm.eq_nil
  | some group => exact List.perm_singleton.mp hperm

theorem createDetectedImport_isSome {part : DetectedImportParts}
    (hstatement : part.statementSpan.StandsIn text region.offset)
    (hrequest : part.moduleRequestSpan.StandsIn text region.offset) :
    (createDetectedImport text (.new text) region part).isSome = true := by
  have hposition : ∀ b, CharBoundary text b →
      ∃ position, (LineIndex.new text).positionAt text b = some position := by
    rintro _ ⟨before, after, rfl, rfl⟩
    exact ⟨_, positionAt_boundary before after⟩
  obtain ⟨p, hp⟩ := hposition _ hstatement.1
  obtain ⟨q, hq⟩ := hposition _ hstatement.2
  obtain ⟨u, hu⟩ := hposition _ hrequest.1
  obtain ⟨v, hv⟩ := hposition _ hrequest.2
  simp [createDetectedImport, LineIndex.rangeFromOffsets, hp, hq, hu, hv]

theorem names_spec (named : List String) :
    (dedup (named.mergeSort fun a b => decide (a ≤ b))).Pairwise (fun a b => a ≤ b ∧ a ≠ b) ∧
      ∀ name, name ∈ dedup (named.mergeSort fun a b => decide (a ≤ b)) ↔ name ∈ named := by
  constructor
  · apply pairwise_dedup fun _ _ => String.le_antisymm
    have hsorted := @List.pairwise_mergeSort _ (fun a b : String => decide (a ≤ b))
      (fun a b c hab hbc => decide_eq_true
        (String.le_trans (of_decide_eq_true hab) (of_decide_eq_true hbc)))
      (fun a b => by simpa using String.le_total a b) named
    exact hsorted.imp of_decide_eq_true
  · intro name
    rw [mem_dedup]
    exact (List.mergeSort_perm named _).mem_iff

theorem staticParts_sorted (record : ModuleRecord) (typeOnlySpans : List Span) :
    (staticParts record typeOnlySpans).Pairwise fun a b =>
      a.statementSpan.start ≤ b.statementSpan.start := by
  have hsorted := @List.pairwise_mergeSort _ statementOrder
    (fun a b c hab hbc => by simp only [statementOrder, decide_eq_true_eq] at *; omega)
    (fun a b => by
      simp only [statementOrder, Bool.or_eq_true, decide_eq_true_eq]
      omega) (staticGroups record typeOnlySpans)
  rw [staticParts, List.pairwise_flatMap]
  constructor
  · intro group _
    have hsame : ∀ part ∈ group.parts .staticImport, part.statementSpan = group.statementSpan :=
      fun part hpart => (mem_parts hpart).2.1
    refine List.pairwise_of_forall_mem_list fun a ha b hb => ?_
    rw [hsame a ha, hsame b hb]
  · refine hsorted.imp fun {a b} hab part hpart other hother => ?_
    rw [(mem_parts hpart).2.1, (mem_parts hother).2.1]
    simp only [statementOrder, decide_eq_true_eq] at hab
    omega

/-- Import grouping: every statement gives one item for its default binding, one for
its namespace binding or for having no binding at all, and one for its named bindings,
with the names that survive; a statement whose bindings are all erased gives none. -/
theorem static_imports_grouped (text : List Char) (region : ScriptRegion) (record : ModuleRecord)
    (typeOnlySpans : List Span) (hstands : record.StandsIn text region.offset) :
    ∃ parts items,
      importsFromStaticImports text (.new text) region record typeOnlySpans = some items ∧
      List.Forall₂ (fun part item =>
        createDetectedImport text (.new text) region part = some item) parts items ∧
      (parts.Pairwise fun a b => a.statementSpan.start ≤ b.statementSpan.start) ∧
      (∀ k, record.surviving typeOnlySpans k = [] → (∃ entry ∈ record.importEntries,
        entry.key = k) → parts.filter (fun part => part.key = k) = []) ∧
      ∀ k, ∃ names : List String,
        (names.Pairwise fun a b => a ≤ b ∧ a ≠ b) ∧
        (∀ name, name ∈ names ↔
          ∃ entry ∈ record.surviving typeOnlySpans k, entry.importName = .name name) ∧
        (parts.filter fun part => part.key = k).map
            (fun part => (part.importKind, part.named)) =
          (if ∃ entry ∈ record.surviving typeOnlySpans k, entry.importName = .default then
            [(.defaultExport, [])] else []) ++
          (if (∃ entry ∈ record.surviving typeOnlySpans k,
              entry.importName = .namespaceObject) ∨ record.bindingFree k then
            [(.namespaceExport, [])] else []) ++
          (if names = [] then [] else [(.named, names)]) := by
  have hcreated : ∀ part ∈ staticParts record typeOnlySpans,
      (createDetectedImport text (.new text) region part).isSome = true := by
    intro part hpart
    obtain ⟨group, hgroup, hpart⟩ := List.mem_flatMap.mp hpart
    have hgroupStands := standsIn_staticGroups hstands group
      ((List.mergeSort_perm _ _).mem_iff.mp hgroup)
    obtain ⟨_, hstatement, hrequest⟩ := mem_parts hpart
    apply createDetectedImport_isSome
    · rw [hstatement]
      exact hgroupStands.1
    · rw [hrequest]
      exact hgroupStands.2
  obtain ⟨items, hitems, hall⟩ := mapM_of_isSome hcreated
  refine ⟨staticParts record typeOnlySpans, items,
    (importsFromStaticImports_eq text _ region record typeOnlySpans).trans hitems, hall,
    staticParts_sorted record typeOnlySpans, ?_, fun k => ?_⟩
  · rintro k hnone ⟨entry, hentry, hkey⟩
    obtain ⟨found, hfilter, hgrouped⟩ := staticGroups_at record typeOnlySpans k
    rw [filter_staticParts hfilter]
    cases found with
    | none => rfl
    | some group =>
        rcases hgrouped.isSome.mp rfl with hne | hfree
        · exact absurd hnone hne
        · exact absurd hkey (hfree.1 entry hentry)
  · obtain ⟨found, hfilter, hgrouped⟩ := staticGroups_at record typeOnlySpans k
    obtain ⟨hsorted, hmem⟩ :=
      names_spec ((record.surviving typeOnlySpans k).filterMap ImportEntry.importedName)
    refine ⟨_, hsorted, fun name => ?_, ?_⟩
    · rw [hmem, List.mem_filterMap]
      exact exists_congr fun entry => and_congr_right fun _ => importedName_eq_some
    · rw [filter_staticParts hfilter]
      exact hgrouped.items

end

def fiveImports : List Char :=
  ("import d, { b, a } from 'p'\nimport * as n from 'q'\nimport 's'\n" ++
    "import { type T } from 't'\nimport u from 'u'").toList

def entryOf (specifier : String) (request statement : Span) (importName : ImportImportName)
    (localSpan : Span) (isType : Bool) : ImportEntry where
  specifier := specifier
  moduleRequestSpan := request
  statementSpan := statement
  importName := importName
  localSpan := localSpan
  isType := isType

def fiveRecord : ModuleRecord where
  importEntries :=
    [entryOf "p" ⟨24, 27⟩ ⟨0, 27⟩ .default ⟨7, 8⟩ false,
      entryOf "p" ⟨24, 27⟩ ⟨0, 27⟩ (.name "b") ⟨12, 13⟩ false,
      entryOf "p" ⟨24, 27⟩ ⟨0, 27⟩ (.name "a") ⟨15, 16⟩ false,
      entryOf "q" ⟨47, 50⟩ ⟨28, 50⟩ .namespaceObject ⟨40, 41⟩ false,
      entryOf "t" ⟨85, 88⟩ ⟨62, 88⟩ (.name "T") ⟨76, 77⟩ true,
      entryOf "u" ⟨103, 106⟩ ⟨89, 106⟩ .default ⟨96, 97⟩ false]
  requestedModules :=
    [("p", [⟨⟨24, 27⟩, ⟨0, 27⟩, false, true⟩]), ("q", [⟨⟨47, 50⟩, ⟨28, 50⟩, false, true⟩]),
      ("s", [⟨⟨58, 61⟩, ⟨51, 61⟩, false, true⟩]), ("t", [⟨⟨85, 88⟩, ⟨62, 88⟩, false, true⟩]),
      ("u", [⟨⟨103, 106⟩, ⟨89, 106⟩, false, true⟩])]

def fiveRegion : ScriptRegion where
  filename := "a.ts"
  source := utf8 fiveImports
  offset := 0
  runtime := .component
  sharesBindingsWithMarkup := false

theorem fiveRecord_standsIn : fiveRecord.StandsIn fiveImports 0 := by
  have hboundary : ∀ position, (utf8 (fiveImports.take position)).length = position →
      CharBoundary fiveImports (0 + position) := fun position hlength =>
    ⟨fiveImports.take position, fiveImports.drop position, (List.take_append_drop _ _).symm,
      (Nat.zero_add _).trans hlength.symm⟩
  have hspan : ∀ span : Span, (utf8 (fiveImports.take span.start)).length = span.start ∧
      (utf8 (fiveImports.take span.finish)).length = span.finish → span.StandsIn fiveImports 0 :=
    fun span h => ⟨hboundary _ h.1, hboundary _ h.2⟩
  constructor
  · intro entry hentry
    have hentries : ∀ entry ∈ fiveRecord.importEntries, ∀ span ∈ [entry.statementSpan,
        entry.moduleRequestSpan], (utf8 (fiveImports.take span.start)).length = span.start ∧
          (utf8 (fiveImports.take span.finish)).length = span.finish := by
      decide +kernel
    exact ⟨hspan _ (hentries entry hentry _ (by simp)), hspan _ (hentries entry hentry _ (by simp))⟩
  · intro requested hrequested request hinner
    have hrequests : ∀ requested ∈ fiveRecord.requestedModules, ∀ request ∈ requested.2,
        ∀ span ∈ [request.statementSpan, request.span],
          (utf8 (fiveImports.take span.start)).length = span.start ∧
            (utf8 (fiveImports.take span.finish)).length = span.finish := by
      decide +kernel
    have hboth := hrequests requested hrequested request hinner
    exact ⟨hspan _ (hboth _ (by simp)), hspan _ (hboth _ (by simp))⟩

/-- The last two statements bind types: one says so, the other is used as one only. -/
theorem five_imports_grouped :
    ∃ (parts : List DetectedImportParts) (items : List DetectedImport),
      importsFromStaticImports fiveImports (.new fiveImports) fiveRegion fiveRecord [⟨96, 97⟩] =
        some items ∧
      [("p", 0, 27), ("q", 28, 50), ("s", 51, 61), ("t", 62, 88), ("u", 89, 106)].map
        (fun k => (parts.filter fun part => part.key = k).map
          fun part => (part.importKind, part.named)) =
        [[(.defaultExport, []), (.named, ["a", "b"])], [(.namespaceExport, [])],
          [(.namespaceExport, [])], [], []] := by
  obtain ⟨parts, items, hrun, -, -, herased, hkeys⟩ :=
    static_imports_grouped fiveImports fiveRegion fiveRecord [⟨96, 97⟩] fiveRecord_standsIn
  have hnames : ∀ {k : StatementKey} {names : List String} (expected : List String),
      (names.Pairwise fun a b => a ≤ b ∧ a ≠ b) →
      (∀ name, name ∈ names ↔ ∃ entry ∈ fiveRecord.surviving [⟨96, 97⟩] k,
        entry.importName = .name name) →
      (expected.Pairwise fun a b => a ≤ b ∧ a ≠ b) →
      (∀ name, name ∈ expected ↔ ∃ entry ∈ fiveRecord.surviving [⟨96, 97⟩] k,
        entry.importName = .name name) → names = expected := by
    intro k names expected hsorted hmem hsorted' hmem'
    have hperm : names.Perm expected :=
      (List.perm_ext_iff_of_nodup (hsorted.imp And.right) (hsorted'.imp And.right)).mpr
        fun name => (hmem name).trans (hmem' name).symm
    exact hperm.eq_of_pairwise (fun a b _ _ hab hba => String.le_antisymm hab hba)
      (hsorted.imp And.left) (hsorted'.imp And.left)
  have hp : fiveRecord.surviving [⟨96, 97⟩] ("p", 0, 27) = fiveRecord.importEntries.take 3 := by
    decide +kernel
  have hq : fiveRecord.surviving [⟨96, 97⟩] ("q", 28, 50) =
      [entryOf "q" ⟨47, 50⟩ ⟨28, 50⟩ .namespaceObject ⟨40, 41⟩ false] := by
    decide +kernel
  have hs : fiveRecord.surviving [⟨96, 97⟩] ("s", 51, 61) = [] := by decide
  refine ⟨parts, items, hrun, ?_⟩
  obtain ⟨names, hsorted, hmem, hitems⟩ := hkeys ("p", 0, 27)
  obtain ⟨names', hsorted', hmem', hitems'⟩ := hkeys ("q", 28, 50)
  obtain ⟨names'', hsorted'', hmem'', hitems''⟩ := hkeys ("s", 51, 61)
  obtain rfl := hnames ["a", "b"] hsorted hmem (by decide) (by
    intro name
    rw [hp]
    simp [fiveRecord, entryOf, or_comm, eq_comm])
  obtain rfl := hnames [] hsorted' hmem' .nil (by
    intro name
    rw [hq]
    simp [entryOf])
  obtain rfl := hnames [] hsorted'' hmem'' .nil (by
    intro name
    rw [hs]
    simp)
  have ht := herased ("t", 62, 88) (by decide) (by decide)
  have hu := herased ("u", 89, 106) (by decide) (by decide)
  have hpItems := hitems.trans
    (by decide : _ = [(.defaultExport, []), (.named, ["a", "b"])])
  have hqItems := hitems'.trans (by decide : _ = [(.namespaceExport, [])])
  have hsItems := hitems''.trans (by decide : _ = [(.namespaceExport, [])])
  simp only [List.map_cons, List.map_nil, hpItems, hqItems, hsItems, ht, hu]

end ImportLens.Document
