import ImportLens.Support.Debounce
import Mathlib.Data.List.Lex

/-!
# Invalidations from watched paths

What the extension tells the daemon of the files it watches.  A burst of paths is gathered
in a debounced buffer and split in two: the manifests of installed packages, and the
configurations that hold the alias table of the workspace.  A large burst, or a lost
`node_modules` folder, becomes one message that invalidates everything.
-/

namespace ImportLens.Extension.Watcher

open ImportLens.Support.Debounce

/-! ## Paths -/

def isSeparator (c : Char) : Bool := c == '/' || c == '\\'

def nodeModules : List Char := "node_modules".toList

def pathSegments (candidate : String) : List (List Char) := candidate.toList.splitOnP isSeparator

def basenameOf (candidate : String) : List Char := (pathSegments candidate).getLast?.getD []

def hasNodeModulesSegment (candidate : String) : Bool :=
  (pathSegments candidate).contains nodeModules

/-- The names of `tsconfig`, `jsconfig` and bundler configurations. -/
def workspaceConfigFileName (name : List Char) : Bool :=
  match name.splitOn '.' with
  | [stem, ending] =>
      ["tsconfig".toList, "jsconfig".toList].contains stem && ending == "json".toList
  | [stem, middle, ending] =>
      ["tsconfig".toList, "jsconfig".toList].contains stem && !middle.isEmpty &&
          middle.all (fun c => !isSeparator c) && ending == "json".toList ||
        ["vite".toList, "webpack".toList, "rollup".toList].contains stem &&
          middle == "config".toList &&
          ["js".toList, "mjs".toList, "cjs".toList, "ts".toList, "mts".toList,
            "cts".toList].contains ending
  | _ => false

def isWorkspaceConfigPath (candidate : String) : Bool :=
  workspaceConfigFileName (basenameOf candidate) && !hasNodeModulesSegment candidate

def isNodeModulesDirectory (candidate : String) : Bool := basenameOf candidate == nodeModules

def packageJson : List Char := "package.json".toList

/-- What a deleted folder under `node_modules` invalidates. -/
def nodeModulesDeletionPath (deletedPath : String) : Option String :=
  let segments := pathSegments deletedPath
  let name := segments.reverse[0]?.getD []
  let parent := segments.reverse[1]?
  let separator := if deletedPath.toList.contains '\\' then '\\' else '/'
  if name = nodeModules then some deletedPath
  else if name.isEmpty || name.head? = some '.' then none
  else if parent = some nodeModules then
    if name.head? = some '@' then
      some (String.ofList ([separator].intercalate segments.dropLast))
    else some (String.ofList (deletedPath.toList ++ separator :: packageJson))
  else if parent.any (·.head? = some '@') && segments.reverse[2]? = some nodeModules then
    some (String.ofList (deletedPath.toList ++ separator :: packageJson))
  else none

/-! ## The decision -/

def nodeModulesInvalidationBurstLimit : Nat := 20

inductive Decision
  | none
  | changed (packageJsonPaths tsconfigPaths : List String)
  | all (count : Nat)
  deriving DecidableEq, Repr

def uniquePaths (changedPaths : List String) : List String :=
  (changedPaths.filter (· ≠ "")).eraseDups

/-- Everything but configurations; those inside `node_modules` are in neither list. -/
def manifestsOf (uniquePaths : List String) : List String :=
  uniquePaths.filter fun path => !workspaceConfigFileName (basenameOf path)

def nodeModulesInvalidationDecision (changedPaths : List String) (burstLimit : Nat) : Decision :=
  let tsconfigPaths := (uniquePaths changedPaths).filter isWorkspaceConfigPath
  let packageJsonPaths := manifestsOf (uniquePaths changedPaths)
  if packageJsonPaths.length > burstLimit ∨ packageJsonPaths.any isNodeModulesDirectory then
    .all packageJsonPaths.length
  else if packageJsonPaths.isEmpty ∧ tsconfigPaths.isEmpty then .none
  else .changed packageJsonPaths tsconfigPaths

inductive Message
  | invalidateAll
  | nodeModulesChanged (packageJsonPaths tsconfigPaths : List String)
  deriving DecidableEq, Repr

def Decision.message : Decision → Option Message
  | .none => Option.none
  | .all _ => some .invalidateAll
  | .changed packageJsonPaths tsconfigPaths =>
      some (.nodeModulesChanged packageJsonPaths tsconfigPaths)

def sends (b : Buffer String) (op : Op String) : Option Message :=
  (b.step op).2.bind fun batch =>
    (nodeModulesInvalidationDecision batch nodeModulesInvalidationBurstLimit).message

section

variable {changed : List String} {path : String} {burstLimit : Nat}

theorem mem_uniquePaths (hpath : path ∈ changed) (hne : path ≠ "") :
    path ∈ uniquePaths changed := by
  rw [uniquePaths, List.mem_eraseDups, List.mem_filter]
  exact ⟨hpath, decide_eq_true hne⟩

theorem mem_manifestsOf (hpath : path ∈ changed) (hne : path ≠ "")
    (hname : workspaceConfigFileName (basenameOf path) = false) :
    path ∈ manifestsOf (uniquePaths changed) := by
  rw [manifestsOf, List.mem_filter, hname]
  exact ⟨mem_uniquePaths hpath hne, rfl⟩

/-- A path that is no configuration is listed, unless everything is invalidated. -/
theorem decision_lists (hpath : path ∈ changed) (hne : path ≠ "")
    (hname : workspaceConfigFileName (basenameOf path) = false) :
    (nodeModulesInvalidationDecision changed burstLimit).message = some .invalidateAll ∨
      ∃ packageJsonPaths tsconfigPaths,
        (nodeModulesInvalidationDecision changed burstLimit).message =
            some (.nodeModulesChanged packageJsonPaths tsconfigPaths) ∧
          path ∈ packageJsonPaths := by
  have hmem := mem_manifestsOf hpath hne hname
  unfold nodeModulesInvalidationDecision
  dsimp only
  split
  · exact .inl rfl
  · rw [if_neg]
    · exact .inr ⟨_, _, rfl, hmem⟩
    · rintro ⟨hempty, -⟩
      rw [List.isEmpty_iff.mp hempty] at hmem
      cases hmem

/-- A configuration is delivered, unless everything is invalidated. -/
theorem decision_config (hpath : path ∈ changed) (hconfig : isWorkspaceConfigPath path = true) :
    (nodeModulesInvalidationDecision changed burstLimit).message = some .invalidateAll ∨
      ∃ packageJsonPaths tsconfigPaths,
        (nodeModulesInvalidationDecision changed burstLimit).message =
            some (.nodeModulesChanged packageJsonPaths tsconfigPaths) ∧
          path ∈ tsconfigPaths := by
  have hne : path ≠ "" := by
    rintro rfl
    exact absurd hconfig (by decide)
  have hmem : path ∈ (uniquePaths changed).filter isWorkspaceConfigPath :=
    List.mem_filter.mpr ⟨mem_uniquePaths hpath hne, hconfig⟩
  unfold nodeModulesInvalidationDecision
  dsimp only
  split
  · exact .inl rfl
  · rw [if_neg]
    · exact .inr ⟨_, _, rfl, hmem⟩
    · rintro ⟨-, hempty⟩
      rw [List.isEmpty_iff.mp hempty] at hmem
      cases hmem

theorem decision_nodeModules (hpath : path ∈ changed) (hname : basenameOf path = nodeModules) :
    (nodeModulesInvalidationDecision changed burstLimit).message = some .invalidateAll := by
  have hne : path ≠ "" := by
    rintro rfl
    exact absurd hname (by decide)
  have hmem := mem_manifestsOf hpath hne (by rw [hname]; decide)
  have hany : (manifestsOf (uniquePaths changed)).any isNodeModulesDirectory = true := by
    rw [List.any_eq_true]
    refine ⟨path, hmem, ?_⟩
    rw [isNodeModulesDirectory, hname, beq_self_eq_true]
  unfold nodeModulesInvalidationDecision
  dsimp only
  rw [if_pos (.inr hany)]
  rfl

end

/-! ## Folders under `node_modules` -/

theorem pathSegments_snoc {above name : List Char} {separator : Char}
    (hseparator : isSeparator separator = true) (hname : ∀ c ∈ name, isSeparator c = false) :
    pathSegments (String.ofList (above ++ separator :: name)) =
      pathSegments (String.ofList above) ++ [name] := by
  unfold pathSegments
  rw [String.toList_ofList, String.toList_ofList, List.splitOnP_append_cons _ _ hseparator,
    List.splitOnP_eq_singleton hname]

theorem basenameOf_snoc {above name : List Char} {separator : Char}
    (hseparator : isSeparator separator = true) (hname : ∀ c ∈ name, isSeparator c = false) :
    basenameOf (String.ofList (above ++ separator :: name)) = name := by
  rw [basenameOf, pathSegments_snoc hseparator hname, List.getLast?_concat]
  rfl

theorem segment_of_all {name : List Char} (h : name.all (fun c => !isSeparator c) = true) :
    ∀ c ∈ name, isSeparator c = false :=
  fun c hc => Bool.not_eq_true' _ ▸ List.all_eq_true.mp h c hc

theorem nodeModules_segment : ∀ c ∈ nodeModules, isSeparator c = false :=
  segment_of_all (by decide)

theorem packageJson_segment : ∀ c ∈ packageJson, isSeparator c = false :=
  segment_of_all (by decide)

/-- The folder of an installed package.  Some folder is above its `node_modules`, be it the root;
either separator may stand anywhere. -/
structure PackageFolder where
  above : List Char
  scope : Option (List Char)
  name : List Char
  beforeModules : Char
  afterModules : Char
  afterScope : Char
  separators : isSeparator beforeModules = true ∧ isSeparator afterModules = true ∧
    isSeparator afterScope = true
  segment : ∀ c ∈ name, isSeparator c = false
  named : name ≠ [] ∧ name.head? ≠ some '.' ∧ name ≠ nodeModules
  unscoped : scope = none → name.head? ≠ some '@'
  inScope : ∀ part, scope = some part → part.head? = some '@' ∧ ∀ c ∈ part, isSeparator c = false

namespace PackageFolder

/-- The `node_modules` folder it is in. -/
def modules (folder : PackageFolder) : List Char :=
  folder.above ++ folder.beforeModules :: nodeModules

def parent (folder : PackageFolder) : List Char :=
  match folder.scope with
  | none => folder.modules
  | some part => folder.modules ++ folder.afterModules :: part

def lastSeparator (folder : PackageFolder) : Char :=
  match folder.scope with
  | none => folder.afterModules
  | some _ => folder.afterScope

def path (folder : PackageFolder) : String :=
  String.ofList (folder.parent ++ folder.lastSeparator :: folder.name)

def packageName (folder : PackageFolder) : String :=
  match folder.scope with
  | none => String.ofList folder.name
  | some part => String.ofList (part ++ '/' :: folder.name)

def manifest (folder : PackageFolder) (separator : Char) : String :=
  String.ofList (folder.path.toList ++ separator :: packageJson)

variable (folder : PackageFolder)

theorem lastSeparator_isSeparator : isSeparator folder.lastSeparator = true := by
  obtain ⟨_, hmodules, hscope⟩ := folder.separators
  unfold lastSeparator
  cases folder.scope with
  | none => exact hmodules
  | some part => exact hscope

theorem reverse_pathSegments :
    (pathSegments folder.path).reverse =
      folder.name :: (folder.scope.toList ++
        nodeModules :: (pathSegments (String.ofList folder.above)).reverse) := by
  obtain ⟨hbefore, hafter, _⟩ := folder.separators
  have hmodules : pathSegments (String.ofList folder.modules) =
      pathSegments (String.ofList folder.above) ++ [nodeModules] :=
    pathSegments_snoc hbefore nodeModules_segment
  rw [path, pathSegments_snoc folder.lastSeparator_isSeparator folder.segment,
    List.reverse_append, List.reverse_singleton, List.singleton_append]
  congr 1
  unfold parent
  cases hscope : folder.scope with
  | none =>
    rw [hmodules, List.reverse_append]
    rfl
  | some part =>
    dsimp only
    rw [pathSegments_snoc hafter (folder.inScope part hscope).2, hmodules, List.reverse_append,
      List.reverse_append]
    rfl

theorem nodeModulesDeletionPath_path :
    ∃ separator, isSeparator separator = true ∧
      nodeModulesDeletionPath folder.path = some (folder.manifest separator) := by
  obtain ⟨hnonempty, hdot, hmodules⟩ := folder.named
  refine ⟨if folder.path.toList.contains '\\' then '\\' else '/', by split <;> rfl, ?_⟩
  unfold nodeModulesDeletionPath
  dsimp only
  rw [folder.reverse_pathSegments]
  cases hscope : folder.scope with
  | none =>
    simp [hnonempty, hdot, hmodules, folder.unscoped hscope, manifest]
  | some part =>
    have hat := (folder.inScope part hscope).1
    have hpart : part ≠ nodeModules := by
      rintro rfl
      exact absurd hat (by decide)
    simp [hnonempty, hdot, hmodules, hat, hpart, manifest]

theorem basenameOf_manifest {separator : Char} (hseparator : isSeparator separator = true) :
    basenameOf (folder.manifest separator) = packageJson :=
  basenameOf_snoc hseparator packageJson_segment

end PackageFolder

theorem nodeModulesDeletionPath_nodeModules {deleted : String}
    (h : basenameOf deleted = nodeModules) : nodeModulesDeletionPath deleted = some deleted := by
  have hname : (pathSegments deleted).reverse[0]?.getD [] = nodeModules := by
    rw [← h, basenameOf, ← List.head?_eq_getElem?, List.head?_reverse]
  unfold nodeModulesDeletionPath
  dsimp only
  rw [if_pos hname]

theorem intercalate_snoc (separator : Char) {above : List (List Char)} (habove : above ≠ [])
    (name : List Char) :
    [separator].intercalate (above ++ [name]) =
      [separator].intercalate above ++ separator :: name := by
  induction above with
  | nil => exact absurd rfl habove
  | cons first rest ih =>
    by_cases hrest : rest = []
    · subst hrest
      simp
    · rw [List.cons_append, List.intercalate_cons_of_ne_nil (by simp), ih hrest,
        List.intercalate_cons_of_ne_nil hrest, List.append_assoc _ _ (separator :: name)]

theorem basenameOf_intercalate {separator : Char} (hseparator : isSeparator separator = true)
    (above : List (List Char)) {name : List Char} (hname : ∀ c ∈ name, isSeparator c = false) :
    basenameOf (String.ofList ([separator].intercalate (above ++ [name]))) = name := by
  by_cases habove : above = []
  · subst habove
    rw [List.nil_append, List.intercalate_singleton, basenameOf, pathSegments,
      String.toList_ofList, List.splitOnP_eq_singleton hname]
    rfl
  · rw [intercalate_snoc separator habove, basenameOf_snoc hseparator hname]

/-- A deleted scope is reported as the `node_modules` folder it was in. -/
theorem nodeModulesDeletionPath_scope {modules scope : List Char} {separator : Char}
    (hseparator : isSeparator separator = true)
    (hmodules : basenameOf (String.ofList modules) = nodeModules)
    (hscope : scope.head? = some '@') (hsegment : ∀ c ∈ scope, isSeparator c = false) :
    ∃ path, nodeModulesDeletionPath (String.ofList (modules ++ separator :: scope)) = some path ∧
      basenameOf path = nodeModules := by
  obtain ⟨above, habove⟩ : ∃ above,
      pathSegments (String.ofList modules) = above ++ [nodeModules] := by
    have hlast : (pathSegments (String.ofList modules)).getLast? = some nodeModules := by
      cases hlast : (pathSegments (String.ofList modules)).getLast? with
      | none =>
        rw [basenameOf, hlast] at hmodules
        exact absurd hmodules (by decide)
      | some last =>
        rw [basenameOf, hlast] at hmodules
        exact congrArg some hmodules
    obtain ⟨above, habove⟩ := List.getLast?_eq_some_iff.mp hlast
    exact ⟨above, habove⟩
  have hscopeName : scope ≠ nodeModules := by
    rintro rfl
    exact absurd hscope (by decide)
  have hnonempty : scope ≠ [] := by
    rintro rfl
    cases hscope
  have hsegments : pathSegments (String.ofList (modules ++ separator :: scope)) =
      pathSegments (String.ofList modules) ++ [scope] :=
    pathSegments_snoc hseparator hsegment
  rw [habove] at hsegments
  have hreported : basenameOf (String.ofList
      ([if '\\' ∈ modules ++ separator :: scope then '\\' else '/'].intercalate
        (above ++ [nodeModules]))) = nodeModules :=
    basenameOf_intercalate (by split <;> rfl) above nodeModules_segment
  refine ⟨_, ?_, hreported⟩
  unfold nodeModulesDeletionPath
  dsimp only
  rw [hsegments]
  simp [hscopeName, hnonempty, hscope]

end ImportLens.Extension.Watcher
