import ImportLens.Pipeline.FileCost
import ImportLens.Support.Interleaving
import Mathlib.Data.List.MinMax
import Mathlib.Data.List.Sort
import Mathlib.Data.List.Lex

/-!
# The cache of file sizes

One computed total for each document, in memory.  A total is served under the
signature it was stored under, for half a minute, and only while the inputs of its
combined build are what they were.  The signature folds the cache generation with one
token for each import; it leaves out what the caller has measured of the imports, and
the store admits only totals that do not depend on it.
-/

namespace ImportLens.Pipeline.FileSize

open ImportLens.Daemon ImportLens.Cache ImportLens.Support

/-! ## The table -/

def maxCachedFileSizes : Nat := 64

def reverifyTtlMs : Nat := 30000

structure CachedFileSize where
  signature : Nat
  computation : FileSizeComputation
  computedAtMillis : Nat
  lastUsedMillis : Nat
  /-- The identity of the entry: which insertion made it. -/
  id : Nat
  deriving DecidableEq, Repr

def withinTtl (computedAtMillis nowMillis : Nat) : Bool :=
  nowMillis - computedAtMillis ≤ reverifyTtlMs

/-- The tests of `get` before the fingerprints are checked. -/
def CachedFileSize.answers (entry : CachedFileSize) (signature now : Nat) : Bool :=
  entry.signature = signature && withinTtl entry.computedAtMillis now

abbrev FileSizeCache : Type := Keyed String CachedFileSize

def touch (cache : FileSizeCache) (path : String) (id now : Nat) : FileSizeCache :=
  match cache.lookup path with
  | none => cache
  | some entry =>
      if entry.id = id then cache.insert path { entry with lastUsedMillis := now } else cache

def evictOldest (cache : FileSizeCache) : FileSizeCache :=
  if cache.rows.length > maxCachedFileSizes then
    match cache.rows.argmin fun row => row.2.lastUsedMillis with
    | none => cache
    | some oldest => cache.erase oldest.1
  else cache

/-! ## The signature -/

/-- What the disk and the index of loaded paths answer while tokens are taken. -/
structure TokenView where
  resolvePackageEntry : ImportRequest → Except String ResolvedPackage
  cacheKeyForResolvedImport : ImportRequest → ResolvedPackage → String
  /-- Length and time of a file, or `absent`. -/
  statToken : String → String
  cachedLoadedPaths : String → ImportRuntime → Option (List String)

def pathHasNodeModulesSegment (path : String) : Bool :=
  (path.toList.splitOn '/').any (· == "node_modules".toList)

def sortTokens (tokens : List String) : List String :=
  tokens.mergeSort fun a b => decide (a ≤ b)

def slashed (path : String) : String :=
  String.ofList (path.toList.map fun c => if c = '\\' then '/' else c)

def firstPartyModuleToken (view : TokenView) (entryPath : String) (runtime : ImportRuntime) :
    String :=
  match view.cachedLoadedPaths entryPath runtime with
  | none => view.statToken entryPath
  | some modulePaths =>
      ",".intercalate <| sortTokens <|
        (modulePaths.filter fun path => !pathHasNodeModulesSegment path).map fun path =>
          slashed path ++ "=" ++ view.statToken path

def resolvedImportToken (view : TokenView) (request : ImportRequest) (resolved : ResolvedPackage) :
    String :=
  let contentToken :=
    if pathHasNodeModulesSegment resolved.entryPath then view.statToken resolved.entryPath
    else firstPartyModuleToken view resolved.entryPath request.runtime
  view.cacheKeyForResolvedImport request resolved ++ "|" ++ contentToken ++ "|" ++
    view.statToken (resolved.packageRoot ++ "/package.json")

def runtimeDebug : ImportRuntime → String
  | .component => "Component"
  | .client => "Client"
  | .server => "Server"

def importKindDebug : ImportKind → String
  | .named => "Named"
  | .defaultExport => "Default"
  | .namespaceExport => "Namespace"
  | .dynamic => "Dynamic"

def importToken (view : TokenView) (sized : SizedImport) : String :=
  match sized.package with
  | .notInstalled => "not_installed:" ++ sized.specifier
  | .pathAlias => "path_alias:" ++ sized.specifier
  | .installed request =>
      match view.resolvePackageEntry request with
      | .ok resolved => resolvedImportToken view request resolved
      | .error _ =>
          "unresolved:" ++ request.packageName ++ ":" ++ request.specifier ++ ":" ++
            request.version ++ ":" ++ runtimeDebug request.runtime ++ ":" ++
            importKindDebug request.importKind ++ ":" ++ ",".intercalate request.named

/-- The tokens of `file_size_signature`, before they are sorted. -/
def importTokens (view : TokenView) (imports : List SizedImport) : List String :=
  imports.map (importToken view)

/-- The hash of `file_size_signature` over the generation and the sorted tokens. -/
def fileSizeSignature (hash : Nat → List String → Nat) (generation : Nat) (tokens : List String) :
    Nat :=
  hash generation (sortTokens tokens)

theorem sortTokens_perm (tokens : List String) : (sortTokens tokens).Perm tokens :=
  List.mergeSort_perm _ _

/-- Equal signatures were taken at one generation, over the same tokens. -/
theorem fileSizeSignature_inj {hash : Nat → List String → Nat}
    (hhash : ∀ g tokens g' tokens', hash g tokens = hash g' tokens' → g = g' ∧ tokens = tokens')
    {generation generation' : Nat} {tokens tokens' : List String}
    (h : fileSizeSignature hash generation tokens = fileSizeSignature hash generation' tokens') :
    generation = generation' ∧ tokens.Perm tokens' := by
  obtain ⟨hgeneration, hsorted⟩ := hhash _ _ _ _ h
  refine ⟨hgeneration, (sortTokens_perm tokens).symm.trans ?_⟩
  rw [hsorted]
  exact sortTokens_perm tokens'

/-! ## What the store admits does not depend on the measurements -/

/-- One import with two measurements.  Where it does not resolve, the measurements agree on
whether the package needs an entry at all. -/
structure Remeasured (stages : Stages) (sized sized' : SizedImport) : Prop where
  package : sized'.package = sized.package
  specifier : sized'.specifier = sized.specifier
  unresolvable : ∀ request error, sized.package = .installed request →
    stages.resolvePackageEntry request = .error error →
      sized'.result.any ImportResult.isTypesOnly = sized.result.any ImportResult.isTypesOnly ∧
      sized'.result.any ImportResult.isNativeBinaryOnly =
        sized.result.any ImportResult.isNativeBinaryOnly

/-- Groups with the same entries, and as many imports. -/
structure SameGroup (group group' : RuntimeGroup) : Prop where
  entries : group'.entries = group.entries
  sized : group'.sized.length = group.sized.length

structure SameSorted (sorted sorted' : Sorted) : Prop where
  totals : sorted'.totals = sorted.totals
  diagnostics : sorted'.diagnostics = sorted.diagnostics
  groups : ∀ runtime, SameGroup (sorted.groups runtime) (sorted'.groups runtime)

section

variable {stages : Stages} {sized sized' : SizedImport} {acc acc' : Sorted}

theorem SameSorted.report (h : SameSorted acc acc')
    (hspecifier : sized'.specifier = sized.specifier)
    (stage message : String) :
    SameSorted (acc.report stage message sized) (acc'.report stage message sized') := by
  refine ⟨h.totals, ?_, h.groups⟩
  rw [Sorted.report, Sorted.report, h.diagnostics, hspecifier]

theorem SameSorted.missing (h : SameSorted acc acc') : SameSorted acc.missing acc'.missing := by
  refine ⟨?_, h.diagnostics, h.groups⟩
  rw [Sorted.missing, Sorted.missing, h.totals]

theorem SameSorted.sortImport (h : SameSorted acc acc') (hsized : Remeasured stages sized sized') :
    SameSorted (sortImport stages acc sized) (sortImport stages acc' sized') := by
  unfold FileSize.sortImport
  rw [hsized.package]
  cases hpackage : sized.package with
  | notInstalled => exact h.missing.report hsized.specifier _ _
  | pathAlias => exact h.report hsized.specifier _ _
  | installed request =>
    dsimp only
    cases hresolve : stages.resolvePackageEntry request with
    | ok resolved =>
      refine ⟨h.totals, h.diagnostics, fun runtime => ?_⟩
      dsimp only [Groups.push]
      by_cases hruntime : runtime = request.runtime
      · subst hruntime
        have hgroup := h.groups request.runtime
        rw [Function.update_self, Function.update_self]
        refine ⟨by rw [hgroup.entries], ?_⟩
        rw [List.length_append, List.length_append, hgroup.sized]
        rfl
      · rw [Function.update_of_ne hruntime, Function.update_of_ne hruntime]
        exact h.groups runtime
    | error error =>
      obtain ⟨htypes, hnative⟩ := hsized.unresolvable request error hpackage hresolve
      dsimp only
      rw [htypes, hnative]
      split
      · exact h.report hsized.specifier _ _
      · split
        · exact h.report hsized.specifier _ _
        · exact h.missing.report hsized.specifier _ _

theorem sameSorted_sortImports {imports imports' : List SizedImport}
    (h : List.Forall₂ (Remeasured stages) imports imports') :
    SameSorted (sortImports stages imports) (sortImports stages imports') := by
  have hfold : ∀ acc acc', SameSorted acc acc' →
      SameSorted (imports.foldl (sortImport stages) acc)
        (imports'.foldl (sortImport stages) acc') := by
    induction h with
    | nil => exact fun acc acc' hacc => hacc
    | cons hsized _ ih => exact fun acc acc' hacc => ih _ _ (hacc.sortImport hsized)
  exact hfold {} {} ⟨rfl, rfl, fun _ => ⟨rfl, rfl⟩⟩

/-- Two groups of one runtime that differ in their measurements only. -/
def SameBuild (one one' : ImportRuntime × RuntimeGroup) : Prop :=
  one'.1 = one.1 ∧ SameGroup one.2 one'.2

theorem sameBuild_present {groups groups' : Groups}
    (h : ∀ runtime, SameGroup (groups runtime) (groups' runtime)) :
    List.Forall₂ SameBuild groups.present groups'.present := by
  unfold Groups.present
  induction [ImportRuntime.component, .client, .server] with
  | nil => exact .nil
  | cons runtime rest ih =>
    have hempty : (groups' runtime).sized.isEmpty = (groups runtime).sized.isEmpty := by
      rw [Bool.eq_iff_iff, List.isEmpty_iff_length_eq_zero, List.isEmpty_iff_length_eq_zero,
        (h runtime).sized]
    rw [List.map_cons, List.map_cons, List.filter_cons, List.filter_cons]
    dsimp only
    rw [hempty]
    split
    · exact .cons ⟨rfl, h runtime⟩ ih
    · exact ih

theorem sizeGroup_sameBuild {one one' : ImportRuntime × RuntimeGroup} (hsame : SameBuild one one')
    (hnot : ¬ Fails stages one) (acc : Summed) :
    sizeGroup stages acc one' = sizeGroup stages acc one := by
  obtain ⟨runtime, group⟩ := one
  obtain ⟨runtime', group'⟩ := one'
  obtain ⟨hruntime, hgroup⟩ := hsame
  dsimp only at hruntime hgroup
  subst hruntime
  obtain ⟨build⟩ := (fails_or_combined stages (runtime', group)).resolve_left hnot
  have hrequest : group'.request runtime' = group.request runtime' := by
    rw [RuntimeGroup.request, RuntimeGroup.request, hgroup.entries]
  have hbundled : stages.bundleSync (group'.request runtime') = .ok build.artifact := by
    rw [hrequest]
    exact build.bundled
  let build' : CombinedBuild stages (runtime', group') :=
    { build with bundled := hbundled }
  rw [sizeGroup_of_combined build, sizeGroup_of_combined build']

theorem foldl_sizeGroup_sameBuild {groups groups' : List (ImportRuntime × RuntimeGroup)}
    (h : List.Forall₂ SameBuild groups groups') (hnot : ∀ one ∈ groups, ¬ Fails stages one)
    (acc : Summed) :
    groups'.foldl (sizeGroup stages) acc = groups.foldl (sizeGroup stages) acc := by
  induction h generalizing acc with
  | nil => rfl
  | cons hsame _ ih =>
    rw [List.foldl_cons, List.foldl_cons, sizeGroup_sameBuild hsame (hnot _ List.mem_cons_self)]
    exact ih (fun one hone => hnot one (List.mem_cons_of_mem _ hone)) _

/-- What may enter the cache is computed from what the signature covers. -/
theorem computeFileSizeWith_remeasured {imports imports' : List SizedImport}
    (h : List.Forall₂ (Remeasured stages) imports imports')
    (hadmitted : (computeFileSizeWith stages imports).mayEnterAggregateCache = true) :
    computeFileSizeWith stages imports' = computeFileSizeWith stages imports := by
  have hsorted := sameSorted_sortImports h
  have hgroups := sameBuild_present hsorted.groups
  have hnot := not_fails_of_mayEnterAggregateCache hadmitted
  have hempty : (sortImports stages imports').groups.present.isEmpty =
      (sortImports stages imports).groups.present.isEmpty := by
    rw [Bool.eq_iff_iff, List.isEmpty_iff_length_eq_zero, List.isEmpty_iff_length_eq_zero,
      hgroups.length_eq]
  unfold computeFileSizeWith
  dsimp only
  rw [hempty, hsorted.totals, hsorted.diagnostics, foldl_sizeGroup_sameBuild hgroups hnot]

end

end ImportLens.Pipeline.FileSize
