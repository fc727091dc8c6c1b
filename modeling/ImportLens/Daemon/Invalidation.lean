import ImportLens.Document.Specifier
import ImportLens.Pipeline.FileSizeRuns

/-!
# Invalidations in the daemon

What the service does with the watched paths it is told of: the manifests are mapped back
to package names, and the caches of those packages are dropped; where no name can be told,
everything is.  A configuration drops the shared resolvers and the cached file sizes.  The
caches of package results are a parameter: what matters here is what they are told to drop.
-/

namespace ImportLens.Daemon.Invalidation

open ImportLens.Document ImportLens.Pipeline ImportLens.Support ImportLens.Cache

/-! ## From a manifest to a package -/

def modulesMarker : List Char := "/node_modules/".toList

def afterLast (marker : List Char) : List Char → Option (List Char)
  | [] => none
  | c :: rest =>
      match afterLast marker rest with
      | some after => some after
      | none =>
          if marker.isPrefixOf (c :: rest) then some ((c :: rest).drop marker.length) else none

def stripSuffix (ending text : List Char) : List Char :=
  if ending.isSuffixOf text then text.take (text.length - ending.length) else text

def normalized (packageJsonPath : String) : List Char :=
  packageJsonPath.toList.map fun c => if c = '\\' then '/' else c

def packageNameFromPackageJsonPath (packageJsonPath : String) : Option String :=
  (afterLast modulesMarker (normalized packageJsonPath)).map fun after =>
    getPackageName (String.ofList (stripSuffix "/package.json".toList after))

theorem afterLast_append {marker text after : List Char} (h : afterLast marker text = some after)
    (above : List Char) : afterLast marker (above ++ text) = some after := by
  induction above with
  | nil => exact h
  | cons c above ih => rw [List.cons_append, afterLast, ih]

theorem afterLast_cons {marker text : List Char} {c : Char}
    (hstart : marker.isPrefixOf (c :: text) = false) :
    afterLast marker (c :: text) = afterLast marker text := by
  rw [afterLast, hstart]
  cases afterLast marker text <;> rfl

theorem modulesMarker_eq : modulesMarker = '/' :: ("node_modules".toList ++ ['/']) := by decide

theorem afterLast_segment {segment : List Char} (hsegment : '/' ∉ segment) (text : List Char) :
    afterLast modulesMarker (segment ++ text) = afterLast modulesMarker text := by
  induction segment with
  | nil => rfl
  | cons c segment ih =>
    rw [List.mem_cons, not_or] at hsegment
    rw [List.cons_append, afterLast_cons, ih hsegment.2]
    rw [modulesMarker_eq, List.isPrefixOf_cons_cons, beq_eq_false_iff_ne.mpr hsegment.1,
      Bool.false_and]

theorem modulesMarker_isPrefixOf {segment : List Char} (hsegment : '/' ∉ segment)
    (text : List Char)
    (hmarker : modulesMarker.isPrefixOf ('/' :: (segment ++ '/' :: text)) = true) :
    segment = "node_modules".toList := by
  obtain ⟨rest, hrest⟩ := List.isPrefixOf_iff_prefix.mp hmarker
  have hsame : "node_modules".toList ++ '/' :: rest = segment ++ '/' :: text := by
    have hcons : '/' :: ("node_modules".toList ++ '/' :: rest) = '/' :: (segment ++ '/' :: text) :=
      hrest
    exact List.cons_inj_right _ |>.mp hcons
  have hleft : ∀ c ∈ "node_modules".toList, (c != '/') = true :=
    List.all_eq_true.mp (by decide)
  have hright : ∀ c ∈ segment, (c != '/') = true := fun c hc => by
    rw [bne_iff_ne]
    rintro rfl
    exact hsegment hc
  have htake := congrArg (List.takeWhile (· != '/')) hsame
  rw [List.takeWhile_append_of_pos hleft, List.takeWhile_append_of_pos hright] at htake
  simpa using htake.symm

theorem afterLast_folder {segment : List Char} (hsegment : '/' ∉ segment)
    (hname : segment ≠ "node_modules".toList) (text : List Char) :
    afterLast modulesMarker ('/' :: (segment ++ '/' :: text)) =
      afterLast modulesMarker ('/' :: text) := by
  have hmarker : modulesMarker.isPrefixOf ('/' :: (segment ++ '/' :: text)) = false := by
    rw [Bool.eq_false_iff]
    exact fun htrue => hname (modulesMarker_isPrefixOf hsegment text htrue)
  rw [afterLast_cons hmarker, afterLast_segment hsegment]

theorem afterLast_modulesMarker {text : List Char}
    (hlast : afterLast modulesMarker ('/' :: text) = none) (above : List Char) :
    afterLast modulesMarker (above ++ '/' :: ("node_modules".toList ++ '/' :: text)) =
      some text := by
  apply afterLast_append
  have hinner : afterLast modulesMarker ("node_modules".toList ++ '/' :: text) = none := by
    rw [afterLast_segment (by decide), hlast]
  have hmarker : modulesMarker ++ text = '/' :: ("node_modules".toList ++ '/' :: text) := by
    rw [modulesMarker_eq]
    simp only [List.cons_append, List.append_assoc, List.nil_append]
  have hstart :
      modulesMarker.isPrefixOf ('/' :: ("node_modules".toList ++ '/' :: text)) = true := by
    rw [List.isPrefixOf_iff_prefix, ← hmarker]
    exact List.prefix_append _ _
  have hdrop :
      ('/' :: ("node_modules".toList ++ '/' :: text)).drop modulesMarker.length = text := by
    rw [← hmarker, List.drop_left]
  rw [afterLast, hinner, hstart]
  exact congrArg some hdrop

theorem stripSuffix_append (ending text : List Char) :
    stripSuffix ending (text ++ ending) = text := by
  have hsuffix : ending.isSuffixOf (text ++ ending) = true :=
    List.isSuffixOf_iff_suffix.mpr (List.suffix_append _ _)
  have hlength : (text ++ ending).length - ending.length = text.length := by
    rw [List.length_append]
    omega
  rw [stripSuffix, if_pos hsuffix, hlength, List.take_left]

theorem ne_slash {segment : List Char} (hsegment : '/' ∉ segment) :
    ∀ c ∈ segment, decide (c ≠ '/') = true := by
  intro c hc
  rw [decide_eq_true_eq]
  rintro rfl
  exact hsegment hc

theorem takeWhile_segment {segment : List Char} (hsegment : '/' ∉ segment) (text : List Char) :
    (segment ++ '/' :: text).takeWhile (· ≠ '/') = segment := by
  rw [List.takeWhile_append_of_pos (ne_slash hsegment)]
  simp

theorem takeWhile_whole {segment : List Char} (hsegment : '/' ∉ segment) :
    segment.takeWhile (· ≠ '/') = segment := by
  have happend : (segment ++ []).takeWhile (· ≠ '/') = segment ++ [].takeWhile (· ≠ '/') :=
    List.takeWhile_append_of_pos (ne_slash hsegment)
  simpa using happend

theorem getPackageName_unscoped {name : List Char} (hname : '/' ∉ name) :
    getPackageName (String.ofList name) = String.ofList name := by
  unfold getPackageName
  dsimp only
  rw [String.toList_ofList, takeWhile_whole hname, List.drop_length]

theorem getPackageName_scoped {scope name : List Char} (hat : scope.head? = some '@')
    (hscope : '/' ∉ scope) (hname : '/' ∉ name) :
    getPackageName (String.ofList (scope ++ '/' :: name)) =
      String.ofList (scope ++ '/' :: name) := by
  have hstarts : startsWith (String.ofList (scope ++ '/' :: name)) "@" = true := by
    cases scope with
    | nil => cases hat
    | cons c rest =>
      cases hat
      simp [startsWith]
  unfold getPackageName
  dsimp only
  rw [hstarts, String.toList_ofList, takeWhile_segment hscope, List.drop_left]
  dsimp only
  rw [if_pos rfl, takeWhile_whole hname]

/-! ## The service -/

/-- The operations on the caches of package results and on the index of their paths. -/
structure PackageCaches (κ : Type) where
  clearAll : κ → κ
  invalidatePackages : List String → κ → κ

structure Service (κ : Type) where
  packages : κ
  /-- Which set of shared resolvers is published. -/
  resolvers : Nat
  /-- The cached file sizes, with the cache generation. -/
  files : FileSize.Shared

namespace Service

variable {κ : Type} (caches : PackageCaches κ)

def invalidateSharedResolvers (s : Service κ) : Service κ :=
  { s with resolvers := s.resolvers + 1 }

def bumpCacheGeneration (s : Service κ) : Service κ :=
  { s with files := { s.files with cacheGeneration := s.files.cacheGeneration + 1 } }

def invalidateAll (s : Service κ) : Service κ :=
  { s with packages := caches.clearAll s.packages }.invalidateSharedResolvers.bumpCacheGeneration

def invalidatePackageJsonPaths (packageJsonPaths : List String) (s : Service κ) : Service κ :=
  let packageNames := packageJsonPaths.filterMap packageNameFromPackageJsonPath
  if packageNames.isEmpty then
    if packageJsonPaths.isEmpty then s else s.invalidateAll caches
  else
    { s with packages := caches.invalidatePackages packageNames s.packages
      }.invalidateSharedResolvers.bumpCacheGeneration

def invalidateWorkspaceConfigPaths (configPaths : List String) (s : Service κ) : Service κ :=
  if configPaths.isEmpty then s
  else
    let s := s.invalidateSharedResolvers
    { s with files := { s.files with cache := ∅ } }

/-- What `node_modules_changed` does with its two lists. -/
def nodeModulesChanged (packageJsonPaths configPaths : List String) (s : Service κ) : Service κ :=
  (s.invalidatePackageJsonPaths caches packageJsonPaths).invalidateWorkspaceConfigPaths configPaths

variable {caches} {s : Service κ} {packageJsonPaths configPaths : List String}

theorem packages_invalidateWorkspaceConfigPaths :
    (s.invalidateWorkspaceConfigPaths configPaths).packages = s.packages := by
  unfold invalidateWorkspaceConfigPaths
  split <;> rfl

/-- A path that names a package has the results of the package dropped. -/
theorem packages_nodeModulesChanged {path name : String} (hpath : path ∈ packageJsonPaths)
    (hname : packageNameFromPackageJsonPath path = some name) :
    ∃ packageNames, name ∈ packageNames ∧
      (s.nodeModulesChanged caches packageJsonPaths configPaths).packages =
        caches.invalidatePackages packageNames s.packages := by
  have hmem : name ∈ packageJsonPaths.filterMap packageNameFromPackageJsonPath :=
    List.mem_filterMap.mpr ⟨path, hpath, hname⟩
  refine ⟨_, hmem, ?_⟩
  rw [nodeModulesChanged, packages_invalidateWorkspaceConfigPaths, invalidatePackageJsonPaths,
    if_neg]
  · rfl
  · intro hempty
    rw [List.isEmpty_iff.mp hempty] at hmem
    cases hmem

/-- Paths of which none names a package have everything dropped. -/
theorem packages_nodeModulesChanged_unnamed (hne : packageJsonPaths ≠ [])
    (hnone : ∀ path ∈ packageJsonPaths, packageNameFromPackageJsonPath path = none) :
    (s.nodeModulesChanged caches packageJsonPaths configPaths).packages =
      caches.clearAll s.packages := by
  rw [nodeModulesChanged, packages_invalidateWorkspaceConfigPaths, invalidatePackageJsonPaths,
    List.filterMap_eq_nil_iff.mpr hnone]
  have hsome : packageJsonPaths.isEmpty = false := List.isEmpty_eq_false_iff.mpr hne
  simp only [List.isEmpty_nil, if_true, hsome, Bool.false_eq_true, if_false]
  rfl

theorem resolvers_invalidatePackageJsonPaths :
    s.resolvers ≤ (s.invalidatePackageJsonPaths caches packageJsonPaths).resolvers := by
  unfold invalidatePackageJsonPaths
  dsimp only
  split
  · split
    · exact Nat.le_refl _
    · exact Nat.le_succ _
  · exact Nat.le_succ _

theorem nodeModulesChanged_config {path : String} (hpath : path ∈ configPaths) :
    s.resolvers < (s.nodeModulesChanged caches packageJsonPaths configPaths).resolvers ∧
      (s.nodeModulesChanged caches packageJsonPaths configPaths).files.cache = ∅ := by
  have hempty : ¬ configPaths.isEmpty = true := by
    intro hempty
    rw [List.isEmpty_iff.mp hempty] at hpath
    cases hpath
  rw [nodeModulesChanged, invalidateWorkspaceConfigPaths, if_neg hempty]
  exact ⟨Nat.lt_succ_of_le resolvers_invalidatePackageJsonPaths, rfl⟩

/-- No file size that was stored so far answers a call that is signed after everything was
invalidated. -/
theorem unservable_invalidateAll {hash : Nat → List String → Nat} {contentHash : Bytes → Nat}
    (hhash : ∀ g tokens g' tokens', hash g tokens = hash g' tokens' → g = g' ∧ tokens = tokens')
    {c : Config FileSize.Shared FileSize.Position} (hinv : FileSize.Inv hash contentHash c)
    (hfiles : s.files = c.shared) {path : String} {entry : FileSize.CachedFileSize}
    (hentry : (s.invalidateAll caches).files.cache.lookup path = some entry)
    {generation : Nat} (hgeneration : (s.invalidateAll caches).files.cacheGeneration ≤ generation)
    (tokens : List String) (now : Nat) :
    entry.answers (FileSize.fileSizeSignature hash generation tokens) now = false := by
  have hlookup : c.shared.cache.lookup path = some entry := by
    rw [← hfiles]
    exact hentry
  have hraised : c.shared.cacheGeneration + 1 ≤ generation := by
    rw [← hfiles]
    exact hgeneration
  obtain ⟨origin, horigin, _, hsignature, _⟩ := hinv.entries path entry hlookup
  have hstored := (hinv.origins _ _ horigin).generation
  have hne : entry.signature ≠ FileSize.fileSizeSignature hash generation tokens := by
    intro hsame
    rw [hsignature] at hsame
    have hequal := (FileSize.fileSizeSignature_inj hhash hsame).1
    omega
  rw [FileSize.CachedFileSize.answers, decide_eq_false hne, Bool.false_and]

end Service

end ImportLens.Daemon.Invalidation
