import ImportLens.Daemon.Invalidation
import ImportLens.Extension.WatcherInvalidation

/-!
# Watched changes reach the daemon

A path is queued in the extension, flushed with its burst, and mapped back to a package
name in the daemon.  Whatever the burst, the package whose manifest changed or whose
folder went has its results dropped, by name or with everything else.
-/

namespace ImportLens.Daemon.Invalidation

open ImportLens.Document ImportLens.Pipeline ImportLens.Support ImportLens.Support.Debounce
open ImportLens.Extension.Watcher ImportLens.Cache

/-! ## The name of a package folder -/

theorem normalized_char {c : Char} (hsegment : isSeparator c = false) :
    (if c = '\\' then '/' else c) = c := by
  rw [if_neg]
  rintro rfl
  exact absurd hsegment (by decide)

theorem normalized_separator {c : Char} (hseparator : isSeparator c = true) :
    (if c = '\\' then '/' else c) = '/' := by
  simp only [isSeparator, Bool.or_eq_true, beq_iff_eq] at hseparator
  rcases hseparator with rfl | rfl
  · decide
  · decide

theorem normalized_segment {segment : List Char} (hsegment : ∀ c ∈ segment, isSeparator c = false) :
    segment.map (fun c => if c = '\\' then '/' else c) = segment := by
  conv_rhs => rw [← List.map_id segment]
  apply List.map_congr_left
  intro c hc
  exact normalized_char (hsegment c hc)

theorem slash_notMem {segment : List Char} (hsegment : ∀ c ∈ segment, isSeparator c = false) :
    '/' ∉ segment :=
  fun hslash => absurd (hsegment _ hslash) (by decide)

section

variable (folder : PackageFolder)

def nameText : List Char :=
  match folder.scope with
  | none => folder.name
  | some part => part ++ '/' :: folder.name

theorem normalized_manifest {separator : Char} (hseparator : isSeparator separator = true) :
    ∃ above, normalized (folder.manifest separator) =
      above ++ '/' ::
        ("node_modules".toList ++ '/' :: (nameText folder ++ "/package.json".toList)) := by
  obtain ⟨hbefore, hafter, hscope⟩ := folder.separators
  refine ⟨folder.above.map fun c => if c = '\\' then '/' else c, ?_⟩
  unfold normalized PackageFolder.manifest PackageFolder.path PackageFolder.parent
    PackageFolder.lastSeparator PackageFolder.modules nameText
  cases hpart : folder.scope with
  | none =>
    simp only [String.toList_ofList, List.map_append, List.map_cons, normalized_separator hbefore,
      normalized_separator hafter, normalized_separator hseparator,
      normalized_segment nodeModules_segment, normalized_segment folder.segment,
      normalized_segment packageJson_segment, List.append_assoc, List.cons_append]
    rfl
  | some part =>
    simp only [String.toList_ofList, List.map_append, List.map_cons, normalized_separator hbefore,
      normalized_separator hafter, normalized_separator hscope, normalized_separator hseparator,
      normalized_segment nodeModules_segment, normalized_segment folder.segment,
      normalized_segment (folder.inScope part hpart).2,
      normalized_segment packageJson_segment, List.append_assoc, List.cons_append]
    rfl

theorem afterLast_nameText :
    afterLast modulesMarker ('/' :: (nameText folder ++ "/package.json".toList)) = none := by
  have hend : afterLast modulesMarker "/package.json".toList = none := by decide
  have hname : afterLast modulesMarker ('/' :: (folder.name ++ "/package.json".toList)) = none := by
    rw [← hend]
    exact afterLast_folder (slash_notMem folder.segment) folder.named.2.2 "package.json".toList
  unfold nameText
  cases hpart : folder.scope with
  | none => exact hname
  | some part =>
    obtain ⟨hat, hsegment⟩ := folder.inScope part hpart
    have hmodules : part ≠ "node_modules".toList := by
      rintro rfl
      exact absurd hat (by decide)
    dsimp only
    rw [List.append_assoc, List.cons_append, afterLast_folder (slash_notMem hsegment) hmodules]
    exact hname

theorem getPackageName_nameText :
    getPackageName (String.ofList (nameText folder)) = folder.packageName := by
  unfold nameText PackageFolder.packageName
  cases hpart : folder.scope with
  | none => exact getPackageName_unscoped (slash_notMem folder.segment)
  | some part =>
    obtain ⟨hat, hsegment⟩ := folder.inScope part hpart
    exact getPackageName_scoped hat (slash_notMem hsegment) (slash_notMem folder.segment)

theorem packageNameFromPackageJsonPath_manifest {separator : Char}
    (hseparator : isSeparator separator = true) :
    packageNameFromPackageJsonPath (folder.manifest separator) = some folder.packageName := by
  obtain ⟨above, habove⟩ := normalized_manifest folder hseparator
  rw [packageNameFromPackageJsonPath, habove,
    afterLast_modulesMarker (afterLast_nameText folder) above, Option.map_some, stripSuffix_append,
    getPackageName_nameText]

end

/-! ## From the queue to the daemon -/

/-- The daemon is told of a package: by everything, or by a path it maps to the name. -/
def Told (message : Option Message) (path name : String) : Prop :=
  message = some .invalidateAll ∨
    ∃ packageJsonPaths tsconfigPaths,
      message = some (.nodeModulesChanged packageJsonPaths tsconfigPaths) ∧
        path ∈ packageJsonPaths ∧ packageNameFromPackageJsonPath path = some name

/-- A folder whose loss cannot be told package by package. -/
def IsModulesOrScope (deleted : String) : Prop :=
  basenameOf deleted = nodeModules ∨
    ∃ modules scope separator, deleted = String.ofList (modules ++ separator :: scope) ∧
      isSeparator separator = true ∧ basenameOf (String.ofList modules) = nodeModules ∧
      scope.head? = some '@' ∧ ∀ c ∈ scope, isSeparator c = false

theorem reported_modulesOrScope {deleted : String} (h : IsModulesOrScope deleted) :
    ∃ path, nodeModulesDeletionPath deleted = some path ∧ basenameOf path = nodeModules := by
  rcases h with hmodules | ⟨modules, scope, separator, rfl, hseparator, hmodules, hat, hsegment⟩
  · exact ⟨deleted, nodeModulesDeletionPath_nodeModules hmodules, hmodules⟩
  · exact nodeModulesDeletionPath_scope hseparator hmodules hat hsegment

/-- What a queued path has the daemon told. -/
structure Arrives (message : Option Message) (path : String) : Prop where
  listed : basenameOf path = packageJson →
    message = some .invalidateAll ∨
      ∃ packageJsonPaths tsconfigPaths,
        message = some (.nodeModulesChanged packageJsonPaths tsconfigPaths) ∧
          path ∈ packageJsonPaths
  manifest : ∀ (folder : PackageFolder) (separator : Char), isSeparator separator = true →
    path = folder.manifest separator → Told message path folder.packageName
  deleted : ∀ folder : PackageFolder, nodeModulesDeletionPath folder.path = some path →
    Told message path folder.packageName
  lost : ∀ deleted, IsModulesOrScope deleted → nodeModulesDeletionPath deleted = some path →
    message = some .invalidateAll
  config : isWorkspaceConfigPath path = true →
    message = some .invalidateAll ∨
      ∃ packageJsonPaths tsconfigPaths,
        message = some (.nodeModulesChanged packageJsonPaths tsconfigPaths) ∧ path ∈ tsconfigPaths

section

variable {batch : List String} {path : String} {burstLimit : Nat}

theorem listed_packageJson (hpath : path ∈ batch) (hbasename : basenameOf path = packageJson) :
    (nodeModulesInvalidationDecision batch burstLimit).message = some .invalidateAll ∨
      ∃ packageJsonPaths tsconfigPaths,
        (nodeModulesInvalidationDecision batch burstLimit).message =
            some (.nodeModulesChanged packageJsonPaths tsconfigPaths) ∧
          path ∈ packageJsonPaths := by
  have hne : path ≠ "" := by
    rintro rfl
    exact absurd hbasename (by decide)
  exact decision_lists hpath hne (by rw [hbasename]; decide)

theorem told_manifest (hpath : path ∈ batch) {folder : PackageFolder} {separator : Char}
    (hseparator : isSeparator separator = true) (hmanifest : path = folder.manifest separator) :
    Told (nodeModulesInvalidationDecision batch burstLimit).message path folder.packageName := by
  have hbasename : basenameOf path = packageJson := by
    rw [hmanifest, folder.basenameOf_manifest hseparator]
  have hlists := @listed_packageJson batch path burstLimit hpath hbasename
  rcases hlists with hall | ⟨packageJsonPaths, tsconfigPaths, hchanged, hlisted⟩
  · exact .inl hall
  · refine .inr ⟨packageJsonPaths, tsconfigPaths, hchanged, hlisted, ?_⟩
    rw [hmanifest, packageNameFromPackageJsonPath_manifest folder hseparator]

theorem arrives_decision (hpath : path ∈ batch) :
    Arrives (nodeModulesInvalidationDecision batch burstLimit).message path := by
  constructor
  · exact listed_packageJson hpath
  · intro folder separator hseparator hmanifest
    exact told_manifest hpath hseparator hmanifest
  · intro folder hdeleted
    obtain ⟨separator, hseparator, hreported⟩ := folder.nodeModulesDeletionPath_path
    rw [hreported, Option.some.injEq] at hdeleted
    exact told_manifest hpath hseparator hdeleted.symm
  · intro deleted hfolder hdeleted
    obtain ⟨reported, hreported, hbasename⟩ := reported_modulesOrScope hfolder
    rw [hreported, Option.some.injEq] at hdeleted
    subst hdeleted
    exact decision_nodeModules hpath hbasename
  · exact decision_config hpath

end

namespace Service

variable {κ : Type} (caches : PackageCaches κ)

def receive (message : Message) (s : Service κ) : Service κ :=
  match message with
  | .invalidateAll => s.invalidateAll caches
  | .nodeModulesChanged packageJsonPaths tsconfigPaths =>
      s.nodeModulesChanged caches packageJsonPaths tsconfigPaths

/-- What the daemon has dropped when it is told of a package. -/
theorem packages_receive {message : Message} {path name : String}
    (htold : Told (some message) path name) (s : Service κ) :
    (s.receive caches message).packages = caches.clearAll s.packages ∨
      ∃ packageNames, name ∈ packageNames ∧
        (s.receive caches message).packages =
          caches.invalidatePackages packageNames s.packages := by
  rcases htold with hall | ⟨packageJsonPaths, tsconfigPaths, hchanged, hpath, hname⟩
  · cases hall
    exact .inl rfl
  · cases hchanged
    exact .inr (packages_nodeModulesChanged hpath hname)

end Service

/-- What is queued in a live buffer arrives with the next flush.  The results of a package whose
manifest or folder it names are dropped; everything is, where a `node_modules` or a scope went
or where no path that arrived names a package; and a configuration replaces the shared resolvers
and leaves no cached file size that a later call could be served. -/
theorem watched_changes_arrive {before between : List (Op String)} {last : Op String}
    {path : String} (hbefore : .dispose ∉ before)
    (hbetween : ∀ op ∈ between, ∃ other, op = .queue other)
    (hlast : last = .flush ∨ last = .timer)
    {κ : Type} (caches : PackageCaches κ) {s : Service κ}
    {hash : Nat → List String → Nat} {contentHash : Bytes → Nat}
    (hhash : ∀ g tokens g' tokens', hash g tokens = hash g' tokens' → g = g' ∧ tokens = tokens')
    {generation clock : Nat} {acts : List (Nat × FileSize.Action)}
    {c : Config FileSize.Shared FileSize.Position}
    (hrun : Runs (FileSize.program hash contentHash) (fun _ _ _ => True)
      (FileSize.started generation clock) acts c)
    (hfiles : s.files = c.shared) :
    Arrives (sends (Buffer.run {} (before ++ .queue path :: between)) last) path ∧
    (∀ folder : PackageFolder, (nodeModulesDeletionPath folder.path).isSome) ∧
    (∀ deleted, IsModulesOrScope deleted → (nodeModulesDeletionPath deleted).isSome) ∧
    (∀ message name, Told (some message) path name →
      (s.receive caches message).packages = caches.clearAll s.packages ∨
        ∃ packageNames, name ∈ packageNames ∧
          (s.receive caches message).packages =
            caches.invalidatePackages packageNames s.packages) ∧
    (∀ packageJsonPaths tsconfigPaths, packageJsonPaths ≠ [] →
      (∀ other ∈ packageJsonPaths, packageNameFromPackageJsonPath other = none) →
      (s.receive caches (.nodeModulesChanged packageJsonPaths tsconfigPaths)).packages =
        caches.clearAll s.packages) ∧
    (∀ packageJsonPaths tsconfigPaths, path ∈ tsconfigPaths →
      s.resolvers <
        (s.receive caches (.nodeModulesChanged packageJsonPaths tsconfigPaths)).resolvers ∧
        (s.receive caches (.nodeModulesChanged packageJsonPaths tsconfigPaths)).files.cache = ∅) ∧
    s.resolvers < (s.receive caches .invalidateAll).resolvers ∧
    ∀ document entry later tokens now,
      (s.receive caches .invalidateAll).files.cache.lookup document = some entry →
      (s.receive caches .invalidateAll).files.cacheGeneration ≤ later →
      entry.answers (FileSize.fileSizeSignature hash later tokens) now = false := by
  have hinv : FileSize.Inv hash contentHash c :=
    hrun.invariant (fun _ _ _ _ _ hstep hinv => hinv.step hstep) (FileSize.inv_started _ _)
  obtain ⟨batch, hbatch, hpath⟩ := queued_flushed hbefore hbetween hlast
  refine ⟨?_, fun folder => ?_, fun deleted hdeleted => ?_, fun message name htold => ?_,
    fun packageJsonPaths tsconfigPaths => Service.packages_nodeModulesChanged_unnamed,
    fun packageJsonPaths tsconfigPaths => Service.nodeModulesChanged_config, ?_, ?_⟩
  · rw [sends, hbatch, Option.bind_some]
    exact arrives_decision hpath
  · obtain ⟨separator, _, hreported⟩ := folder.nodeModulesDeletionPath_path
    rw [hreported, Option.isSome_some]
  · obtain ⟨reported, hreported, _⟩ := reported_modulesOrScope hdeleted
    rw [hreported, Option.isSome_some]
  · exact Service.packages_receive caches htold s
  · exact Nat.lt_succ_self _
  · intro document entry later tokens now hentry hlater
    exact Service.unservable_invalidateAll hhash hinv hfiles hentry hlater tokens now

/-- A manifest and a configuration in one burst, flushed by the timer. -/
theorem watched_changes_arrive_burst :
    Arrives (sends (Buffer.run {} ([] ++ .queue "/w/node_modules/react/package.json" ::
      [.queue "/w/tsconfig.json"])) .timer) "/w/node_modules/react/package.json" :=
  (watched_changes_arrive (κ := List String) (c := FileSize.started 1 0)
    (s := ⟨["react"], 0, (FileSize.started 1 0).shared⟩) (by decide)
    (fun op hop => ⟨"/w/tsconfig.json", List.mem_singleton.mp hop⟩) (.inr rfl)
    ⟨fun _ => [], fun packageNames results => results.filter (· ∉ packageNames)⟩
    FileSize.codeHash_inj
    (.refl _ : Runs (FileSize.program FileSize.codeHash List.length) (fun _ _ _ => True)
      (FileSize.started 1 0) [] (FileSize.started 1 0)) rfl).1

/-- A path without a folder above its `node_modules` has no name in the daemon and is skipped
beside one that has; and a disposed buffer takes nothing. -/
theorem relative_folder_skipped :
    nodeModulesDeletionPath "node_modules/lodash" = some "node_modules/lodash/package.json" ∧
      sends (Buffer.run {} [.queue "node_modules/lodash/package.json",
        .queue "/w/node_modules/react/package.json"]) .flush =
          some (.nodeModulesChanged ["node_modules/lodash/package.json",
            "/w/node_modules/react/package.json"] []) ∧
      packageNameFromPackageJsonPath "node_modules/lodash/package.json" = none ∧
      sends (Buffer.run {} [.dispose, .queue "/w/node_modules/react/package.json"]) .flush =
        none := by
  decide +kernel

end ImportLens.Daemon.Invalidation
