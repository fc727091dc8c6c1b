import ImportLens.Support.Newest

/-!
# The registry metadata cache

Every daemon keeps the registry metadata of its packages in memory and shares one
file with the daemons of the other workspaces.  A flush merges the file into what
it writes, the newest entry of each package winning; a clear and a compaction
write what they hold and merge nothing.  A clear is recorded in the file by its
time, and a daemon that finds a newer one drops what it held from before it.

The operations here are those of one call that runs undisturbed.  What the
serializer makes of a snapshot enters as its length.
-/

namespace ImportLens.Registry

open ImportLens.Support

structure RegistryPackageMetadata where
  latestVersion : Option String
  latestPublishedAt : Option String
  deprecatedVersions : List String
  deriving DecidableEq, Repr

structure RegistryPackageMetadataEntry where
  metadata : Option RegistryPackageMetadata
  updatedAt : Nat
  retryAfter : Option Nat
  error : Option String
  notFound : Bool
  deriving DecidableEq, Repr

def entryAt (updatedAt : Nat) : RegistryPackageMetadataEntry :=
  ⟨none, updatedAt, none, none, false⟩

abbrev Entries : Type := Keyed String RegistryPackageMetadataEntry

def registryPersistBatch : Nat := 16

def registrySchemaVersion : Nat := 1

def registryRetentionMs : Nat := 30 * 24 * 60 * 60 * 1000

structure RegistrySnapshot where
  schemaVersion : Nat
  entries : Entries
  /-- The time of the last clear by any daemon. -/
  clearedAt : Nat

abbrev File : Type := Option RegistrySnapshot

/-- Whether the file can be read and written in one call; an absent file can. -/
structure Io where
  readOk : Bool := true
  writeOk : Bool := true
  deriving DecidableEq, Repr

/-- `load_snapshot`: whatever goes wrong, the snapshot is empty. -/
def loadSnapshot (io : Io) (file : File) : RegistrySnapshot :=
  let default : RegistrySnapshot := ⟨0, ∅, 0⟩
  if io.readOk then
    match file with
    | some snapshot =>
        if snapshot.schemaVersion = registrySchemaVersion then snapshot else default
    | none => default
  else default

def File.entries (file : File) : Entries := (loadSnapshot {} file).entries

def File.clearedAt (file : File) : Nat := (loadSnapshot {} file).clearedAt

def mergeNewest (entries onDisk : Entries) : Entries :=
  Keyed.mergeNewest RegistryPackageMetadataEntry.updatedAt entries onDisk

def keep (p : RegistryPackageMetadataEntry → Bool) (entries : Entries) : Entries :=
  entries.filterMapVal fun entry => if p entry then some entry else none

/-! ## Pruning and eviction -/

def pruneExpiredEntries (nowMs retentionMs : Nat) (entries : Entries) : Nat × Entries :=
  let kept := keep (fun entry =>
    entry.retryAfter.any (fun retryAt => decide (nowMs < retryAt)) ||
      decide (nowMs - entry.updatedAt ≤ retentionMs)) entries
  (entries.rows.length - kept.rows.length, kept)

section

variable (snapshotBytes : Entries → Nat)
  (entryFootprint : String → RegistryPackageMetadataEntry → Nat)

/-- The first phase: subtract the footprint of each victim.  The row at which the
estimate fits has left the iterator. -/
def evictEstimated (maxBytes : Nat) : List (String × RegistryPackageMetadataEntry) → Nat → Nat →
    Entries → Nat × Entries × List (String × RegistryPackageMetadataEntry)
  | [], _, evicted, entries => (evicted, entries, [])
  | row :: rest, estimated, evicted, entries =>
      if estimated ≤ maxBytes then (evicted, entries, rest)
      else evictEstimated maxBytes rest (estimated - entryFootprint row.1 row.2) (evicted + 1)
        (entries.erase row.1)

def evictExact (maxBytes : Nat) : List (String × RegistryPackageMetadataEntry) → Nat →
    Entries → Nat × Entries
  | [], evicted, entries => (evicted, entries)
  | row :: rest, evicted, entries =>
      if maxBytes < snapshotBytes entries then
        evictExact maxBytes rest (evicted + 1) (entries.erase row.1)
      else (evicted, entries)

def oldestFirst (entries : Entries) : List (String × RegistryPackageMetadataEntry) :=
  entries.rows.mergeSort fun a b =>
    ((compare a.2.updatedAt b.2.updatedAt).then (compare a.1 b.1)).isLE

def evictOldestOverBudget (maxBytes : Nat) (entries : Entries) : Nat × Entries :=
  if maxBytes = 0 ∨ snapshotBytes entries ≤ maxBytes then (0, entries)
  else
    let (evicted, entries, rest) := evictEstimated entryFootprint maxBytes (oldestFirst entries)
      (snapshotBytes entries) 0 entries
    evictExact snapshotBytes maxBytes rest evicted entries

def compactEntries (nowMs retentionMs : Nat) (maxBytes : Option Nat) (entries : Entries) :
    Nat × Entries :=
  let (pruned, entries) := pruneExpiredEntries nowMs retentionMs entries
  match maxBytes with
  | some maxBytes =>
      let (evicted, entries) := evictOldestOverBudget snapshotBytes entryFootprint maxBytes entries
      (pruned + evicted, entries)
  | none => (pruned, entries)

end

/-! ## The cache of one daemon -/

structure RegistryMetadataCache where
  entries : Entries := ∅
  /-- The newest clear applied to the entries. -/
  clearedAt : Nat := 0
  unpersistedWrites : Nat := 0

namespace RegistryMetadataCache

def new (io : Io) (file : File) : RegistryMetadataCache where
  entries := (loadSnapshot io file).entries
  clearedAt := (loadSnapshot io file).clearedAt

def adoptClear (clearedAt : Nat) (cache : RegistryMetadataCache) : RegistryMetadataCache :=
  if cache.clearedAt < clearedAt then
    { cache with
      entries := keep (fun entry => decide (clearedAt < entry.updatedAt)) cache.entries
      clearedAt := clearedAt }
  else cache

/-- `write_snapshot`: whether the file was written, and the file. -/
def writeSnapshot (io : Io) (entries : Entries) (file : File) (cache : RegistryMetadataCache) :
    Bool × File :=
  if io.writeOk then (true, some ⟨registrySchemaVersion, entries, cache.clearedAt⟩)
  else (false, file)

def persistSnapshot (io : Io) (file : File) (cache : RegistryMetadataCache) :
    Bool × File × RegistryMetadataCache :=
  let onDisk := loadSnapshot io file
  let cache := cache.adoptClear onDisk.clearedAt
  let (ok, file) := cache.writeSnapshot io (mergeNewest cache.entries onDisk.entries) file
  (ok, file, cache)

def flush (io : Io) (file : File) (cache : RegistryMetadataCache) :
    Bool × File × RegistryMetadataCache :=
  let had := cache.unpersistedWrites
  if had = 0 then (true, file, cache)
  else
    let (ok, file, cache) := { cache with unpersistedWrites := 0 }.persistSnapshot io file
    (ok, file,
      if ok then cache else { cache with unpersistedWrites := cache.unpersistedWrites + had })

/-- The section of `write_entry`. -/
def insert (packageName : String) (entry : RegistryPackageMetadataEntry)
    (cache : RegistryMetadataCache) : RegistryMetadataCache :=
  { cache with entries := cache.entries.insert packageName entry }

/-- `write_entry` after its section: a full batch is flushed. -/
def count (io : Io) (file : File) (cache : RegistryMetadataCache) :
    Bool × File × RegistryMetadataCache :=
  let cache := { cache with unpersistedWrites := cache.unpersistedWrites + 1 }
  if registryPersistBatch ≤ cache.unpersistedWrites then cache.flush io file
  else (true, file, cache)

/-- `write_entry` that runs undisturbed. -/
def writeEntry (io : Io) (packageName : String) (entry : RegistryPackageMetadataEntry)
    (file : File) (cache : RegistryMetadataCache) : Bool × File × RegistryMetadataCache :=
  (cache.insert packageName entry).count io file

def clear (io : Io) (nowMs : Nat) (file : File) (cache : RegistryMetadataCache) :
    Bool × File × RegistryMetadataCache :=
  let cache : RegistryMetadataCache :=
    { entries := ∅, clearedAt := max cache.clearedAt nowMs, unpersistedWrites := 0 }
  let (ok, file) := cache.writeSnapshot io ∅ file
  (ok, file, cache)

section

variable (snapshotBytes : Entries → Nat)
  (entryFootprint : String → RegistryPackageMetadataEntry → Nat)

def compactAuthoritatively (io : Io) (nowMs retentionMs : Nat) (maxBytes : Option Nat)
    (file : File) (cache : RegistryMetadataCache) : Nat × File × RegistryMetadataCache :=
  let onDisk := loadSnapshot io file
  let cache := cache.adoptClear onDisk.clearedAt
  let (removed, entries) := compactEntries snapshotBytes entryFootprint nowMs retentionMs maxBytes
    (mergeNewest cache.entries onDisk.entries)
  let cache := { cache with entries := entries, unpersistedWrites := 0 }
  (removed, (cache.writeSnapshot io entries file).2, cache)

def purgeExpired (io : Io) (nowMs retentionMs : Nat) (file : File)
    (cache : RegistryMetadataCache) : Nat × File × RegistryMetadataCache :=
  cache.compactAuthoritatively snapshotBytes entryFootprint io nowMs retentionMs none file

def runMaintenance (io : Io) (nowMs maxBytes : Nat) (file : File)
    (cache : RegistryMetadataCache) : Nat × File × RegistryMetadataCache :=
  cache.compactAuthoritatively snapshotBytes entryFootprint io nowMs registryRetentionMs
    (some maxBytes) file

end

end RegistryMetadataCache

/-! ## What the operations do to the entries -/

theorem loadSnapshot_cases (io : Io) (file : File) :
    loadSnapshot io file = loadSnapshot {} file ∨ loadSnapshot io file = ⟨0, ∅, 0⟩ := by
  unfold loadSnapshot
  by_cases hread : io.readOk = true
  · left
    simp [hread]
  · right
    simp [hread]

theorem lookup_keep {p : RegistryPackageMetadataEntry → Bool} {entries : Entries} {key : String}
    {entry : RegistryPackageMetadataEntry} :
    (keep p entries).lookup key = some entry ↔
      entries.lookup key = some entry ∧ p entry = true := by
  rw [keep, Keyed.lookup_filterMapVal]
  cases hentry : entries.lookup key with
  | none => simp
  | some found =>
      simp only [Option.bind_some, Option.some.injEq]
      constructor
      · intro h
        split at h
        · cases h
          exact ⟨rfl, by assumption⟩
        · cases h
      · rintro ⟨rfl, hp⟩
        rw [if_pos hp]

theorem all_keep {P : String → RegistryPackageMetadataEntry → Prop} {entries : Entries}
    (h : entries.All P) (p : RegistryPackageMetadataEntry → Bool) : (keep p entries).All P :=
  fun key entry hentry => h key entry (lookup_keep.mp hentry).1

section

variable {P : String → RegistryPackageMetadataEntry → Prop}
variable {snapshotBytes : Entries → Nat}
variable {entryFootprint : String → RegistryPackageMetadataEntry → Nat}

theorem all_evictEstimated {maxBytes : Nat} {rows : List (String × RegistryPackageMetadataEntry)}
    {estimated evicted : Nat} {entries : Entries} (h : entries.All P) :
    (evictEstimated entryFootprint maxBytes rows estimated evicted entries).2.1.All P := by
  induction rows generalizing estimated evicted entries with
  | nil => exact h
  | cons row rest ih =>
      unfold evictEstimated
      split
      · exact h
      · exact ih (h.erase row.1)

theorem all_evictExact {maxBytes : Nat} {rows : List (String × RegistryPackageMetadataEntry)}
    {evicted : Nat} {entries : Entries} (h : entries.All P) :
    (evictExact snapshotBytes maxBytes rows evicted entries).2.All P := by
  induction rows generalizing evicted entries with
  | nil => exact h
  | cons row rest ih =>
      unfold evictExact
      split
      · exact ih (h.erase row.1)
      · exact h

theorem all_compactEntries {nowMs retentionMs : Nat} {maxBytes : Option Nat} {entries : Entries}
    (h : entries.All P) :
    (compactEntries snapshotBytes entryFootprint nowMs retentionMs maxBytes entries).2.All P := by
  unfold compactEntries pruneExpiredEntries
  cases maxBytes with
  | none => exact all_keep h _
  | some maxBytes =>
      dsimp only
      unfold evictOldestOverBudget
      split
      · exact all_keep h _
      · exact all_evictExact (all_evictEstimated (all_keep h _))

end

namespace RegistryMetadataCache

variable {cache : RegistryMetadataCache} {clearedAt : Nat}

theorem lookup_adoptClear {key : String} {entry : RegistryPackageMetadataEntry} :
    (cache.adoptClear clearedAt).entries.lookup key = some entry ↔
      cache.entries.lookup key = some entry ∧
        (cache.clearedAt < clearedAt → clearedAt < entry.updatedAt) := by
  unfold adoptClear
  split
  · rename_i hnewer
    rw [lookup_keep]
    simp [hnewer]
  · rename_i hold
    simp [hold]

theorem clearedAt_adoptClear :
    (cache.adoptClear clearedAt).clearedAt = max cache.clearedAt clearedAt := by
  unfold adoptClear
  split
  · dsimp only
    omega
  · omega

theorem adoptClear_of_le (h : clearedAt ≤ cache.clearedAt) : cache.adoptClear clearedAt = cache :=
  if_neg (Nat.not_lt.mpr h)

/-- A flush has nothing to write, writes the merge with what it read, or fails and
takes its count back. -/
theorem flush_cases (io : Io) (file : File) (cache : RegistryMetadataCache) :
    cache.unpersistedWrites = 0 ∧ cache.flush io file = (true, file, cache) ∨
    ∃ adopted, adopted = cache.adoptClear (loadSnapshot io file).clearedAt ∧
      cache.unpersistedWrites ≠ 0 ∧
      (io.writeOk = true ∧ cache.flush io file =
          (true,
            some ⟨registrySchemaVersion,
              mergeNewest adopted.entries (loadSnapshot io file).entries, adopted.clearedAt⟩,
            { adopted with unpersistedWrites := 0 }) ∨
        io.writeOk = false ∧ cache.flush io file =
          (false, file, { adopted with unpersistedWrites := cache.unpersistedWrites })) := by
  by_cases hzero : cache.unpersistedWrites = 0
  · exact .inl ⟨hzero, by simp [RegistryMetadataCache.flush, hzero]⟩
  · refine .inr ⟨_, rfl, hzero, ?_⟩
    have hadopt : ({ cache with unpersistedWrites := 0 } : RegistryMetadataCache).adoptClear
          (loadSnapshot io file).clearedAt =
        { cache.adoptClear (loadSnapshot io file).clearedAt with unpersistedWrites := 0 } := by
      unfold RegistryMetadataCache.adoptClear
      dsimp only
      split <;> rfl
    cases hwrite : io.writeOk with
    | true =>
        left
        simp [RegistryMetadataCache.flush, RegistryMetadataCache.persistSnapshot,
          RegistryMetadataCache.writeSnapshot, hzero, hwrite, hadopt]
    | false =>
        right
        simp [RegistryMetadataCache.flush, RegistryMetadataCache.persistSnapshot,
          RegistryMetadataCache.writeSnapshot, hzero, hwrite, hadopt]

end RegistryMetadataCache

end ImportLens.Registry
