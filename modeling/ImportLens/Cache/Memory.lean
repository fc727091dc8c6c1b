import ImportLens.Cache.Disk.Store

/-!
# The import cache

The memory working set in front of the disk layer.  Every read goes through
`lookup`: the memory entry if there is one, else the disk, whose entry is then
mirrored into memory.  Every write goes through the gate of
`insertWithFingerprintsAtGeneration`.  The functions run one call at a time;
the concurrent model splits them at their atomic sections.
-/

namespace ImportLens.Cache

open ImportLens.Daemon ImportLens.Support

/-! ## Weights -/

def recentPreloadLimit : Nat := 20

def maxMemoryEntries : Nat := 4096

def maxMemoryWeightBytes : Nat := 128 * 1024 * 1024

def graphRowWeightBytes : Nat := 256

/-- Saturating arithmetic of a 64-bit `usize`. -/
def saturate (n : Nat) : Nat := min n u64Max

def memoryWeight (cached : CachedImport) : Nat :=
  saturate (saturate (cached.dependencyFingerprints.length +
    cached.result.internalContributions.length + 1) * graphRowWeightBytes)

/-! ## State -/

def unknownMaxAttempts : Nat := 3

def unknownPersistAfterMillis : Nat := 2000

/-- The graduation window of a transient error on one key. -/
structure UnknownRetry where
  firstSeen : Nat
  attempts : Nat
  deriving DecidableEq, Repr

structure ImportCache where
  memory : Keyed Key CachedImport
  disk : DiskCache
  /-- Keys whose disk insert failed, for the next `flush_to_disk`. -/
  dirty : List Key
  unknownRetry : Keyed Key UnknownRetry
  heap : Heap

inductive StalePolicy
  | evict
  | serve
  deriving DecidableEq, Repr

inductive ReadIntent
  | serve
  | requireFresh (promote : Bool)
  deriving DecidableEq, Repr

def ReadIntent.promotes : ReadIntent → Bool
  | serve => false
  | requireFresh promote => promote

def ReadIntent.requiresFresh : ReadIntent → Bool
  | serve => false
  | requireFresh _ => true

/-- The outcome of a read: the result with the verdict it was served under, the
cache after it, and the file accesses it made. -/
structure Lookup where
  found : Option (ImportResult × Freshness)
  cache : ImportCache
  accesses : List Access

namespace ImportCache

def clearUnknown (key : Key) (cache : ImportCache) : ImportCache :=
  { cache with unknownRetry := cache.unknownRetry.erase key }

/-- Another sighting of a transient error: quiet at first, `Unverified` once it
persists past either bound. -/
def recordUnknown (io : Io) (key : Key) (cache : ImportCache) : ResultFreshness × ImportCache :=
  let entry := (cache.unknownRetry.lookup key).getD ⟨io.sinceEpoch, 0⟩
  let seen : UnknownRetry := { entry with attempts := min (entry.attempts + 1) (2 ^ 32 - 1) }
  let withinWindow := decide (seen.attempts ≤ unknownMaxAttempts) &&
    decide (io.sinceEpoch - seen.firstSeen < unknownPersistAfterMillis)
  let freshness :=
    if withinWindow then ResultFreshness.stale true
    else ResultFreshness.unverified "dependency verification failed (transient)"
  (freshness, { cache with unknownRetry := cache.unknownRetry.insert key seen })

/-! ## Identity-guarded updates of the memory map -/

/-- Remove `key` only while it holds the entry with this identity. -/
def removeFromMemoryIfCurrent (key : Key) (identity : Nat) (cache : ImportCache) :
    Bool × ImportCache :=
  match cache.memory.lookup key with
  | some current =>
      if current.cell = identity then
        (true, { cache with memory := cache.memory.erase key })
      else (false, cache)
  | none => (false, cache)

/-- Evict an entry a read judged stale or gone; the disk copy goes only with
the memory one. -/
def evictIfCurrent (io : Io) (key : Key) (identity : Nat) (cache : ImportCache) : ImportCache :=
  match cache.removeFromMemoryIfCurrent key identity with
  | (true, removed) => { removed with disk := removed.disk.remove io key }
  | (false, kept) => kept

/-- Insert into memory unless a clear has bumped the generation; rolled back if
it has been bumped after the insert. -/
def insertIntoMemoryGuarded (key : Key) (cached : CachedImport) (capturedGeneration : Nat)
    (cache : ImportCache) : ImportCache :=
  if cache.disk.clearGeneration ≠ capturedGeneration then cache
  else
    let inserted := { cache with memory := cache.memory.insert key cached }
    if inserted.disk.clearGeneration ≠ capturedGeneration then
      (inserted.removeFromMemoryIfCurrent key cached.cell).2
    else inserted

section

variable (codec : Codec)

/-! ## The memory cap -/

def persistPromotion (io : Io) (key : Key) (clearGeneration : Nat) (cache : ImportCache) :
    ImportCache :=
  match cache.memory.lookup key with
  | none => cache
  | some cached =>
      let lastSeq := (cache.heap.cells cached.cell).lastSeq
      if (cache.heap.cells cached.cell).persistedSeq < lastSeq then
        match cache.disk.insertAtGeneration codec io cache.heap key cached clearGeneration with
        | (.ok _, disk) =>
            { cache with
              disk := disk
              heap := cache.heap.modify cached.cell fun cell =>
                { cell with persistedSeq := lastSeq } }
        | (.error _, disk) => { cache with disk := disk }
      else cache

def evictOldest (io : Io) (clearGeneration : Nat) :
    List (Nat × Key × Nat) → Nat → Nat → ImportCache → ImportCache
  | [], _, _, cache => cache
  | (_, key, entryWeight) :: rest, count, weight, cache =>
      if count ≤ maxMemoryEntries * 9 / 10 ∧ weight ≤ maxMemoryWeightBytes * 9 / 10 then cache
      else
        let persisted := cache.persistPromotion codec io key clearGeneration
        evictOldest io clearGeneration rest (count - 1) (weight - entryWeight)
          { persisted with memory := persisted.memory.erase key }

def memoryTotalWeight (cache : ImportCache) : Nat :=
  (cache.memory.rows.map fun row => memoryWeight row.2).foldl (fun a b => saturate (a + b)) 0

def withinCaps (cache : ImportCache) : Bool :=
  decide (cache.memory.rows.length ≤ maxMemoryEntries) &&
    decide (cache.memoryTotalWeight ≤ maxMemoryWeightBytes)

/-- `ImportCache::enforce_memory_cap`; dirty entries exist only in memory and
are never evicted. -/
def enforceMemoryCap (io : Io) (cache : ImportCache) : ImportCache :=
  if cache.withinCaps then cache
  else
    let candidates := (cache.memory.rows.filter fun row => !cache.dirty.contains row.1).map
      fun row => ((cache.heap.cells row.2.cell).lastSeq, row.1, memoryWeight row.2)
    let sorted := candidates.mergeSort
      fun a b => decide (toLex (a.1, toLex a.2) ≤ toLex (b.1, toLex b.2))
    cache.evictOldest codec io cache.disk.clearGeneration sorted cache.memory.rows.length
      cache.memoryTotalWeight

/-! ## Reads -/

def promoteRecency (cell : Nat) (cache : ImportCache) : ImportCache :=
  let (seq, heap) := cache.heap.nextSeq
  { cache with heap := heap.modify cell fun cell => { cell with lastSeq := seq } }

def fastPath (io : Io) (requireFresh : Bool) (cached : CachedImport) (heap : Heap) : Bool :=
  !requireFresh && !cached.firstParty &&
    (heap.cells cached.cell).isCurrent io.cacheGeneration io.sinceEpoch

def judge (io : Io) (requireFresh : Bool) (cached : CachedImport) (heap : Heap) : Probe :=
  if fastPath io requireFresh cached heap then ⟨.fresh, []⟩
  else checkFingerprintsStrict codec.contentHash io.fs cached.dependencyFingerprints

def asHit (result : ImportResult) : ImportResult := { result with cacheHit := true }

/-- The memory arm of `lookup`. -/
def lookupMemory (io : Io) (key : Key) (cached : CachedImport) (promote requireFresh : Bool)
    (stale : StalePolicy) (cache : ImportCache) : Lookup :=
  let cache := if promote then cache.promoteRecency cached.cell else cache
  let probe := judge codec io requireFresh cached cache.heap
  let evicted : Lookup :=
    ⟨none, (cache.clearUnknown key).evictIfCurrent io key cached.cell, probe.accesses⟩
  match probe.verdict with
  | .unknown => ⟨some (asHit cached.result, .unknown), cache, probe.accesses⟩
  | .stale =>
      if stale = .serve then
        ⟨some (asHit cached.result, .stale), cache.clearUnknown key, probe.accesses⟩
      else evicted
  | .gone => evicted
  | .fresh =>
      if fastPath io requireFresh cached cache.heap then
        ⟨some (asHit cached.result, .fresh), cache, probe.accesses⟩
      else
        let cleared := cache.clearUnknown key
        let stamped :=
          if cached.firstParty then cleared
          else
            { cleared with
              heap := cleared.heap.modify cached.cell fun cell =>
                cell.stamp io.cacheGeneration io.sinceEpoch }
        ⟨some (asHit cached.result, .fresh), stamped, probe.accesses⟩

/-- The stamps of an entry fetched from disk: a verified one is stamped, an
`Unknown` one keeps its never-verified stamp; both promote. -/
def markFetched (io : Io) (key : Key) (cached : CachedImport) (freshness : Freshness)
    (promote : Bool) (cache : ImportCache) : ImportCache :=
  let verified :=
    if freshness = .fresh then
      ImportCache.clearUnknown key
        { cache with
          heap := cache.heap.modify cached.cell fun cell =>
            cell.stamp io.cacheGeneration io.sinceEpoch }
    else cache
  if promote then verified.promoteRecency cached.cell else verified

/-- The disk arm of `lookup`: what the disk serves is mirrored into memory,
unless a force-fresh read could not verify it. -/
def lookupDisk (io : Io) (key : Key) (promote requireFresh : Bool) (cache : ImportCache) :
    Lookup :=
  let clearGeneration := cache.disk.clearGeneration
  let fetch := cache.disk.getEntry codec io cache.heap key
  let fetched := { cache with disk := fetch.disk, heap := fetch.heap }
  match fetch.found with
  | none => ⟨none, fetched, fetch.accesses⟩
  | some (cached, freshness) =>
      if freshness ≠ .fresh ∧ requireFresh then ⟨none, fetched, fetch.accesses⟩
      else
        let marked := fetched.markFetched io key cached freshness promote
        let hydrated := marked.insertIntoMemoryGuarded key cached clearGeneration
        ⟨some (asHit cached.result, freshness), hydrated.enforceMemoryCap codec io, fetch.accesses⟩

/-- `ImportCache::lookup`, behind every read. -/
def lookup (io : Io) (key : Key) (promote requireFresh : Bool) (stale : StalePolicy)
    (cache : ImportCache) : Lookup :=
  match cache.memory.lookup key with
  | some cached => cache.lookupMemory codec io key cached promote requireFresh stale
  | none => cache.lookupDisk codec io key promote requireFresh

/-- `ImportCache::read`: a force-fresh read refuses what is not fresh. -/
def read (io : Io) (key : Key) (intent : ReadIntent) (cache : ImportCache) :
    Option ImportResult × ImportCache × List Access :=
  let outcome := cache.lookup codec io key intent.promotes intent.requiresFresh .evict
  let served := outcome.found.bind fun found =>
    if !intent.requiresFresh || decide (found.2 = .fresh) then some found.1 else none
  (served, outcome.cache, outcome.accesses)

def getIfFresh (io : Io) (key : Key) (cache : ImportCache) :
    Option ImportResult × ImportCache × List Access :=
  cache.read codec io key (.requireFresh false)

def getIfFreshAndPromote (io : Io) (key : Key) (cache : ImportCache) :
    Option ImportResult × ImportCache × List Access :=
  cache.read codec io key (.requireFresh true)

/-- `ImportCache::get_with_result_freshness`: stale-while-revalidate. -/
def getWithResultFreshness (io : Io) (key : Key) (cache : ImportCache) :
    Option (ImportResult × ResultFreshness) × ImportCache × List Access :=
  let outcome := cache.lookup codec io key true false .serve
  match outcome.found with
  | none => (none, outcome.cache, outcome.accesses)
  | some (result, freshness) =>
      let (served, after) := match freshness with
        | .fresh => (ResultFreshness.fresh, outcome.cache)
        | .stale => (ResultFreshness.stale true, outcome.cache)
        | .unknown | .gone => outcome.cache.recordUnknown io key
      (some ({ result with freshness := served }, served), after, outcome.accesses)

/-! ## Inserts -/

def newEntry (io : Io) (key : Key) (result : ImportResult)
    (fingerprints : List FileFingerprint) (verifiedGeneration : Nat) (cache : ImportCache) :
    CachedImport × ImportCache :=
  let (bornSeq, ticked) := cache.heap.nextSeq
  let born : Cell := { lastSeq := bornSeq, persistedSeq := bornSeq }
  let (cell, heap) := ticked.alloc (born.stamp verifiedGeneration io.sinceEpoch)
  ({ result := result
     dependencyFingerprints := fingerprints
     cell := cell
     firstParty := cacheKeyIsFirstParty codec.identityFromSlice key },
    { cache with heap := heap })

def writeThrough (io : Io) (key : Key) (cached : CachedImport) (clearGeneration : Nat)
    (cache : ImportCache) : ImportCache :=
  match cache.disk.insertAtGeneration codec io cache.heap key cached clearGeneration with
  | (.ok _, disk) => { cache with disk := disk }
  | (.error _, disk) => { cache with disk := disk, dirty := cache.dirty.insert key }

/-- `ImportCache::insert_with_fingerprints_at_generation`, the gate of every
insert. -/
def insertWithFingerprintsAtGeneration (io : Io) (key : Key) (result : ImportResult)
    (fingerprints : List FileFingerprint) (verifiedGeneration : Nat) (cache : ImportCache) :
    ImportCache :=
  if !result.isDurable || !fingerprintsAreReusable fingerprints then cache
  else
    let cleared := cache.clearUnknown key
    let clearGeneration := cleared.disk.clearGeneration
    let (cached, born) := cleared.newEntry codec io key result fingerprints verifiedGeneration
    let written := born.writeThrough codec io key cached clearGeneration
    (written.insertIntoMemoryGuarded key cached clearGeneration).enforceMemoryCap codec io

/-- `ImportCache::insert_with_fingerprints`, stamped at insert time. -/
def insertWithFingerprints (io : Io) (key : Key) (result : ImportResult)
    (fingerprints : List FileFingerprint) (cache : ImportCache) : ImportCache :=
  cache.insertWithFingerprintsAtGeneration codec io key result fingerprints io.cacheGeneration

def insert (io : Io) (key : Key) (result : ImportResult) (cache : ImportCache) : ImportCache :=
  cache.insertWithFingerprints codec io key result []

/-! ## Evictions -/

def invalidatePackages (io : Io) (packageNames : List String) (cache : ImportCache) :
    ImportCache :=
  if packageNames.isEmpty then cache
  else
    { cache with
      disk := cache.disk.invalidatePackages codec io packageNames
      memory := cache.memory.retain fun key =>
        !cacheKeyMatchesAnyPackage codec.identityFromSlice packageNames key }

/-- `ImportCache::purge_orphan_entries`, with the number removed from disk. -/
def purgeOrphanEntries (io : Io) (currentAnalyzerVersion : String) (cache : ImportCache) :
    Nat × ImportCache :=
  let (removed, disk) := cache.disk.purgeOrphanEntries codec io currentAnalyzerVersion
  (removed,
    { cache with
      disk := disk
      memory := cache.memory.retain fun key =>
        !cacheKeyIsOrphan codec.identityFromSlice io.pathIsDefinitelyGone
          currentAnalyzerVersion key })

/-- `ImportCache::evict_keys`, with the bytes freed on disk. -/
def evictKeys (io : Io) (keys : List Key) (cache : ImportCache) : Nat × ImportCache :=
  let (freed, disk) := cache.disk.removeKeys io keys
  (freed, { cache with disk := disk, memory := cache.memory.eraseAll keys })

def clear (io : Io) (cache : ImportCache) : ImportCache :=
  { cache with disk := cache.disk.clear io, memory := ∅, dirty := [], unknownRetry := ∅ }

/-! ## Flushing and reopening -/

def replayDirty (io : Io) (clearGeneration : Nat) :
    List (Key × CachedImport) → DiskCache → Heap → List Key × List String × DiskCache
  | [], disk, _ => ([], [], disk)
  | (key, cached) :: rest, disk, heap =>
      let (outcome, disk') := disk.insertAtGeneration codec io heap key cached clearGeneration
      let (failed, errors, final) := replayDirty io clearGeneration rest disk' heap
      match outcome with
      | .ok _ => (failed, errors, final)
      | .error error => (key :: failed, (key ++ ": " ++ error) :: errors, final)

def sweepPromoted (io : Io) (clearGeneration : Nat) :
    List (Key × CachedImport) → DiskCache → Heap → List String × DiskCache × Heap
  | [], disk, heap => ([], disk, heap)
  | (key, cached) :: rest, disk, heap =>
      let seqAtFlush := (heap.cells cached.cell).lastSeq
      let (outcome, disk') := disk.insertAtGeneration codec io heap key cached clearGeneration
      match outcome with
      | .ok _ =>
          sweepPromoted io clearGeneration rest disk'
            (heap.modify cached.cell fun cell => { cell with persistedSeq := seqAtFlush })
      | .error error =>
          let (errors, final, heap') := sweepPromoted io clearGeneration rest disk' heap
          ((key ++ ": " ++ error) :: errors, final, heap')

def promotedEntries (failedDirty : List Key) (cache : ImportCache) : List (Key × CachedImport) :=
  cache.memory.rows.filter fun row =>
    !failedDirty.contains row.1 &&
      decide ((cache.heap.cells row.2.cell).persistedSeq < (cache.heap.cells row.2.cell).lastSeq)

def flushToDisk (io : Io) (cache : ImportCache) : Except String Unit × ImportCache :=
  let clearGeneration := cache.disk.clearGeneration
  let entries := cache.dirty.filterMap fun key =>
    (cache.memory.lookup key).map fun cached => (key, cached)
  let (failedDirty, dirtyErrors, replayed) :=
    replayDirty codec io clearGeneration entries cache.disk cache.heap
  let promoted := cache.promotedEntries failedDirty
  let (sweepErrors, swept, heap) :=
    sweepPromoted codec io clearGeneration promoted replayed cache.heap
  let errors := dirtyErrors ++ sweepErrors
  let outcome := if errors.isEmpty then .ok () else .error ("; ".intercalate errors)
  (outcome,
    { cache with disk := swept.flushPendingInserts io, dirty := failedDirty, heap := heap })

/-- The write of every memory entry to a database that has just opened, with
the keys that failed. -/
def writeAll (io : Io) (heap : Heap) (clearGeneration : Nat) :
    List (Key × CachedImport) → DiskCache → List Key × DiskCache
  | [], disk => ([], disk)
  | (key, cached) :: rest, disk =>
      let (outcome, disk') := disk.insertAtGeneration codec io heap key cached clearGeneration
      let (failed, final) := writeAll io heap clearGeneration rest disk'
      match outcome with
      | .ok _ => (failed, final)
      | .error _ => (key :: failed, final)

def mirrorMissing (clearGeneration : Nat) :
    List (Key × CachedImport) → ImportCache → ImportCache
  | [], cache => cache
  | (key, cached) :: rest, cache =>
      if (cache.memory.lookup key).isSome then mirrorMissing clearGeneration rest cache
      else
        mirrorMissing clearGeneration rest
          (cache.insertIntoMemoryGuarded key cached clearGeneration)

def reopenDisk (io : Io) (cache : ImportCache) : Bool × ImportCache :=
  if cache.disk.isAvailable then (true, cache)
  else
    match cache.disk.reopenIfUnavailable io with
    | (false, _) => (false, cache)
    | (true, reopened) =>
        let clearGeneration := reopened.clearGeneration
        let (failed, written) :=
          writeAll codec io cache.heap clearGeneration cache.memory.rows reopened
        let (loaded, disk, heap) := written.loadRecent codec io cache.heap recentPreloadLimit
        let attached :=
          { cache with
            disk := disk, heap := heap
            dirty := failed.foldl (fun dirty key => dirty.insert key) cache.dirty }
        (true, (mirrorMissing clearGeneration loaded attached).enforceMemoryCap codec io)

/-- `ImportCache::with_disk`: the preload of a cache over a disk just opened. -/
def withDisk (io : Io) (heap : Heap) (disk : DiskCache) (recentPreloadLimit : Nat) :
    ImportCache :=
  let (loaded, disk, heap) := disk.loadRecent codec io heap recentPreloadLimit
  { memory := Keyed.insertAll loaded ∅
    disk := disk
    dirty := []
    unknownRetry := ∅
    heap := heap }

end

end ImportCache

end ImportLens.Cache
