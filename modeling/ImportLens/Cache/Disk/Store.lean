import ImportLens.Cache.Entry
import ImportLens.Cache.Disk.Queue
import Mathlib.Data.Finset.Sort

/-!
# The disk layer of the cache

A shard that may be open, in front of it a queue of serialized values waiting
for a batched commit, and the generation that a clear bumps.  The sections the
source runs under one lock are functions of their own (`enqueue`,
`keptInserts`, `requeue`, the removals from queue and table); each operation is
their composition, and the concurrent model takes the same sections as its
atomic steps.

Time, the file system and the failures of the store are the environment's
choice, one for each call.  Locks are never poisoned: nothing panics while
holding one.
-/

namespace ImportLens.Cache

open ImportLens.Support

/-- What opening the database file comes to: no database, the one that is
there, or a new one in place of a corrupt or incompatible file. -/
inductive OpenOutcome
  | unavailable
  | opened (shard : Shard)
  | recreated

/-- What the environment answers during one call. -/
structure Io where
  fs : FileSystem
  pathIsDefinitelyGone : String → Bool
  faults : Faults
  openOutcome : OpenOutcome
  /-- Wall clock, for the flush backoff. -/
  unixMillis : Nat
  /-- Monotonic clock, for the verification and retry windows. -/
  sinceEpoch : Nat
  /-- `CACHE_GENERATION`, which an invalidation bumps. -/
  cacheGeneration : Nat

def Io.quiet (shard : Shard) : Io where
  fs := ⟨fun _ => .error .notFound, fun _ => .error .notFound⟩
  pathIsDefinitelyGone _ := false
  faults := noFaults
  openOutcome := .opened shard
  unixMillis := 0
  sinceEpoch := 0
  cacheGeneration := 1

def flushRetryBackoffMillis : Nat := 30000

structure DiskCache where
  db : Option Shard
  /-- Queued values, each with the clear generation of its writer. -/
  pendingInserts : Keyed Key (Nat × Bytes)
  clearGeneration : Nat
  flushRetryAfter : Nat
  /-- Whether the shard has a storage path, so that a failed open can be
  retried. -/
  enabled : Bool

namespace DiskCache

def isAvailable (disk : DiskCache) : Bool := disk.db.isSome

/-! ## Opening -/

/-- `DiskCache::open_database`: a database that is there is healed. -/
def openDatabase (io : Io) : Option Shard :=
  match io.openOutcome with
  | .unavailable => none
  | .opened shard => some (healSummaryIfInconsistent io.faults shard)
  | .recreated => some Shard.empty

/-- `DiskCache::new` and `open_existing`; `enabled` is false without a storage
path. -/
def new (io : Io) (enabled : Bool) : DiskCache where
  db := if enabled then openDatabase io else none
  pendingInserts := ∅
  clearGeneration := 0
  flushRetryAfter := 0
  enabled := enabled

def reopenIfUnavailable (io : Io) (disk : DiskCache) : Bool × DiskCache :=
  if disk.isAvailable then (true, disk)
  else if !disk.enabled then (false, disk)
  else
    match openDatabase io with
    | none => (false, disk)
    | some shard => (true, { disk with db := some shard })

/-! ## The queue -/

def shedOldestPendingInserts (pending : Keyed Key (Nat × Bytes)) : Keyed Key (Nat × Bytes) :=
  shedOldest decodeLastSeq pending

def enqueue (disk : DiskCache) (key : Key) (generation : Nat) (bytes : Bytes) : DiskCache :=
  { disk with
    pendingInserts :=
      shedOldestPendingInserts (disk.pendingInserts.insert key (generation, bytes)) }

def shouldFlush (io : Io) (disk : DiskCache) : Bool :=
  decide (insertFlushBatch ≤ disk.pendingInserts.rows.length) &&
    decide (disk.flushRetryAfter ≤ io.unixMillis)

def keptInserts (disk : DiskCache) : Keyed Key Bytes :=
  keptAt disk.clearGeneration disk.pendingInserts

def requeue (disk : DiskCache) (kept : Keyed Key Bytes) : DiskCache :=
  { disk with
    pendingInserts :=
      shedOldestPendingInserts
        (requeueRows disk.clearGeneration kept.rows disk.pendingInserts) }

def flushPendingInserts (io : Io) (disk : DiskCache) : DiskCache :=
  match disk.db with
  | none => disk
  | some shard =>
      if disk.pendingInserts.rows.isEmpty then disk
      else
        let kept := disk.keptInserts
        let taken := { disk with pendingInserts := ∅ }
        if kept.rows.isEmpty then taken
        else
          match writePendingInserts io.faults shard kept with
          | .ok written => { taken with db := some written, flushRetryAfter := 0 }
          | .error _ =>
              requeue { taken with flushRetryAfter := io.unixMillis + flushRetryBackoffMillis }
                kept

/-! ## Inserts -/

section

variable (codec : Codec)

def persisted (cached : CachedImport) : CachedImport :=
  { cached with result := { cached.result with cacheHit := false } }

/-- `DiskCache::write_at_generation`: encode, queue, and flush a full batch. -/
def writeAtGeneration (io : Io) (heap : Heap) (key : Key) (cached : CachedImport)
    (generation : Nat) (disk : DiskCache) : Except String Unit × DiskCache :=
  match encodeCacheValue codec heap (persisted cached) with
  | .error error => (.error error, disk)
  | .ok bytes =>
      let queued := disk.enqueue key generation bytes
      if queued.shouldFlush io then (.ok (), queued.flushPendingInserts io) else (.ok (), queued)

/-- `DiskCache::insert_at_generation`.  Without a database, and for a result
that does not pass the gate, it is a no-op that succeeds. -/
def insertAtGeneration (io : Io) (heap : Heap) (key : Key) (cached : CachedImport)
    (generation : Nat) (disk : DiskCache) : Except String Unit × DiskCache :=
  if !disk.isAvailable then (.ok (), disk)
  else if !cached.result.isDurable || !fingerprintsAreReusable cached.dependencyFingerprints then
    (.ok (), disk)
  else disk.writeAtGeneration codec io heap key cached generation

end

/-! ## Removals -/

def onDb (disk : DiskCache) (txn : Shard → Shard) : DiskCache :=
  { disk with db := disk.db.map txn }

/-- `DiskCache::remove`: the queued value, then the row. -/
def remove (io : Io) (key : Key) (disk : DiskCache) : DiskCache :=
  onDb { disk with pendingInserts := disk.pendingInserts.erase key }
    fun shard => removeFromTable io.faults shard key

/-- `DiskCache::remove_keys`, with the bytes it reports freed. -/
def removeKeys (io : Io) (keys : List Key) (disk : DiskCache) : Nat × DiskCache :=
  if keys.isEmpty then (0, disk)
  else
    let unqueued := { disk with pendingInserts := disk.pendingInserts.eraseAll keys }
    match unqueued.db with
    | none => (0, unqueued)
    | some shard =>
        let (committed, freed) := removeKeysFromTable io.faults shard keys
        (freed, { unqueued with db := some committed })

section

variable (codec : Codec)

def invalidatePackages (io : Io) (packageNames : List String) (disk : DiskCache) : DiskCache :=
  if packageNames.isEmpty then disk
  else
    let wanted := cacheKeyMatchesAnyPackage codec.identityFromSlice packageNames
    onDb { disk with pendingInserts := disk.pendingInserts.retain fun key => !wanted key }
      fun shard => invalidateInTable io.faults shard wanted

/-- `DiskCache::purge_orphan_entries`, with the number of rows it removed.
Unlike the other removals it leaves the queue for last. -/
def purgeOrphanEntries (io : Io) (currentAnalyzerVersion : String) (disk : DiskCache) :
    Nat × DiskCache :=
  let orphan := cacheKeyIsOrphan codec.identityFromSlice io.pathIsDefinitelyGone
    currentAnalyzerVersion
  match disk.db with
  | none => (0, disk)
  | some shard =>
      let orphanKeys :=
        if fails io.faults .beginRead then [] else scanKeys io.faults shard orphan
      if orphanKeys.isEmpty then (0, disk)
      else
        let (committed, removed) := purgeFromTable io.faults shard orphan
        (removed,
          { disk with
            db := some committed
            pendingInserts := disk.pendingInserts.retain fun key => !orphan key })

end

/-- `DiskCache::clear`: bump, wipe the tables, wipe the queue. -/
def clear (io : Io) (disk : DiskCache) : DiskCache :=
  let bumped := { disk with clearGeneration := disk.clearGeneration + 1 }
  { bumped.onDb (clearTables io.faults) with pendingInserts := ∅ }

/-! ## Reads -/

/-- The outcome of a disk read: the entry with the verdict it was served under,
the disk and the heap after it, and the file accesses it made. -/
structure Fetch where
  found : Option (CachedImport × Freshness)
  disk : DiskCache
  heap : Heap
  accesses : List Access

section

variable (codec : Codec)

def pendingInsert (heap : Heap) (key : Key) (disk : DiskCache) : Option (CachedImport × Heap) :=
  match disk.pendingInserts.lookup key with
  | none => none
  | some (generation, bytes) =>
      if generation ≠ disk.clearGeneration then none else decodeCachedResult codec heap bytes

def committedRow (io : Io) (key : Key) (disk : DiskCache) : Option Bytes :=
  match disk.db with
  | none => none
  | some shard =>
      if fails io.faults .beginRead || fails io.faults (.openTable .scan .cache) ||
          fails io.faults (.readRow .scan key) then none
      else shard.cache.lookup key

/-- `DiskCache::read_committed`: an undecodable or non-durable row is removed. -/
def readCommitted (io : Io) (heap : Heap) (key : Key) (disk : DiskCache) :
    Option CachedImport × DiskCache × Heap :=
  match disk.committedRow io key with
  | none => (none, disk, heap)
  | some bytes =>
      match decodeCachedResult codec heap bytes with
      | none => (none, disk.remove io key, heap)
      | some (cached, heap') =>
          if !cached.result.isDurable || !fingerprintsAreReusable cached.dependencyFingerprints
          then (none, disk.remove io key, heap')
          else (some cached, disk, heap')

def verifyFetched (io : Io) (key : Key) (cached : CachedImport) (disk : DiskCache) (heap : Heap) :
    Fetch :=
  let cached :=
    { cached with firstParty := cacheKeyIsFirstParty codec.identityFromSlice key }
  let probe := checkFingerprintsStrict codec.contentHash io.fs cached.dependencyFingerprints
  match probe.verdict with
  | .stale | .gone => ⟨none, disk.remove io key, heap, probe.accesses⟩
  | .fresh | .unknown => ⟨some (cached, probe.verdict), disk, heap, probe.accesses⟩

/-- `DiskCache::get_entry`: the queue first, then the table. -/
def getEntry (io : Io) (heap : Heap) (key : Key) (disk : DiskCache) : Fetch :=
  match disk.pendingInsert codec heap key with
  | some (cached, heap') => verifyFetched codec io key cached disk heap'
  | none =>
      match disk.readCommitted codec io heap key with
      | (none, disk', heap') => ⟨none, disk', heap', []⟩
      | (some cached, disk', heap') => verifyFetched codec io key cached disk' heap'

end

def sortedIndex (seqIndex : Finset (Nat × Key)) : List (Nat × Key) :=
  ((seqIndex.map toLex.toEmbedding).sort).map ofLex

/-- The reverse walk of `recent_keys`: past `limit` rows it goes on while they
tie with the last one taken. -/
def takeRecent (faults : Faults) (limit : Nat) :
    List (Nat × Key) → List (Key × Nat) → List (Key × Nat)
  | [], taken => taken
  | (seq, key) :: rest, taken =>
      if fails faults (.readRow .scan key) then takeRecent faults limit rest taken
      else if limit ≤ taken.length ∧ taken.getLast?.any fun last => last.2 ≠ seq then taken
      else takeRecent faults limit rest (taken ++ [(key, seq)])

def compareRecentKeys (left right : Key × Nat) : Bool :=
  decide (right.2 < left.2) || (decide (right.2 = left.2) && decide (left.1 ≤ right.1))

def recentKeys (io : Io) (limit : Nat) (disk : DiskCache) : List Key × DiskCache :=
  if limit = 0 then ([], disk)
  else
    let flushed := disk.flushPendingInserts io
    match flushed.db with
    | none => ([], flushed)
    | some shard =>
        if fails io.faults .beginRead || fails io.faults (.openTable .scan .seqIndex) ||
            fails io.faults (.iter .scan) then ([], flushed)
        else
          let keys := takeRecent io.faults limit (sortedIndex shard.seqIndex).reverse []
          (((keys.mergeSort compareRecentKeys).take limit).map Prod.fst, flushed)

section

variable (codec : Codec)

/-- The loop of `load_recent` over the recent keys. -/
def loadKeys (io : Io) : List Key → DiskCache → Heap →
    List (Key × CachedImport) × DiskCache × Heap
  | [], disk, heap => ([], disk, heap)
  | key :: rest, disk, heap =>
      let fetch := disk.getEntry codec io heap key
      let (loaded, disk', heap') := loadKeys io rest fetch.disk fetch.heap
      match fetch.found with
      | some (cached, _) => ((key, cached) :: loaded, disk', heap')
      | none => (loaded, disk', heap')

def loadRecent (io : Io) (heap : Heap) (limit : Nat) (disk : DiskCache) :
    List (Key × CachedImport) × DiskCache × Heap :=
  if limit = 0 then ([], disk, heap)
  else
    let (keys, disk') := disk.recentKeys io limit
    loadKeys codec io keys disk' heap

end

end DiskCache

end ImportLens.Cache
