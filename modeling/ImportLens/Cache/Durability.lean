import ImportLens.Cache.Memory
import ImportLens.Cache.Disk.Bookkeeping

/-!
# The durability gate

Results enter the two layers along six paths, and a shard may hold rows of an
older build that never passed the gate.  The invariant is on what a read can
reach without another check: the entries of the memory map, and the values in
the queue.  The table itself is not trusted, and every row of it is judged when
it is read.
-/

namespace ImportLens.Cache

open ImportLens.Daemon ImportLens.Support

variable {codec : Codec}

/-! ## The disk layer -/

/-- Every queued value was encoded from a gated entry. -/
def QueueGated (codec : Codec) (disk : DiskCache) : Prop :=
  disk.pendingInserts.All fun _ tagged => GatedBytes codec tagged.2

namespace DiskCache

theorem enqueue_gated {disk : DiskCache} (h : QueueGated codec disk) (key : Key)
    (generation : Nat) {bytes : Bytes} (hbytes : GatedBytes codec bytes) :
    QueueGated codec (disk.enqueue key generation bytes) :=
  shedOldest_all _ (Keyed.All.insert h hbytes)

theorem keptInserts_gated {disk : DiskCache} (h : QueueGated codec disk) :
    disk.keptInserts.All fun _ bytes => GatedBytes codec bytes := by
  intro key bytes hrow
  exact h key _ (lookup_keptAt.mp hrow)

theorem requeue_gated {disk : DiskCache} (h : QueueGated codec disk) {kept : Keyed Key Bytes}
    (hkept : kept.All fun _ bytes => GatedBytes codec bytes) :
    QueueGated codec (disk.requeue kept) := by
  refine shedOldest_all decodeLastSeq (requeueRows_all h ?_)
  rintro ⟨key, bytes⟩ hrow
  exact hkept key bytes (Keyed.mem_rows.mp hrow)

theorem flushPendingInserts_gated (io : Io) {disk : DiskCache} (h : QueueGated codec disk) :
    QueueGated codec (disk.flushPendingInserts io) := by
  unfold flushPendingInserts
  split
  · exact h
  · split
    · exact h
    · simp only
      split
      · exact Keyed.all_empty _
      · split
        · exact Keyed.all_empty _
        · apply requeue_gated _ (keptInserts_gated h)
          exact Keyed.all_empty _

theorem insertAtGeneration_gated (io : Io) (heap : Heap) (key : Key) (cached : CachedImport)
    (generation : Nat) {disk : DiskCache} (h : QueueGated codec disk) :
    QueueGated codec (disk.insertAtGeneration codec io heap key cached generation).2 := by
  unfold insertAtGeneration
  split
  · exact h
  · split
    · exact h
    · rename_i hgate
      have hgated : Gated cached.result cached.dependencyFingerprints := by
        simpa [Gated] using hgate
      have hstored : Gated (persisted cached).result (persisted cached).dependencyFingerprints :=
        gated_congr rfl rfl hgated
      unfold writeAtGeneration
      simp only
      split
      · exact h
      · rename_i bytes hbytes
        have hqueued := enqueue_gated h key generation (encodeCacheValue_gated hstored hbytes)
        split
        · exact flushPendingInserts_gated io hqueued
        · exact hqueued

theorem remove_gated (io : Io) (key : Key) {disk : DiskCache} (h : QueueGated codec disk) :
    QueueGated codec (disk.remove io key) :=
  Keyed.All.erase h key

theorem removeKeys_gated (io : Io) (keys : List Key) {disk : DiskCache}
    (h : QueueGated codec disk) : QueueGated codec (disk.removeKeys io keys).2 := by
  unfold removeKeys
  split
  · exact h
  · simp only
    split <;> exact Keyed.All.eraseAll h keys

theorem invalidatePackages_gated (io : Io) (packageNames : List String) {disk : DiskCache}
    (h : QueueGated codec disk) :
    QueueGated codec (disk.invalidatePackages codec io packageNames) := by
  unfold invalidatePackages
  split
  · exact h
  · exact Keyed.All.retain h _

theorem purgeOrphanEntries_gated (io : Io) (version : String) {disk : DiskCache}
    (h : QueueGated codec disk) :
    QueueGated codec (disk.purgeOrphanEntries codec io version).2 := by
  unfold purgeOrphanEntries
  split
  · exact h
  · rename_i shard _
    simp only
    generalize (if fails io.faults .beginRead = true then []
      else scanKeys io.faults shard
        (cacheKeyIsOrphan codec.identityFromSlice io.pathIsDefinitelyGone version)) = orphanKeys
    split
    · exact h
    · exact Keyed.All.retain h _

theorem clear_gated (io : Io) (disk : DiskCache) : QueueGated codec (disk.clear io) :=
  Keyed.all_empty _

theorem reopenIfUnavailable_gated (io : Io) {disk : DiskCache} (h : QueueGated codec disk) :
    QueueGated codec (disk.reopenIfUnavailable io).2 := by
  unfold reopenIfUnavailable
  split
  · exact h
  · split
    · exact h
    · split <;> exact h

/-- Every entry the disk layer hands out is gated, wherever it came from. -/
theorem verifyFetched_gated (io : Io) (key : Key) {cached : CachedImport} {disk : DiskCache}
    (heap : Heap) (hcached : Gated cached.result cached.dependencyFingerprints)
    (h : QueueGated codec disk) :
    QueueGated codec (verifyFetched codec io key cached disk heap).disk ∧
      ∀ served verdict,
        (verifyFetched codec io key cached disk heap).found = some (served, verdict) →
          Gated served.result served.dependencyFingerprints := by
  unfold verifyFetched
  simp only
  split
  · exact ⟨remove_gated io key h, by simp⟩
  · exact ⟨remove_gated io key h, by simp⟩
  · refine ⟨h, ?_⟩
    rintro served verdict hserved
    cases hserved
    exact hcached
  · refine ⟨h, ?_⟩
    rintro served verdict hserved
    cases hserved
    exact hcached

theorem readCommitted_gated (io : Io) (heap : Heap) (key : Key) {disk : DiskCache}
    (h : QueueGated codec disk) :
    QueueGated codec (disk.readCommitted codec io heap key).2.1 ∧
      ∀ cached, (disk.readCommitted codec io heap key).1 = some cached →
        Gated cached.result cached.dependencyFingerprints := by
  unfold readCommitted
  split
  · exact ⟨h, by simp⟩
  · split
    · exact ⟨remove_gated io key h, by simp⟩
    · split
      · exact ⟨remove_gated io key h, by simp⟩
      · rename_i hgate
        refine ⟨h, ?_⟩
        rintro cached hcached
        cases hcached
        simpa [Gated] using hgate

theorem getEntry_gated (hcodec : LawfulCodec codec) (io : Io) (heap : Heap) (key : Key)
    {disk : DiskCache} (h : QueueGated codec disk) :
    QueueGated codec (disk.getEntry codec io heap key).disk ∧
      ∀ served verdict, (disk.getEntry codec io heap key).found = some (served, verdict) →
        Gated served.result served.dependencyFingerprints := by
  unfold getEntry
  split
  · rename_i cached heap' hpending
    apply verifyFetched_gated io key _ _ h
    -- a queued value decodes to what was encoded
    unfold pendingInsert at hpending
    split at hpending
    · cases hpending
    · rename_i generation bytes hqueued
      split at hpending
      · cases hpending
      · exact decodeCachedResult_gated hcodec (h key _ hqueued) hpending
  · have hcommitted := readCommitted_gated io heap key h
    split
    · rename_i hread
      rw [hread] at hcommitted
      exact ⟨hcommitted.1, by simp⟩
    · rename_i hread
      rw [hread] at hcommitted
      exact verifyFetched_gated io key _ (hcommitted.2 _ rfl) hcommitted.1

theorem recentKeys_gated (io : Io) (limit : Nat) {disk : DiskCache} (h : QueueGated codec disk) :
    QueueGated codec (disk.recentKeys io limit).2 := by
  unfold recentKeys
  split
  · exact h
  · simp only
    split
    · exact flushPendingInserts_gated io h
    · split
      · exact flushPendingInserts_gated io h
      · exact flushPendingInserts_gated io h

theorem loadKeys_gated (hcodec : LawfulCodec codec) (io : Io) (keys : List Key)
    {disk : DiskCache} (heap : Heap) (h : QueueGated codec disk) :
    QueueGated codec (loadKeys codec io keys disk heap).2.1 ∧
      ∀ row ∈ (loadKeys codec io keys disk heap).1,
        Gated row.2.result row.2.dependencyFingerprints := by
  induction keys generalizing disk heap with
  | nil => exact ⟨h, by simp [loadKeys]⟩
  | cons key rest ih =>
      obtain ⟨hdisk, hfound⟩ := getEntry_gated hcodec io heap key h
      obtain ⟨hrest, hrows⟩ := ih (disk.getEntry codec io heap key).heap hdisk
      simp only [loadKeys]
      split
      · rename_i cached verdict hserved
        refine ⟨hrest, ?_⟩
        intro row hrow
        rcases List.mem_cons.mp hrow with rfl | hrow
        · exact hfound cached verdict hserved
        · exact hrows row hrow
      · exact ⟨hrest, hrows⟩

theorem loadRecent_gated (hcodec : LawfulCodec codec) (io : Io) (heap : Heap) (limit : Nat)
    {disk : DiskCache} (h : QueueGated codec disk) :
    QueueGated codec (disk.loadRecent codec io heap limit).2.1 ∧
      ∀ row ∈ (disk.loadRecent codec io heap limit).1,
        Gated row.2.result row.2.dependencyFingerprints := by
  unfold loadRecent
  split
  · exact ⟨h, by simp⟩
  · exact loadKeys_gated hcodec io _ heap (recentKeys_gated io limit h)

end DiskCache

/-! ## Both layers -/

/-- Every memory entry and every queued value passed the gate. -/
structure CacheGated (codec : Codec) (cache : ImportCache) : Prop where
  memory : cache.memory.All fun _ cached => Gated cached.result cached.dependencyFingerprints
  queue : QueueGated codec cache.disk

namespace ImportCache

theorem removeFromMemoryIfCurrent_gated (key : Key) (identity : Nat) {cache : ImportCache}
    (h : CacheGated codec cache) :
    CacheGated codec (cache.removeFromMemoryIfCurrent key identity).2 := by
  unfold removeFromMemoryIfCurrent
  split
  · split
    · exact ⟨h.memory.erase key, h.queue⟩
    · exact h
  · exact h

theorem evictIfCurrent_gated (io : Io) (key : Key) (identity : Nat) {cache : ImportCache}
    (h : CacheGated codec cache) : CacheGated codec (cache.evictIfCurrent io key identity) := by
  have hremoved := removeFromMemoryIfCurrent_gated key identity h
  unfold evictIfCurrent
  split
  · rename_i removed heq
    rw [heq] at hremoved
    exact ⟨hremoved.memory, DiskCache.remove_gated io key hremoved.queue⟩
  · rename_i kept heq
    rw [heq] at hremoved
    exact hremoved

theorem insertIntoMemoryGuarded_gated (key : Key) {cached : CachedImport} (generation : Nat)
    (hcached : Gated cached.result cached.dependencyFingerprints) {cache : ImportCache}
    (h : CacheGated codec cache) :
    CacheGated codec (cache.insertIntoMemoryGuarded key cached generation) := by
  have hinserted : CacheGated codec { cache with memory := cache.memory.insert key cached } :=
    ⟨h.memory.insert hcached, h.queue⟩
  unfold insertIntoMemoryGuarded
  split
  · exact h
  · simp only
    split
    · exact removeFromMemoryIfCurrent_gated key _ hinserted
    · exact hinserted

theorem persistPromotion_gated (io : Io) (key : Key) (generation : Nat) {cache : ImportCache}
    (h : CacheGated codec cache) :
    CacheGated codec (cache.persistPromotion codec io key generation) := by
  unfold persistPromotion
  split
  · exact h
  · rename_i cached _
    have hqueue := DiskCache.insertAtGeneration_gated io cache.heap key cached generation h.queue
    simp only
    split
    · split
      · rename_i disk heq
        rw [heq] at hqueue
        exact ⟨h.memory, hqueue⟩
      · rename_i disk heq
        rw [heq] at hqueue
        exact ⟨h.memory, hqueue⟩
    · exact h

theorem evictOldest_gated (io : Io) (generation : Nat) (candidates : List (Nat × Key × Nat))
    (count weight : Nat) {cache : ImportCache} (h : CacheGated codec cache) :
    CacheGated codec (cache.evictOldest codec io generation candidates count weight) := by
  induction candidates generalizing count weight cache with
  | nil => exact h
  | cons candidate rest ih =>
      obtain ⟨seq, key, entryWeight⟩ := candidate
      simp only [evictOldest]
      split
      · exact h
      · apply ih
        have hpersisted := persistPromotion_gated io key generation h
        exact ⟨hpersisted.memory.erase key, hpersisted.queue⟩

theorem enforceMemoryCap_gated (io : Io) {cache : ImportCache} (h : CacheGated codec cache) :
    CacheGated codec (cache.enforceMemoryCap codec io) := by
  unfold enforceMemoryCap
  split
  · exact h
  · exact evictOldest_gated io _ _ _ _ h

/-! ## Reads -/

theorem promoteRecency_gated (cell : Nat) {cache : ImportCache} (h : CacheGated codec cache) :
    CacheGated codec (cache.promoteRecency cell) := ⟨h.memory, h.queue⟩

theorem clearUnknown_gated (key : Key) {cache : ImportCache} (h : CacheGated codec cache) :
    CacheGated codec (cache.clearUnknown key) := ⟨h.memory, h.queue⟩

theorem markFetched_gated (io : Io) (key : Key) (cached : CachedImport) (freshness : Freshness)
    (promote : Bool) {cache : ImportCache} (h : CacheGated codec cache) :
    CacheGated codec (cache.markFetched io key cached freshness promote) := by
  unfold markFetched
  simp only
  split <;> split <;> exact ⟨h.memory, h.queue⟩

theorem lookupMemory_gated (io : Io) (key : Key) (cached : CachedImport)
    (promote requireFresh : Bool) (stale : StalePolicy) {cache : ImportCache}
    (h : CacheGated codec cache) :
    CacheGated codec
      (cache.lookupMemory codec io key cached promote requireFresh stale).cache := by
  have hpromoted : CacheGated codec
      (if promote = true then cache.promoteRecency cached.cell else cache) := by
    split
    · exact promoteRecency_gated _ h
    · exact h
  unfold lookupMemory
  simp only
  generalize (if promote = true then cache.promoteRecency cached.cell else cache) = promoted
    at hpromoted ⊢
  have hcleared := clearUnknown_gated key hpromoted
  split
  · exact hpromoted
  · split
    · exact hcleared
    · exact evictIfCurrent_gated io key _ hcleared
  · exact evictIfCurrent_gated io key _ hcleared
  · split
    · exact hpromoted
    · split
      · exact hcleared
      · exact ⟨hcleared.memory, hcleared.queue⟩

theorem lookupDisk_gated (hcodec : LawfulCodec codec) (io : Io) (key : Key)
    (promote requireFresh : Bool) {cache : ImportCache} (h : CacheGated codec cache) :
    CacheGated codec (cache.lookupDisk codec io key promote requireFresh).cache := by
  obtain ⟨hdisk, hfound⟩ := DiskCache.getEntry_gated hcodec io cache.heap key h.queue
  unfold lookupDisk
  simp only
  generalize cache.disk.getEntry codec io cache.heap key = fetch at hdisk hfound ⊢
  have hfetched : CacheGated codec { cache with disk := fetch.disk, heap := fetch.heap } :=
    ⟨h.memory, hdisk⟩
  split
  · exact hfetched
  · rename_i cached freshness hserved
    split
    · exact hfetched
    · apply enforceMemoryCap_gated
      apply insertIntoMemoryGuarded_gated _ _ (hfound cached freshness hserved)
      exact markFetched_gated io key cached freshness promote hfetched

theorem lookup_gated (hcodec : LawfulCodec codec) (io : Io) (key : Key)
    (promote requireFresh : Bool) (stale : StalePolicy) {cache : ImportCache}
    (h : CacheGated codec cache) :
    CacheGated codec (cache.lookup codec io key promote requireFresh stale).cache := by
  unfold lookup
  split
  · exact lookupMemory_gated io key _ promote requireFresh stale h
  · exact lookupDisk_gated hcodec io key promote requireFresh h

/-- The entry a read of `key` takes its result from: the memory entry, else
what the disk layer hands out. -/
def Source (codec : Codec) (io : Io) (key : Key) (cache : ImportCache) (cached : CachedImport) :
    Prop :=
  cache.memory.lookup key = some cached ∨
    (cache.memory.lookup key = none ∧
      ∃ verdict, (cache.disk.getEntry codec io cache.heap key).found = some (cached, verdict))

theorem source_gated (hcodec : LawfulCodec codec) {io : Io} {key : Key} {cache : ImportCache}
    {cached : CachedImport} (h : CacheGated codec cache)
    (hsource : Source codec io key cache cached) :
    Gated cached.result cached.dependencyFingerprints := by
  rcases hsource with hmemory | ⟨_, verdict, hfound⟩
  · exact h.memory key cached hmemory
  · exact (DiskCache.getEntry_gated hcodec io cache.heap key h.queue).2 cached verdict hfound

theorem lookupMemory_found {io : Io} {key : Key} {cached : CachedImport}
    {promote requireFresh : Bool} {stale : StalePolicy} {cache : ImportCache}
    {result : ImportResult} {freshness : Freshness}
    (h : (cache.lookupMemory codec io key cached promote requireFresh stale).found =
      some (result, freshness)) : result = asHit cached.result := by
  unfold lookupMemory at h
  simp only at h
  generalize (if promote = true then cache.promoteRecency cached.cell else cache) = promoted at h
  split at h
  · cases h
    rfl
  · split at h
    · cases h
      rfl
    · cases h
  · cases h
  · split at h
    · cases h
      rfl
    · cases h
      rfl

theorem lookup_source {io : Io} {key : Key} {promote requireFresh : Bool} {stale : StalePolicy}
    {cache : ImportCache} {result : ImportResult} {freshness : Freshness}
    (h : (cache.lookup codec io key promote requireFresh stale).found =
      some (result, freshness)) :
    ∃ cached, Source codec io key cache cached ∧ result = asHit cached.result := by
  unfold lookup at h
  split at h
  · rename_i cached hmemory
    exact ⟨cached, Or.inl hmemory, lookupMemory_found h⟩
  · rename_i hmemory
    unfold lookupDisk at h
    simp only at h
    split at h
    · cases h
    · rename_i cached verdict hfound
      split at h
      · cases h
      · cases h
        exact ⟨cached, Or.inr ⟨hmemory, freshness, hfound⟩, rfl⟩

/-! ## Inserts, flushes and reopening -/

theorem writeThrough_gated (io : Io) (key : Key) (cached : CachedImport) (generation : Nat)
    {cache : ImportCache} (h : CacheGated codec cache) :
    CacheGated codec (cache.writeThrough codec io key cached generation) := by
  have hqueue := DiskCache.insertAtGeneration_gated io cache.heap key cached generation h.queue
  unfold writeThrough
  split
  · rename_i disk heq
    rw [heq] at hqueue
    exact ⟨h.memory, hqueue⟩
  · rename_i disk heq
    rw [heq] at hqueue
    exact ⟨h.memory, hqueue⟩

theorem insertWithFingerprintsAtGeneration_gated (io : Io) (key : Key) (result : ImportResult)
    (fingerprints : List FileFingerprint) (generation : Nat) {cache : ImportCache}
    (h : CacheGated codec cache) :
    CacheGated codec (cache.insertWithFingerprintsAtGeneration codec io key result fingerprints
      generation) := by
  unfold insertWithFingerprintsAtGeneration
  split
  · exact h
  · rename_i hgate
    have hgated : Gated result fingerprints := by simpa [Gated] using hgate
    apply enforceMemoryCap_gated
    apply insertIntoMemoryGuarded_gated
    · exact hgated
    · apply writeThrough_gated
      exact ⟨h.memory, h.queue⟩

theorem replayDirty_gated (io : Io) (generation : Nat) (entries : List (Key × CachedImport))
    {disk : DiskCache} (heap : Heap) (h : QueueGated codec disk) :
    QueueGated codec (replayDirty codec io generation entries disk heap).2.2 := by
  induction entries generalizing disk with
  | nil => exact h
  | cons entry rest ih =>
      obtain ⟨key, cached⟩ := entry
      have hrest := ih (DiskCache.insertAtGeneration_gated io heap key cached generation h)
      simp only [replayDirty]
      split <;> exact hrest

theorem sweepPromoted_gated (io : Io) (generation : Nat) (entries : List (Key × CachedImport))
    {disk : DiskCache} (heap : Heap) (h : QueueGated codec disk) :
    QueueGated codec (sweepPromoted codec io generation entries disk heap).2.1 := by
  induction entries generalizing disk heap with
  | nil => exact h
  | cons entry rest ih =>
      obtain ⟨key, cached⟩ := entry
      have hnext := DiskCache.insertAtGeneration_gated io heap key cached generation h
      simp only [sweepPromoted]
      split
      · exact ih _ hnext
      · exact ih _ hnext

theorem writeAll_gated (io : Io) (heap : Heap) (generation : Nat)
    (entries : List (Key × CachedImport)) {disk : DiskCache} (h : QueueGated codec disk) :
    QueueGated codec (writeAll codec io heap generation entries disk).2 := by
  induction entries generalizing disk with
  | nil => exact h
  | cons entry rest ih =>
      obtain ⟨key, cached⟩ := entry
      have hrest := ih (DiskCache.insertAtGeneration_gated io heap key cached generation h)
      simp only [writeAll]
      split <;> exact hrest

theorem mirrorMissing_gated (generation : Nat) {entries : List (Key × CachedImport)}
    (hentries : ∀ row ∈ entries, Gated row.2.result row.2.dependencyFingerprints)
    {cache : ImportCache} (h : CacheGated codec cache) :
    CacheGated codec (cache.mirrorMissing generation entries) := by
  induction entries generalizing cache with
  | nil => exact h
  | cons entry rest ih =>
      obtain ⟨key, cached⟩ := entry
      have hrest : ∀ row ∈ rest, Gated row.2.result row.2.dependencyFingerprints :=
        fun row hrow => hentries row (by simp [hrow])
      simp only [mirrorMissing]
      split
      · exact ih hrest h
      · exact ih hrest
          (insertIntoMemoryGuarded_gated key generation (hentries (key, cached) (by simp)) h)

theorem reopenDisk_gated (hcodec : LawfulCodec codec) (io : Io) {cache : ImportCache}
    (h : CacheGated codec cache) : CacheGated codec (cache.reopenDisk codec io).2 := by
  unfold reopenDisk
  split
  · exact h
  · have hreopened := DiskCache.reopenIfUnavailable_gated io h.queue
    split
    · exact h
    · rename_i reopened heq
      rw [heq] at hreopened
      have hwritten := writeAll_gated io cache.heap reopened.clearGeneration cache.memory.rows
        hreopened
      obtain ⟨hdisk, hloaded⟩ :=
        DiskCache.loadRecent_gated hcodec io cache.heap recentPreloadLimit hwritten
      apply enforceMemoryCap_gated
      exact mirrorMissing_gated _ hloaded ⟨h.memory, hdisk⟩

theorem withDisk_gated (hcodec : LawfulCodec codec) (io : Io) (heap : Heap) (enabled : Bool)
    (limit : Nat) : CacheGated codec (withDisk codec io heap (DiskCache.new io enabled) limit) := by
  have hempty : QueueGated codec (DiskCache.new io enabled) := Keyed.all_empty _
  obtain ⟨hdisk, hloaded⟩ := DiskCache.loadRecent_gated hcodec io heap limit hempty
  exact ⟨(Keyed.all_empty _).insertAll hloaded, hdisk⟩

end ImportCache

/-! ## Every sequence of operations -/

/-- The operations of both layers. -/
inductive CacheOp
  | insertWithFingerprintsAtGeneration (key : Key) (result : ImportResult)
      (fingerprints : List FileFingerprint) (verifiedGeneration : Nat)
  | read (key : Key) (intent : ReadIntent)
  | getWithResultFreshness (key : Key)
  | invalidatePackages (packageNames : List String)
  | purgeOrphanEntries (currentAnalyzerVersion : String)
  | evictKeys (keys : List Key)
  | clear
  | flushToDisk
  | reopenDisk
  | enforceMemoryCap
  | diskInsertAtGeneration (key : Key) (cached : CachedImport) (generation : Nat)
  | diskGetWithFreshness (key : Key)
  | diskLoadRecent (limit : Nat)
  | diskFlushPendingInserts
  | diskRemove (key : Key)
  | diskRemoveKeys (keys : List Key)
  | diskInvalidatePackages (packageNames : List String)
  | diskPurgeOrphanEntries (currentAnalyzerVersion : String)
  | diskClear
  | diskReopenIfUnavailable

namespace CacheOp

def apply (codec : Codec) (io : Io) (cache : ImportCache) : CacheOp → ImportCache
  | insertWithFingerprintsAtGeneration key result fingerprints verifiedGeneration =>
      cache.insertWithFingerprintsAtGeneration codec io key result fingerprints verifiedGeneration
  | read key intent => (cache.read codec io key intent).2.1
  | getWithResultFreshness key => (cache.getWithResultFreshness codec io key).2.1
  | invalidatePackages packageNames => cache.invalidatePackages codec io packageNames
  | purgeOrphanEntries version => (cache.purgeOrphanEntries codec io version).2
  | evictKeys keys => (cache.evictKeys io keys).2
  | clear => cache.clear io
  | flushToDisk => (cache.flushToDisk codec io).2
  | reopenDisk => (cache.reopenDisk codec io).2
  | enforceMemoryCap => cache.enforceMemoryCap codec io
  | diskInsertAtGeneration key cached generation =>
      { cache with
        disk := (cache.disk.insertAtGeneration codec io cache.heap key cached generation).2 }
  | diskGetWithFreshness key =>
      let fetch := cache.disk.getEntry codec io cache.heap key
      { cache with disk := fetch.disk, heap := fetch.heap }
  | diskLoadRecent limit =>
      let (_, disk, heap) := cache.disk.loadRecent codec io cache.heap limit
      { cache with disk := disk, heap := heap }
  | diskFlushPendingInserts => { cache with disk := cache.disk.flushPendingInserts io }
  | diskRemove key => { cache with disk := cache.disk.remove io key }
  | diskRemoveKeys keys => { cache with disk := (cache.disk.removeKeys io keys).2 }
  | diskInvalidatePackages packageNames =>
      { cache with disk := cache.disk.invalidatePackages codec io packageNames }
  | diskPurgeOrphanEntries version =>
      { cache with disk := (cache.disk.purgeOrphanEntries codec io version).2 }
  | diskClear => { cache with disk := cache.disk.clear io }
  | diskReopenIfUnavailable => { cache with disk := (cache.disk.reopenIfUnavailable io).2 }

theorem apply_gated (hcodec : LawfulCodec codec) (io : Io) {cache : ImportCache}
    (h : CacheGated codec cache) (op : CacheOp) : CacheGated codec (op.apply codec io cache) := by
  cases op with
  | insertWithFingerprintsAtGeneration key result fingerprints generation =>
      exact ImportCache.insertWithFingerprintsAtGeneration_gated io key result fingerprints
        generation h
  | read key intent => exact ImportCache.lookup_gated hcodec io key _ _ _ h
  | getWithResultFreshness key =>
      have hlookup := ImportCache.lookup_gated hcodec io key true false .serve h
      simp only [apply, ImportCache.getWithResultFreshness]
      split
      · exact hlookup
      · split <;> exact ⟨hlookup.memory, hlookup.queue⟩
  | invalidatePackages packageNames =>
      simp only [apply, ImportCache.invalidatePackages]
      split
      · exact h
      · exact ⟨h.memory.retain _, DiskCache.invalidatePackages_gated io packageNames h.queue⟩
  | purgeOrphanEntries version =>
      exact ⟨h.memory.retain _, DiskCache.purgeOrphanEntries_gated io version h.queue⟩
  | evictKeys keys =>
      exact ⟨h.memory.eraseAll keys, DiskCache.removeKeys_gated io keys h.queue⟩
  | clear => exact ⟨Keyed.all_empty _, DiskCache.clear_gated io _⟩
  | flushToDisk =>
      refine ⟨h.memory, DiskCache.flushPendingInserts_gated io ?_⟩
      exact ImportCache.sweepPromoted_gated io _ _ _
        (ImportCache.replayDirty_gated io _ _ _ h.queue)
  | reopenDisk => exact ImportCache.reopenDisk_gated hcodec io h
  | enforceMemoryCap => exact ImportCache.enforceMemoryCap_gated io h
  | diskInsertAtGeneration key cached generation =>
      exact ⟨h.memory, DiskCache.insertAtGeneration_gated io _ key cached generation h.queue⟩
  | diskGetWithFreshness key =>
      exact ⟨h.memory, (DiskCache.getEntry_gated hcodec io _ key h.queue).1⟩
  | diskLoadRecent limit =>
      exact ⟨h.memory, (DiskCache.loadRecent_gated hcodec io _ limit h.queue).1⟩
  | diskFlushPendingInserts =>
      exact ⟨h.memory, DiskCache.flushPendingInserts_gated io h.queue⟩
  | diskRemove key => exact ⟨h.memory, DiskCache.remove_gated io key h.queue⟩
  | diskRemoveKeys keys => exact ⟨h.memory, DiskCache.removeKeys_gated io keys h.queue⟩
  | diskInvalidatePackages packageNames =>
      exact ⟨h.memory, DiskCache.invalidatePackages_gated io packageNames h.queue⟩
  | diskPurgeOrphanEntries version =>
      exact ⟨h.memory, DiskCache.purgeOrphanEntries_gated io version h.queue⟩
  | diskClear => exact ⟨h.memory, DiskCache.clear_gated io _⟩
  | diskReopenIfUnavailable =>
      exact ⟨h.memory, DiskCache.reopenIfUnavailable_gated io h.queue⟩

end CacheOp

def runOps (codec : Codec) (cache : ImportCache) (steps : List (Io × CacheOp)) : ImportCache :=
  steps.foldl (fun cache step => step.2.apply codec step.1 cache) cache

theorem runOps_gated (hcodec : LawfulCodec codec) {cache : ImportCache}
    (h : CacheGated codec cache) (steps : List (Io × CacheOp)) :
    CacheGated codec (runOps codec cache steps) := by
  induction steps generalizing cache with
  | nil => exact h
  | cons step rest ih => exact ih (CacheOp.apply_gated hcodec step.1 h step.2)

/-- A returned result that is durable and belongs to an entry that is gated. -/
def ServedFrom (codec : Codec) (io : Io) (key : Key) (cache : ImportCache)
    (result : ImportResult) : Prop :=
  ∃ cached freshness, ImportCache.Source codec io key cache cached ∧
    Gated cached.result cached.dependencyFingerprints ∧
    result = { ImportCache.asHit cached.result with freshness := freshness } ∧
    result.isDurable = true

theorem lookup_servedFrom (hcodec : LawfulCodec codec) {io : Io} {key : Key}
    {promote requireFresh : Bool} {stale : StalePolicy} {cache : ImportCache}
    (h : CacheGated codec cache) {result : ImportResult} {verdict : Freshness}
    (hfound : (cache.lookup codec io key promote requireFresh stale).found =
      some (result, verdict)) (freshness : ResultFreshness) :
    ServedFrom codec io key cache { result with freshness := freshness } := by
  obtain ⟨cached, hsource, rfl⟩ := ImportCache.lookup_source hfound
  have hgated := ImportCache.source_gated hcodec h hsource
  refine ⟨cached, freshness, hsource, hgated, rfl, ?_⟩
  have hserved : Gated { ImportCache.asHit cached.result with freshness := freshness }
      cached.dependencyFingerprints := gated_congr rfl rfl hgated
  exact hserved.1

/-- Over any database, after any operations: the memory map and the queue hold
only gated entries, and every read returns the result of one. -/
theorem reads_and_stores_stay_gated (codec : Codec) (hcodec : LawfulCodec codec) (io₀ : Io)
    (heap : Heap) (enabled : Bool) (limit : Nat) (steps : List (Io × CacheOp)) :
    let cache := runOps codec
      (ImportCache.withDisk codec io₀ heap (DiskCache.new io₀ enabled) limit) steps
    CacheGated codec cache ∧
      (∀ io key intent result, (cache.read codec io key intent).1 = some result →
        ServedFrom codec io key cache result) ∧
      (∀ io key result freshness,
        (cache.getWithResultFreshness codec io key).1 = some (result, freshness) →
          ServedFrom codec io key cache result) ∧
      (∀ io key cached verdict,
        (cache.disk.getEntry codec io cache.heap key).found = some (cached, verdict) →
          Gated cached.result cached.dependencyFingerprints) ∧
      (∀ io n, ∀ row ∈ (cache.disk.loadRecent codec io cache.heap n).1,
        Gated row.2.result row.2.dependencyFingerprints) := by
  intro cache
  have hcache : CacheGated codec cache :=
    runOps_gated hcodec (ImportCache.withDisk_gated hcodec io₀ heap enabled limit) steps
  refine ⟨hcache, ?_, ?_, ?_, ?_⟩
  · intro io key intent result hread
    simp only [ImportCache.read, Option.bind_eq_some_iff] at hread
    obtain ⟨⟨found, verdict⟩, hfound, hserved⟩ := hread
    split at hserved
    · cases hserved
      exact lookup_servedFrom hcodec hcache hfound _
    · cases hserved
  · intro io key result freshness hread
    simp only [ImportCache.getWithResultFreshness] at hread
    split at hread
    · cases hread
    · rename_i found verdict hfound
      cases hread
      exact lookup_servedFrom hcodec hcache hfound _
  · intro io key cached verdict hfound
    exact (DiskCache.getEntry_gated hcodec io cache.heap key hcache.queue).2 cached verdict hfound
  · intro io n
    exact (DiskCache.loadRecent_gated hcodec io cache.heap n hcache.queue).2

def shortRowIo : Io := Io.quiet (recounted ((∅ : Keyed Key Bytes).insert "vue" [9]))

def shortRowSteps : List (Io × CacheOp) :=
  [(shortRowIo, .read "vue" .serve),
    (shortRowIo, .insertWithFingerprintsAtGeneration "react" (smallResult 7) [] 1),
    (shortRowIo, .diskFlushPendingInserts), (shortRowIo, .read "react" (.requireFresh true))]

/-- The short row goes, the insert stays, and both layers are gated. -/
theorem gated_over_undecodable_row :
    let cache := runOps smallCodec (ImportCache.withDisk smallCodec shortRowIo Heap.initial
      (DiskCache.new shortRowIo true) 0) shortRowSteps
    (cache.memory.lookup "react").isSome = true ∧
      (cache.disk.db.any fun shard => (shard.cache.lookup "vue").isSome) = false ∧
      CacheGated smallCodec cache := by
  refine ⟨by decide +kernel, by decide, ?_⟩
  exact (reads_and_stores_stay_gated smallCodec smallCodec_lawful shortRowIo Heap.initial true 0
    shortRowSteps).1

end ImportLens.Cache
