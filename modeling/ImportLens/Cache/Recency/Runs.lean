import ImportLens.Cache.Recency.Steps

/-!
# Recency over a whole run

A run is a list of operations, each under its own environment: the flushes of a
step succeed or fail as its environment has it.
-/

namespace ImportLens.Cache

open ImportLens.Daemon ImportLens.Support

variable {codec : Codec}

namespace ImportCache

/-! ## Reads that do not promote -/

theorem insertIntoMemoryGuarded_heap (key : Key) (cached : CachedImport) (generation : Nat)
    (cache : ImportCache) :
    (cache.insertIntoMemoryGuarded key cached generation).heap = cache.heap := by
  unfold insertIntoMemoryGuarded
  by_cases hbumped : cache.disk.clearGeneration = generation
  · simp [hbumped]
  · simp [hbumped]

theorem evictIfCurrent_heap (io : Io) (key : Key) (identity : Nat) (cache : ImportCache) :
    (cache.evictIfCurrent io key identity).heap = cache.heap := by
  unfold evictIfCurrent removeFromMemoryIfCurrent
  cases cache.memory.lookup key with
  | none => rfl
  | some current =>
      by_cases hcurrent : current.cell = identity
      · simp only [hcurrent, if_true]
      · simp only [hcurrent, if_false]

theorem lookupMemory_lastSeq (io : Io) (key : Key) (cached : CachedImport) (requireFresh : Bool)
    (stale : StalePolicy) (cache : ImportCache) (id : Nat) :
    ((cache.lookupMemory codec io key cached false requireFresh
      stale).cache.heap.cells id).lastSeq =
      (cache.heap.cells id).lastSeq := by
  unfold lookupMemory
  simp only [Bool.false_eq_true, if_false]
  split
  · rfl
  · split
    · rfl
    · rw [evictIfCurrent_heap]
      rfl
  · rw [evictIfCurrent_heap]
    rfl
  · split
    · rfl
    · split
      · rfl
      · exact Heap.modify_field Cell.lastSeq cache.heap cached.cell
          (fun cell => cell.stamp io.cacheGeneration io.sinceEpoch) (fun _ => rfl) id

theorem lookupDisk_lastSeq (io : Io) (key : Key) (requireFresh : Bool) (cache : ImportCache)
    {id : Nat} (hid : id < cache.heap.next) :
    ((cache.lookupDisk codec io key false requireFresh).cache.heap.cells id).lastSeq =
      (cache.heap.cells id).lastSeq := by
  have hgrows : cache.heap.Grows (cache.disk.getEntry codec io cache.heap key).heap :=
    DiskCache.getEntry_grows cache.disk io cache.heap key
  have hkept := congrArg Cell.lastSeq (hgrows.cells id hid)
  unfold lookupDisk
  simp only
  split
  · exact hkept
  · rename_i cached freshness hfound
    split
    · exact hkept
    · obtain ⟨_, _, _, hlast⟩ := markFetched_heap
        { cache with
          disk := (cache.disk.getEntry codec io cache.heap key).disk
          heap := (cache.disk.getEntry codec io cache.heap key).heap } io key cached freshness false
      rw [enforceMemoryCap_field codec io Cell.lastSeq fun _ _ => rfl]
      rw [insertIntoMemoryGuarded_heap]
      exact (hlast rfl id).trans hkept

/-- A read that does not promote leaves the last sequence of every entry. -/
theorem read_lastSeq (io : Io) (key : Key) {intent : ReadIntent} (hintent : intent.promotes = false)
    (cache : ImportCache) {id : Nat} (hid : id < cache.heap.next) :
    ((cache.read codec io key intent).2.1.heap.cells id).lastSeq =
      (cache.heap.cells id).lastSeq := by
  unfold read lookup
  simp only [hintent]
  split
  · exact lookupMemory_lastSeq io key _ _ _ cache id
  · exact lookupDisk_lastSeq io key _ cache hid

end ImportCache

/-! ## Every run -/

namespace CacheOp

def throughCache : CacheOp → Bool
  | insertWithFingerprintsAtGeneration _ _ _ _ | read _ _ | getWithResultFreshness _
  | invalidatePackages _ | evictKeys _ | clear | flushToDisk | reopenDisk | enforceMemoryCap
  | diskFlushPendingInserts => true
  | _ => false

/-- The state an operation is taken from keeps it clear of the queue's ceiling,
and a reopen clear of changed files. -/
def StepFits (codec : Codec) (io : Io) (cache : ImportCache) : CacheOp → Prop
  | insertWithFingerprintsAtGeneration key result fingerprints verifiedGeneration =>
      Gated result fingerprints → cache.disk.HasRoom key ∧
        (cache.inserted codec io key result fingerprints verifiedGeneration).CapFits codec io
  | read key intent => cache.LookupFits codec io key intent.promotes intent.requiresFresh
  | getWithResultFreshness key => cache.LookupFits codec io key true false
  | enforceMemoryCap => cache.CapFits codec io
  | flushToDisk => cache.FlushFits codec io
  | reopenDisk => cache.disk.isAvailable = false → ∀ reopened,
      cache.disk.reopenIfUnavailable io = (true, reopened) → cache.ReopenFits codec io reopened
  | _ => True

theorem apply_recent (hcodec : LawfulCodec codec) {cache : ImportCache} (h : Recent codec cache)
    (io : Io) {op : CacheOp} (hop : op.throughCache = true) (hfits : op.StepFits codec io cache) :
    Recent codec (op.apply codec io cache) := by
  cases op with
  | insertWithFingerprintsAtGeneration key result fingerprints generation =>
      exact ImportCache.insertWithFingerprintsAtGeneration_recent h io generation hfits
  | read key intent => exact ImportCache.lookup_recent hcodec h io key .evict hfits
  | getWithResultFreshness key =>
      have hlookup := ImportCache.lookup_recent hcodec h io key .serve hfits
      simp only [apply, ImportCache.getWithResultFreshness]
      split
      · exact hlookup
      · split
        · exact hlookup
        · exact hlookup
        · exact hlookup.ofUnknownRetry _
        · exact hlookup.ofUnknownRetry _
  | invalidatePackages packageNames =>
      exact ImportCache.invalidatePackages_recent h io packageNames
  | evictKeys keys => exact ImportCache.evictKeys_recent h io keys
  | clear => exact ImportCache.clear_recent h io
  | flushToDisk => exact ImportCache.flushToDisk_recent h io hfits
  | reopenDisk => exact ImportCache.reopenDisk_recent hcodec h io hfits
  | enforceMemoryCap => exact ImportCache.enforceMemoryCap_recent io h hfits
  | diskFlushPendingInserts =>
      obtain ⟨hsound, hcopy, _, havailable⟩ := DiskCache.flush_spec h.queue io
      exact h.ofLayers (fun _ _ hrow => hrow) hsound havailable fun k _ _ => hcopy k
  | purgeOrphanEntries | diskInsertAtGeneration | diskGetWithFreshness | diskLoadRecent
  | diskRemove | diskRemoveKeys | diskInvalidatePackages | diskPurgeOrphanEntries | diskClear
  | diskReopenIfUnavailable => cases hop

end CacheOp

/-- Every step of a run is an operation of the cache, taken from a state that
keeps it clear of the two losses. -/
def RunFits (codec : Codec) : ImportCache → List (Io × CacheOp) → Prop
  | _, [] => True
  | cache, (io, op) :: rest =>
      op.throughCache = true ∧ op.StepFits codec io cache ∧
        RunFits codec (op.apply codec io cache) rest

theorem runOps_recent (hcodec : LawfulCodec codec) (steps : List (Io × CacheOp))
    {cache : ImportCache} (h : Recent codec cache) (hfits : RunFits codec cache steps)
    {reached : List (Io × CacheOp)} (hreached : reached <+: steps) :
    Recent codec (runOps codec cache reached) := by
  induction steps generalizing cache reached with
  | nil =>
      rw [List.prefix_nil.mp hreached]
      exact h
  | cons step rest ih =>
      obtain ⟨io, op⟩ := step
      obtain ⟨hop, hstep, hrest⟩ := hfits
      cases reached with
      | nil => exact h
      | cons first later =>
          obtain ⟨rfl, hlater⟩ := List.cons_prefix_cons.mp hreached
          exact ih (CacheOp.apply_recent hcodec h io hop hstep) hrest hlater

/-- In every run whose steps stay clear of the queue's ceiling and of changed
files at a reopen, each state reached has every clean memory entry persisted,
and a read of it that does not promote moves no entry's last sequence. -/
theorem recency_stays_persisted (codec : Codec) (hcodec : LawfulCodec codec) (io₀ : Io)
    (heap : Heap) (hbounded : heap.Bounded) (enabled : Bool) (limit : Nat)
    (steps : List (Io × CacheOp))
    (hfits : RunFits codec
      (ImportCache.withDisk codec io₀ heap (DiskCache.new io₀ enabled) limit) steps)
    (reached : List (Io × CacheOp)) (hreached : reached <+: steps) :
    let cache := runOps codec
      (ImportCache.withDisk codec io₀ heap (DiskCache.new io₀ enabled) limit) reached
    RecencyPersisted cache ∧
      ∀ io key intent, intent.promotes = false → cache.memory.All fun _ cached =>
        ((cache.read codec io key intent).2.1.heap.cells cached.cell).lastSeq =
          (cache.heap.cells cached.cell).lastSeq := by
  intro cache
  have hcache : Recent codec cache :=
    runOps_recent hcodec steps (ImportCache.withDisk_recent hcodec io₀ hbounded enabled limit) hfits
      hreached
  refine ⟨hcache.persisted, fun io key intent hintent k cached hrow => ?_⟩
  exact ImportCache.read_lastSeq io key hintent cache (hcache.cells k cached hrow)

theorem Heap.initial_bounded : Heap.initial.Bounded := by
  refine ⟨by decide, fun id => ?_⟩
  simp [Heap.initial]

def openIo : Io := Io.quiet Shard.empty

def openCache : ImportCache :=
  ImportCache.withDisk smallCodec openIo Heap.initial (DiskCache.new openIo true) recentPreloadLimit

def sessionSteps : List (Io × CacheOp) :=
  [(openIo, .insertWithFingerprintsAtGeneration "react" (smallResult 7) [] 1),
    (openIo, .read "react" (.requireFresh true)), (openIo, .flushToDisk),
    (openIo, .read "react" .serve)]

/-- The promotion is in the row after the flush, and the last sequence is 2. -/
theorem session_persists_promotion :
    (((runOps smallCodec openCache sessionSteps).disk.row "react").map decodeLastSeq = some 2) ∧
      RecencyPersisted (runOps smallCodec openCache sessionSteps) := by
  refine ⟨by decide +kernel, ?_⟩
  have hpresent : ∀ (cache : ImportCache) (io : Io) (promote requireFresh : Bool),
      (cache.memory.lookup "react").isSome = true →
        cache.LookupFits smallCodec io "react" promote requireFresh := by
    intro cache io promote requireFresh hsome habsent
    rw [habsent] at hsome
    cases hsome
  have hfits : RunFits smallCodec openCache sessionSteps := by
    refine ⟨rfl, fun _ => ⟨by decide +kernel, fun hover => ?_⟩, rfl, hpresent _ _ _ _ ?_, rfl,
      ⟨?_, ?_, ?_⟩, rfl, hpresent _ _ _ _ ?_, trivial⟩
    · exact absurd hover (by decide +kernel)
    · decide +kernel
    · decide +kernel
    · decide +kernel
    · decide +kernel
    · decide +kernel
  exact (recency_stays_persisted smallCodec smallCodec_lawful openIo Heap.initial
    Heap.initial_bounded true recentPreloadLimit sessionSteps hfits sessionSteps
    (List.prefix_refl _)).1

def closedIo : Io := { Io.quiet Shard.empty with openOutcome := .unavailable }

def closedCache : ImportCache :=
  ImportCache.withDisk smallCodec closedIo Heap.initial (DiskCache.new closedIo true)
    recentPreloadLimit

/-- An entry computed while the database is missing, and a reopen after its file
has changed. -/
def changedFileSteps : List (Io × CacheOp) :=
  [(closedIo, .insertWithFingerprintsAtGeneration "react" (smallResult 7) [smallFile] 1),
    (grownFileIo, .reopenDisk)]

/-- The reopen writes the entry and its preload removes the copy: memory holds
the entry, it is not dirty, and the database holds nothing of it. -/
theorem reopen_removes_copy :
    (∀ step ∈ changedFileSteps, step.2.throughCache = true) ∧
      ¬ RecencyPersisted (runOps smallCodec closedCache changedFileSteps) := by
  refine ⟨by decide, fun hpersisted => ?_⟩
  have hmemory : ((runOps smallCodec closedCache changedFileSteps).memory.lookup
      "react").isSome = true := by decide +kernel
  have hclean : "react" ∉ (runOps smallCodec closedCache changedFileSteps).dirty := by
    decide +kernel
  have hopen : (runOps smallCodec closedCache changedFileSteps).disk.isAvailable = true := by
    decide +kernel
  have hqueued : (runOps smallCodec closedCache changedFileSteps).disk.pendingInserts.lookup
      "react" = none := by decide +kernel
  have hrow : (runOps smallCodec closedCache changedFileSteps).disk.row "react" = none := by
    decide +kernel
  obtain ⟨cached, hcached⟩ := Option.isSome_iff_exists.mp hmemory
  obtain ⟨bytes, hcopy, _⟩ := hpersisted hopen "react" cached hcached hclean
  rw [hrow, hqueued] at hcopy
  rcases hcopy with hcopy | hcopy
  · cases hcopy
  · cases hcopy

end ImportLens.Cache
