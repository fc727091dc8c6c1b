import ImportLens.Cache.Memory
import ImportLens.Cache.Disk.Operations

/-!
# What a read may serve, keep and remove

A read judges one entry, the memory entry of its key or else the entry the disk
layer fetched, by the worst verdict on its fingerprints.  This module says what
each verdict allows: what a force-fresh read has checked before it answers,
that a transient error changes neither layer, and which entries a read removes.
The memory cap is a separate pass: a hydration grows the map, and the pass that
follows it evicts by recency, not by verdict.
-/

namespace ImportLens.Cache

open ImportLens.Daemon ImportLens.Support

variable (codec : Codec) (io : Io) {key : Key}

/-! ## The judged entry -/

def verdictOf (codec : Codec) (io : Io) (cached : CachedImport) : Freshness :=
  Freshness.worst (cached.dependencyFingerprints.map fun fingerprint =>
    (checkRouted codec.contentHash io.fs fingerprint).verdict)

theorem verdictOf_eq (cached : CachedImport) :
    (checkFingerprintsStrict codec.contentHash io.fs cached.dependencyFingerprints).verdict =
      verdictOf codec io cached :=
  checkFingerprintsStrict_verdict _

/-- The entry the disk layer fetches for a key, before it is judged. -/
def Fetched (codec : Codec) (io : Io) (key : Key) (cache : ImportCache) (cached : CachedImport) :
    Prop :=
  (∃ heap, cache.disk.pendingInsert codec cache.heap key = some (cached, heap)) ∨
    (cache.disk.pendingInsert codec cache.heap key = none ∧
      (cache.disk.readCommitted codec io cache.heap key).1 = some cached)

def Judged (codec : Codec) (io : Io) (key : Key) (cache : ImportCache) (cached : CachedImport) :
    Prop :=
  cache.memory.lookup key = some cached ∨
    (cache.memory.lookup key = none ∧ Fetched codec io key cache cached)

/-- A committed row that a read may not serve: it does not decode, or its entry
does not pass the gate. -/
def Unservable (codec : Codec) (io : Io) (key : Key) (cache : ImportCache) : Prop :=
  cache.disk.pendingInsert codec cache.heap key = none ∧
    ∃ bytes, cache.disk.committedRow io key = some bytes ∧
      ∀ cached heap, decodeCachedResult codec cache.heap bytes = some (cached, heap) →
        ¬ Gated cached.result cached.dependencyFingerprints

theorem Fetched.unique {cache : ImportCache} {cached cached' : CachedImport}
    (h : Fetched codec io key cache cached) (h' : Fetched codec io key cache cached') :
    cached = cached' := by
  rcases h with ⟨heap, h⟩ | ⟨hnone, h⟩ <;> rcases h' with ⟨heap', h'⟩ | ⟨hnone', h'⟩
  · rw [h] at h'
    cases h'
    rfl
  · rw [h] at hnone'
    cases hnone'
  · rw [hnone] at h'
    cases h'
  · rw [h] at h'
    cases h'
    rfl

theorem Unservable.not_fetched {cache : ImportCache} (h : Unservable codec io key cache)
    (cached : CachedImport) : ¬ Fetched codec io key cache cached := by
  obtain ⟨hnone, bytes, hrow, hrefused⟩ := h
  rintro (⟨heap, hpending⟩ | ⟨_, hread⟩)
  · rw [hnone] at hpending
    cases hpending
  · simp only [DiskCache.readCommitted, hrow] at hread
    cases hdecode : decodeCachedResult codec cache.heap bytes with
    | none => simp [hdecode] at hread
    | some decoded =>
        obtain ⟨entry, heap⟩ := decoded
        have hgate := hrefused entry heap hdecode
        simp only [hdecode] at hread
        split at hread
        · cases hread
        · rename_i hpassed
          exact hgate (by simpa [Gated] using hpassed)

/-! ## Layers -/

def DiskCache.row (disk : DiskCache) (key : Key) : Option Bytes :=
  disk.db.bind fun shard => shard.cache.lookup key

/-- A key that one of the three stores held before and does not hold after. -/
def Lost (before after : ImportCache) (key : Key) : Prop :=
  ((before.memory.lookup key).isSome ∧ after.memory.lookup key = none) ∨
    ((before.disk.pendingInserts.lookup key).isSome ∧
      after.disk.pendingInserts.lookup key = none) ∨
    ((before.disk.row key).isSome ∧ after.disk.row key = none)

/-- Nothing is removed: memory may have grown, and the disk is as it was. -/
def Keeps (before after : ImportCache) : Prop :=
  (∀ k cached, before.memory.lookup k = some cached → after.memory.lookup k = some cached) ∧
    after.disk = before.disk

theorem Keeps.not_lost {before after : ImportCache} (h : Keeps before after) (k : Key) :
    ¬ Lost before after k := by
  obtain ⟨hmemory, hdisk⟩ := h
  rintro (⟨hbefore, hafter⟩ | ⟨hbefore, hafter⟩ | ⟨hbefore, hafter⟩)
  · obtain ⟨cached, hcached⟩ := Option.isSome_iff_exists.mp hbefore
    rw [hmemory k cached hcached] at hafter
    cases hafter
  · rw [hdisk] at hafter
    simp [hafter] at hbefore
  · rw [hdisk] at hafter
    simp [hafter] at hbefore

theorem DiskCache.remove_ne (io : Io) (disk : DiskCache) {k : Key} (hk : k ≠ key) :
    (disk.remove io key).pendingInserts.lookup k = disk.pendingInserts.lookup k ∧
      (disk.remove io key).row k = disk.row k := by
  refine ⟨?_, ?_⟩
  · exact (Keyed.lookup_erase_eq _ _ _).trans (if_neg hk)
  · simp only [DiskCache.row, DiskCache.remove, DiskCache.onDb]
    cases disk.db with
    | none => rfl
    | some shard => exact removalTxn_lookup_notMem io.faults shard (by simpa using hk)

/-! ## Disk reads -/

/-- The outcome of judging a fetched entry. -/
inductive FetchOutcome (codec : Codec) (io : Io) (key : Key) (cached : CachedImport)
    (disk : DiskCache) (fetch : DiskCache.Fetch) : Prop
  | served (served : CachedImport) (hfound : fetch.found = some (served, verdictOf codec io cached))
      (hdisk : fetch.disk = disk) (hresult : served.result = cached.result)
      (hfingerprints : served.dependencyFingerprints = cached.dependencyFingerprints)
      (hunverified : (fetch.heap.cells served.cell).atMillis = 0)
      (haccesses : fetch.accesses = (checkFingerprintsStrict codec.contentHash io.fs
        cached.dependencyFingerprints).accesses)
  | evicted (hverdict : verdictOf codec io cached = .stale ∨ verdictOf codec io cached = .gone)
      (hfound : fetch.found = none) (hdisk : fetch.disk = disk.remove io key)

theorem verifyFetched_outcome {cached : CachedImport} {disk : DiskCache} {heap : Heap}
    (hheap : (heap.cells cached.cell).atMillis = 0) :
    FetchOutcome codec io key cached disk
      (DiskCache.verifyFetched codec io key cached disk heap) := by
  have hverdict := verdictOf_eq codec io cached
  unfold DiskCache.verifyFetched
  simp only
  split
  · rename_i hstale
    exact .evicted (Or.inl (hverdict.symm.trans hstale)) rfl rfl
  · rename_i hgone
    exact .evicted (Or.inr (hverdict.symm.trans hgone)) rfl rfl
  · exact .served { cached with firstParty := cacheKeyIsFirstParty codec.identityFromSlice key }
      (by rw [hverdict]) rfl rfl rfl hheap rfl
  · exact .served { cached with firstParty := cacheKeyIsFirstParty codec.identityFromSlice key }
      (by rw [hverdict]) rfl rfl rfl hheap rfl

theorem readCommitted_cases (cache : ImportCache)
    (hpending : cache.disk.pendingInsert codec cache.heap key = none) :
    let read := cache.disk.readCommitted codec io cache.heap key
    (∃ cached, read.1 = some cached ∧ read.2.1 = cache.disk ∧
        (read.2.2.cells cached.cell).atMillis = 0) ∨
      (read.1 = none ∧ (read.2.1 = cache.disk ∨
        (Unservable codec io key cache ∧ read.2.1 = cache.disk.remove io key))) := by
  simp only [DiskCache.readCommitted]
  cases hrow : cache.disk.committedRow io key with
  | none => exact Or.inr ⟨rfl, Or.inl rfl⟩
  | some bytes =>
      cases hdecode : decodeCachedResult codec cache.heap bytes with
      | none =>
          simp only [hdecode]
          refine Or.inr ⟨trivial, Or.inr ⟨⟨hpending, bytes, hrow, ?_⟩, trivial⟩⟩
          intro cached heap h
          simp [hdecode] at h
      | some decoded =>
          obtain ⟨cached, heap'⟩ := decoded
          simp only [hdecode]
          split
          · rename_i hgate
            refine Or.inr ⟨rfl, Or.inr ⟨⟨hpending, bytes, hrow, ?_⟩, rfl⟩⟩
            intro cached' heap'' h hgated
            rw [hdecode] at h
            cases h
            simp [hgated.1, hgated.2] at hgate
          · exact Or.inl ⟨cached, rfl, rfl, decodeCachedResult_unverified hdecode⟩

theorem getEntry_cases (key : Key) (cache : ImportCache) :
    let fetch := cache.disk.getEntry codec io cache.heap key
    (∃ cached, Fetched codec io key cache cached ∧
        FetchOutcome codec io key cached cache.disk fetch) ∨
      (fetch.found = none ∧ (fetch.disk = cache.disk ∨
        (Unservable codec io key cache ∧ fetch.disk = cache.disk.remove io key))) := by
  simp only [DiskCache.getEntry]
  cases hpending : cache.disk.pendingInsert codec cache.heap key with
  | some fetched =>
      obtain ⟨cached, heap⟩ := fetched
      have hunverified : (heap.cells cached.cell).atMillis = 0 := by
        unfold DiskCache.pendingInsert at hpending
        split at hpending
        · cases hpending
        · split at hpending
          · cases hpending
          · exact decodeCachedResult_unverified hpending
      exact Or.inl ⟨cached, Or.inl ⟨heap, hpending⟩, verifyFetched_outcome codec io hunverified⟩
  | none =>
      have hcommitted := readCommitted_cases codec io cache hpending
      have hfetched (cached : CachedImport) :
          (cache.disk.readCommitted codec io cache.heap key).1 = some cached →
            Fetched codec io key cache cached := fun h => Or.inr ⟨hpending, h⟩
      generalize cache.disk.readCommitted codec io cache.heap key = read at hcommitted hfetched ⊢
      obtain ⟨found, disk, heap⟩ := read
      rcases hcommitted with ⟨cached, hfound, hdisk, hunverified⟩ | ⟨hfound, hdisk⟩
      · simp only at hfound hdisk hunverified
        subst hfound hdisk
        exact Or.inl ⟨cached, hfetched cached rfl, verifyFetched_outcome codec io hunverified⟩
      · simp only at hfound hdisk
        subst hfound
        exact Or.inr ⟨rfl, hdisk⟩

/-! ## Memory reads -/

def Cell.stampOf (cell : Cell) : Nat × Nat := (cell.generation, cell.atMillis)

theorem promoteRecency_stamp (cell other : Nat) (cache : ImportCache) :
    ((cache.promoteRecency cell).heap.cells other).stampOf =
      (cache.heap.cells other).stampOf :=
  Heap.modify_field Cell.stampOf cache.heap.nextSeq.2 cell
    (fun c => { c with lastSeq := cache.heap.nextSeq.1 }) (fun _ => rfl) other

/-- The fast path reads only the stamp of the entry. -/
theorem fastPath_congr (requireFresh : Bool) {cached : CachedImport} {heap heap' : Heap}
    (h : (heap.cells cached.cell).stampOf = (heap'.cells cached.cell).stampOf) :
    ImportCache.fastPath io requireFresh cached heap =
      ImportCache.fastPath io requireFresh cached heap' := by
  simp only [Cell.stampOf, Prod.mk.injEq] at h
  simp only [ImportCache.fastPath, Cell.isCurrent, h.1, h.2]

/-- The outcome of a memory hit: served without a check, served under its
verdict, or evicted. -/
inductive HitOutcome (codec : Codec) (io : Io) (key : Key) (cache : ImportCache)
    (cached : CachedImport) (requireFresh : Bool) (stale : StalePolicy) (out : Lookup) : Prop
  | fast (hfast : ImportCache.fastPath io requireFresh cached cache.heap = true)
      (hfound : out.found = some (ImportCache.asHit cached.result, .fresh))
      (hmemory : out.cache.memory = cache.memory) (hdisk : out.cache.disk = cache.disk)
      (hstamp : (out.cache.heap.cells cached.cell).stampOf =
        (cache.heap.cells cached.cell).stampOf)
      (haccesses : out.accesses = [])
  | served (hslow : ImportCache.fastPath io requireFresh cached cache.heap = false)
      (hfound : out.found = some (ImportCache.asHit cached.result, verdictOf codec io cached))
      (hmemory : out.cache.memory = cache.memory) (hdisk : out.cache.disk = cache.disk)
      (hstamp : verdictOf codec io cached = .fresh ∨
        (out.cache.heap.cells cached.cell).stampOf = (cache.heap.cells cached.cell).stampOf)
      (haccesses : out.accesses = (checkFingerprintsStrict codec.contentHash io.fs
        cached.dependencyFingerprints).accesses)
  | evicted (hslow : ImportCache.fastPath io requireFresh cached cache.heap = false)
      (hverdict : verdictOf codec io cached = .gone ∨
        (verdictOf codec io cached = .stale ∧ stale = .evict))
      (hfound : out.found = none)
      (hmemory : out.cache.memory = cache.memory.erase key)
      (hdisk : out.cache.disk = cache.disk.remove io key)

theorem evictIfCurrent_eq {cache : ImportCache} {cached : CachedImport}
    (h : cache.memory.lookup key = some cached) :
    (cache.evictIfCurrent io key cached.cell).memory = cache.memory.erase key ∧
      (cache.evictIfCurrent io key cached.cell).disk = cache.disk.remove io key := by
  simp [ImportCache.evictIfCurrent, ImportCache.removeFromMemoryIfCurrent, h]

theorem lookupMemory_outcome {cache : ImportCache} {cached : CachedImport}
    (h : cache.memory.lookup key = some cached) (promote requireFresh : Bool)
    (stale : StalePolicy) :
    HitOutcome codec io key cache cached requireFresh stale
      (cache.lookupMemory codec io key cached promote requireFresh stale) := by
  obtain ⟨promoted, hpromoted, hmemory, hdisk, hstamp⟩ : ∃ promoted : ImportCache,
      (if promote = true then cache.promoteRecency cached.cell else cache) = promoted ∧
        promoted.memory = cache.memory ∧ promoted.disk = cache.disk ∧
        (promoted.heap.cells cached.cell).stampOf = (cache.heap.cells cached.cell).stampOf := by
    cases promote
    · exact ⟨cache, rfl, rfl, rfl, rfl⟩
    · exact ⟨_, rfl, rfl, rfl, promoteRecency_stamp _ _ _⟩
  have hfast := fastPath_congr io requireFresh hstamp
  have hverdict := verdictOf_eq codec io cached
  have hentry : (promoted.clearUnknown key).memory.lookup key = some cached := by
    simpa [ImportCache.clearUnknown, hmemory] using h
  have hevict := evictIfCurrent_eq io hentry
  rw [show (promoted.clearUnknown key).memory = promoted.memory from rfl,
    show (promoted.clearUnknown key).disk = promoted.disk from rfl, hmemory, hdisk] at hevict
  simp only [ImportCache.lookupMemory, hpromoted, ImportCache.judge, hfast]
  cases hpath : ImportCache.fastPath io requireFresh cached cache.heap with
  | true => exact .fast hpath rfl hmemory hdisk hstamp rfl
  | false =>
      simp only [Bool.false_eq_true, if_false]
      cases hv : (checkFingerprintsStrict codec.contentHash io.fs
          cached.dependencyFingerprints).verdict with
      | unknown =>
          exact .served hpath (by rw [← hverdict, hv]) hmemory hdisk (Or.inr hstamp) rfl
      | stale =>
          by_cases hpolicy : stale = .serve
          · simp only [hpolicy, if_true]
            exact .served hpath (by rw [← hverdict, hv]) hmemory hdisk (Or.inr hstamp) rfl
          · simp only [hpolicy, if_false]
            have hkind : stale = .evict := by cases stale <;> simp_all
            exact .evicted hpath (Or.inr ⟨by rw [← hverdict, hv], hkind⟩) rfl hevict.1 hevict.2
      | gone => exact .evicted hpath (Or.inl (by rw [← hverdict, hv])) rfl hevict.1 hevict.2
      | fresh =>
          simp only
          have hmemory' : (if cached.firstParty = true then promoted.clearUnknown key
              else { promoted.clearUnknown key with
                heap := (promoted.clearUnknown key).heap.modify cached.cell fun cell =>
                  cell.stamp io.cacheGeneration io.sinceEpoch }).memory = cache.memory := by
            split <;> exact hmemory
          have hdisk' : (if cached.firstParty = true then promoted.clearUnknown key
              else { promoted.clearUnknown key with
                heap := (promoted.clearUnknown key).heap.modify cached.cell fun cell =>
                  cell.stamp io.cacheGeneration io.sinceEpoch }).disk = cache.disk := by
            split <;> exact hdisk
          exact .served hpath (by rw [← hverdict, hv]) hmemory' hdisk'
            (Or.inl (by rw [← hverdict, hv])) rfl

/-! ## Hydration -/

theorem evictOldest_field {α : Type} (field : Cell → α)
    (hfield : ∀ (cell : Cell) (seq : Nat), field { cell with persistedSeq := seq } = field cell)
    (generation : Nat) (candidates : List (Nat × Key × Nat)) (count weight : Nat)
    (cache : ImportCache) (cell : Nat) :
    field ((cache.evictOldest codec io generation candidates count weight).heap.cells cell) =
      field (cache.heap.cells cell) := by
  induction candidates generalizing count weight cache with
  | nil => rfl
  | cons candidate rest ih =>
      obtain ⟨seq, k, entryWeight⟩ := candidate
      simp only [ImportCache.evictOldest]
      split
      · rfl
      · rw [ih]
        simp only [ImportCache.persistPromotion]
        split
        · rfl
        · split
          · split
            · rename_i cached _ _ _ _ _ _
              exact Heap.modify_field field cache.heap cached.cell
                (fun c => { c with persistedSeq := (cache.heap.cells cached.cell).lastSeq })
                (fun c => hfield c _) cell
            · rfl
          · rfl

theorem enforceMemoryCap_field {α : Type} (field : Cell → α)
    (hfield : ∀ (cell : Cell) (seq : Nat), field { cell with persistedSeq := seq } = field cell)
    (cache : ImportCache) (cell : Nat) :
    field ((cache.enforceMemoryCap codec io).heap.cells cell) = field (cache.heap.cells cell) := by
  unfold ImportCache.enforceMemoryCap
  split
  · rfl
  · exact evictOldest_field _ _ field hfield _ _ _ _ _ _

/-- A read ends in `core`, or hydrated an entry and ends in the cap pass. -/
def EndsIn (codec : Codec) (io : Io) (core : ImportCache) (out : Lookup) : Prop :=
  out.cache = core ∨ (out.found.isSome ∧ out.cache = core.enforceMemoryCap codec io)

/-- The outcome of a read of a key that memory does not hold. -/
inductive MissOutcome (codec : Codec) (io : Io) (key : Key) (cache : ImportCache)
    (requireFresh : Bool) (core : ImportCache) (out : Lookup) : Prop
  | served (cached served : CachedImport) (hfetched : Fetched codec io key cache cached)
      (hfound : out.found = some (ImportCache.asHit cached.result, verdictOf codec io cached))
      (hfresh : requireFresh = true → verdictOf codec io cached = .fresh)
      (hmemory : core.memory = cache.memory.insert key served) (hdisk : core.disk = cache.disk)
      (hunverified : verdictOf codec io cached ≠ .fresh →
        (core.heap.cells served.cell).atMillis = 0)
      (haccesses : out.accesses = (checkFingerprintsStrict codec.contentHash io.fs
        cached.dependencyFingerprints).accesses)
  | kept (hfound : out.found = none)
      (hmemory : core.memory = cache.memory) (hdisk : core.disk = cache.disk)
  | evicted (hreason : (∃ cached, Fetched codec io key cache cached ∧
        (verdictOf codec io cached = .stale ∨ verdictOf codec io cached = .gone)) ∨
        Unservable codec io key cache)
      (hfound : out.found = none)
      (hmemory : core.memory = cache.memory) (hdisk : core.disk = cache.disk.remove io key)

theorem insertIntoMemoryGuarded_eq (key : Key) (cached : CachedImport) (cache : ImportCache) :
    cache.insertIntoMemoryGuarded key cached cache.disk.clearGeneration =
      { cache with memory := cache.memory.insert key cached } := by
  simp [ImportCache.insertIntoMemoryGuarded]

/-- Marking a fetched entry changes neither layer, and stamps only a fresh one. -/
theorem markFetched_eq (key : Key) (cached : CachedImport) (freshness : Freshness)
    (promote : Bool) (cache : ImportCache) :
    (cache.markFetched io key cached freshness promote).memory = cache.memory ∧
      (cache.markFetched io key cached freshness promote).disk = cache.disk ∧
      (freshness ≠ .fresh →
        ((cache.markFetched io key cached freshness promote).heap.cells cached.cell).stampOf =
          (cache.heap.cells cached.cell).stampOf) := by
  unfold ImportCache.markFetched
  refine ⟨?_, ?_, ?_⟩
  · simp only
    split <;> split <;> rfl
  · simp only
    split <;> split <;> rfl
  · intro hunverified
    simp only [hunverified, if_false]
    split
    · exact promoteRecency_stamp _ _ _
    · rfl

theorem lookupDisk_outcome (cache : ImportCache) (promote requireFresh : Bool) :
    ∃ core, EndsIn codec io core (cache.lookupDisk codec io key promote requireFresh) ∧
      MissOutcome codec io key cache requireFresh core
        (cache.lookupDisk codec io key promote requireFresh) := by
  have hcases := getEntry_cases codec io key cache
  unfold ImportCache.lookupDisk
  simp only at hcases ⊢
  generalize cache.disk.getEntry codec io cache.heap key = fetch at hcases ⊢
  rcases hcases with ⟨cached, hfetched, houtcome⟩ | ⟨hnone, hdisk⟩
  · cases houtcome with
    | served served hfound hdisk hresult hfingerprints hunverified haccesses =>
        simp only [hfound]
        by_cases hrefused : verdictOf codec io cached ≠ .fresh ∧ requireFresh = true
        · rw [if_pos hrefused]
          exact ⟨_, Or.inl rfl, .kept rfl rfl hdisk⟩
        · rw [if_neg hrefused]
          refine ⟨_, Or.inr ⟨rfl, rfl⟩, ?_⟩
          have hfresh : requireFresh = true → verdictOf codec io cached = .fresh := by
            intro hrequired
            by_contra hstale
            exact hrefused ⟨hstale, hrequired⟩
          obtain ⟨hmemory, hdisk', hstamp⟩ := markFetched_eq io key served
            (verdictOf codec io cached) promote
            { cache with disk := fetch.disk, heap := fetch.heap }
          have hguard : cache.disk.clearGeneration =
              (ImportCache.markFetched io key served (verdictOf codec io cached) promote
                { cache with disk := fetch.disk, heap := fetch.heap }).disk.clearGeneration := by
            rw [hdisk']
            simp only [hdisk]
          rw [hguard, insertIntoMemoryGuarded_eq]
          refine .served cached served hfetched (by rw [hresult]) hfresh ?_ ?_ ?_ haccesses
          · simp only [hmemory]
          · exact hdisk'.trans hdisk
          · intro hunknown
            rw [← hunverified]
            exact congrArg Prod.snd (hstamp hunknown)
    | evicted hverdict hfound hdisk =>
        simp only [hfound]
        exact ⟨_, Or.inl rfl, .evicted (Or.inl ⟨cached, hfetched, hverdict⟩) rfl rfl hdisk⟩
  · simp only [hnone]
    rcases hdisk with hdisk | ⟨hunservable, hdisk⟩
    · exact ⟨_, Or.inl rfl, .kept rfl rfl hdisk⟩
    · exact ⟨_, Or.inl rfl, .evicted (Or.inr hunservable) rfl rfl hdisk⟩

/-! ## Every read -/

/-- A fingerprint that a call checked and found fresh, with the accesses it
made: a hash outside `node_modules` was compared. -/
def Verified (codec : Codec) (io : Io) (accesses : List Access) (fingerprint : FileFingerprint) :
    Prop :=
  (checkRouted codec.contentHash io.fs fingerprint).verdict = .fresh ∧
    (∀ access ∈ (checkRouted codec.contentHash io.fs fingerprint).accesses, access ∈ accesses) ∧
    (∀ expected, fingerprint.contentHash = some expected →
      fingerprintIsInstalled fingerprint = false →
        Access.read fingerprint.path ∈ accesses ∧
          ∃ bytes, io.fs.read fingerprint.path = .ok bytes ∧ codec.contentHash bytes = expected)

theorem verified_of_fresh {cached : CachedImport} (h : verdictOf codec io cached = .fresh)
    {fingerprint : FileFingerprint} (hmem : fingerprint ∈ cached.dependencyFingerprints) :
    Verified codec io (checkFingerprintsStrict codec.contentHash io.fs
      cached.dependencyFingerprints).accesses fingerprint := by
  rw [← verdictOf_eq codec io] at h
  have hfresh := checkFingerprintsStrict_fresh_iff.mp h fingerprint hmem
  have haccess : ∀ access ∈ (checkRouted codec.contentHash io.fs fingerprint).accesses,
      access ∈ (checkFingerprintsStrict codec.contentHash io.fs
        cached.dependencyFingerprints).accesses := by
    intro access haccess
    exact checkFingerprintsStrict_accesses (by rw [h]; decide) hmem haccess
  refine ⟨hfresh, haccess, ?_⟩
  intro expected hhash houtside
  obtain ⟨hread, hcompare⟩ := checkRouted_hashed codec.contentHash io.fs houtside hhash
  exact ⟨haccess _ hread, hcompare.mp hfresh⟩

/-- Why a read may remove an entry of its key: the memory entry is gone, or
stale under the evicting policy; or memory holds none, and the entry the disk
fetched is gone or stale, or the row may not be served at all. -/
def MayEvict (codec : Codec) (io : Io) (key : Key) (cache : ImportCache) (stale : StalePolicy) :
    Prop :=
  (∃ cached, cache.memory.lookup key = some cached ∧
      (verdictOf codec io cached = .gone ∨
        (verdictOf codec io cached = .stale ∧ stale = .evict))) ∨
    (cache.memory.lookup key = none ∧
      ((∃ cached, Fetched codec io key cache cached ∧
          (verdictOf codec io cached = .stale ∨ verdictOf codec io cached = .gone)) ∨
        Unservable codec io key cache))

/-- Neither the entry that was there nor the one a read hydrated is stamped. -/
def Unstamped (key : Key) (cache core : ImportCache) (heap : Heap) : Prop :=
  ∀ cached, core.memory.lookup key = some cached →
    (cache.memory.lookup key = some cached ∧
        (heap.cells cached.cell).stampOf = (cache.heap.cells cached.cell).stampOf) ∨
      (heap.cells cached.cell).atMillis = 0

theorem lost_of_remove {cache core : ImportCache} {k : Key} (hk : k ≠ key)
    (hmemory : core.memory.lookup k = cache.memory.lookup k)
    (hdisk : core.disk = cache.disk.remove io key) : ¬ Lost cache core k := by
  obtain ⟨hqueue, hrow⟩ := DiskCache.remove_ne io cache.disk hk
  rintro (⟨hbefore, hafter⟩ | ⟨hbefore, hafter⟩ | ⟨hbefore, hafter⟩)
  · rw [hmemory] at hafter
    simp [hafter] at hbefore
  · rw [hdisk, hqueue] at hafter
    simp [hafter] at hbefore
  · rw [hdisk, hrow] at hafter
    simp [hafter] at hbefore

theorem verdictOf_unknown {cached : CachedImport} {fingerprint : FileFingerprint}
    (hmem : fingerprint ∈ cached.dependencyFingerprints)
    (h : (checkRouted codec.contentHash io.fs fingerprint).verdict = .unknown) :
    verdictOf codec io cached = .unknown :=
  Freshness.worst_eq_unknown (List.mem_map.mpr ⟨fingerprint, hmem, h⟩)

theorem lookupMemory_layers {cache : ImportCache} {cached : CachedImport}
    (h : cache.memory.lookup key = some cached) (promote requireFresh : Bool)
    (stale : StalePolicy) :
    let out := cache.lookupMemory codec io key cached promote requireFresh stale
    (verdictOf codec io cached = .unknown →
        Keeps cache out.cache ∧ Unstamped key cache out.cache out.cache.heap) ∧
      (∀ k, Lost cache out.cache k → k = key ∧ MayEvict codec io key cache stale) := by
  intro out
  have hunstamped (hmemory : out.cache.memory = cache.memory)
      (hstamp : (out.cache.heap.cells cached.cell).stampOf =
        (cache.heap.cells cached.cell).stampOf) :
      Unstamped key cache out.cache out.cache.heap := by
    intro served hserved
    rw [hmemory, h] at hserved
    cases hserved
    exact Or.inl ⟨h, hstamp⟩
  have hkeeps (hmemory : out.cache.memory = cache.memory) (hdisk : out.cache.disk = cache.disk) :
      Keeps cache out.cache := by
    refine ⟨?_, hdisk⟩
    rw [hmemory]
    exact fun _ _ hrow => hrow
  cases lookupMemory_outcome codec io h promote requireFresh stale with
  | fast hfast hfound hmemory hdisk hstamp haccesses =>
      refine ⟨fun _ => ⟨hkeeps hmemory hdisk, hunstamped hmemory hstamp⟩, ?_⟩
      intro k hlost
      exact absurd hlost ((hkeeps hmemory hdisk).not_lost k)
  | served hslow hfound hmemory hdisk hstamp haccesses =>
      refine ⟨fun hunknown => ⟨hkeeps hmemory hdisk, hunstamped hmemory ?_⟩, ?_⟩
      · rcases hstamp with hfresh | hstamp
        · rw [hunknown] at hfresh
          cases hfresh
        · exact hstamp
      · intro k hlost
        exact absurd hlost ((hkeeps hmemory hdisk).not_lost k)
  | evicted hslow hverdict hfound hmemory hdisk =>
      refine ⟨fun hunknown => ?_, ?_⟩
      · rw [hunknown] at hverdict
        simp at hverdict
      · intro k hlost
        refine ⟨?_, Or.inl ⟨cached, h, hverdict⟩⟩
        by_contra hk
        refine lost_of_remove io hk ?_ hdisk hlost
        rw [hmemory, Keyed.lookup_erase_eq, if_neg hk]

theorem lookupDisk_layers {cache : ImportCache} (h : cache.memory.lookup key = none)
    (promote requireFresh : Bool) (stale : StalePolicy) :
    let out := cache.lookupDisk codec io key promote requireFresh
    ∃ core, EndsIn codec io core out ∧
      (∀ cached, Fetched codec io key cache cached → verdictOf codec io cached = .unknown →
        Keeps cache core ∧ Unstamped key cache core out.cache.heap) ∧
      (∀ k, Lost cache core k → k = key ∧ MayEvict codec io key cache stale) := by
  intro out
  obtain ⟨core, hends, houtcome⟩ := lookupDisk_outcome codec io cache promote requireFresh
  refine ⟨core, hends, ?_⟩
  cases houtcome with
  | served cached served hfetched hfound hfresh hmemory hdisk hunverified haccesses =>
      have hkeeps : Keeps cache core := by
        refine ⟨?_, hdisk⟩
        intro k entry hrow
        rw [hmemory, Keyed.lookup_insert_eq, if_neg, hrow]
        rintro rfl
        rw [h] at hrow
        cases hrow
      have hheap (cell : Nat) : (out.cache.heap.cells cell).stampOf =
          (core.heap.cells cell).stampOf := by
        rcases hends with heq | ⟨_, heq⟩
        · rw [heq]
        · rw [heq]
          exact enforceMemoryCap_field codec io Cell.stampOf (fun _ _ => rfl) core cell
      refine ⟨fun cached' hfetched' hunknown => ⟨hkeeps, ?_⟩, ?_⟩
      · intro entry hentry
        rw [hmemory, Keyed.lookup_insert_eq, if_pos rfl] at hentry
        cases hentry
        right
        cases hfetched.unique codec io hfetched'
        have hnever := hunverified (by rw [hunknown]; decide)
        rw [← hnever]
        exact congrArg Prod.snd (hheap served.cell)
      · intro k hlost
        exact absurd hlost (hkeeps.not_lost k)
  | kept hfound hmemory hdisk =>
      have hkeeps : Keeps cache core := ⟨by rw [hmemory]; exact fun _ _ hrow => hrow, hdisk⟩
      refine ⟨fun cached _ _ => ⟨hkeeps, ?_⟩, ?_⟩
      · intro entry hentry
        rw [hmemory, h] at hentry
        cases hentry
      · intro k hlost
        exact absurd hlost (hkeeps.not_lost k)
  | evicted hreason hfound hmemory hdisk =>
      refine ⟨fun cached hfetched hunknown => ?_, ?_⟩
      · rcases hreason with ⟨cached', hfetched', hverdict⟩ | hunservable
        · cases hfetched.unique codec io hfetched'
          rw [hunknown] at hverdict
          simp at hverdict
        · exact absurd hfetched (hunservable.not_fetched codec io cached)
      · intro k hlost
        refine ⟨?_, Or.inr ⟨h, hreason⟩⟩
        by_contra hk
        exact lost_of_remove io hk (by rw [hmemory]) hdisk hlost

/-- What a force-fresh read answers was verified during the call. -/
theorem lookup_fresh_verified {cache : ImportCache} {promote : Bool} {stale : StalePolicy}
    {result : ImportResult}
    (h : (cache.lookup codec io key promote true stale).found = some (result, .fresh)) :
    ∃ cached, Judged codec io key cache cached ∧ result = ImportCache.asHit cached.result ∧
      ∀ fingerprint ∈ cached.dependencyFingerprints,
        Verified codec io (cache.lookup codec io key promote true stale).accesses
          fingerprint := by
  unfold ImportCache.lookup at h ⊢
  cases hmemory : cache.memory.lookup key with
  | some cached =>
      simp only [hmemory] at h ⊢
      refine ⟨cached, Or.inl hmemory, ?_⟩
      cases lookupMemory_outcome codec io hmemory promote true stale with
      | fast hfast hfound _ _ _ _ => simp [ImportCache.fastPath] at hfast
      | served hslow hfound _ _ _ haccesses =>
          rw [hfound] at h
          simp only [Option.some.injEq, Prod.mk.injEq] at h
          refine ⟨h.1.symm, ?_⟩
          rw [haccesses]
          exact fun fingerprint hmem => verified_of_fresh codec io h.2 hmem
      | evicted _ _ hfound _ _ =>
          rw [hfound] at h
          cases h
  | none =>
      simp only [hmemory] at h ⊢
      obtain ⟨core, _, houtcome⟩ := lookupDisk_outcome codec io cache promote true
      cases houtcome with
      | served cached served hfetched hfound hfresh _ _ _ haccesses =>
          rw [hfound] at h
          simp only [Option.some.injEq, Prod.mk.injEq] at h
          refine ⟨cached, Or.inr ⟨hmemory, hfetched⟩, h.1.symm, ?_⟩
          rw [haccesses]
          exact fun fingerprint hmem => verified_of_fresh codec io h.2 hmem
      | kept hfound _ _ =>
          rw [hfound] at h
          cases h
      | evicted _ hfound _ _ =>
          rw [hfound] at h
          cases h

def forceFresh (promote : Bool) (key : Key) (cache : ImportCache) :
    Option ImportResult × ImportCache × List Access :=
  match promote with
  | true => cache.getIfFreshAndPromote codec io key
  | false => cache.getIfFresh codec io key

/-- A force-fresh read answers only what it verified.  A read whose entry has an
unknown fingerprint removes nothing and stamps nothing, and a read removes only
entries of its own key, for the reasons of `MayEvict`; the cap pass after a
hydration is apart.  The verdict does not depend on the order of the list. -/
theorem read_verdicts (key : Key) (cache : ImportCache) :
    (∀ promote result, (forceFresh codec io promote key cache).1 = some result →
      ∃ cached, Judged codec io key cache cached ∧ result = ImportCache.asHit cached.result ∧
        ∀ fingerprint ∈ cached.dependencyFingerprints,
          Verified codec io (forceFresh codec io promote key cache).2.2 fingerprint) ∧
      (∀ promote requireFresh stale,
        let out := cache.lookup codec io key promote requireFresh stale
        ∃ core, (out.cache = core ∨ (cache.memory.lookup key = none ∧ EndsIn codec io core out)) ∧
          (∀ cached, Judged codec io key cache cached →
            ∀ fingerprint ∈ cached.dependencyFingerprints,
              (checkRouted codec.contentHash io.fs fingerprint).verdict = .unknown →
                Keeps cache core ∧ Unstamped key cache core out.cache.heap) ∧
          (∀ k, Lost cache core k → k = key ∧ MayEvict codec io key cache stale)) ∧
      (∀ fingerprints fingerprints' : List FileFingerprint, fingerprints.Perm fingerprints' →
        (checkFingerprintsStrict codec.contentHash io.fs fingerprints).verdict =
          (checkFingerprintsStrict codec.contentHash io.fs fingerprints').verdict) := by
  refine ⟨?_, ?_, ?_⟩
  · intro promote result hread
    have hread' : (cache.read codec io key (.requireFresh promote)).1 = some result := by
      cases promote <;> exact hread
    have haccesses : (forceFresh codec io promote key cache).2.2 =
        (cache.lookup codec io key promote true .evict).accesses := by
      cases promote <;> rfl
    simp only [ImportCache.read, ReadIntent.requiresFresh, ReadIntent.promotes,
      Option.bind_eq_some_iff] at hread'
    obtain ⟨⟨found, verdict⟩, hfound, hserved⟩ := hread'
    rw [haccesses]
    apply lookup_fresh_verified codec io
    cases verdict <;> simp at hserved
    rw [hfound, hserved]
  · intro promote requireFresh stale
    unfold ImportCache.lookup
    cases hmemory : cache.memory.lookup key with
    | some cached =>
        simp only
        obtain ⟨hunknown, hlost⟩ :=
          lookupMemory_layers codec io hmemory promote requireFresh stale
        refine ⟨_, Or.inl rfl, ?_, hlost⟩
        rintro judged (hjudged | ⟨hnone, _⟩) fingerprint hmem hverdict
        · rw [hmemory] at hjudged
          cases hjudged
          exact hunknown (verdictOf_unknown codec io hmem hverdict)
        · rw [hmemory] at hnone
          cases hnone
    | none =>
        simp only
        obtain ⟨core, hends, hunknown, hlost⟩ :=
          lookupDisk_layers codec io hmemory promote requireFresh stale
        refine ⟨core, Or.inr ⟨trivial, hends⟩, ?_, hlost⟩
        rintro judged (hjudged | ⟨_, hfetched⟩) fingerprint hmem hverdict
        · rw [hmemory] at hjudged
          cases hjudged
        · exact hunknown judged hfetched (verdictOf_unknown codec io hmem hverdict)
  · intro fingerprints fingerprints' hperm
    rw [checkFingerprintsStrict_verdict, checkFingerprintsStrict_verdict]
    exact Freshness.worst_perm (hperm.map _)

def grownFile : FileSystem where
  metadata _ := .ok ⟨4, 9⟩
  read _ := .ok [1, 2, 3, 4]

/-- An empty memory over a shard with one committed entry, which depends on a
file that has changed. -/
def staleOnDisk : ImportCache where
  memory := ∅
  disk :=
    { db := some (recounted ((∅ : Keyed Key Bytes).insert "react"
        (leBytes seqPrefixLen 1 ++ smallBytes 7 true)))
      pendingInserts := ∅
      clearGeneration := 0
      flushRetryAfter := 0
      enabled := true }
  dirty := []
  unknownRetry := ∅
  heap := Heap.initial

def grownFileIo : Io := { Io.quiet Shard.empty with fs := grownFile }

/-- The disk arm evicts a stale entry under the serving policy too: the worst
verdict is `Stale`, the read keeps stale entries, and the row is gone. -/
theorem stale_disk_entry_evicted_under_serve :
    (checkFingerprintsStrict smallCodec.contentHash grownFile [smallFile]).verdict = .stale ∧
      (staleOnDisk.disk.row "react").isSome = true ∧
      ((staleOnDisk.getWithResultFreshness smallCodec grownFileIo "react").2.1.disk.row
        "react").isSome = false ∧
      (staleOnDisk.getWithResultFreshness smallCodec grownFileIo "react").1 = none := by
  decide

/-! ## First-party files -/

/-- A lookup that reports an entry fresh has read this file again and found the
stored hash. -/
def Reread (codec : Codec) (io : Io) (fingerprint : FileFingerprint) (expected : Nat)
    (out : Lookup) : Prop :=
  ∀ result, out.found = some (result, .fresh) →
    Access.read fingerprint.path ∈ out.accesses ∧
      ∃ bytes, io.fs.read fingerprint.path = .ok bytes ∧ codec.contentHash bytes = expected

/-- The fast path is decided once for the whole entry, so it is what a hashed
file outside `node_modules` needs to be read again: every read that does not
take it verifies the file, and one that takes it reads nothing. -/
theorem first_party_file_reread_iff (key : Key) (cache : ImportCache) (cached : CachedImport)
    (hjudged : Judged codec io key cache cached) (fingerprint : FileFingerprint)
    (hmem : fingerprint ∈ cached.dependencyFingerprints) (expected : Nat)
    (hhash : fingerprint.contentHash = some expected)
    (houtside : fingerprintIsInstalled fingerprint = false)
    (promote requireFresh : Bool) (stale : StalePolicy) :
    Reread codec io fingerprint expected
        (cache.lookup codec io key promote requireFresh stale) ↔
      ¬ (cache.memory.lookup key = some cached ∧
        ImportCache.fastPath io requireFresh cached cache.heap = true) := by
  have hverified (hfresh : verdictOf codec io cached = .fresh) :=
    (verified_of_fresh codec io hfresh hmem).2.2 expected hhash houtside
  unfold ImportCache.lookup
  rcases hjudged with hmemory | ⟨hmemory, hfetched⟩
  · simp only [hmemory, true_and]
    cases lookupMemory_outcome codec io hmemory promote requireFresh stale with
    | fast hfast hfound _ _ _ haccesses =>
        refine iff_of_false ?_ (by simp [hfast])
        intro hreread
        obtain ⟨hread, _⟩ := hreread _ hfound
        rw [haccesses] at hread
        cases hread
    | served hslow hfound _ _ _ haccesses =>
        refine iff_of_true ?_ (by simp [hslow])
        intro result hfresh
        rw [hfound] at hfresh
        simp only [Option.some.injEq, Prod.mk.injEq] at hfresh
        rw [haccesses]
        exact hverified hfresh.2
    | evicted hslow _ hfound _ _ =>
        refine iff_of_true ?_ (by simp [hslow])
        intro result hfresh
        rw [hfound] at hfresh
        cases hfresh
  · simp only [hmemory, reduceCtorEq, false_and, not_false_eq_true, iff_true]
    obtain ⟨core, _, houtcome⟩ := lookupDisk_outcome codec io cache promote requireFresh
    cases houtcome with
    | served cached' served hfetched' hfound _ _ _ _ haccesses =>
        cases hfetched.unique codec io hfetched'
        intro result hfresh
        rw [hfound] at hfresh
        simp only [Option.some.injEq, Prod.mk.injEq] at hfresh
        rw [haccesses]
        exact hverified hfresh.2
    | kept hfound _ _ =>
        intro result hfresh
        rw [hfound] at hfresh
        cases hfresh
    | evicted _ hfound _ _ =>
        intro result hfresh
        rw [hfound] at hfresh
        cases hfresh

/-- A workspace file that a stylesheet of an installed package reached, recorded
with the hash of its empty content. -/
def reachedFile : FileFingerprint := ⟨"/w/logo.svg", 0, 5, some 0x2D06800538D394C2⟩

def mixedEntry : CachedImport where
  result := smallResult 7
  dependencyFingerprints := [reachedFile]
  cell := 0
  firstParty := false

def mixedCache : ImportCache :=
  { staleOnDisk with
    memory := (∅ : Keyed Key CachedImport).insert "react" mixedEntry
    heap := ⟨fun _ => ⟨1, 1, 1, 1⟩, 1, 2⟩ }

/-- The file has content now, under the same cache generation. -/
theorem first_party_file_served_unread :
    Judged smallCodec grownFileIo "react" mixedCache mixedEntry ∧
      reachedFile ∈ mixedEntry.dependencyFingerprints ∧
      fingerprintIsInstalled reachedFile = false ∧
      ¬ Reread smallCodec grownFileIo reachedFile 0x2D06800538D394C2
        (mixedCache.lookup smallCodec grownFileIo "react" false false .evict) := by
  refine ⟨Or.inl rfl, by simp [mixedEntry], by decide, ?_⟩
  intro hreread
  obtain ⟨hread, _⟩ := hreread (ImportCache.asHit (smallResult 7)) (by decide)
  exact absurd hread (by decide)

def emptyFileIo : Io :=
  { Io.quiet Shard.empty with fs := ⟨fun _ => .ok ⟨0, 5⟩, fun _ => .ok []⟩ }

/-- A force-fresh read of the same entry reads the file, and serves the entry
while the file is as it was recorded. -/
theorem first_party_file_reread_force_fresh :
    (mixedCache.lookup smallCodec emptyFileIo "react" false true .evict).found =
        some (ImportCache.asHit (smallResult 7), .fresh) ∧
      Reread smallCodec emptyFileIo reachedFile 0x2D06800538D394C2
        (mixedCache.lookup smallCodec emptyFileIo "react" false true .evict) := by
  refine ⟨by decide, ?_⟩
  refine (first_party_file_reread_iff smallCodec emptyFileIo "react" mixedCache mixedEntry
    (Or.inl rfl) reachedFile (by simp [mixedEntry]) _ rfl (by decide) false true
    .evict).mpr ?_
  simp [ImportCache.fastPath]

end ImportLens.Cache
