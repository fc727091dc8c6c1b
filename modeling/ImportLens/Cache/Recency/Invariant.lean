import ImportLens.Cache.Disk.Copies

/-!
# Persisted recency

`persisted_seq` of a memory entry says how recent its disk copy is, and the
recency sweep skips an entry that is not ahead of it.  The number is advanced
when the entry is queued, long before a commit, so it is right only as long as
the copy stays: every operation has to keep, of each key that is not dirty, a
copy at least that recent.

Two paths lose a copy that memory still counts on.  A queue at its ceiling
sheds its oldest values, and a reopen reads the recent keys through
`get_entry`, which removes a copy whose files have changed.  The conditions of
the operations exclude these two, and a sequence behind what was persisted,
which only a clock that has wrapped around leaves.

This module has the invariant, one write of an entry, and the cap pass, with
which most operations end.
-/

namespace ImportLens.Cache

open ImportLens.Daemon ImportLens.Support

variable {codec : Codec}

/-! ## The invariant -/

/-- The disk side holds a copy of the entry, in the queue under the current
generation or in the table, at least as recent as `persisted_seq` says. -/
def Persisted (disk : DiskCache) (heap : Heap) (key : Key) (cached : CachedImport) : Prop :=
  ∃ bytes, (disk.pendingInserts.lookup key = some (disk.clearGeneration, bytes) ∨
      disk.row key = some bytes) ∧
    (heap.cells cached.cell).persistedSeq ≤ decodeLastSeq bytes

/-- While the database is open, every memory entry whose key is not dirty is
persisted. -/
def RecencyPersisted (cache : ImportCache) : Prop :=
  cache.disk.isAvailable = true → cache.memory.All fun key cached =>
    key ∉ cache.dirty → Persisted cache.disk cache.heap key cached

/-- The copy of a key that a read would be served from is recent enough. -/
def Held (disk : DiskCache) (heap : Heap) (key : Key) (cached : CachedImport) : Prop :=
  ∃ bytes, disk.copyOf key = some bytes ∧
    (heap.cells cached.cell).persistedSeq ≤ decodeLastSeq bytes

theorem Held.persisted {disk : DiskCache} {heap : Heap} {key : Key} {cached : CachedImport}
    (h : Held disk heap key cached) : Persisted disk heap key cached := by
  obtain ⟨bytes, hcopy, hseq⟩ := h
  exact ⟨bytes, DiskCache.copyOf_eq_some hcopy, hseq⟩

theorem Held.congr {disk disk' : DiskCache} {heap heap' : Heap} {key : Key}
    {cached : CachedImport} (h : Held disk heap key cached)
    (hcopy : disk'.copyOf key = disk.copyOf key)
    (hseq : (heap'.cells cached.cell).persistedSeq = (heap.cells cached.cell).persistedSeq) :
    Held disk' heap' key cached := by
  obtain ⟨bytes, hbytes, hle⟩ := h
  exact ⟨bytes, hcopy.trans hbytes, hseq.trans_le hle⟩

/-- What the operations keep of the memory map: only entries that pass the gate
are mirrored, each in a recency cell of its own, and sequences are `u64`s. -/
structure ImportCache.WellKept (cache : ImportCache) : Prop where
  gated : cache.memory.All fun _ cached => Gated cached.result cached.dependencyFingerprints
  apart : cache.memory.All fun key cached => cache.memory.All fun key' cached' =>
    key ≠ key' → cached.cell ≠ cached'.cell
  bounded : cache.heap.Bounded

/-- The invariant of a run: what `RecencyPersisted` needs from the two layers and
the heap behind the shared fields. -/
structure Recent (codec : Codec) (cache : ImportCache) : Prop
    extends ImportCache.WellKept cache where
  queue : DiskCache.QueueSound codec cache.disk
  cells : cache.memory.All fun _ cached => cached.cell < cache.heap.next
  held : cache.disk.isAvailable = true → cache.memory.All fun key cached =>
    key ∉ cache.dirty → Held cache.disk cache.heap key cached

namespace Recent

variable {cache : ImportCache}

theorem persisted (h : Recent codec cache) : RecencyPersisted cache := by
  intro havailable key cached hrow hclean
  exact (h.held havailable key cached hrow hclean).persisted

/-- The invariant survives a step that only takes entries out of memory, keeps
the copies of those that stay, and keeps what they were persisted at. -/
theorem narrow (h : Recent codec cache) {next : ImportCache}
    (hmemory : ∀ key cached, next.memory.lookup key = some cached →
      cache.memory.lookup key = some cached)
    (hqueue : DiskCache.QueueSound codec next.disk)
    (havailable : next.disk.isAvailable = cache.disk.isAvailable)
    (hcopy : ∀ key cached, next.memory.lookup key = some cached →
      next.disk.copyOf key = cache.disk.copyOf key)
    (hdirty : ∀ key, key ∈ cache.dirty → key ∈ next.dirty)
    (hnext : cache.heap.next ≤ next.heap.next) (hbounded : next.heap.Bounded)
    (hseq : ∀ id, id < cache.heap.next →
      (next.heap.cells id).persistedSeq = (cache.heap.cells id).persistedSeq) :
    Recent codec next where
  gated key cached hrow := h.gated key cached (hmemory key cached hrow)
  queue := hqueue
  bounded := hbounded
  cells key cached hrow := (h.cells key cached (hmemory key cached hrow)).trans_le hnext
  apart key cached hrow key' cached' hrow' :=
    h.apart key cached (hmemory key cached hrow) key' cached' (hmemory key' cached' hrow')
  held hopen key cached hrow hclean := by
    have hkept := hmemory key cached hrow
    have hheld := h.held (havailable.symm.trans hopen) key cached hkept
      fun hmem => hclean (hdirty key hmem)
    exact hheld.congr (hcopy key cached hrow) (hseq _ (h.cells key cached hkept))

/-- The invariant survives a step that touches the heap only. -/
theorem ofHeap (h : Recent codec cache) {heap : Heap} (hnext : cache.heap.next ≤ heap.next)
    (hbounded : heap.Bounded)
    (hseq : ∀ id, id < cache.heap.next →
      (heap.cells id).persistedSeq = (cache.heap.cells id).persistedSeq) :
    Recent codec { cache with heap := heap } :=
  h.narrow (fun _ _ hrow => hrow) h.queue rfl (fun _ _ _ => rfl) (fun _ hmem => hmem) hnext
    hbounded hseq

theorem ofUnknownRetry (h : Recent codec cache) (retry : Keyed Key UnknownRetry) :
    Recent codec { cache with unknownRetry := retry } :=
  ⟨⟨h.gated, h.apart, h.bounded⟩, h.queue, h.cells, h.held⟩

/-- The invariant survives a step that removes from the layers only, and leaves
the copies of what stays in memory. -/
theorem ofLayers (h : Recent codec cache) {memory : Keyed Key CachedImport} {disk : DiskCache}
    (hmemory : ∀ key cached, memory.lookup key = some cached →
      cache.memory.lookup key = some cached)
    (hqueue : DiskCache.QueueSound codec disk)
    (havailable : disk.isAvailable = cache.disk.isAvailable)
    (hcopy : ∀ key cached, memory.lookup key = some cached →
      disk.copyOf key = cache.disk.copyOf key) :
    Recent codec { cache with memory := memory, disk := disk } :=
  h.narrow hmemory hqueue havailable hcopy (fun _ hmem => hmem) (le_refl _) h.bounded fun _ _ => rfl

theorem ofDirty (h : Recent codec cache) {dirty : List Key}
    (hdirty : ∀ key, key ∈ cache.dirty → key ∈ dirty) :
    Recent codec { cache with dirty := dirty } :=
  h.narrow (fun _ _ hrow => hrow) h.queue rfl (fun _ _ _ => rfl) hdirty (le_refl _) h.bounded
    fun _ _ => rfl

theorem erase (h : Recent codec cache) (key : Key) :
    Recent codec { cache with memory := cache.memory.erase key } := by
  refine h.ofLayers (fun k cached hrow => ?_) h.queue rfl fun _ _ _ => rfl
  rw [Keyed.lookup_erase_eq] at hrow
  split at hrow
  · cases hrow
  · exact hrow

theorem mirror {key : Key} {cached : CachedImport}
    (h : Recent codec { cache with memory := cache.memory.erase key })
    (hgated : Gated cached.result cached.dependencyFingerprints)
    (hcell : cached.cell < cache.heap.next)
    (hfresh : cache.memory.All fun key' cached' => key' ≠ key → cached'.cell ≠ cached.cell)
    (hheld : cache.disk.isAvailable = true → key ∉ cache.dirty →
      Held cache.disk cache.heap key cached) :
    Recent codec { cache with memory := cache.memory.insert key cached } := by
  have hrows : ∀ k c, (cache.memory.insert key cached).lookup k = some c →
      (k = key ∧ c = cached) ∨ (k ≠ key ∧ cache.memory.lookup k = some c ∧
        (cache.memory.erase key).lookup k = some c) := by
    intro k c hrow
    rw [Keyed.lookup_insert_eq] at hrow
    split at hrow
    · rename_i hk
      cases hrow
      exact .inl ⟨hk, rfl⟩
    · rename_i hk
      exact .inr ⟨hk, hrow, by rw [AList.lookup_erase_ne hk, hrow]⟩
  refine ⟨⟨fun k c hrow => ?_, fun k c hrow k' c' hrow' => ?_, h.bounded⟩, h.queue,
    fun k c hrow => ?_, fun hopen k c hrow hclean => ?_⟩
  · obtain ⟨rfl, rfl⟩ | ⟨_, _, hkept⟩ := hrows k c hrow
    · exact hgated
    · exact h.gated k c hkept
  · intro hne
    obtain ⟨rfl, rfl⟩ | ⟨hk, hold, hkept⟩ := hrows k c hrow
    · obtain ⟨rfl, rfl⟩ | ⟨hk', hold', _⟩ := hrows k' c' hrow'
      · exact absurd rfl hne
      · exact (hfresh k' c' hold' hk').symm
    · obtain ⟨rfl, rfl⟩ | ⟨_, _, hkept'⟩ := hrows k' c' hrow'
      · exact hfresh k c hold hk
      · exact h.apart k c hkept k' c' hkept' hne
  · obtain ⟨rfl, rfl⟩ | ⟨_, _, hkept⟩ := hrows k c hrow
    · exact hcell
    · exact h.cells k c hkept
  · obtain ⟨rfl, rfl⟩ | ⟨_, _, hkept⟩ := hrows k c hrow
    · exact hheld hopen hclean
    · exact h.held hopen k c hkept hclean

end Recent

/-! ## One write -/

namespace DiskCache.Written

variable {disk : DiskCache} {heap : Heap} {key : Key} {cached : CachedImport}

theorem carries (h : Written codec disk heap key cached) (hbounded : heap.Bounded) :
    ∃ bytes, disk.copyOf key = some bytes ∧
      decodeLastSeq bytes = (heap.cells cached.cell).lastSeq := by
  obtain ⟨envelopeBytes, _, hcopy⟩ := h
  exact ⟨_, hcopy, decodeLastSeq_encoded (hbounded.2 cached.cell) envelopeBytes⟩

theorem held (h : Written codec disk heap key cached) (hbounded : heap.Bounded)
    (hseq : (heap.cells cached.cell).persistedSeq ≤ (heap.cells cached.cell).lastSeq) :
    Held disk heap key cached := by
  obtain ⟨bytes, hcopy, hlast⟩ := h.carries hbounded
  exact ⟨bytes, hcopy, hseq.trans_eq hlast.symm⟩

/-- A written copy is fit to serve while its files are as they were recorded. -/
theorem steady (hcodec : LawfulCodec codec) (h : Written codec disk heap key cached)
    (hgated : Gated cached.result cached.dependencyFingerprints) {io : Io}
    (hfit : verdictOf codec io cached = .fresh ∨ verdictOf codec io cached = .unknown) :
    DiskCache.Steady codec io disk key := by
  obtain ⟨envelopeBytes, hvec, hcopy⟩ := h
  have hstored : Gated (envelopeOf (DiskCache.persisted cached)).result
      (envelopeOf (DiskCache.persisted cached)).dependencyFingerprints :=
    gated_congr rfl rfl hgated
  refine ⟨_, hcopy, fun other => ?_⟩
  obtain ⟨decoded, heap', hdecode, hserves, hfingerprints⟩ :=
    decodeCachedResult_encoded hcodec hvec rfl hstored (heap.cells cached.cell).lastSeq other
  refine ⟨decoded, heap', hdecode, hserves, ?_⟩
  have hfiles : decoded.dependencyFingerprints = cached.dependencyFingerprints := hfingerprints
  rw [verdictOf, hfiles]
  exact hfit

theorem congr {disk' : DiskCache} (h : Written codec disk heap key cached)
    (hcopy : disk'.copyOf key = disk.copyOf key) : Written codec disk' heap key cached := by
  obtain ⟨envelopeBytes, hvec, hbytes⟩ := h
  exact ⟨envelopeBytes, hvec, hcopy.trans hbytes⟩

end DiskCache.Written

/-- Setting `persisted_seq` of one entry to its last sequence. -/
def Heap.persistLast (heap : Heap) (cell : Nat) : Heap :=
  heap.modify cell fun fields => { fields with persistedSeq := (heap.cells cell).lastSeq }

theorem Heap.persistLast_seq (heap : Heap) (cell : Nat) :
    (((heap.persistLast cell).cells cell).persistedSeq = (heap.cells cell).lastSeq) ∧
      (∀ id, ((heap.persistLast cell).cells id).lastSeq = (heap.cells id).lastSeq) ∧
      (∀ id, id ≠ cell → (heap.persistLast cell).cells id = heap.cells id) := by
  refine ⟨?_, ?_, fun id hid => Function.update_of_ne hid _ _⟩
  · simp [persistLast, modify]
  · exact modify_field Cell.lastSeq heap cell _ fun _ => rfl

theorem Heap.persistLast_bounded {heap : Heap} (h : heap.Bounded) (cell : Nat) :
    (heap.persistLast cell).Bounded := by
  refine ⟨h.1, fun id => ?_⟩
  rw [(heap.persistLast_seq cell).2.1 id]
  exact h.2 id

/-- The write of a memory entry, with `persisted_seq` following when it is
accepted. -/
theorem Recent.write {cache : ImportCache} (h : Recent codec cache) {key : Key}
    {cached : CachedImport} (hrow : cache.memory.lookup key = some cached)
    (hroom : cache.disk.HasRoom key) (io : Io) {outcome : Except String Unit} {disk : DiskCache}
    (hinsert : cache.disk.insertAtGeneration codec io cache.heap key cached
      cache.disk.clearGeneration = (outcome, disk)) :
    disk.clearGeneration = cache.disk.clearGeneration ∧
      (outcome = .ok () →
        Recent codec { cache with disk := disk, heap := cache.heap.persistLast cached.cell }) ∧
      (outcome ≠ .ok () → Recent codec { cache with disk := disk }) := by
  have hspec :=
    DiskCache.insertAtGeneration_spec h.queue (h.gated key cached hrow) hroom io cache.heap
  rw [hinsert] at hspec
  obtain ⟨hself, _, hothers⟩ := cache.heap.persistLast_seq cached.cell
  refine ⟨hspec.generation, fun hok => ?_, fun hfailed => ?_⟩
  · refine ⟨⟨h.gated, h.apart, Heap.persistLast_bounded h.bounded _⟩, hspec.sound, h.cells, ?_⟩
    intro hopen k c hk hclean
    have hwas : cache.disk.isAvailable = true := hspec.available.symm.trans hopen
    by_cases hkey : k = key
    · subst hkey
      cases hrow.symm.trans hk
      obtain ⟨bytes, hcopy, hlast⟩ := (hspec.written hok hwas).carries h.bounded
      exact ⟨bytes, hcopy, hself.trans_le hlast.ge⟩
    · have hcell := h.apart k c hk key cached hrow hkey
      exact (h.held hwas k c hk hclean).congr (hspec.others k hkey) (by rw [hothers _ hcell])
  · have hkept : disk = cache.disk := hspec.kept hfailed
    rw [hkept]
    exact h

/-! ## The cap pass -/

namespace ImportCache

/-- Whether the eviction of `key` has a promotion to persist. -/
def IsPromoted (cache : ImportCache) (key : Key) : Prop :=
  ∃ cached, cache.memory.lookup key = some cached ∧
    (cache.heap.cells cached.cell).persistedSeq < (cache.heap.cells cached.cell).lastSeq

def EvictionsFit (codec : Codec) (io : Io) (clearGeneration : Nat) :
    List (Nat × Key × Nat) → Nat → Nat → ImportCache → Prop
  | [], _, _, _ => True
  | (_, key, entryWeight) :: rest, count, weight, cache =>
      count ≤ maxMemoryEntries * 9 / 10 ∧ weight ≤ maxMemoryWeightBytes * 9 / 10 ∨
        ((cache.IsPromoted key → cache.disk.HasRoom key) ∧
          let persisted := cache.persistPromotion codec io key clearGeneration
          EvictionsFit codec io clearGeneration rest (count - 1) (weight - entryWeight)
            { persisted with memory := persisted.memory.erase key })

def capCandidates (cache : ImportCache) : List (Nat × Key × Nat) :=
  ((cache.memory.rows.filter fun row => !cache.dirty.contains row.1).map
    fun row => ((cache.heap.cells row.2.cell).lastSeq, row.1, memoryWeight row.2)).mergeSort
      fun a b => decide (toLex (a.1, toLex a.2) ≤ toLex (b.1, toLex b.2))

/-- A cap pass over the cache sheds nothing. -/
def CapFits (codec : Codec) (io : Io) (cache : ImportCache) : Prop :=
  cache.withinCaps = false → EvictionsFit codec io cache.disk.clearGeneration cache.capCandidates
    cache.memory.rows.length cache.memoryTotalWeight cache

theorem enforceMemoryCap_eq (io : Io) (cache : ImportCache) :
    cache.enforceMemoryCap codec io = if cache.withinCaps then cache
      else cache.evictOldest codec io cache.disk.clearGeneration cache.capCandidates
        cache.memory.rows.length cache.memoryTotalWeight := rfl

theorem persistPromotion_recent {cache : ImportCache} (h : Recent codec cache) (io : Io)
    {key : Key} (hroom : cache.IsPromoted key → cache.disk.HasRoom key) :
    Recent codec (cache.persistPromotion codec io key cache.disk.clearGeneration) ∧
      (cache.persistPromotion codec io key cache.disk.clearGeneration).disk.clearGeneration =
        cache.disk.clearGeneration := by
  unfold persistPromotion
  split
  · exact ⟨h, rfl⟩
  · rename_i cached hrow
    simp only
    split
    · rename_i hpromoted
      have hfits := hroom ⟨cached, hrow, hpromoted⟩
      split
      · rename_i disk hinsert
        obtain ⟨hgeneration, hok, _⟩ := h.write hrow hfits io hinsert
        exact ⟨hok rfl, hgeneration⟩
      · rename_i error disk hinsert
        obtain ⟨hgeneration, _, hfailed⟩ := h.write hrow hfits io hinsert
        exact ⟨hfailed (by simp), hgeneration⟩
    · exact ⟨h, rfl⟩

theorem evictOldest_recent (io : Io) {clearGeneration : Nat}
    (candidates : List (Nat × Key × Nat)) (count weight : Nat) {cache : ImportCache}
    (h : Recent codec cache) (hgeneration : cache.disk.clearGeneration = clearGeneration)
    (hfits : cache.EvictionsFit codec io clearGeneration candidates count weight) :
    Recent codec (cache.evictOldest codec io clearGeneration candidates count weight) := by
  induction candidates generalizing count weight cache with
  | nil => exact h
  | cons candidate rest ih =>
      obtain ⟨seq, key, entryWeight⟩ := candidate
      simp only [evictOldest]
      split
      · exact h
      · rename_i hover
        obtain ⟨hroom, hrest⟩ := hfits.resolve_left hover
        subst hgeneration
        obtain ⟨hpersisted, hsame⟩ := persistPromotion_recent h io hroom
        exact ih _ _ (hpersisted.erase key) hsame hrest

theorem enforceMemoryCap_recent (io : Io) {cache : ImportCache} (h : Recent codec cache)
    (hfits : cache.CapFits codec io) : Recent codec (cache.enforceMemoryCap codec io) := by
  rw [enforceMemoryCap_eq]
  split
  · exact h
  · rename_i hover
    exact evictOldest_recent io _ _ _ h rfl (hfits (eq_false_of_ne_true hover))

end ImportCache

end ImportLens.Cache
