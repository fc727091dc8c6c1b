import ImportLens.Cache.Recency.Invariant

/-!
# Recency through each operation

Reads, inserts, removals, flushes, and the reopen of a missing database, each
with the condition on the state it is taken from under which no copy is lost.
-/

namespace ImportLens.Cache

open ImportLens.Daemon ImportLens.Support

variable {codec : Codec}

/-! ## Reads -/

/-- An update of one cell that keeps what its entry was persisted at. -/
theorem Recent.modify {cache : ImportCache} (h : Recent codec cache) (cell : Nat)
    {f : Cell → Cell} (hpersisted : ∀ fields, (f fields).persistedSeq = fields.persistedSeq)
    (hlast : ∀ fields : Cell, fields.lastSeq < 2 ^ 64 → (f fields).lastSeq < 2 ^ 64) :
    Recent codec { cache with heap := cache.heap.modify cell f } := by
  refine h.ofHeap (le_refl _) ⟨h.bounded.1, h.bounded.update (hlast _ (h.bounded.2 cell)) cell⟩ ?_
  intro id _
  exact Heap.modify_field Cell.persistedSeq cache.heap cell f hpersisted id

namespace ImportCache

variable {cache : ImportCache}

theorem promoteRecency_recent (h : Recent codec cache) (cell : Nat) :
    Recent codec (cache.promoteRecency cell) := by
  obtain ⟨hseq, hbounded⟩ := h.bounded.nextSeq
  have hticked : Recent codec { cache with heap := cache.heap.nextSeq.2 } :=
    h.ofHeap (le_refl _) hbounded fun _ _ => rfl
  exact hticked.modify cell (fun _ => rfl) fun _ _ => hseq

theorem evictIfCurrent_recent (h : Recent codec cache) (io : Io) (key : Key) (identity : Nat) :
    Recent codec (cache.evictIfCurrent io key identity) := by
  obtain ⟨hsound, hothers, _, havailable⟩ := DiskCache.remove_spec h.queue io key
  unfold evictIfCurrent removeFromMemoryIfCurrent
  split
  · rename_i removed heq
    split at heq
    · split at heq
      · cases heq
        refine (h.erase key).ofLayers (fun _ _ hrow => hrow) hsound havailable
          fun k cached hrow => hothers k ?_
        rintro rfl
        simp at hrow
      · cases heq
    · cases heq
  · rename_i kept heq
    split at heq
    · split at heq
      · cases heq
      · cases heq
        exact h
    · cases heq
      exact h

theorem lookupMemory_recent (h : Recent codec cache) (io : Io) (key : Key)
    (cached : CachedImport) (promote requireFresh : Bool) (stale : StalePolicy) :
    Recent codec (cache.lookupMemory codec io key cached promote requireFresh stale).cache := by
  have hpromoted : Recent codec
      (if promote = true then cache.promoteRecency cached.cell else cache) := by
    split
    · exact promoteRecency_recent h _
    · exact h
  unfold lookupMemory
  simp only
  generalize (if promote = true then cache.promoteRecency cached.cell else cache) = promoted
    at hpromoted ⊢
  have hcleared : Recent codec (promoted.clearUnknown key) := hpromoted.ofUnknownRetry _
  split
  · exact hpromoted
  · split
    · exact hcleared
    · exact evictIfCurrent_recent hcleared io key _
  · exact evictIfCurrent_recent hcleared io key _
  · split
    · exact hpromoted
    · split
      · exact hcleared
      · exact hcleared.modify cached.cell (fun _ => rfl) fun _ hlast => hlast

theorem markFetched_recent (h : Recent codec cache) (io : Io) (key : Key) (cached : CachedImport)
    (freshness : Freshness) (promote : Bool) :
    Recent codec (cache.markFetched io key cached freshness promote) := by
  have hstamped : Recent codec
      { cache with
        heap := cache.heap.modify cached.cell fun cell =>
          cell.stamp io.cacheGeneration io.sinceEpoch } :=
    h.modify cached.cell (fun _ => rfl) fun _ hlast => hlast
  have hverified := hstamped.ofUnknownRetry (cache.unknownRetry.erase key)
  unfold markFetched
  simp only
  split
  · split
    · exact promoteRecency_recent hverified _
    · exact promoteRecency_recent h _
  · split
    · exact hverified
    · exact h

theorem promoteRecency_persistedSeq (cell id : Nat) (cache : ImportCache) :
    ((cache.promoteRecency cell).heap.cells id).persistedSeq =
      (cache.heap.cells id).persistedSeq :=
  Heap.modify_field Cell.persistedSeq cache.heap.nextSeq.2 cell
    (fun c => { c with lastSeq := cache.heap.nextSeq.1 }) (fun _ => rfl) id

theorem markFetched_heap (cache : ImportCache) (io : Io) (key : Key) (cached : CachedImport)
    (freshness : Freshness) (promote : Bool) :
    let marked := cache.markFetched io key cached freshness promote
    marked.dirty = cache.dirty ∧ marked.heap.next = cache.heap.next ∧
      (∀ id, (marked.heap.cells id).persistedSeq = (cache.heap.cells id).persistedSeq) ∧
      (promote = false → ∀ id, (marked.heap.cells id).lastSeq = (cache.heap.cells id).lastSeq) := by
  intro marked
  have hstamp : ∀ {α : Type} (field : Cell → α), (∀ cell : Cell,
      field (cell.stamp io.cacheGeneration io.sinceEpoch) = field cell) → ∀ id,
      field ((cache.heap.modify cached.cell fun cell =>
        cell.stamp io.cacheGeneration io.sinceEpoch).cells id) = field (cache.heap.cells id) :=
    fun field hfield => Heap.modify_field field cache.heap cached.cell _ hfield
  simp only [marked]
  unfold markFetched
  simp only
  split
  · rename_i hpromote
    have hnever : ∀ P : Prop, promote = false → P := by
      intro P hfalse
      rw [hpromote] at hfalse
      cases hfalse
    split
    · refine ⟨rfl, rfl, fun id => ?_, hnever _⟩
      exact (promoteRecency_persistedSeq _ id _).trans (hstamp Cell.persistedSeq (fun _ => rfl) id)
    · exact ⟨rfl, rfl, fun id => promoteRecency_persistedSeq _ id _, hnever _⟩
  · split
    · exact ⟨rfl, rfl, hstamp Cell.persistedSeq fun _ => rfl,
        fun _ => hstamp Cell.lastSeq fun _ => rfl⟩
    · exact ⟨rfl, rfl, fun _ => rfl, fun _ _ => rfl⟩

def hydrated (codec : Codec) (io : Io) (key : Key) (promote requireFresh : Bool)
    (cache : ImportCache) : Option ImportCache :=
  let fetch := cache.disk.getEntry codec io cache.heap key
  let fetched := { cache with disk := fetch.disk, heap := fetch.heap }
  match fetch.found with
  | none => none
  | some (cached, freshness) =>
      if freshness ≠ .fresh ∧ requireFresh then none
      else some ((fetched.markFetched io key cached freshness promote).insertIntoMemoryGuarded key
        cached cache.disk.clearGeneration)

theorem lookupDisk_cache (io : Io) (key : Key) (promote requireFresh : Bool)
    (cache : ImportCache) :
    (cache.lookupDisk codec io key promote requireFresh).cache =
      ((cache.hydrated codec io key promote requireFresh).map fun core =>
        core.enforceMemoryCap codec io).getD
          { cache with
            disk := (cache.disk.getEntry codec io cache.heap key).disk
            heap := (cache.disk.getEntry codec io cache.heap key).heap } := by
  unfold lookupDisk hydrated
  cases hfound : (cache.disk.getEntry codec io cache.heap key).found with
  | none => simp only [hfound, Option.map_none, Option.getD_none]
  | some served =>
      obtain ⟨cached, freshness⟩ := served
      simp only [hfound]
      by_cases hrefused : freshness ≠ .fresh ∧ requireFresh = true
      · rw [if_pos hrefused, if_pos hrefused, Option.map_none, Option.getD_none]
      · rw [if_neg hrefused, if_neg hrefused, Option.map_some, Option.getD_some]

theorem hydrated_recent (hcodec : LawfulCodec codec) (h : Recent codec cache) (io : Io) {key : Key}
    (habsent : cache.memory.lookup key = none) (promote requireFresh : Bool) :
    Recent codec
        { cache with
          disk := (cache.disk.getEntry codec io cache.heap key).disk
          heap := (cache.disk.getEntry codec io cache.heap key).heap } ∧
      ∀ core, cache.hydrated codec io key promote requireFresh = some core →
        Recent codec core := by
  have hread := DiskCache.getEntry_spec hcodec h.queue io cache.heap key
  have hserves := (DiskCache.getEntry_gated hcodec io cache.heap key h.queue.gated).2
  unfold hydrated
  simp only
  generalize cache.disk.getEntry codec io cache.heap key = fetch at hread hserves ⊢
  have hother : ∀ k cached, cache.memory.lookup k = some cached → k ≠ key := by
    rintro k cached hrow rfl
    rw [habsent] at hrow
    cases hrow
  have hfetched : Recent codec { cache with disk := fetch.disk, heap := fetch.heap } := by
    refine h.narrow (fun _ _ hrow => hrow) hread.sound hread.available
      (fun k cached hrow => hread.others k (hother k cached hrow)) (fun _ hmem => hmem)
      hread.grows.next (hread.grows.bounded h.bounded) fun id hid => ?_
    simp only [hread.grows.cells id hid]
  refine ⟨hfetched, fun core hcore => ?_⟩
  split at hcore
  · cases hcore
  · rename_i cached freshness hfound
    split at hcore
    · cases hcore
    · cases hcore
      obtain ⟨_, hcell, hlt, bytes, hcopy, hcells⟩ := hread.found cached freshness hfound
      obtain ⟨hmemory, hdisk, _⟩ := markFetched_eq io key cached freshness promote
        { cache with disk := fetch.disk, heap := fetch.heap }
      obtain ⟨_, hnext, hpersisted, _⟩ := markFetched_heap
        { cache with disk := fetch.disk, heap := fetch.heap } io key cached freshness promote
      have hmarked := markFetched_recent hfetched io key cached freshness promote
      generalize ImportCache.markFetched io key cached freshness promote
        { cache with disk := fetch.disk, heap := fetch.heap } = marked
          at hmemory hdisk hnext hpersisted hmarked ⊢
      have hguard : cache.disk.clearGeneration = marked.disk.clearGeneration := by
        rw [hdisk]
        exact hread.generation.symm
      rw [hguard, insertIntoMemoryGuarded_eq]
      refine (hmarked.erase key).mirror (hserves cached freshness hfound) ?_ ?_ ?_
      · rw [hnext, hcell]
        exact hlt
      · intro k old hrow _
        rw [hmemory] at hrow
        have hold := h.cells k old hrow
        omega
      · intro _ _
        refine ⟨bytes, by rw [hdisk]; exact hcopy, ?_⟩
        rw [hpersisted, hcell, hcells]

/-- The cap pass of a read, if it has one, sheds nothing. -/
def LookupFits (codec : Codec) (io : Io) (key : Key) (promote requireFresh : Bool)
    (cache : ImportCache) : Prop :=
  cache.memory.lookup key = none →
    ∀ core, cache.hydrated codec io key promote requireFresh = some core → core.CapFits codec io

theorem lookup_recent (hcodec : LawfulCodec codec) (h : Recent codec cache) (io : Io) (key : Key)
    {promote requireFresh : Bool} (stale : StalePolicy)
    (hfits : cache.LookupFits codec io key promote requireFresh) :
    Recent codec (cache.lookup codec io key promote requireFresh stale).cache := by
  unfold lookup
  split
  · exact lookupMemory_recent h io key _ promote requireFresh stale
  · rename_i habsent
    obtain ⟨hfetched, hhydrated⟩ :=
      hydrated_recent hcodec h io habsent promote requireFresh
    rw [lookupDisk_cache]
    cases hcore : cache.hydrated codec io key promote requireFresh with
    | none => exact hfetched
    | some core =>
        exact enforceMemoryCap_recent io (hhydrated core hcore) (hfits habsent core hcore)

/-! ## Inserts -/

def inserted (codec : Codec) (io : Io) (key : Key) (result : ImportResult)
    (fingerprints : List FileFingerprint) (verifiedGeneration : Nat) (cache : ImportCache) :
    ImportCache :=
  let cleared := cache.clearUnknown key
  let entry := cleared.newEntry codec io key result fingerprints verifiedGeneration
  (entry.2.writeThrough codec io key entry.1 cleared.disk.clearGeneration).insertIntoMemoryGuarded
    key entry.1 cleared.disk.clearGeneration

theorem newEntry_spec (h : Recent codec cache) (io : Io) (key : Key) (result : ImportResult)
    (fingerprints : List FileFingerprint) (verifiedGeneration : Nat) :
    let entry := cache.newEntry codec io key result fingerprints verifiedGeneration
    Recent codec entry.2 ∧ entry.2.memory = cache.memory ∧ entry.2.disk = cache.disk ∧
      entry.2.dirty = cache.dirty ∧ entry.2.heap.next = cache.heap.next + 1 ∧
      entry.1.result = result ∧ entry.1.dependencyFingerprints = fingerprints ∧
      entry.1.cell = cache.heap.next ∧
      (entry.2.heap.cells entry.1.cell).persistedSeq =
        (entry.2.heap.cells entry.1.cell).lastSeq := by
  intro entry
  obtain ⟨hseq, hbounded⟩ := h.bounded.nextSeq
  refine ⟨?_, rfl, rfl, rfl, rfl, rfl, rfl, rfl, ?_⟩
  · refine h.ofHeap (Nat.le_succ _) ⟨hbounded.1, hbounded.update ?_ _⟩ fun id hid => ?_
    · exact hseq
    · have hold : id ≠ cache.heap.next := by omega
      have hcells : entry.2.heap.cells id = cache.heap.cells id := Function.update_of_ne hold _ _
      exact congrArg Cell.persistedSeq hcells
  · have hcells : entry.2.heap.cells entry.1.cell =
        Cell.stamp { lastSeq := cache.heap.nextSeq.1, persistedSeq := cache.heap.nextSeq.1 }
          verifiedGeneration io.sinceEpoch := Function.update_self _ _ _
    rw [hcells]
    rfl

theorem inserted_recent (h : Recent codec cache) (io : Io) {key : Key} {result : ImportResult}
    {fingerprints : List FileFingerprint} (hgated : Gated result fingerprints)
    (hroom : cache.disk.HasRoom key) (verifiedGeneration : Nat) :
    Recent codec (cache.inserted codec io key result fingerprints verifiedGeneration) := by
  have hcleared : Recent codec (cache.clearUnknown key) := h.ofUnknownRetry _
  have hborn := newEntry_spec hcleared io key result fingerprints verifiedGeneration
  unfold inserted
  simp only at hborn ⊢
  generalize (cache.clearUnknown key).newEntry codec io key result fingerprints
    verifiedGeneration = entry at hborn ⊢
  obtain ⟨cached, born⟩ := entry
  obtain ⟨hrecent, hmemory, hdisk, hdirty, hnext, rfl, rfl, hcell, hseq⟩ := hborn
  simp only at hrecent hmemory hdisk hdirty hnext hgated hcell hseq ⊢
  have hsame : (cache.clearUnknown key).disk.clearGeneration = born.disk.clearGeneration := by
    rw [hdisk]
  have hfits : born.disk.HasRoom key := by
    rw [hdisk]
    exact hroom
  have hfresh : born.memory.All fun key' cached' => key' ≠ key → cached'.cell ≠ cached.cell := by
    intro k old hrow _
    rw [hmemory] at hrow
    have hold := hcleared.cells k old hrow
    omega
  have herased := hrecent.erase key
  rw [hsame]
  unfold writeThrough
  cases hinsert : born.disk.insertAtGeneration codec io born.heap key cached
      born.disk.clearGeneration with
  | mk outcome disk =>
      have hspec := DiskCache.insertAtGeneration_spec hrecent.queue hgated hfits io born.heap
      rw [hinsert] at hspec
      cases outcome with
      | ok _ =>
          simp only
          rw [← hspec.generation, insertIntoMemoryGuarded_eq _ _ { born with disk := disk }]
          refine Recent.mirror ?_ hgated (by simp only; omega) hfresh ?_
          · refine herased.ofLayers (fun _ _ hrow => hrow) hspec.sound hspec.available
              fun k old hrow => hspec.others k ?_
            rintro rfl
            simp at hrow
          · intro hopen _
            have hwas : born.disk.isAvailable = true := hspec.available.symm.trans hopen
            exact (hspec.written rfl hwas).held hrecent.bounded hseq.le
      | error error =>
          have hkept : disk = born.disk := hspec.kept (by simp)
          subst hkept
          simp only
          rw [insertIntoMemoryGuarded_eq _ _ { born with dirty := born.dirty.insert key }]
          refine Recent.mirror ?_ hgated (by simp only; omega) hfresh ?_
          · exact herased.ofDirty fun _ hmem => List.mem_insert_of_mem hmem
          · intro _ hclean
            exact absurd List.mem_insert_self hclean

theorem insertWithFingerprintsAtGeneration_recent (h : Recent codec cache) (io : Io) {key : Key}
    {result : ImportResult} {fingerprints : List FileFingerprint} (verifiedGeneration : Nat)
    (hfits : Gated result fingerprints → cache.disk.HasRoom key ∧
      (cache.inserted codec io key result fingerprints verifiedGeneration).CapFits codec io) :
    Recent codec (cache.insertWithFingerprintsAtGeneration codec io key result fingerprints
      verifiedGeneration) := by
  unfold insertWithFingerprintsAtGeneration
  split
  · exact h
  · rename_i hgate
    have hgated : Gated result fingerprints := by simpa [Gated] using hgate
    obtain ⟨hroom, hcap⟩ := hfits hgated
    exact enforceMemoryCap_recent io (inserted_recent h io hgated hroom verifiedGeneration) hcap

/-! ## Removals -/

theorem evictKeys_recent (h : Recent codec cache) (io : Io) (keys : List Key) :
    Recent codec (cache.evictKeys io keys).2 := by
  obtain ⟨hsound, hothers, havailable⟩ := DiskCache.removeKeys_spec h.queue io keys
  have hrows : ∀ k cached, (cache.memory.eraseAll keys).lookup k = some cached →
      k ∉ keys ∧ cache.memory.lookup k = some cached := by
    intro k cached hrow
    rw [Keyed.lookup_eraseAll] at hrow
    split at hrow
    · cases hrow
    · rename_i hk
      exact ⟨hk, hrow⟩
  exact h.ofLayers (fun k cached hrow => (hrows k cached hrow).2) hsound havailable
    fun k cached hrow => hothers k (hrows k cached hrow).1

theorem invalidatePackages_recent (h : Recent codec cache) (io : Io)
    (packageNames : List String) :
    Recent codec (cache.invalidatePackages codec io packageNames) := by
  obtain ⟨hsound, hothers, havailable⟩ :=
    DiskCache.invalidatePackages_spec h.queue io packageNames
  unfold invalidatePackages
  split
  · exact h
  · have hrows : ∀ k cached, (cache.memory.retain fun key =>
        !cacheKeyMatchesAnyPackage codec.identityFromSlice packageNames key).lookup k =
          some cached →
        cacheKeyMatchesAnyPackage codec.identityFromSlice packageNames k = false ∧
          cache.memory.lookup k = some cached := by
      intro k cached hrow
      rw [Keyed.lookup_retain] at hrow
      split at hrow
      · rename_i hk
        exact ⟨by simpa using hk, hrow⟩
      · cases hrow
    exact h.ofLayers (fun k cached hrow => (hrows k cached hrow).2) hsound havailable
      fun k cached hrow => hothers k (hrows k cached hrow).1

theorem clear_recent (h : Recent codec cache) (io : Io) : Recent codec (cache.clear io) where
  gated := Keyed.all_empty _
  queue := DiskCache.clear_sound io _
  bounded := h.bounded
  cells := Keyed.all_empty _
  apart := Keyed.all_empty _
  held _ := Keyed.all_empty _

end ImportCache

/-! ## Lists of writes -/

def WritesFit (codec : Codec) (io : Io) (heap : Heap) (clearGeneration : Nat) :
    List (Key × CachedImport) → DiskCache → Prop
  | [], _ => True
  | (key, cached) :: rest, disk =>
      disk.HasRoom key ∧ WritesFit codec io heap clearGeneration rest
        (disk.insertAtGeneration codec io heap key cached clearGeneration).2

def decidableWritesFit (codec : Codec) (io : Io) (heap : Heap) (clearGeneration : Nat) :
    (entries : List (Key × CachedImport)) → (disk : DiskCache) →
      Decidable (WritesFit codec io heap clearGeneration entries disk)
  | [], _ => isTrue trivial
  | (key, cached) :: rest, disk =>
      @instDecidableAnd _ _ (inferInstanceAs (Decidable (disk.HasRoom key)))
        (decidableWritesFit codec io heap clearGeneration rest
          (disk.insertAtGeneration codec io heap key cached clearGeneration).2)

instance (codec : Codec) (io : Io) (heap : Heap) (clearGeneration : Nat)
    (entries : List (Key × CachedImport)) (disk : DiskCache) :
    Decidable (WritesFit codec io heap clearGeneration entries disk) :=
  decidableWritesFit codec io heap clearGeneration entries disk

/-- What a list of writes does to the copies. -/
structure WritesSpec (codec : Codec) (heap : Heap) (entries : List (Key × CachedImport))
    (disk : DiskCache) (written : List Key × DiskCache) : Prop where
  sound : DiskCache.QueueSound codec written.2
  generation : written.2.clearGeneration = disk.clearGeneration
  available : written.2.isAvailable = disk.isAvailable
  others : ∀ k, k ∉ entries.map Prod.fst → written.2.copyOf k = disk.copyOf k
  written : disk.isAvailable = true → ∀ row ∈ entries, row.1 ∉ written.1 →
    DiskCache.Written codec written.2 heap row.1 row.2

namespace ImportCache

variable {cache : ImportCache}

theorem writeAll_spec (io : Io) (heap : Heap) {memory : Keyed Key CachedImport}
    (hgated : memory.All fun _ cached => Gated cached.result cached.dependencyFingerprints)
    (entries : List (Key × CachedImport))
    (hrows : ∀ row ∈ entries, memory.lookup row.1 = some row.2) {disk : DiskCache}
    (h : DiskCache.QueueSound codec disk) {clearGeneration : Nat}
    (hgeneration : disk.clearGeneration = clearGeneration)
    (hfits : WritesFit codec io heap clearGeneration entries disk) :
    WritesSpec codec heap entries disk (writeAll codec io heap clearGeneration entries disk) := by
  induction entries generalizing disk with
  | nil =>
      refine ⟨h, rfl, rfl, fun _ _ => rfl, fun _ row hrow => ?_⟩
      cases hrow
  | cons row rest ih =>
      obtain ⟨key, cached⟩ := row
      have hrow : memory.lookup key = some cached := hrows _ List.mem_cons_self
      subst hgeneration
      obtain ⟨hroom, hrest⟩ := hfits
      simp only [writeAll]
      cases hinsert : disk.insertAtGeneration codec io heap key cached disk.clearGeneration with
      | mk outcome disk' =>
          have hfirst := DiskCache.insertAtGeneration_spec h (hgated key cached hrow) hroom io heap
          rw [hinsert] at hfirst hrest
          have hlater := ih (fun other hother => hrows other (List.mem_cons_of_mem _ hother))
            hfirst.sound hfirst.generation hrest
          simp only
          generalize writeAll codec io heap disk.clearGeneration rest disk' = later at hlater ⊢
          obtain ⟨failed, final⟩ := later
          have hothers : ∀ k, k ∉ ((key, cached) :: rest).map Prod.fst →
              final.copyOf k = disk.copyOf k := by
            intro k hk
            simp only [List.map_cons, List.mem_cons, not_or] at hk
            exact (hlater.others k hk.2).trans (hfirst.others k hk.1)
          -- a key that is written again is written with the same entry
          have hwritten : disk.isAvailable = true → outcome = .ok () → key ∉ failed →
              DiskCache.Written codec final heap key cached := by
            intro hopen hok hkey
            by_cases hagain : key ∈ rest.map Prod.fst
            · obtain ⟨⟨key', cached'⟩, hmem, rfl⟩ := List.mem_map.mp hagain
              have hsame := hrows _ (List.mem_cons_of_mem _ hmem)
              cases hrow.symm.trans hsame
              exact hlater.written (hfirst.available.trans hopen) _ hmem hkey
            · exact (hfirst.written hok hopen).congr (hlater.others key hagain)
          cases outcome with
          | ok _ =>
              refine ⟨hlater.sound, hlater.generation.trans hfirst.generation,
                hlater.available.trans hfirst.available, hothers, fun hopen row hmem hkey => ?_⟩
              rcases List.mem_cons.mp hmem with rfl | hmem
              · exact hwritten hopen rfl hkey
              · exact hlater.written (hfirst.available.trans hopen) row hmem hkey
          | error error =>
              refine ⟨hlater.sound, hlater.generation.trans hfirst.generation,
                hlater.available.trans hfirst.available, hothers, fun hopen row hmem hkey => ?_⟩
              simp only [List.mem_cons, not_or] at hkey
              rcases List.mem_cons.mp hmem with rfl | hmem
              · exact absurd rfl hkey.1
              · exact hlater.written (hfirst.available.trans hopen) row hmem hkey.2

/-- The replay of the dirty keys is a list of writes. -/
theorem replayDirty_eq (io : Io) (heap : Heap) (clearGeneration : Nat)
    (entries : List (Key × CachedImport)) (disk : DiskCache) :
    ((replayDirty codec io clearGeneration entries disk heap).1,
      (replayDirty codec io clearGeneration entries disk heap).2.2) =
        writeAll codec io heap clearGeneration entries disk := by
  induction entries generalizing disk with
  | nil => rfl
  | cons row rest ih =>
      obtain ⟨key, cached⟩ := row
      simp only [replayDirty, writeAll]
      rw [← ih]
      split
      · rfl
      · rfl

/-! ## Flushing -/

/-- The sweep persists promotions one after the other. -/
theorem sweepPromoted_recent (cache : ImportCache) (io : Io) {clearGeneration : Nat}
    (entries : List (Key × CachedImport))
    (hrows : ∀ row ∈ entries, cache.memory.lookup row.1 = some row.2) {disk : DiskCache}
    {heap heap₀ : Heap} (h : Recent codec { cache with disk := disk, heap := heap })
    (hgeneration : disk.clearGeneration = clearGeneration)
    (hseq : ∀ id, (heap.cells id).lastSeq = (heap₀.cells id).lastSeq)
    (hfits : WritesFit codec io heap₀ clearGeneration entries disk) :
    Recent codec
      { cache with
        disk := (sweepPromoted codec io clearGeneration entries disk heap).2.1
        heap := (sweepPromoted codec io clearGeneration entries disk heap).2.2 } := by
  induction entries generalizing disk heap with
  | nil => exact h
  | cons row rest ih =>
      obtain ⟨key, cached⟩ := row
      have hrow : cache.memory.lookup key = some cached := hrows _ List.mem_cons_self
      have hrest : ∀ row ∈ rest, cache.memory.lookup row.1 = some row.2 :=
        fun row hmem => hrows row (List.mem_cons_of_mem _ hmem)
      subst hgeneration
      obtain ⟨hroom, hfits⟩ := hfits
      rw [← DiskCache.insertAtGeneration_congr (hseq cached.cell)] at hfits
      simp only [sweepPromoted]
      cases hinsert : disk.insertAtGeneration codec io heap key cached disk.clearGeneration with
      | mk outcome disk' =>
          rw [hinsert] at hfits
          obtain ⟨hgeneration, hok, hfailed⟩ := h.write hrow hroom io hinsert
          cases outcome with
          | ok _ =>
              refine ih hrest (hok rfl) hgeneration (fun id => ?_) hfits
              exact ((heap.persistLast_seq cached.cell).2.1 id).trans (hseq id)
          | error error => exact ih hrest (hfailed (by simp)) hgeneration hseq hfits

def dirtyEntries (cache : ImportCache) : List (Key × CachedImport) :=
  cache.dirty.filterMap fun key => (cache.memory.lookup key).map fun cached => (key, cached)

def replayed (codec : Codec) (io : Io) (cache : ImportCache) : List Key × DiskCache :=
  writeAll codec io cache.heap cache.disk.clearGeneration cache.dirtyEntries cache.disk

/-- A flush sheds nothing, and replays no entry that is behind what was
persisted of it. -/
structure FlushFits (codec : Codec) (io : Io) (cache : ImportCache) : Prop where
  replay : WritesFit codec io cache.heap cache.disk.clearGeneration cache.dirtyEntries cache.disk
  sweep : WritesFit codec io cache.heap cache.disk.clearGeneration
    (cache.promotedEntries (cache.replayed codec io).1) (cache.replayed codec io).2
  ahead : cache.disk.isAvailable = true → ∀ row ∈ cache.dirtyEntries,
    (cache.heap.cells row.2.cell).persistedSeq ≤ (cache.heap.cells row.2.cell).lastSeq

theorem mem_dirtyEntries {key : Key} {cached : CachedImport} :
    (key, cached) ∈ cache.dirtyEntries ↔
      key ∈ cache.dirty ∧ cache.memory.lookup key = some cached := by
  simp only [dirtyEntries, List.mem_filterMap, Option.map_eq_some_iff]
  constructor
  · rintro ⟨key', hdirty, cached', hrow, heq⟩
    cases heq
    exact ⟨hdirty, hrow⟩
  · rintro ⟨hdirty, hrow⟩
    exact ⟨key, hdirty, cached, hrow, rfl⟩

theorem replayed_recent (h : Recent codec cache) (io : Io) (hfits : cache.FlushFits codec io) :
    Recent codec
      { cache with disk := (cache.replayed codec io).2, dirty := (cache.replayed codec io).1 } ∧
      (cache.replayed codec io).2.clearGeneration = cache.disk.clearGeneration := by
  have hspec := writeAll_spec io cache.heap h.gated cache.dirtyEntries
    (fun row hrow => (mem_dirtyEntries.mp hrow).2) h.queue rfl hfits.replay
  unfold replayed
  generalize writeAll codec io cache.heap cache.disk.clearGeneration cache.dirtyEntries
    cache.disk = written at hspec ⊢
  obtain ⟨failed, disk⟩ := written
  refine ⟨⟨⟨h.gated, h.apart, h.bounded⟩, hspec.sound, h.cells, ?_⟩, hspec.generation⟩
  intro hopen key cached hrow hclean
  have hwas : cache.disk.isAvailable = true := hspec.available.symm.trans hopen
  by_cases hdirty : key ∈ cache.dirty
  · have hmem := mem_dirtyEntries.mpr ⟨hdirty, hrow⟩
    exact (hspec.written hwas _ hmem hclean).held h.bounded (hfits.ahead hwas _ hmem)
  · refine (h.held hwas key cached hrow hdirty).congr (hspec.others key ?_) rfl
    intro hmem
    obtain ⟨⟨key', cached'⟩, hrow', rfl⟩ := List.mem_map.mp hmem
    exact hdirty (mem_dirtyEntries.mp hrow').1

theorem flushToDisk_cache (io : Io) (cache : ImportCache) :
    let replayed := cache.replayed codec io
    let swept := sweepPromoted codec io cache.disk.clearGeneration
      (cache.promotedEntries replayed.1) replayed.2 cache.heap
    (cache.flushToDisk codec io).2 =
      { cache with
        disk := swept.2.1.flushPendingInserts io, dirty := replayed.1, heap := swept.2.2 } := by
  intro replayed swept
  have hreplayed : ((replayDirty codec io cache.disk.clearGeneration cache.dirtyEntries cache.disk
      cache.heap).1, (replayDirty codec io cache.disk.clearGeneration cache.dirtyEntries cache.disk
      cache.heap).2.2) = replayed := replayDirty_eq io cache.heap _ _ cache.disk
  simp only [swept]
  rw [← hreplayed]
  rfl

theorem flushToDisk_recent (h : Recent codec cache) (io : Io)
    (hfits : cache.FlushFits codec io) : Recent codec (cache.flushToDisk codec io).2 := by
  obtain ⟨hreplayed, hgeneration⟩ := replayed_recent h io hfits
  have hrows : ∀ row ∈ cache.promotedEntries (cache.replayed codec io).1,
      cache.memory.lookup row.1 = some row.2 := by
    intro row hrow
    exact Keyed.mem_rows.mp (List.mem_filter.mp hrow).1
  have hswept := sweepPromoted_recent { cache with dirty := (cache.replayed codec io).1 } io _ hrows
    hreplayed hgeneration (fun _ => rfl) hfits.sweep
  obtain ⟨hsound, hcopy, _, havailable⟩ := DiskCache.flush_spec hswept.queue io
  rw [flushToDisk_cache]
  exact hswept.ofLayers (fun _ _ hrow => hrow) hsound havailable fun k _ _ => hcopy k

/-! ## Preloading -/

/-- Entries loaded from disk that memory can take as they are: in cells of their
own, each persisted with the sequence of its copy. -/
structure Mirrorable (cache : ImportCache) (rows : List (Key × CachedImport)) : Prop where
  gated : ∀ row ∈ rows, Gated row.2.result row.2.dependencyFingerprints
  cells : ∀ row ∈ rows, row.2.cell < cache.heap.next
  fresh : ∀ row ∈ rows, cache.memory.All fun _ cached => cached.cell ≠ row.2.cell
  apart : rows.Pairwise fun a b => a.2.cell ≠ b.2.cell
  held : ∀ row ∈ rows, Held cache.disk cache.heap row.1 row.2

theorem Mirrorable.tail {row : Key × CachedImport} {rows : List (Key × CachedImport)}
    (h : Mirrorable cache (row :: rows)) : Mirrorable cache rows where
  gated other hmem := h.gated other (List.mem_cons_of_mem _ hmem)
  cells other hmem := h.cells other (List.mem_cons_of_mem _ hmem)
  fresh other hmem := h.fresh other (List.mem_cons_of_mem _ hmem)
  apart := (List.pairwise_cons.mp h.apart).2
  held other hmem := h.held other (List.mem_cons_of_mem _ hmem)

theorem Mirrorable.insert (h : Recent codec cache) {row : Key × CachedImport}
    {rows : List (Key × CachedImport)} (hrows : Mirrorable cache (row :: rows)) :
    Recent codec { cache with memory := cache.memory.insert row.1 row.2 } ∧
      Mirrorable { cache with memory := cache.memory.insert row.1 row.2 } rows := by
  constructor
  · refine (h.erase row.1).mirror (hrows.gated row List.mem_cons_self)
      (hrows.cells row List.mem_cons_self) (fun key cached hrow _ => ?_) fun _ _ => ?_
    · exact hrows.fresh row List.mem_cons_self key cached hrow
    · exact hrows.held row List.mem_cons_self
  · refine ⟨hrows.tail.gated, hrows.tail.cells, fun other hmem => ?_, hrows.tail.apart,
      hrows.tail.held⟩
    exact Keyed.All.insert (hrows.tail.fresh other hmem)
      ((List.pairwise_cons.mp hrows.apart).1 other hmem)

/-- What `load_recent` hands out can be mirrored into a memory whose cells are
older. -/
theorem mirrorable_of_load {io : Io} {keys : List Key} {disk : DiskCache} {heap : Heap}
    {loaded : List (Key × CachedImport) × DiskCache × Heap}
    (hload : DiskCache.LoadSpec codec io keys disk heap loaded)
    (hgated : ∀ row ∈ loaded.1, Gated row.2.result row.2.dependencyFingerprints)
    (hdisk : cache.disk = loaded.2.1) (hheap : cache.heap = loaded.2.2)
    (hcells : cache.memory.All fun _ cached => cached.cell < heap.next) :
    Mirrorable cache loaded.1 where
  gated := hgated
  cells row hrow := by
    obtain ⟨_, _, hlt, _⟩ := hload.entries row hrow
    rw [hheap]
    exact hlt
  fresh row hrow key cached hmem := by
    obtain ⟨_, hle, _⟩ := hload.entries row hrow
    have hold := hcells key cached hmem
    omega
  apart := hload.apart
  held row hrow := by
    obtain ⟨_, _, _, bytes, hcopy, hcell⟩ := hload.entries row hrow
    rw [hdisk, hheap]
    exact ⟨bytes, hcopy, by rw [hcell]⟩

theorem mirrorMissing_recent {clearGeneration : Nat} (rows : List (Key × CachedImport))
    {cache : ImportCache} (h : Recent codec cache)
    (hgeneration : cache.disk.clearGeneration = clearGeneration)
    (hrows : Mirrorable cache rows) : Recent codec (cache.mirrorMissing clearGeneration rows) := by
  induction rows generalizing cache with
  | nil => exact h
  | cons row rest ih =>
      obtain ⟨key, cached⟩ := row
      subst hgeneration
      simp only [mirrorMissing]
      split
      · exact ih h rfl hrows.tail
      · obtain ⟨hinserted, hrest⟩ := hrows.insert h
        rw [insertIntoMemoryGuarded_eq]
        exact ih hinserted rfl hrest

theorem insertAll_recent (rows : List (Key × CachedImport)) {cache : ImportCache}
    (h : Recent codec cache) (hrows : Mirrorable cache rows) :
    Recent codec { cache with memory := cache.memory.insertAll rows } := by
  induction rows generalizing cache with
  | nil => exact h
  | cons row rest ih =>
      obtain ⟨hinserted, hrest⟩ := hrows.insert h
      exact ih hinserted hrest

theorem withDisk_recent (hcodec : LawfulCodec codec) (io : Io) {heap : Heap}
    (hbounded : heap.Bounded) (enabled : Bool) (limit : Nat) :
    Recent codec (withDisk codec io heap (DiskCache.new io enabled) limit) := by
  have hnew : DiskCache.QueueSound codec (DiskCache.new io enabled) :=
    DiskCache.new_sound io enabled
  have hload := DiskCache.loadRecent_spec hcodec io limit hnew heap
  have hgated := (DiskCache.loadRecent_gated hcodec io heap limit hnew.gated).2
  unfold withDisk
  generalize (DiskCache.new io enabled).loadRecent codec io heap limit = loaded at hload hgated ⊢
  have hempty : Recent codec
      { memory := ∅, disk := loaded.2.1, dirty := [], unknownRetry := ∅, heap := loaded.2.2 } :=
    ⟨⟨Keyed.all_empty _, Keyed.all_empty _, hload.grows.bounded hbounded⟩, hload.sound,
      Keyed.all_empty _, fun _ => Keyed.all_empty _⟩
  exact insertAll_recent loaded.1 hempty
    (mirrorable_of_load hload hgated rfl rfl (Keyed.all_empty _))

/-! ## Reopening -/

/-- Every memory entry written to a database that has just been attached, with
the keys that failed. -/
def rewritten (codec : Codec) (io : Io) (reopened : DiskCache) (cache : ImportCache) :
    List Key × DiskCache :=
  writeAll codec io cache.heap reopened.clearGeneration cache.memory.rows reopened

def reattached (codec : Codec) (io : Io) (reopened : DiskCache) (cache : ImportCache) :
    ImportCache :=
  let loaded := (cache.rewritten codec io reopened).2.loadRecent codec io cache.heap
    recentPreloadLimit
  mirrorMissing reopened.clearGeneration loaded.1
    { cache with
      disk := loaded.2.1
      dirty := (cache.rewritten codec io reopened).1.foldl (fun dirty key => dirty.insert key)
        cache.dirty
      heap := loaded.2.2 }

/-- A reopen sheds nothing, writes no entry that is behind what was persisted of
it, and reads no entry of memory whose files have changed. -/
structure ReopenFits (codec : Codec) (io : Io) (reopened : DiskCache) (cache : ImportCache) :
    Prop where
  writes : WritesFit codec io cache.heap reopened.clearGeneration cache.memory.rows reopened
  ahead : cache.memory.All fun key cached => key ∉ cache.dirty →
    (cache.heap.cells cached.cell).persistedSeq ≤ (cache.heap.cells cached.cell).lastSeq
  unchanged : cache.memory.All fun key cached => key ∉ cache.dirty →
    key ∈ ((cache.rewritten codec io reopened).2.recentKeys io recentPreloadLimit).1 →
      verdictOf codec io cached = .fresh ∨ verdictOf codec io cached = .unknown
  cap : (cache.reattached codec io reopened).CapFits codec io

theorem mem_foldl_insert (keys : List Key) (dirty : List Key) (key : Key) :
    key ∈ keys.foldl (fun dirty key => dirty.insert key) dirty ↔ key ∈ keys ∨ key ∈ dirty := by
  induction keys generalizing dirty with
  | nil => simp
  | cons head rest ih =>
      rw [List.foldl_cons, ih, List.mem_insert_iff, List.mem_cons]
      tauto

theorem reattached_recent (hcodec : LawfulCodec codec) (h : Recent codec cache) (io : Io)
    {reopened : DiskCache} (hreopened : cache.disk.reopenIfUnavailable io = (true, reopened))
    (hfits : cache.ReopenFits codec io reopened) :
    Recent codec (cache.reattached codec io reopened) := by
  obtain ⟨hsound, hopen⟩ := DiskCache.reopenIfUnavailable_spec h.queue io hreopened
  have hrows : ∀ row ∈ cache.memory.rows, cache.memory.lookup row.1 = some row.2 :=
    fun row hrow => Keyed.mem_rows.mp hrow
  have hwrites :=
    writeAll_spec io cache.heap h.gated cache.memory.rows hrows hsound rfl hfits.writes
  have hunchanged := hfits.unchanged
  unfold reattached
  unfold rewritten at hunchanged ⊢
  generalize writeAll codec io cache.heap reopened.clearGeneration cache.memory.rows reopened =
    written at hwrites hunchanged ⊢
  obtain ⟨failed, disk⟩ := written
  have hload := DiskCache.loadRecent_spec hcodec io recentPreloadLimit hwrites.sound cache.heap
  have hgated := (DiskCache.loadRecent_gated hcodec io cache.heap recentPreloadLimit
    hwrites.sound.gated).2
  simp only at hload hgated hunchanged ⊢
  generalize disk.loadRecent codec io cache.heap recentPreloadLimit = loaded at hload hgated ⊢
  -- every entry that is not dirty was written, and the preload has left its copy alone
  have hheld : ∀ key cached, cache.memory.lookup key = some cached →
      key ∉ failed.foldl (fun dirty key => dirty.insert key) cache.dirty →
        Held loaded.2.1 loaded.2.2 key cached := by
    intro key cached hrow hclean
    rw [mem_foldl_insert, not_or] at hclean
    have hwritten := hwrites.written hopen _ (Keyed.mem_rows.mpr hrow) hclean.1
    have hheld := hwritten.held h.bounded (hfits.ahead key cached hrow hclean.2)
    refine hheld.congr (hload.copies key fun hrecent => ?_) ?_
    · exact hwritten.steady hcodec (h.gated key cached hrow)
        (hunchanged key cached hrow hclean.2 hrecent)
    · rw [hload.grows.cells _ (h.cells key cached hrow)]
  refine mirrorMissing_recent loaded.1 ?_ (hload.generation.trans hwrites.generation)
    (mirrorable_of_load hload hgated rfl rfl h.cells)
  exact ⟨⟨h.gated, h.apart, hload.grows.bounded h.bounded⟩, hload.sound,
    fun key cached hrow => (h.cells key cached hrow).trans_le hload.grows.next, fun _ => hheld⟩

theorem reopenDisk_recent (hcodec : LawfulCodec codec) (h : Recent codec cache) (io : Io)
    (hfits : cache.disk.isAvailable = false → ∀ reopened,
      cache.disk.reopenIfUnavailable io = (true, reopened) →
        cache.ReopenFits codec io reopened) :
    Recent codec (cache.reopenDisk codec io).2 := by
  unfold reopenDisk
  split
  · exact h
  · rename_i hclosed
    split
    · exact h
    · rename_i reopened hreopened
      have hreopen := hfits (eq_false_of_ne_true hclosed) reopened hreopened
      have hreattached := reattached_recent hcodec h io hreopened hreopen
      exact enforceMemoryCap_recent io hreattached hreopen.cap

end ImportCache

end ImportLens.Cache
