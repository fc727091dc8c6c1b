import ImportLens.Cache.Recency.Invariant
import ImportLens.Support.SortedDedup

/-!
# The cap on the memory map

Past either cap, `enforce_memory_cap` evicts the least recently used entries
down to nine tenths of both.  It sums the weights once, saturating, and keeps a
running count and a running weight while it walks the sorted candidates; dirty
entries count toward the caps and are no candidates.  The running weight is the
weight of the entries that are left as long as the sum of all weights does not
saturate.
-/

namespace ImportLens.Cache

open ImportLens.Support

/-! ## Weights -/

theorem foldl_saturate (weights : List Nat) (start : Nat) :
    weights.foldl (fun a b => saturate (a + b)) (saturate start) =
      saturate (start + weights.sum) := by
  induction weights generalizing start with
  | nil => rfl
  | cons weight rest ih =>
      have hstep : saturate (saturate start + weight) = saturate (start + weight) := by
        simp only [saturate]
        omega
      rw [List.foldl_cons, hstep, ih, List.sum_cons]
      congr 1
      omega

namespace ImportCache

variable {cache : ImportCache}

theorem memoryTotalWeight_eq (cache : ImportCache) :
    cache.memoryTotalWeight = saturate (cache.memory.total memoryWeight) := by
  have hsum : (cache.memory.rows.map fun row => memoryWeight row.2).sum =
      cache.memory.total memoryWeight := by
    unfold Keyed.rows Keyed.total
    rw [List.map_map]
    rfl
  have hfold := foldl_saturate (cache.memory.rows.map fun row => memoryWeight row.2) 0
  rw [hsum, Nat.zero_add] at hfold
  exact hfold

theorem withinCaps_iff (cache : ImportCache) :
    cache.withinCaps = true ↔ cache.memory.rows.length ≤ maxMemoryEntries ∧
      cache.memory.total memoryWeight ≤ maxMemoryWeightBytes := by
  have hcap : maxMemoryWeightBytes < u64Max := by decide
  rw [withinCaps, Bool.and_eq_true, decide_eq_true_eq, decide_eq_true_eq, memoryTotalWeight_eq,
    saturate]
  omega

/-! ## The candidates -/

theorem capCandidates_perm (cache : ImportCache) :
    cache.capCandidates.Perm ((cache.memory.rows.filter fun row => !cache.dirty.contains row.1).map
      fun row => ((cache.heap.cells row.2.cell).lastSeq, row.1, memoryWeight row.2)) :=
  List.mergeSort_perm _ _

theorem mem_capCandidates {seq weight : Nat} {key : Key} :
    (seq, key, weight) ∈ cache.capCandidates ↔ key ∉ cache.dirty ∧
      ∃ cached, cache.memory.lookup key = some cached ∧
        seq = (cache.heap.cells cached.cell).lastSeq ∧ weight = memoryWeight cached := by
  rw [cache.capCandidates_perm.mem_iff, List.mem_map]
  constructor
  · intro hmem
    obtain ⟨row, hrow, heq⟩ := hmem
    rw [List.mem_filter] at hrow
    obtain ⟨hseq, hkey, hweight⟩ : _ ∧ _ ∧ _ := by simpa only [Prod.mk.injEq] using heq
    subst hkey
    exact ⟨by simpa using hrow.2, row.2, Keyed.mem_rows.mp hrow.1, hseq.symm, hweight.symm⟩
  · intro hentry
    obtain ⟨hclean, cached, hlookup, hseq, hweight⟩ := hentry
    refine ⟨(key, cached), ?_, ?_⟩
    · rw [List.mem_filter]
      exact ⟨Keyed.mem_rows.mpr hlookup, by simpa using hclean⟩
    · rw [hseq, hweight]

theorem nodup_capCandidates_keys (cache : ImportCache) :
    (cache.capCandidates.map fun candidate => candidate.2.1).Nodup := by
  rw [(cache.capCandidates_perm.map _).nodup_iff, List.map_map]
  exact (List.filter_sublist.map Prod.fst).nodup cache.memory.nodup_rows_keys

theorem capCandidates_pairwise (cache : ImportCache) :
    cache.capCandidates.Pairwise fun a b => toLex (a.1, a.2.1) < toLex (b.1, b.2.1) := by
  have hsorted : cache.capCandidates.Pairwise fun a b =>
      toLex (a.1, toLex a.2) ≤ toLex (b.1, toLex b.2) :=
    @sortByKey_pairwise (Nat × Key × Nat) (Lex (Nat × Lex (Key × Nat))) _
      (fun candidate => toLex (candidate.1, toLex candidate.2)) _
  have hkeys := List.pairwise_map.mp cache.nodup_capCandidates_keys
  refine (hsorted.and hkeys).imp ?_
  intro a b h
  have hle := h.1
  rw [Prod.Lex.toLex_le_toLex] at hle
  rw [Prod.Lex.toLex_lt_toLex]
  rcases hle with hseq | ⟨hseq, hrest⟩
  · exact Or.inl hseq
  · refine Or.inr ⟨hseq, ?_⟩
    rw [Prod.Lex.toLex_le_toLex] at hrest
    rcases hrest with hkey | ⟨hkey, -⟩
    · exact hkey
    · exact absurd hkey h.2

/-! ## What is evicted -/

def victims (cache : ImportCache) (k : Nat) : List Key :=
  (cache.capCandidates.take k).map fun candidate => candidate.2.1

def left (cache : ImportCache) (k : Nat) : Keyed Key CachedImport :=
  cache.memory.eraseAll (cache.victims k)

def runningWeight (cache : ImportCache) (k : Nat) : Nat :=
  cache.memoryTotalWeight - ((cache.capCandidates.take k).map fun candidate => candidate.2.2).sum

def WithinTarget (count weight : Nat) : Prop :=
  count ≤ maxMemoryEntries * 9 / 10 ∧ weight ≤ maxMemoryWeightBytes * 9 / 10

instance (count weight : Nat) : Decidable (WithinTarget count weight) :=
  inferInstanceAs (Decidable (_ ∧ _))

theorem nodup_victims (cache : ImportCache) (k : Nat) : (cache.victims k).Nodup := by
  unfold victims
  rw [List.map_take]
  exact (List.take_sublist _ _).nodup cache.nodup_capCandidates_keys

theorem mem_victims {k : Nat} {key : Key} (h : key ∈ cache.victims k) :
    key ∉ cache.dirty ∧ (cache.memory.lookup key).isSome := by
  obtain ⟨⟨seq, key', weight⟩, hmem, rfl⟩ := List.mem_map.mp h
  obtain ⟨hclean, cached, hlookup, -, -⟩ := mem_capCandidates.mp (List.mem_of_mem_take hmem)
  exact ⟨hclean, by rw [hlookup]; rfl⟩

theorem length_left {k : Nat} (h : k ≤ cache.capCandidates.length) :
    (cache.left k).rows.length + k = cache.memory.rows.length := by
  have hlength := Keyed.length_eraseAll (cache.nodup_victims k) cache.memory
    fun key hkey => (mem_victims hkey).2
  have hcount : (cache.victims k).length = k := by
    rw [victims, List.length_map, List.length_take, min_eq_left h]
  rw [hcount] at hlength
  exact hlength

theorem total_left (cache : ImportCache) (k : Nat) :
    (cache.left k).total memoryWeight +
        ((cache.capCandidates.take k).map fun candidate => candidate.2.2).sum =
      cache.memory.total memoryWeight := by
  have hweights : (cache.capCandidates.take k).map (fun candidate => candidate.2.2) =
      (cache.victims k).map fun key => ((cache.memory.lookup key).map memoryWeight).getD 0 := by
    rw [victims, List.map_map]
    apply List.map_congr_left
    intro candidate hcandidate
    obtain ⟨-, cached, hlookup, -, hweight⟩ :=
      mem_capCandidates.mp (List.mem_of_mem_take hcandidate)
    rw [hweight, Function.comp_apply, hlookup, Option.map_some, Option.getD_some]
  rw [hweights]
  exact Keyed.total_eraseAll memoryWeight (cache.nodup_victims k) cache.memory

theorem runningWeight_eq (h : cache.memory.total memoryWeight ≤ u64Max) (k : Nat) :
    cache.runningWeight k = (cache.left k).total memoryWeight := by
  have htotal := cache.total_left k
  rw [runningWeight, memoryTotalWeight_eq, saturate]
  omega

/-! ## The loop -/

section

variable (codec : Codec)

/-- What the loop does to one candidate: the promotion is persisted before the
mirror goes. -/
def evictMirror (io : Io) (clearGeneration : Nat) (cache : ImportCache) (key : Key) :
    ImportCache :=
  let persisted := cache.persistPromotion codec io key clearGeneration
  { persisted with memory := persisted.memory.erase key }

end

def evictionCount : List (Nat × Key × Nat) → Nat → Nat → Nat
  | [], _, _ => 0
  | (_, _, entryWeight) :: rest, count, weight =>
      if WithinTarget count weight then 0
      else evictionCount rest (count - 1) (weight - entryWeight) + 1

variable {codec : Codec}

theorem evictOldest_eq (io : Io) (clearGeneration : Nat) (candidates : List (Nat × Key × Nat))
    (count weight : Nat) (cache : ImportCache) :
    cache.evictOldest codec io clearGeneration candidates count weight =
      ((candidates.take (evictionCount candidates count weight)).map
        fun candidate => candidate.2.1).foldl (evictMirror codec io clearGeneration) cache := by
  induction candidates generalizing count weight cache with
  | nil => rfl
  | cons candidate rest ih =>
      obtain ⟨seq, key, entryWeight⟩ := candidate
      simp only [evictOldest, evictionCount]
      by_cases htarget : WithinTarget count weight
      · rw [if_pos htarget]
        exact if_pos htarget
      · rw [if_neg htarget, List.take_succ_cons, List.map_cons, List.foldl_cons]
        refine (if_neg htarget).trans ?_
        exact ih (count - 1) (weight - entryWeight) (evictMirror codec io clearGeneration cache key)

/-- The loop stops at the first prefix that reaches the target, or after the
last candidate. -/
theorem evictionCount_least (candidates : List (Nat × Key × Nat)) (count weight : Nat) :
    evictionCount candidates count weight ≤ candidates.length ∧
    (∀ j < evictionCount candidates count weight, ¬WithinTarget (count - j)
      (weight - ((candidates.take j).map fun candidate => candidate.2.2).sum)) ∧
    (evictionCount candidates count weight < candidates.length →
      WithinTarget (count - evictionCount candidates count weight)
        (weight - ((candidates.take (evictionCount candidates count weight)).map
          fun candidate => candidate.2.2).sum)) := by
  induction candidates generalizing count weight with
  | nil => simp [evictionCount]
  | cons candidate rest ih =>
      obtain ⟨seq, key, entryWeight⟩ := candidate
      simp only [evictionCount]
      by_cases htarget : WithinTarget count weight
      · simp only [if_pos htarget]
        exact ⟨Nat.zero_le _, fun j hj => absurd hj (Nat.not_lt_zero j), fun _ => htarget⟩
      · simp only [if_neg htarget]
        obtain ⟨hle, hover, hreached⟩ := ih (count - 1) (weight - entryWeight)
        have hstep : ∀ j, (weight - entryWeight) -
            ((rest.take j).map fun candidate => candidate.2.2).sum =
            weight - (((seq, key, entryWeight) :: rest).take (j + 1) |>.map
              fun candidate => candidate.2.2).sum := by
          intro j
          rw [List.take_succ_cons, List.map_cons, List.sum_cons]
          exact Nat.sub_sub _ _ _
        refine ⟨Nat.succ_le_succ hle, ?_, ?_⟩
        · intro j hj
          cases j with
          | zero => exact htarget
          | succ j =>
              have hrest := hover j (Nat.lt_of_succ_lt_succ hj)
              rw [hstep, show count - 1 - j = count - (j + 1) by omega] at hrest
              exact hrest
        · intro hlt
          have hrest := hreached (Nat.lt_of_succ_lt_succ hlt)
          rw [hstep, Nat.sub_sub, Nat.add_comm 1] at hrest
          exact hrest

/-! ## One eviction -/

section

variable (io : Io) (clearGeneration : Nat)

/-- Persisting a promotion touches the disk and the `persisted_seq` of the
entry. -/
theorem persistPromotion_frame (cache : ImportCache) (key : Key) :
    (cache.persistPromotion codec io key clearGeneration).memory = cache.memory ∧
    (∀ cell, (∀ cached, cache.memory.lookup key = some cached → cached.cell ≠ cell) →
      (cache.persistPromotion codec io key clearGeneration).heap.cells cell =
        cache.heap.cells cell) := by
  unfold persistPromotion
  split
  · exact ⟨rfl, fun _ _ => rfl⟩
  · rename_i cached hlookup
    simp only
    split
    · split
      · refine ⟨rfl, ?_⟩
        intro cell hapart
        exact Function.update_of_ne (Ne.symm (hapart cached hlookup)) _ _
      · exact ⟨rfl, fun _ _ => rfl⟩
    · exact ⟨rfl, fun _ _ => rfl⟩

theorem lookup_evictMirror (cache : ImportCache) (key other : Key) :
    (evictMirror codec io clearGeneration cache key).memory.lookup other =
      if other = key then none else cache.memory.lookup other := by
  simp only [evictMirror]
  rw [(persistPromotion_frame io clearGeneration cache key).1, Keyed.lookup_erase_eq]

/-- A promoted entry is offered to the disk layer. -/
theorem evictMirror_offers {key : Key} {cached : CachedImport} (cache : ImportCache)
    (hlookup : cache.memory.lookup key = some cached)
    (hpromoted : (cache.heap.cells cached.cell).persistedSeq <
      (cache.heap.cells cached.cell).lastSeq) :
    (evictMirror codec io clearGeneration cache key).disk =
      (cache.disk.insertAtGeneration codec io cache.heap key cached clearGeneration).2 := by
  simp only [evictMirror, persistPromotion, hlookup, if_pos hpromoted]
  split
  · rename_i disk hinsert
    rw [hinsert]
  · rename_i error disk hinsert
    rw [hinsert]

/-- A run of evictions removes its keys, and leaves the entries of other keys
with their recency. -/
theorem foldl_evictMirror (keys : List Key) (cache : ImportCache) :
    (∀ key, (keys.foldl (evictMirror codec io clearGeneration) cache).memory.lookup key =
      if key ∈ keys then none else cache.memory.lookup key) ∧
    (∀ cell, (∀ key ∈ keys, ∀ cached, cache.memory.lookup key = some cached →
        cached.cell ≠ cell) →
      (keys.foldl (evictMirror codec io clearGeneration) cache).heap.cells cell =
        cache.heap.cells cell) := by
  induction keys generalizing cache with
  | nil => simp
  | cons head rest ih =>
      obtain ⟨hmemory, hcells⟩ := ih (evictMirror codec io clearGeneration cache head)
      constructor
      · intro key
        rw [List.foldl_cons, hmemory, lookup_evictMirror]
        by_cases hrest : key ∈ rest
        · rw [if_pos hrest, if_pos (List.mem_cons_of_mem _ hrest)]
        · by_cases hhead : key = head
          · rw [if_neg hrest, if_pos hhead, if_pos (by simp [hhead])]
          · rw [if_neg hrest, if_neg hhead, if_neg (by simp [hrest, hhead])]
      · intro cell hapart
        rw [List.foldl_cons, hcells cell]
        · exact (persistPromotion_frame io clearGeneration cache head).2 cell
            (hapart head List.mem_cons_self)
        · intro key hkey cached hlookup
          rw [lookup_evictMirror] at hlookup
          split at hlookup
          · cases hlookup
          · exact hapart key (List.mem_cons_of_mem _ hkey) cached hlookup

end

/-! ## The pass -/

/-- What a cap pass that evicts `k` candidates does. -/
structure CapPass (codec : Codec) (io : Io) (cache : ImportCache) (k : Nat) : Prop where
  bound : k ≤ cache.capCandidates.length
  /-- The running count is exact at every candidate, so it never underflows. -/
  counted : ∀ j ≤ cache.capCandidates.length,
    (cache.left j).rows.length + j = cache.memory.rows.length
  above : ∀ j < k, ¬WithinTarget (cache.left j).rows.length (cache.runningWeight j)
  reached : k < cache.capCandidates.length →
    WithinTarget (cache.left k).rows.length (cache.runningWeight k)
  removed : ∀ key, (cache.enforceMemoryCap codec io).memory.lookup key =
    if key ∈ cache.victims k then none else cache.memory.lookup key
  clean : ∀ key ∈ cache.victims k, key ∉ cache.dirty
  run : cache.enforceMemoryCap codec io =
    (cache.victims k).foldl (evictMirror codec io cache.disk.clearGeneration) cache
  /-- A promoted entry, whose recency cell is its own, is offered to the disk
  layer as it was when the pass began, and then removed. -/
  offered : ∀ before key after cached, cache.victims k = before ++ key :: after →
    cache.memory.lookup key = some cached →
    (cache.heap.cells cached.cell).persistedSeq < (cache.heap.cells cached.cell).lastSeq →
    (∀ other held, other ≠ key → cache.memory.lookup other = some held →
      held.cell ≠ cached.cell) →
    let reached := before.foldl (evictMirror codec io cache.disk.clearGeneration) cache
    reached.memory.lookup key = some cached ∧
      reached.heap.cells cached.cell = cache.heap.cells cached.cell ∧
      (evictMirror codec io cache.disk.clearGeneration reached key).disk =
        (reached.disk.insertAtGeneration codec io reached.heap key cached
          cache.disk.clearGeneration).2 ∧
      (evictMirror codec io cache.disk.clearGeneration reached key).memory.lookup key = none

theorem exists_capPass (codec : Codec) (io : Io) (h : cache.withinCaps = false) :
    ∃ k, CapPass codec io cache k := by
  obtain ⟨hbound, hover, hreached⟩ := evictionCount_least cache.capCandidates
    cache.memory.rows.length cache.memoryTotalWeight
  generalize hk : evictionCount cache.capCandidates cache.memory.rows.length
    cache.memoryTotalWeight = k at hbound hover hreached
  have hleft : ∀ j ≤ cache.capCandidates.length,
      cache.memory.rows.length - j = (cache.left j).rows.length := by
    intro j hj
    have hlength := length_left hj
    omega
  have hrun : cache.enforceMemoryCap codec io =
      (cache.victims k).foldl (evictMirror codec io cache.disk.clearGeneration) cache := by
    rw [enforceMemoryCap_eq, if_neg (by simp [h]), evictOldest_eq, hk]
    rfl
  refine ⟨k, hbound, fun j hj => length_left hj, ?_, ?_, ?_, ?_, hrun, ?_⟩
  · intro j hj
    rw [← hleft j (by omega)]
    exact hover j hj
  · intro hlt
    rw [← hleft k hbound]
    exact hreached hlt
  · intro key
    rw [hrun]
    exact (foldl_evictMirror io cache.disk.clearGeneration (cache.victims k) cache).1 key
  · intro key hkey
    exact (mem_victims hkey).1
  · intro before key after cached hsplit hlookup hpromoted hapart
    obtain ⟨hmemory, hcells⟩ :=
      @foldl_evictMirror codec io cache.disk.clearGeneration before cache
    have hnodup := cache.nodup_victims k
    rw [hsplit, List.nodup_append] at hnodup
    have hnotBefore : key ∉ before := by
      intro hmem
      exact hnodup.2.2 key hmem key List.mem_cons_self rfl
    have hheld : (before.foldl (evictMirror codec io cache.disk.clearGeneration)
        cache).memory.lookup key = some cached := by
      rw [hmemory, if_neg hnotBefore, hlookup]
    have hcell : (before.foldl (evictMirror codec io cache.disk.clearGeneration)
        cache).heap.cells cached.cell = cache.heap.cells cached.cell := by
      apply hcells
      intro other hother held hlookupOther
      apply hapart other held _ hlookupOther
      intro heq
      exact hnotBefore (heq ▸ hother)
    refine ⟨hheld, hcell, ?_, ?_⟩
    · apply evictMirror_offers io _ _ hheld
      rw [hcell]
      exact hpromoted
    · rw [lookup_evictMirror, if_pos rfl]

end ImportCache

open ImportCache

/-- Within both caps a pass changes nothing.  Past one it evicts a prefix of
the clean entries in the order of their recency, the shortest that brings the
count and the running weight to nine tenths of the caps, or all of them. -/
theorem memory_cap_enforced (codec : Codec) (io : Io) (cache : ImportCache) :
    (cache.memory.rows.length ≤ maxMemoryEntries ∧
        cache.memory.total memoryWeight ≤ maxMemoryWeightBytes →
      cache.enforceMemoryCap codec io = cache) ∧
    (¬(cache.memory.rows.length ≤ maxMemoryEntries ∧
        cache.memory.total memoryWeight ≤ maxMemoryWeightBytes) →
      ∃ k, CapPass codec io cache k) ∧
    (cache.capCandidates.Pairwise fun a b => toLex (a.1, a.2.1) < toLex (b.1, b.2.1)) ∧
    (∀ seq key weight, (seq, key, weight) ∈ cache.capCandidates ↔ key ∉ cache.dirty ∧
      ∃ cached, cache.memory.lookup key = some cached ∧
        seq = (cache.heap.cells cached.cell).lastSeq ∧ weight = memoryWeight cached) ∧
    (cache.memory.total memoryWeight ≤ u64Max →
      ∀ k, cache.runningWeight k = (cache.left k).total memoryWeight) := by
  refine ⟨?_, ?_, cache.capCandidates_pairwise, fun _ _ _ => mem_capCandidates, runningWeight_eq⟩
  · intro hwithin
    rw [enforceMemoryCap_eq, if_pos ((withinCaps_iff cache).mpr hwithin)]
  · intro hover
    apply exists_capPass
    rw [← withinCaps_iff] at hover
    exact eq_false_of_ne_true hover

/-! ## Saturated weights -/

def heavyEntry (cell : Nat) : CachedImport where
  result := smallResult 0
  dependencyFingerprints := List.replicate 72057594037927936 smallFile
  cell := cell
  firstParty := false

theorem memoryWeight_heavyEntry (cell : Nat) : memoryWeight (heavyEntry cell) = u64Max := by
  simp only [memoryWeight, heavyEntry, List.length_replicate]
  decide

/-- One entry above the target is enough to miss it. -/
theorem not_withinTarget_of_held {memory : Keyed Key CachedImport} {key : Key}
    {cached : CachedImport} (hlookup : memory.lookup key = some cached)
    (hheavy : maxMemoryWeightBytes * 9 / 10 < memoryWeight cached) {count : Nat} :
    ¬WithinTarget count (memory.total memoryWeight) := by
  intro htarget
  have hweight := htarget.2
  have hrow := memory.total_erase memoryWeight key
  rw [hlookup, Option.map_some, Option.getD_some] at hrow
  omega

def heavyCache : ImportCache where
  memory := AList.insert "a" (heavyEntry 0) (AList.insert "b" (heavyEntry 1) ∅)
  disk := DiskCache.new (Io.quiet Shard.empty) false
  dirty := []
  unknownRetry := ∅
  heap := ⟨fun cell => { lastSeq := cell, persistedSeq := cell }, 2, 2⟩

theorem heavyCache_rows :
    heavyCache.memory.rows = [("a", heavyEntry 0), ("b", heavyEntry 1)] := rfl

theorem heavyCache_capCandidates :
    heavyCache.capCandidates = [(0, "a", u64Max), (1, "b", u64Max)] := by
  rw [capCandidates, heavyCache_rows]
  simp only [List.filter_cons, List.filter_nil, heavyCache, List.contains_nil, Bool.not_false,
    if_true, List.map_cons, List.map_nil, memoryWeight_heavyEntry]
  apply List.mergeSort_of_pairwise
  rw [List.pairwise_pair, decide_eq_true_eq, Prod.Lex.toLex_le_toLex]
  exact Or.inl Nat.zero_lt_one

/-- Two entries whose weights saturate: the first eviction takes the running
weight to zero, and the pass leaves the other one, far above the cap. -/
theorem saturated_pass_stops_early :
    ¬∀ (codec : Codec) (io : Io) (cache : ImportCache), cache.withinCaps = false →
      WithinTarget (cache.enforceMemoryCap codec io).memory.rows.length
        ((cache.enforceMemoryCap codec io).memory.total memoryWeight) ∨
      ∀ key, ((cache.enforceMemoryCap codec io).memory.lookup key).isSome →
        key ∈ cache.dirty := by
  intro hcapped
  have hheavy : maxMemoryWeightBytes * 9 / 10 < u64Max := by decide
  have htotal : heavyCache.memoryTotalWeight = u64Max := by
    rw [memoryTotalWeight, heavyCache_rows]
    simp only [List.map_cons, List.map_nil, memoryWeight_heavyEntry]
    decide
  have hover : heavyCache.withinCaps = false := by
    rw [withinCaps, htotal]
    decide
  -- one eviction takes the running weight to zero
  have hrun : heavyCache.enforceMemoryCap smallCodec (Io.quiet Shard.empty) =
      evictMirror smallCodec (Io.quiet Shard.empty) heavyCache.disk.clearGeneration heavyCache
        "a" := by
    rw [enforceMemoryCap_eq, if_neg (by simp [hover]), evictOldest_eq, heavyCache_capCandidates,
      htotal, heavyCache_rows]
    rfl
  have hkept : (heavyCache.enforceMemoryCap smallCodec (Io.quiet Shard.empty)).memory.lookup "b" =
      some (heavyEntry 1) := by
    rw [hrun, lookup_evictMirror, if_neg (by decide)]
    rfl
  rcases hcapped smallCodec (Io.quiet Shard.empty) heavyCache hover with htarget | hdirty
  · apply not_withinTarget_of_held hkept _ htarget
    rw [memoryWeight_heavyEntry]
    exact hheavy
  · have hmem := hdirty "b" (by rw [hkept]; rfl)
    exact List.not_mem_nil hmem

end ImportLens.Cache
