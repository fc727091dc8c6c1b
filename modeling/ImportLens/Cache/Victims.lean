import ImportLens.Cache.Budget.Coordinator
import ImportLens.Cache.Disk.Operations
import ImportLens.Cache.Memory
import ImportLens.Support.SortedDedup

/-!
# Eviction victims and recent keys

Both ends of the `(last_seq, key)` index of a shard are read under a limit.
The evictor asks for the coldest keys outside the floor of the newest rows,
and the memory layer takes out those that were used since they were persisted,
reading a wider window when too few are left.  The preload asks for the most
recent keys; a reverse walk meets ties in the other order of their keys, so it
goes on through a tie and sorts.
-/

namespace ImportLens.Cache

open ImportLens.Support

def maxEvictionScan : Nat := 8 * Budget.evictionBatch

namespace DiskCache

/-- The loop of `lowest_seq_keys` over the ascending index. -/
def takeLowest (faults : Faults) (take : Nat) : List (Nat × Key) → List (Key × Nat) →
    List (Key × Nat)
  | [], lowest => lowest
  | (seq, key) :: rest, lowest =>
      if fails faults (.readRow .scan key) then takeLowest faults take rest lowest
      else
        let lowest := lowest ++ [(key, seq)]
        if take ≤ lowest.length then lowest else takeLowest faults take rest lowest

def lowestSeqKeys (io : Io) (n floor : Nat) (disk : DiskCache) : List (Key × Nat) × DiskCache :=
  if n = 0 then ([], disk)
  else
    let flushed := disk.flushPendingInserts io
    match flushed.db with
    | none => ([], flushed)
    | some shard =>
        if fails io.faults .beginRead || fails io.faults (.openTable .scan .summary) then
          ([], flushed)
        else
          let entryCount := readSummaryField io.faults shard.summary .entryCount
          let take := min n (entryCount - floor)
          if take = 0 then ([], flushed)
          else if fails io.faults (.openTable .scan .seqIndex) || fails io.faults (.iter .scan) then
            ([], flushed)
          else (takeLowest io.faults take (sortedIndex shard.seqIndex) [], flushed)

end DiskCache

namespace ImportCache

def memoryHot (cache : ImportCache) (key : Key) (persistedSeq : Nat) : Bool :=
  (cache.memory.lookup key).any fun cached =>
    decide (persistedSeq < (cache.heap.cells cached.cell).lastSeq)

/-- The loop of `ImportCache::filter_evictable`. -/
def filterEvictable (cache : ImportCache) (n : Nat) : List (Key × Nat) → List Key → List Key
  | [], cold => cold
  | (key, persistedSeq) :: rest, cold =>
      if cache.memoryHot key persistedSeq then filterEvictable cache n rest cold
      else
        let cold := cold ++ [key]
        if n ≤ cold.length then cold else filterEvictable cache n rest cold

def lowestSeqDiskKeys (io : Io) (n floor : Nat) (cache : ImportCache) : List Key × ImportCache :=
  if n = 0 then ([], cache)
  else
    let (first, disk) := cache.disk.lowestSeqKeys io n floor
    let regionExhausted := decide (first.length < n)
    let cold := cache.filterEvictable n first []
    if cold.length = n ∨ regionExhausted then (cold, { cache with disk := disk })
    else
      let (wide, disk') := disk.lowestSeqKeys io maxEvictionScan floor
      (cache.filterEvictable n wide [], { cache with disk := disk' })

end ImportCache

/-! ## The index in order -/

namespace DiskCache

section

variable {seqIndex : Finset (Nat × Key)}

theorem mem_sortedIndex {row : Nat × Key} : row ∈ sortedIndex seqIndex ↔ row ∈ seqIndex := by
  unfold sortedIndex
  rw [List.mem_map]
  constructor
  · intro hmem
    obtain ⟨lex, hlex, rfl⟩ := hmem
    rw [Finset.mem_sort, Finset.mem_map] at hlex
    obtain ⟨pair, hpair, rfl⟩ := hlex
    exact hpair
  · intro hmem
    refine ⟨toLex row, ?_, rfl⟩
    rw [Finset.mem_sort, Finset.mem_map]
    exact ⟨row, hmem, rfl⟩

theorem sortedIndex_pairwise (seqIndex : Finset (Nat × Key)) :
    (sortedIndex seqIndex).Pairwise fun a b => toLex a < toLex b := by
  unfold sortedIndex
  rw [List.pairwise_map]
  exact (Finset.sortedLT_sort _).pairwise

theorem nodup_sortedIndex (seqIndex : Finset (Nat × Key)) : (sortedIndex seqIndex).Nodup :=
  (sortedIndex_pairwise seqIndex).imp fun hlt heq => absurd (congrArg toLex heq) (ne_of_lt hlt)

end

section

variable {shard : Shard}

theorem sortedIndex_perm (h : Consistent shard) :
    (sortedIndex shard.seqIndex).Perm
      (shard.cache.rows.map fun row => (decodeLastSeq row.2, row.1)) := by
  have hnodup : (shard.cache.rows.map fun row => (decodeLastSeq row.2, row.1)).Nodup := by
    apply List.Nodup.of_map Prod.snd
    rw [List.map_map]
    exact shard.cache.nodup_rows_keys
  rw [List.perm_ext_iff_of_nodup (nodup_sortedIndex _) hnodup]
  intro row
  obtain ⟨seq, key⟩ := row
  rw [mem_sortedIndex, h.index, List.mem_map]
  constructor
  · intro hrow
    obtain ⟨bytes, hlookup, hseq⟩ := hrow
    exact ⟨(key, bytes), Keyed.mem_rows.mpr hlookup, by rw [hseq]⟩
  · intro hrow
    obtain ⟨⟨key', bytes⟩, hmem, heq⟩ := hrow
    obtain ⟨hseq, hkey⟩ := Prod.mk.inj heq
    subst hkey
    exact ⟨bytes, Keyed.mem_rows.mp hmem, hseq⟩

theorem length_sortedIndex (h : Consistent shard) :
    (sortedIndex shard.seqIndex).length = shard.summary.entryCount := by
  rw [(sortedIndex_perm h).length_eq, List.length_map, h.count]

theorem nodup_sortedIndex_keys (h : Consistent shard) :
    ((sortedIndex shard.seqIndex).map Prod.snd).Nodup := by
  rw [((sortedIndex_perm h).map Prod.snd).nodup_iff, List.map_map]
  exact shard.cache.nodup_rows_keys

end

/-! ## The walks -/

/-- The reads of the index succeed. -/
structure ReadsSucceed (faults : Faults) : Prop where
  beginRead : fails faults .beginRead = false
  openTable : ∀ table, fails faults (.openTable .scan table) = false
  iter : fails faults (.iter .scan) = false
  readRow : ∀ key, fails faults (.readRow .scan key) = false
  summary : SummaryReadable faults

section

variable {faults : Faults}

theorem takeLowest_eq (hreads : ReadsSucceed faults) {take : Nat} (rows : List (Nat × Key))
    {lowest : List (Key × Nat)} (h : lowest.length < take) :
    takeLowest faults take rows lowest =
      lowest ++ (rows.take (take - lowest.length)).map Prod.swap := by
  induction rows generalizing lowest with
  | nil => simp [takeLowest]
  | cons row rest ih =>
      obtain ⟨seq, key⟩ := row
      have hsucc : take - lowest.length = (take - (lowest.length + 1)) + 1 := by omega
      have hlength : (lowest ++ [(key, seq)]).length = lowest.length + 1 := by simp
      simp only [takeLowest, hreads.readRow key, Bool.false_eq_true, if_false]
      rw [hsucc, List.take_succ_cons, List.map_cons, Prod.swap_prod_mk]
      by_cases hfull : take ≤ (lowest ++ [(key, seq)]).length
      · rw [if_pos hfull, show take - (lowest.length + 1) = 0 by omega, List.take_zero,
          List.map_nil]
      · rw [if_neg hfull, ih (by omega), hlength, List.append_assoc, List.singleton_append]

/-- The reverse walk takes a first part of the rows; if it leaves any, it has
taken enough, and the next one does not tie with the last one taken. -/
theorem takeRecent_eq (hreads : ReadsSucceed faults) (limit : Nat) (rows : List (Nat × Key))
    (taken : List (Key × Nat)) :
    ∃ walked rest, rows = walked ++ rest ∧
      takeRecent faults limit rows taken = taken ++ walked.map Prod.swap ∧
      ∀ row ∈ rest.head?, limit ≤ taken.length + walked.length ∧
        ∃ last ∈ (taken ++ walked.map Prod.swap).getLast?, last.2 ≠ row.1 := by
  induction rows generalizing taken with
  | nil => exact ⟨[], [], rfl, by simp [takeRecent], by simp⟩
  | cons row rest ih =>
      obtain ⟨seq, key⟩ := row
      simp only [takeRecent, hreads.readRow key, Bool.false_eq_true, if_false]
      by_cases hstop : limit ≤ taken.length ∧ (taken.getLast?.any fun last => last.2 ≠ seq) = true
      · rw [if_pos hstop]
        refine ⟨[], (seq, key) :: rest, rfl, by simp, ?_⟩
        intro next hnext
        rw [List.head?_cons, Option.mem_some_iff] at hnext
        subst hnext
        obtain ⟨last, hlast, hne⟩ := (Option.any_eq_true _ _).mp hstop.2
        exact ⟨hstop.1, last, by simpa using hlast, of_decide_eq_true hne⟩
      · rw [if_neg hstop]
        obtain ⟨walked, left, hrows, htaken, hnext⟩ := ih (taken ++ [(key, seq)])
        refine ⟨(seq, key) :: walked, left, ?_, ?_, ?_⟩
        · rw [hrows, List.cons_append]
        · rw [htaken, List.append_assoc, List.map_cons, List.singleton_append, Prod.swap_prod_mk]
        · intro next hmem
          obtain ⟨hlimit, last, hlast, hne⟩ := hnext next hmem
          refine ⟨?_, last, ?_, hne⟩
          · rw [List.length_append, List.length_singleton] at hlimit
            rw [List.length_cons]
            omega
          · rwa [List.append_assoc, List.singleton_append] at hlast

end

/-! ## The flush before a read -/

/-- A flush whose reads of the summary succeed leaves a consistent shard
consistent, whether its write commits or not. -/
theorem flushPendingInserts_consistent {io : Io} (hread : SummaryReadable io.faults)
    {disk : DiskCache} {shard : Shard} (hdb : disk.db = some shard) (h : Consistent shard) :
    ∃ flushed, (disk.flushPendingInserts io).db = some flushed ∧ Consistent flushed ∧
      (disk.pendingInserts.rows.isEmpty = true → flushed = shard) := by
  unfold flushPendingInserts
  rw [hdb]
  simp only
  split
  · exact ⟨shard, hdb, h, fun _ => rfl⟩
  · rename_i hqueued
    split
    · exact ⟨shard, rfl, h, fun _ => rfl⟩
    · split
      · rename_i written hwritten
        exact ⟨written, rfl, insertTxn_consistent hread h (writePendingInserts_eq_ok hwritten),
          fun hempty => absurd hempty hqueued⟩
      · exact ⟨shard, rfl, h, fun _ => rfl⟩

theorem flushPendingInserts_of_empty (io : Io) {disk : DiskCache}
    (h : disk.pendingInserts.rows.isEmpty = true) : disk.flushPendingInserts io = disk := by
  unfold flushPendingInserts
  split
  · rfl
  · rw [if_pos h]

end DiskCache

/-! ## The evictable region -/

def Shard.evictable (shard : Shard) (floor : Nat) : List (Nat × Key) :=
  (DiskCache.sortedIndex shard.seqIndex).take (shard.cache.rows.length - floor)

def Shard.newest (shard : Shard) (floor : Nat) : List (Nat × Key) :=
  (DiskCache.sortedIndex shard.seqIndex).reverse.take floor

theorem Shard.evictable_notMem_newest {shard : Shard} (h : Consistent shard) {floor : Nat}
    {row : Nat × Key} (hrow : row ∈ shard.evictable floor) : row ∉ shard.newest floor := by
  intro hnewest
  unfold evictable at hrow
  unfold newest at hnewest
  rw [List.take_reverse, List.mem_reverse, DiskCache.length_sortedIndex h, h.count] at hnewest
  have hnodup := DiskCache.nodup_sortedIndex shard.seqIndex
  rw [← List.take_append_drop (shard.cache.rows.length - floor)
    (DiskCache.sortedIndex shard.seqIndex), List.nodup_append] at hnodup
  exact hnodup.2.2 row hrow row hnewest rfl

/-- A read of the coldest rows, as pairs of key and sequence, from the shard
its flush left. -/
theorem DiskCache.lowestSeqKeys_eq {io : Io} (hreads : ReadsSucceed io.faults) {n floor : Nat}
    (hn : n ≠ 0) {disk : DiskCache} {shard : Shard}
    (hdb : (disk.flushPendingInserts io).db = some shard) (h : Consistent shard) :
    disk.lowestSeqKeys io n floor =
      (((shard.evictable floor).take n).map Prod.swap, disk.flushPendingInserts io) := by
  have hcount : readSummaryField io.faults shard.summary .entryCount = shard.cache.rows.length := by
    have hreadable := hreads.summary .entryCount
    unfold fails at hreadable
    unfold readSummaryField
    split
    · rename_i error herror
      rw [herror] at hreadable
      cases hreadable
    · exact h.count
  unfold lowestSeqKeys
  rw [if_neg hn]
  simp only [hdb, hreads.beginRead, hreads.openTable, hreads.iter, Bool.or_self,
    Bool.false_eq_true, if_false, hcount]
  rw [Shard.evictable, List.take_take]
  by_cases htake : min n (shard.cache.rows.length - floor) = 0
  · rw [if_pos htake, htake, List.take_zero, List.map_nil]
  · rw [if_neg htake, takeLowest_eq hreads _ (by rw [List.length_nil]; omega), List.nil_append,
      List.length_nil, Nat.sub_zero]

namespace ImportCache

theorem filterEvictable_eq (cache : ImportCache) {n : Nat} (rows : List (Nat × Key))
    {cold : List Key} (h : cold.length < n) :
    cache.filterEvictable n (rows.map Prod.swap) cold =
      cold ++ ((rows.filter fun row => !cache.memoryHot row.2 row.1).take
        (n - cold.length)).map Prod.snd := by
  induction rows generalizing cold with
  | nil => simp [filterEvictable]
  | cons row rest ih =>
      obtain ⟨seq, key⟩ := row
      simp only [List.map_cons, Prod.swap_prod_mk, filterEvictable, List.filter_cons]
      by_cases hhot : cache.memoryHot key seq = true
      · simp only [hhot, if_true, Bool.not_true, Bool.false_eq_true, if_false]
        exact ih h
      · have hsucc : n - cold.length = (n - (cold.length + 1)) + 1 := by omega
        have hlength : (cold ++ [key]).length = cold.length + 1 := by simp
        simp only [hhot, if_false, Bool.not_false, if_true, Bool.false_eq_true]
        rw [hsucc, List.take_succ_cons, List.map_cons]
        by_cases hfull : n ≤ (cold ++ [key]).length
        · rw [if_pos hfull, show n - (cold.length + 1) = 0 by omega, List.take_zero,
            List.map_nil]
        · rw [if_neg hfull, ih (by omega), hlength, List.append_assoc, List.singleton_append]

/-- The cold rows of the first `maxEvictionScan` evictable ones. -/
def coldRows (cache : ImportCache) (shard : Shard) (floor : Nat) : List (Nat × Key) :=
  ((shard.evictable floor).take maxEvictionScan).filter fun row => !cache.memoryHot row.2 row.1

/-- What the evictor is given: the first cold rows. -/
structure SelectsCold (cache : ImportCache) (shard : Shard) (n floor : Nat) (keys : List Key) :
    Prop where
  exact : keys = ((cache.coldRows shard floor).take
    (min n (cache.coldRows shard floor).length)).map Prod.snd
  increasing : ((cache.coldRows shard floor).take n).Pairwise fun a b => toLex a < toLex b
  nodup : keys.Nodup
  bound : keys.length ≤ n
  stored : ∀ key ∈ keys, (shard.cache.lookup key).isSome
  spared : ∀ key ∈ keys, key ∉ (shard.newest floor).map Prod.snd
  cold : ∀ key ∈ keys, ∀ seq cached, (seq, key) ∈ shard.seqIndex →
    cache.memory.lookup key = some cached → (cache.heap.cells cached.cell).lastSeq ≤ seq

section

variable {cache : ImportCache} {shard : Shard}

theorem coldRows_sublist (cache : ImportCache) (shard : Shard) (floor : Nat) :
    (cache.coldRows shard floor).Sublist (DiskCache.sortedIndex shard.seqIndex) :=
  List.filter_sublist.trans ((List.take_sublist _ _).trans (List.take_sublist _ _))

theorem mem_coldRows {floor : Nat} {row : Nat × Key} (h : row ∈ cache.coldRows shard floor) :
    row ∈ shard.evictable floor ∧ cache.memoryHot row.2 row.1 = false := by
  unfold coldRows at h
  rw [List.mem_filter] at h
  exact ⟨List.mem_of_mem_take h.1, by simpa using h.2⟩

theorem selectsCold_take (h : Consistent shard) (n floor : Nat) :
    cache.SelectsCold shard n floor (((cache.coldRows shard floor).take n).map Prod.snd) := by
  have hsublist : ((cache.coldRows shard floor).take n).Sublist
      (DiskCache.sortedIndex shard.seqIndex) :=
    (List.take_sublist _ _).trans (cache.coldRows_sublist shard floor)
  have hrows : ∀ key ∈ ((cache.coldRows shard floor).take n).map Prod.snd,
      ∃ seq, (seq, key) ∈ shard.evictable floor ∧ cache.memoryHot key seq = false ∧
        (seq, key) ∈ shard.seqIndex := by
    intro key hkey
    obtain ⟨⟨seq, key'⟩, hmem, rfl⟩ := List.mem_map.mp hkey
    obtain ⟨hevictable, hcold⟩ := mem_coldRows (List.mem_of_mem_take hmem)
    exact ⟨seq, hevictable, hcold, DiskCache.mem_sortedIndex.mp (hsublist.subset hmem)⟩
  constructor
  · rw [← List.take_take, List.take_length]
  · exact (DiskCache.sortedIndex_pairwise _).sublist hsublist
  · exact (DiskCache.nodup_sortedIndex_keys h).sublist (hsublist.map Prod.snd)
  · rw [List.length_map, List.length_take]
    exact min_le_left _ _
  · intro key hkey
    obtain ⟨seq, -, -, hindex⟩ := hrows key hkey
    obtain ⟨bytes, hlookup, -⟩ := (h.index seq key).mp hindex
    rw [hlookup]
    rfl
  · intro key hkey hnewest
    obtain ⟨seq, hevictable, -, hindex⟩ := hrows key hkey
    obtain ⟨⟨seq', key'⟩, hmem, rfl⟩ := List.mem_map.mp hnewest
    -- the index has one row for a key
    have hindex' : (seq', key') ∈ shard.seqIndex := by
      apply DiskCache.mem_sortedIndex.mp
      rw [← List.mem_reverse]
      exact List.mem_of_mem_take hmem
    obtain ⟨bytes, hlookup, hseq⟩ := (h.index seq key').mp hindex
    obtain ⟨bytes', hlookup', hseq'⟩ := (h.index seq' key').mp hindex'
    rw [hlookup] at hlookup'
    obtain rfl := Option.some.inj hlookup'
    rw [← hseq', hseq] at hmem
    exact Shard.evictable_notMem_newest h hevictable hmem
  · intro key hkey seq cached hrow hcached
    obtain ⟨seq', -, hcold, hindex⟩ := hrows key hkey
    obtain ⟨bytes, hlookup, hseq⟩ := (h.index seq key).mp hrow
    obtain ⟨bytes', hlookup', hseq'⟩ := (h.index seq' key).mp hindex
    rw [hlookup] at hlookup'
    obtain rfl := Option.some.inj hlookup'
    rw [memoryHot, hcached, Option.any_some, ← hseq', hseq, decide_eq_false_iff_not, not_lt]
      at hcold
    exact hcold

/-- A batch that is filled by the first window, or a region that the first
window exhausts, has the first cold rows already. -/
theorem take_coldRows_of_first {n floor : Nat} (hn : n ≤ maxEvictionScan)
    (hdone : (((shard.evictable floor).take n).filter
        fun row => !cache.memoryHot row.2 row.1).length = n ∨
      ((shard.evictable floor).take n).length < n) :
    (cache.coldRows shard floor).take n =
      ((shard.evictable floor).take n).filter fun row => !cache.memoryHot row.2 row.1 := by
  unfold coldRows
  rcases hdone with hfilled | hexhausted
  · have hwindow : (shard.evictable floor).take maxEvictionScan =
        (shard.evictable floor).take n ++
          ((shard.evictable floor).take maxEvictionScan).drop n := by
      conv_lhs => rw [← List.take_append_drop n ((shard.evictable floor).take maxEvictionScan)]
      rw [List.take_take, min_eq_left hn]
    rw [hwindow, List.filter_append]
    exact List.take_left' hfilled
  · rw [List.length_take] at hexhausted
    have hshort : (shard.evictable floor).length ≤ n := by omega
    have hcold : ((shard.evictable floor).filter
        fun row => !cache.memoryHot row.2 row.1).length ≤ n :=
      (List.length_filter_le _ _).trans hshort
    rw [List.take_of_length_le (hshort.trans hn), List.take_of_length_le hshort,
      List.take_of_length_le hcold]

theorem filterEvictable_nil {n : Nat} (hn : 0 < n) (rows : List (Nat × Key)) :
    cache.filterEvictable n (rows.map Prod.swap) [] =
      ((rows.filter fun row => !cache.memoryHot row.2 row.1).take n).map Prod.snd := by
  rw [cache.filterEvictable_eq rows hn, List.nil_append, List.length_nil, Nat.sub_zero]

/-- The victims are the first cold rows of the shard the last read saw. -/
theorem lowestSeqDiskKeys_selects {io : Io} (hreads : DiskCache.ReadsSucceed io.faults)
    {n floor : Nat} (hn : n ≤ maxEvictionScan) (hdb : cache.disk.db = some shard)
    (h : Consistent shard) :
    ∃ left, (cache.lowestSeqDiskKeys io n floor).2.disk.db = some left ∧ Consistent left ∧
      (cache.disk.pendingInserts.rows.isEmpty = true → left = shard) ∧
      cache.SelectsCold left n floor (cache.lowestSeqDiskKeys io n floor).1 := by
  unfold lowestSeqDiskKeys
  by_cases hzero : n = 0
  · rw [if_pos hzero]
    subst hzero
    exact ⟨shard, hdb, h, fun _ => rfl, selectsCold_take h 0 floor⟩
  · obtain ⟨first, hfirst, hconsistent, hsame⟩ :=
      DiskCache.flushPendingInserts_consistent hreads.summary hdb h
    rw [if_neg hzero]
    simp only [DiskCache.lowestSeqKeys_eq hreads hzero hfirst hconsistent,
      filterEvictable_nil (Nat.pos_of_ne_zero hzero), List.length_map, decide_eq_true_eq]
    split
    · rename_i hdone
      refine ⟨first, hfirst, hconsistent, hsame, ?_⟩
      have hfits : (((first.evictable floor).take n).filter
          fun row => !cache.memoryHot row.2 row.1).length ≤ n := by
        apply (List.length_filter_le _ _).trans
        rw [List.length_take]
        exact min_le_left _ _
      rw [List.take_of_length_le hfits] at hdone ⊢
      rw [← take_coldRows_of_first hn hdone]
      exact selectsCold_take hconsistent n floor
    · obtain ⟨second, hsecond, hconsistent', hsame'⟩ :=
        DiskCache.flushPendingInserts_consistent hreads.summary hfirst hconsistent
      rw [DiskCache.lowestSeqKeys_eq hreads (by decide) hsecond hconsistent']
      refine ⟨second, hsecond, hconsistent', ?_, ?_⟩
      · intro hempty
        rw [DiskCache.flushPendingInserts_of_empty io hempty] at hsame'
        exact (hsame' hempty).trans (hsame hempty)
      · rw [filterEvictable_nil (Nat.pos_of_ne_zero hzero)]
        exact selectsCold_take hconsistent' n floor

end

end ImportCache

/-! ## Recent keys -/

namespace DiskCache

def recency (row : Key × Nat) : Lex (Natᵒᵈ × Key) := toLex (OrderDual.toDual row.2, row.1)

theorem recency_injective {a b : Key × Nat} (h : recency a = recency b) : a = b := by
  obtain ⟨hseq, hkey⟩ := Prod.mk.inj (toLex.injective h)
  exact Prod.ext hkey (OrderDual.toDual.injective hseq)

theorem compareRecentKeys_eq (a b : Key × Nat) :
    compareRecentKeys a b = decide (recency a ≤ recency b) := by
  rw [Bool.eq_iff_iff, decide_eq_true_eq, recency, recency, Prod.Lex.toLex_le_toLex]
  simp only [compareRecentKeys, Bool.or_eq_true, Bool.and_eq_true, decide_eq_true_eq,
    OrderDual.toDual_lt_toDual, OrderDual.toDual_inj]
  rw [@eq_comm _ b.2]

theorem mergeSort_compareRecentKeys (rows : List (Key × Nat)) :
    rows.mergeSort compareRecentKeys = sortByKey recency rows := by
  have heq : compareRecentKeys = fun a b => decide (recency a ≤ recency b) := by
    funext a b
    exact compareRecentKeys_eq a b
  rw [heq, sortByKey]

def sortedByRecency (shard : Shard) : List (Key × Nat) :=
  (shard.cache.rows.map fun row => (row.1, decodeLastSeq row.2)).mergeSort compareRecentKeys

theorem sortedByRecency_eq {shard : Shard} (h : Consistent shard) :
    sortedByRecency shard =
      sortByKey recency ((sortedIndex shard.seqIndex).reverse.map Prod.swap) := by
  rw [sortedByRecency, mergeSort_compareRecentKeys]
  have hperm := (((List.reverse_perm _).trans (sortedIndex_perm h)).map Prod.swap).symm
  rw [List.map_map] at hperm
  exact sortByKey_eq_of_perm hperm fun a _ b _ => recency_injective

/-- In the descending index, what follows a change of the sequence is less
recent than everything in front of it. -/
theorem lt_of_change {walked rest : List (Nat × Key)} {last next : Nat × Key}
    (hsorted : (walked ++ rest).Pairwise fun a b => toLex b < toLex a)
    (hlast : walked.getLast? = some last) (hnext : rest.head? = some next)
    (hne : last.1 ≠ next.1) {a b : Nat × Key} (ha : a ∈ walked) (hb : b ∈ rest) : b.1 < a.1 := by
  have hle : ∀ x y : Nat × Key, toLex x < toLex y → x.1 ≤ y.1 := by
    intro x y hlt
    rw [Prod.Lex.toLex_lt_toLex] at hlt
    omega
  rw [List.pairwise_append] at hsorted
  obtain ⟨hwalked, hrest, hbetween⟩ := hsorted
  obtain ⟨earlier, rfl⟩ := List.getLast?_eq_some_iff.mp hlast
  obtain ⟨later, rfl⟩ := List.head?_eq_some_iff.mp hnext
  have hfront : last.1 ≤ a.1 := by
    rw [List.pairwise_append] at hwalked
    rcases List.mem_append.mp ha with hearlier | hlastRow
    · exact hle _ _ (hwalked.2.2 a hearlier last List.mem_cons_self)
    · rw [List.mem_singleton.mp hlastRow]
  have hback : b.1 ≤ next.1 := by
    rw [List.pairwise_cons] at hrest
    rcases List.mem_cons.mp hb with rfl | hlater
    · exact le_refl _
    · exact hle _ _ (hrest.1 b hlater)
  have hcross := hle _ _ (hbetween last (by simp) next List.mem_cons_self)
  omega

/-- Sorting what the reverse walk took and cutting it gives the first keys of
the full sort. -/
theorem take_sort_takeRecent {faults : Faults} (hreads : ReadsSucceed faults) {shard : Shard}
    (h : Consistent shard) (limit : Nat) :
    ((takeRecent faults limit (sortedIndex shard.seqIndex).reverse []).mergeSort
      compareRecentKeys).take limit = (sortedByRecency shard).take limit := by
  obtain ⟨walked, rest, hrows, htaken, hnext⟩ :=
    takeRecent_eq hreads limit (sortedIndex shard.seqIndex).reverse []
  rw [htaken, List.nil_append, mergeSort_compareRecentKeys, sortedByRecency_eq h, hrows,
    List.map_append]
  cases hrest : rest with
  | nil => rw [List.map_nil, List.append_nil]
  | cons next later =>
      obtain ⟨hlimit, last, hlast, hne⟩ := hnext next (by rw [hrest]; rfl)
      rw [List.nil_append, List.getLast?_map, Option.mem_def, Option.map_eq_some_iff] at hlast
      obtain ⟨lastRow, hlastRow, rfl⟩ := hlast
      have hsorted : (walked ++ rest).Pairwise fun a b => toLex b < toLex a := by
        rw [← hrows, List.pairwise_reverse]
        exact sortedIndex_pairwise _
      have hsplit : sortByKey recency (walked.map Prod.swap ++ rest.map Prod.swap) =
          sortByKey recency (walked.map Prod.swap) ++ sortByKey recency (rest.map Prod.swap) := by
        have hperm : (sortByKey recency (walked.map Prod.swap ++ rest.map Prod.swap)).Perm
            (sortByKey recency (walked.map Prod.swap) ++
              sortByKey recency (rest.map Prod.swap)) :=
          sortByKey_perm.trans (sortByKey_perm.append sortByKey_perm).symm
        apply hperm.eq_of_pairwise (fun a b _ _ hab hba => recency_injective (le_antisymm hab hba))
          sortByKey_pairwise
        rw [List.pairwise_append]
        refine ⟨sortByKey_pairwise, sortByKey_pairwise, ?_⟩
        intro a ha b hb
        obtain ⟨rowA, hrowA, rfl⟩ := List.mem_map.mp (mem_sortByKey.mp ha)
        obtain ⟨rowB, hrowB, rfl⟩ := List.mem_map.mp (mem_sortByKey.mp hb)
        have hlt := lt_of_change hsorted hlastRow (by rw [hrest]; rfl) hne hrowA hrowB
        rw [recency, recency, Prod.Lex.toLex_le_toLex]
        exact Or.inl hlt
      rw [← hrest, hsplit]
      symm
      apply List.take_append_of_le_length
      rw [sortByKey_perm.length_eq, List.length_map]
      simpa using hlimit

theorem recentKeys_eq {io : Io} (hreads : ReadsSucceed io.faults) {disk : DiskCache}
    {shard : Shard} (hdb : disk.db = some shard) (h : Consistent shard) (limit : Nat) :
    ∃ left, (disk.recentKeys io limit).2.db = some left ∧ Consistent left ∧
      (disk.pendingInserts.rows.isEmpty = true → left = shard) ∧
      (disk.recentKeys io limit).1 = ((sortedByRecency left).take limit).map Prod.fst := by
  unfold recentKeys
  by_cases hzero : limit = 0
  · rw [if_pos hzero]
    subst hzero
    exact ⟨shard, hdb, h, fun _ => rfl, rfl⟩
  · obtain ⟨left, hleft, hconsistent, hsame⟩ :=
      flushPendingInserts_consistent hreads.summary hdb h
    rw [if_neg hzero]
    simp only [hleft, hreads.beginRead, hreads.openTable, hreads.iter, Bool.or_self,
      Bool.false_eq_true, if_false]
    refine ⟨left, rfl, hconsistent, hsame, ?_⟩
    rw [take_sort_takeRecent hreads hconsistent]

end DiskCache

/-- Victims and recent keys of a consistent shard, once the queue has been
flushed into it: the evictor gets the first cold rows outside the floor, the
preload the first keys of the full sort. -/
theorem victims_and_recent_keys {io : Io} (hreads : DiskCache.ReadsSucceed io.faults)
    {shard : Shard} (h : Consistent shard) :
    (∀ (cache : ImportCache) (n floor : Nat), cache.disk.db = some shard → n ≤ maxEvictionScan →
      ∃ left, (cache.lowestSeqDiskKeys io n floor).2.disk.db = some left ∧ Consistent left ∧
        (cache.disk.pendingInserts.rows.isEmpty = true → left = shard) ∧
        cache.SelectsCold left n floor (cache.lowestSeqDiskKeys io n floor).1) ∧
    (∀ (disk : DiskCache) (limit : Nat), disk.db = some shard →
      ∃ left, (disk.recentKeys io limit).2.db = some left ∧ Consistent left ∧
        (disk.pendingInserts.rows.isEmpty = true → left = shard) ∧
        (disk.recentKeys io limit).1 =
          ((DiskCache.sortedByRecency left).take limit).map Prod.fst) := by
  constructor
  · intro cache n floor hdb hn
    exact cache.lowestSeqDiskKeys_selects hreads hn hdb h
  · intro disk limit hdb
    exact DiskCache.recentKeys_eq hreads hdb h limit

theorem readsSucceed_noFaults : DiskCache.ReadsSucceed noFaults where
  beginRead := rfl
  openTable _ := rfl
  iter := rfl
  readRow _ := rfl
  summary := summaryReadable_noFaults

def tiedShard : Shard :=
  recounted (AList.insert "a" (leBytes 8 5) (AList.insert "b" (leBytes 8 5)
    (AList.insert "c" (leBytes 8 7) ∅)))

theorem tied_rows_selected :
    Consistent tiedShard ∧ ∃ left, ((DiskCache.new (Io.quiet tiedShard) true).recentKeys
      (Io.quiet tiedShard) 2).2.db = some left ∧ Consistent left ∧
      ((DiskCache.new (Io.quiet tiedShard) true).pendingInserts.rows.isEmpty = true →
        left = tiedShard) ∧
      ((DiskCache.new (Io.quiet tiedShard) true).recentKeys (Io.quiet tiedShard) 2).1 =
        ((DiskCache.sortedByRecency left).take 2).map Prod.fst := by
  have hconsistent : Consistent tiedShard := consistent_recounted _
  refine ⟨hconsistent, ?_⟩
  exact (@victims_and_recent_keys (Io.quiet tiedShard) readsSucceed_noFaults _ hconsistent).2 _ 2
    rfl

end ImportLens.Cache
