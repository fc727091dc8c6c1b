import ImportLens.Cache.Disk.Operations

/-!
# All or nothing under failures

A transaction that is dropped commits nothing, so an operation that propagates
every error of its table operations is all or nothing.  Three places discard an
error and go on to the commit: a summary field that cannot be read counts as 0,
a scan for keys skips the rows it cannot read, and `clear` ignores the failure
of each table on its own.  A rebuild that one of these leads to, or a count the
heal misreads, also sets the high-water mark back to the largest sequence of the
rows.  `AtomicWhen` says, from the shard and the failures alone, when none of
these changes what is committed, the summary row included, and an operation is
all or nothing in exactly those cases.
-/

namespace ImportLens.Cache

open ImportLens.Support

/-! ## The sites a transaction passes -/

def AllSucceed (faults : Faults) (sites : List Site) : Prop :=
  ∀ site ∈ sites, fails faults site = false

instance (faults : Faults) (sites : List Site) : Decidable (AllSucceed faults sites) :=
  inferInstanceAs (Decidable (∀ site ∈ sites, fails faults site = false))

@[simp] theorem allSucceed_nil (faults : Faults) : AllSucceed faults [] := by
  simp [AllSucceed]

@[simp] theorem allSucceed_cons (faults : Faults) (site : Site) (sites : List Site) :
    AllSucceed faults (site :: sites) ↔ fails faults site = false ∧ AllSucceed faults sites := by
  simp [AllSucceed]

@[simp] theorem allSucceed_append (faults : Faults) (sites more : List Site) :
    AllSucceed faults (sites ++ more) ↔ AllSucceed faults sites ∧ AllSucceed faults more := by
  simp [AllSucceed, or_imp, forall_and]

def openSites (phase : Phase) : List Site :=
  [.openTable phase .cache, .openTable phase .summary, .openTable phase .seqIndex]

/-- The sites of the loop of `write_pending_inserts`: a replace has one more. -/
def insertSites : Nat → List (Key × Bytes) → Keyed Key Bytes → List Site
  | _, [], _ => []
  | round, (key, bytes) :: rest, cache =>
      .insertRow round :: (if (cache.lookup key).isSome then [.removeIndex round] else []) ++
        .insertIndex round :: insertSites (round + 1) rest (cache.insert key bytes)

/-- The sites of the loop of `maintain_removals`: an absent key has one less. -/
def removeSites : Nat → List Key → Keyed Key Bytes → List Site
  | _, [], _ => []
  | round, key :: rest, cache =>
      .removeRow round :: (if (cache.lookup key).isSome then [.removeIndex round] else []) ++
        removeSites (round + 1) rest (cache.erase key)

/-- The sites of `write_summary`; only an insert and a rebuild write `max_seq`. -/
def summarySites (phase : Phase) (maxSeq : Bool) : List Site :=
  .putField phase .totalBytes :: .putField phase .entryCount ::
    (if maxSeq then [.putField phase .maxSeq] else [])

/-- The sites of `rebuild_summary_in_txn` over a table with these keys. -/
def rebuildSites (keys : List Key) : List Site :=
  openSites .rebuild ++ [.retain .seqIndex, .iter .rebuild] ++
    (keys.flatMap fun key => [.readRow .rebuild key, .rebuildIndex key]) ++
    summarySites .rebuild true

theorem attempt_bind_eq_ok {α : Type} {faults : Faults} {site : Site} {message : String}
    {f : Unit → Except String α} {a : α} :
    (attempt faults site message >>= f) = .ok a ↔ fails faults site = false ∧ f () = .ok a := by
  rw [bind_eq_ok]
  constructor
  · rintro ⟨u, hattempt, hf⟩
    exact ⟨attempt_eq_ok.mp hattempt, hf⟩
  · rintro ⟨hsite, hf⟩
    exact ⟨(), attempt_eq_ok.mpr hsite, hf⟩

theorem openTables_bind_eq_ok {α : Type} {faults : Faults} {phase : Phase}
    {f : Unit → Except String α} {a : α} :
    (openTables faults phase >>= f) = .ok a ↔
      AllSucceed faults (openSites phase) ∧ f () = .ok a := by
  have hopen (u : Unit) : openTables faults phase = .ok u ↔
      AllSucceed faults (openSites phase) := by
    simp only [openTables, attempt_bind_eq_ok, attempt_eq_ok, openSites, allSucceed_cons,
      allSucceed_nil, and_true]
  rw [bind_eq_ok]
  constructor
  · rintro ⟨u, hu, hf⟩
    exact ⟨(hopen u).mp hu, hf⟩
  · rintro ⟨hsites, hf⟩
    exact ⟨(), (hopen ()).mpr hsites, hf⟩

theorem insertRows_ok_iff {faults : Faults} {round : Nat} {batch : List (Key × Bytes)}
    {ledger final : Ledger} :
    insertRows faults round batch ledger = .ok final ↔
      AllSucceed faults (insertSites round batch ledger.cache) ∧
        final = insertAll batch ledger := by
  induction batch generalizing round ledger with
  | nil => simp [insertRows, insertSites, insertAll, eq_comm]
  | cons row rest ih =>
      obtain ⟨key, bytes⟩ := row
      have hall : insertAll ((key, bytes) :: rest) ledger =
          insertAll rest (insertRow key bytes ledger) := rfl
      simp only [insertRows, attempt_bind_eq_ok, insertSites, hall]
      cases hold : (ledger.cache.lookup key).isSome <;>
        simp [attempt_bind_eq_ok, ih, and_assoc]

theorem removeRows_ok_iff {faults : Faults} {round : Nat} {keys : List Key}
    {acc final : Removal} :
    removeRows faults round keys acc = .ok final ↔
      AllSucceed faults (removeSites round keys acc.cache) ∧ final = removeAll keys acc := by
  induction keys generalizing round acc with
  | nil => simp [removeRows, removeSites, removeAll, eq_comm]
  | cons key rest ih =>
      have hall : removeAll (key :: rest) acc = removeAll rest (removeRow key acc) := rfl
      simp only [removeRows, attempt_bind_eq_ok, removeSites, hall]
      cases hold : (acc.cache.lookup key).isSome <;>
        simp [attempt_bind_eq_ok, ih, and_assoc]

theorem recountRows_ok_iff {faults : Faults} {rows : List (Key × Bytes)} {acc final : Recount} :
    recountRows faults rows acc = .ok final ↔
      AllSucceed faults ((rows.map Prod.fst).flatMap
        fun key => [.readRow .rebuild key, .rebuildIndex key]) ∧ final = recount rows acc := by
  induction rows generalizing acc with
  | nil => simp [recountRows, recount, eq_comm]
  | cons row rest ih =>
      have hall : recount (row :: rest) acc = recount rest (recountRow row acc) := rfl
      simp [recountRows, attempt_bind_eq_ok, ih, hall, and_assoc]

theorem writeSummary_ok_iff {faults : Faults} {phase : Phase} {summary : Summary}
    {totalBytes entryCount : Int} {maxSeq : Option Nat} {outcome : Bool × Summary} :
    writeSummary faults phase summary totalBytes entryCount maxSeq = .ok outcome ↔
      if totalBytes < 0 ∨ entryCount < 0 then outcome = (false, summary)
      else AllSucceed faults (summarySites phase maxSeq.isSome) ∧
        outcome =
          (true, ⟨totalBytes.toNat, entryCount.toNat, maxSeq.getD summary.maxSeq⟩) := by
  unfold writeSummary
  split
  · simp [eq_comm (a := outcome)]
  · cases maxSeq <;>
      simp [attempt_bind_eq_ok, summarySites, pure, Except.pure, and_assoc,
        eq_comm (a := outcome)]

theorem rebuildSummaryInTxn_ok_iff {faults : Faults} {shard rebuilt : Shard} :
    rebuildSummaryInTxn faults shard = .ok rebuilt ↔
      AllSucceed faults (rebuildSites (shard.cache.rows.map Prod.fst)) ∧
        rebuilt = recounted shard.cache := by
  constructor
  · intro h
    refine ⟨?_, rebuildSummaryInTxn_eq_ok h⟩
    simp only [rebuildSummaryInTxn, openTables_bind_eq_ok, attempt_bind_eq_ok] at h
    obtain ⟨hopen, hretain, hiter, h⟩ := h
    obtain ⟨acc, hacc, h⟩ := bind_eq_ok.mp h
    obtain ⟨_, hwrite, _⟩ := bind_eq_ok.mp h
    rw [writeSummary_ok_iff, if_neg (by omega)] at hwrite
    simp only [rebuildSites, allSucceed_append, allSucceed_cons, allSucceed_nil, and_true]
    exact ⟨⟨⟨hopen, hretain, hiter⟩, (recountRows_ok_iff.mp hacc).1⟩, hwrite.1⟩
  · rintro ⟨hsites, rfl⟩
    simp only [rebuildSites, allSucceed_append, allSucceed_cons, allSucceed_nil, and_true]
      at hsites
    obtain ⟨⟨⟨hopen, hretain, hiter⟩, hloop⟩, hput⟩ := hsites
    simp only [rebuildSummaryInTxn, openTables_bind_eq_ok, attempt_bind_eq_ok]
    refine ⟨hopen, hretain, hiter, bind_eq_ok.mpr ⟨_, recountRows_ok_iff.mpr ⟨hloop, rfl⟩, ?_⟩⟩
    have hwrite : writeSummary faults .rebuild shard.summary
        (recount shard.cache.rows ⟨⟨0, 0, 0⟩, ∅⟩).summary.totalBytes
        (recount shard.cache.rows ⟨⟨0, 0, 0⟩, ∅⟩).summary.entryCount
        (some (recount shard.cache.rows ⟨⟨0, 0, 0⟩, ∅⟩).summary.maxSeq) =
          .ok (true, (recounted shard.cache).summary) := by
      rw [writeSummary_ok_iff, if_neg (by omega)]
      exact ⟨hput, by simp [recounted]⟩
    exact bind_eq_ok.mpr ⟨_, hwrite, rfl⟩

/-- The outcome of an insert transaction, from the sites it passes and the
totals of its loop. -/
theorem insertTxn_ok_iff {faults : Faults} {shard written : Shard} {batch : List (Key × Bytes)}
    {ledger : Ledger} (hledger : ledger = insertAll batch (Ledger.start faults shard)) :
    insertTxn faults shard batch = .ok written ↔
      AllSucceed faults (openSites .maintain ++ insertSites 0 batch shard.cache) ∧
        if ledger.totalBytes < 0 ∨ ledger.entryCount < 0 then
          AllSucceed faults (rebuildSites (ledger.cache.rows.map Prod.fst)) ∧
            written = recounted ledger.cache
        else
          AllSucceed faults (summarySites .maintain true) ∧
            written = ⟨ledger.cache,
              ⟨ledger.totalBytes.toNat, ledger.entryCount.toNat, ledger.maxSeq⟩,
              ledger.seqIndex⟩ := by
  simp only [insertTxn, openTables_bind_eq_ok, allSucceed_append, and_assoc]
  refine and_congr_right fun _ => ?_
  simp only [bind_eq_ok, insertRows_ok_iff, and_assoc, exists_and_left]
  refine and_congr_right fun _ => ?_
  rw [← hledger]
  simp only [exists_eq_left, writeSummary_ok_iff]
  split
  · simp [rebuildSummaryInTxn_ok_iff]
  · simp [pure, Except.pure, eq_comm (a := written)]

theorem maintainRemovals_ok_iff {faults : Faults} {shard removed : Shard} {keys : List Key}
    {freed : Nat} {acc : Removal} (hacc : acc = removeAll keys (Removal.start faults shard)) :
    maintainRemovals faults shard keys = .ok (removed, freed) ↔
      AllSucceed faults (openSites .maintain ++ removeSites 0 keys shard.cache) ∧
        freed = acc.freed ∧
        if acc.totalBytes < 0 ∨ acc.entryCount < 0 then
          AllSucceed faults (rebuildSites (acc.cache.rows.map Prod.fst)) ∧
            removed = recounted acc.cache
        else
          AllSucceed faults (summarySites .maintain false) ∧
            removed = ⟨acc.cache,
              ⟨acc.totalBytes.toNat, acc.entryCount.toNat, shard.summary.maxSeq⟩,
              acc.seqIndex⟩ := by
  simp only [maintainRemovals, openTables_bind_eq_ok, allSucceed_append, and_assoc]
  refine and_congr_right fun _ => ?_
  simp only [bind_eq_ok, removeRows_ok_iff, and_assoc, exists_and_left]
  refine and_congr_right fun _ => ?_
  rw [← hacc]
  simp only [exists_eq_left, writeSummary_ok_iff]
  split
  · simp [rebuildSummaryInTxn_ok_iff, pure, Except.pure, bind_eq_ok]
    tauto
  · simp [pure, Except.pure]
    tauto

/-! ## What a discarded failure does to the totals -/

def misread (faults : Faults) (summary : Summary) (field : Field) : Nat :=
  if fails faults (.getField field) then summary.get field else 0

/-- Both totals are read right: a field that cannot be read holds 0 anyway. -/
def TotalsRead (faults : Faults) (summary : Summary) : Prop :=
  misread faults summary .totalBytes = 0 ∧ misread faults summary .entryCount = 0

theorem read_add_misread (faults : Faults) (summary : Summary) (field : Field) :
    readSummaryField faults summary field + misread faults summary field = summary.get field := by
  cases h : faults (.getField field) <;> simp [readSummaryField, misread, fails, h]

theorem start_tracks_misread (faults : Faults) {shard : Shard} (h : Consistent shard) :
    Tracks (misread faults shard.summary .totalBytes) (misread faults shard.summary .entryCount)
      shard.cache shard.seqIndex (readSummaryField faults shard.summary .totalBytes)
      (readSummaryField faults shard.summary .entryCount) := by
  have htotal := read_add_misread faults shard.summary .totalBytes
  have hcount := read_add_misread faults shard.summary .entryCount
  have hconsistentTotal := h.total
  have hconsistentCount := h.count
  simp only [Summary.get] at htotal hcount
  refine ⟨?_, ?_, h.index⟩ <;> omega

theorem ledger_tracks (faults : Faults) {shard : Shard} (h : Consistent shard)
    (batch : List (Key × Bytes)) :
    let ledger := insertAll batch (Ledger.start faults shard)
    Tracks (misread faults shard.summary .totalBytes) (misread faults shard.summary .entryCount)
      ledger.cache ledger.seqIndex ledger.totalBytes ledger.entryCount := by
  apply insertAll_tracks
  exact start_tracks_misread faults h

theorem removal_tracks (faults : Faults) {shard : Shard} (h : Consistent shard)
    (keys : List Key) :
    let acc := removeAll keys (Removal.start faults shard)
    Tracks (misread faults shard.summary .totalBytes) (misread faults shard.summary .entryCount)
      acc.cache acc.seqIndex acc.totalBytes acc.entryCount := by
  apply removeAll_tracks
  exact start_tracks_misread faults h

def batchGrowth (cache : Keyed Key Bytes) (batch : List (Key × Bytes)) : Int :=
  (batch.map fun row => (row.2.length : Int) - ((cache.lookup row.1).map List.length).getD 0).sum

/-- The loop of an insert ends below zero: the byte total cannot be read, and
the batch makes the table smaller. -/
def insertDrift (faults : Faults) (cache : Keyed Key Bytes) (batch : List (Key × Bytes)) : Bool :=
  fails faults (.getField .totalBytes) && decide (batchGrowth cache batch < 0)

/-- The loop of a removal ends below zero: a total cannot be read, and a row
that counts in it goes. -/
def removalDrift (faults : Faults) (cache : Keyed Key Bytes) (keys : List Key) : Bool :=
  (fails faults (.getField .totalBytes) &&
      keys.any fun key => (cache.lookup key).any fun bytes => decide (0 < bytes.length)) ||
    (fails faults (.getField .entryCount) && keys.any fun key => (cache.lookup key).isSome)

theorem batch_count_nonneg (cache : Keyed Key Bytes) (batch : List (Key × Bytes)) :
    0 ≤ (batch.map fun row =>
      ((1 : Nat) : Int) - (((cache.lookup row.1).map fun _ => 1).getD 0 : Nat)).sum := by
  induction batch with
  | nil => simp
  | cons row rest ih =>
      rw [List.map_cons, List.sum_cons]
      cases cache.lookup row.1 <;> simp at ih ⊢ <;> omega

theorem insertDrift_iff (faults : Faults) {shard : Shard} (h : Consistent shard)
    {batch : List (Key × Bytes)} (hnodup : (batch.map Prod.fst).Nodup) {ledger : Ledger}
    (hledger : ledger = insertAll batch (Ledger.start faults shard)) :
    (ledger.totalBytes < 0 ∨ ledger.entryCount < 0) ↔
      insertDrift faults shard.cache batch = true := by
  have htracks := ledger_tracks faults h batch
  rw [← hledger] at htracks
  have hcache : ledger.cache = shard.cache.insertAll batch := by
    rw [hledger, insertAll_cache]
    rfl
  have htotal : ledger.totalBytes + misread faults shard.summary .totalBytes =
      shard.summary.totalBytes + batchGrowth shard.cache batch := by
    rw [htracks.total, hcache, Keyed.total_insertAll List.length hnodup, h.total]
    rfl
  have hcount : 0 ≤ ledger.entryCount := by
    have hgrow := Keyed.total_insertAll (fun _ => 1) hnodup shard.cache
    have hnonneg := batch_count_nonneg shard.cache batch
    have hread := read_add_misread faults shard.summary .entryCount
    have htrack := htracks.count
    rw [hcache, Keyed.rows_length] at htrack
    have hstart := h.count
    rw [Keyed.rows_length] at hstart
    simp only [Summary.get] at hread
    omega
  simp only [insertDrift, Bool.and_eq_true, decide_eq_true_eq]
  by_cases hfail : fails faults (.getField .totalBytes) = true
  · simp only [misread, hfail, if_true, Summary.get] at htotal
    simp only [hfail, true_and]
    omega
  · have hbytes := htracks.total
    have hzero : misread faults shard.summary .totalBytes = 0 := by simp [misread, hfail]
    refine ⟨fun hneg => ?_, fun hdrift => absurd hdrift.1 hfail⟩
    omega

theorem removalDrift_iff (faults : Faults) {shard : Shard} (h : Consistent shard)
    (keys : List Key) {acc : Removal}
    (hacc : acc = removeAll keys (Removal.start faults shard)) :
    (acc.totalBytes < 0 ∨ acc.entryCount < 0) ↔
      removalDrift faults shard.cache keys = true := by
  have htracks := removal_tracks faults h keys
  rw [← hacc] at htracks
  have hcache : acc.cache = shard.cache.eraseAll keys := by
    rw [hacc, removeAll_cache]
    rfl
  have hbytes := Keyed.total_eraseAll_lt_iff List.length keys shard.cache
  have hrows := Keyed.total_eraseAll_lt_iff (fun _ => 1) keys shard.cache
  obtain ⟨htotal, hcount, -⟩ := htracks
  rw [hcache] at htotal hcount
  rw [← Keyed.rows_length, ← Keyed.rows_length] at hrows
  have hneg : acc.totalBytes < 0 ↔ fails faults (.getField .totalBytes) = true ∧
      ∃ key ∈ keys, ∃ bytes, shard.cache.lookup key = some bytes ∧ 0 < bytes.length := by
    rw [← hbytes, ← h.total]
    simp only [misread, Summary.get] at htotal
    split at htotal <;> simp_all
    omega
  have hneg' : acc.entryCount < 0 ↔ fails faults (.getField .entryCount) = true ∧
      ∃ key ∈ keys, ∃ bytes, shard.cache.lookup key = some bytes ∧ 0 < 1 := by
    rw [← hrows, ← h.count]
    simp only [misread, Summary.get] at hcount
    split at hcount <;> simp_all
    omega
  rw [hneg, hneg']
  simp [removalDrift, Option.any_eq_true, Option.isSome_iff_exists]

/-! ## When an operation is all or nothing -/

/-- The committed shard has exact bookkeeping, and all of its three tables are
those before the operation or those the operation without failures leaves. -/
def Atomic (identityFromSlice : Bytes → Option CacheIdentity) (faults : Faults) (shard : Shard)
    (op : ShardOp) : Prop :=
  let after := op.committed identityFromSlice faults shard
  Consistent after ∧ (after = shard ∨ after = op.committed identityFromSlice noFaults shard)

/-- The sites of `write_pending_inserts` whose failure drops the transaction;
with a total below zero it rebuilds over the rows the batch leaves. -/
def insertTxnSites (faults : Faults) (cache : Keyed Key Bytes) (batch : List (Key × Bytes)) :
    List Site :=
  .beginWrite :: openSites .maintain ++ insertSites 0 batch cache ++
    (if insertDrift faults cache batch then rebuildSites ((cache.insertAll batch).rows.map Prod.fst)
      else summarySites .maintain true) ++ [.commit]

/-- The sites of a removal whose failure drops the transaction; with a total
below zero it rebuilds over the rows that stay. -/
def removalTxnSites (faults : Faults) (cache : Keyed Key Bytes) (keys : List Key) : List Site :=
  .beginWrite :: openSites .maintain ++ removeSites 0 keys cache ++
    (if removalDrift faults cache keys then rebuildSites (cache.keys.filter (· ∉ keys))
      else summarySites .maintain false) ++ [.commit]

/-- A batch of inserts: the transaction is dropped; or it rebuilds, and some row
it leaves carries the high-water mark; or the totals are read right, and a mark
that cannot be read is not above the batch. -/
def InsertAtomicWhen (faults : Faults) (shard : Shard) (batch : Keyed Key Bytes) : Prop :=
  ¬ AllSucceed faults (insertTxnSites faults shard.cache batch.rows) ∨
    if insertDrift faults shard.cache batch.rows then
      shard.summary.maxSeq ≤ maxSeqOf (shard.cache.insertAll batch.rows).rows
    else
      TotalsRead faults shard.summary ∧
        (fails faults (.getField .maxSeq) = true → shard.summary.maxSeq ≤ maxSeqOf batch.rows)

/-- A removal of the keys `seen` where `wanted` was meant: the transaction is
dropped; or it rebuilds, the two lists agree and some row that stays carries the
high-water mark; or the totals are read right and the lists agree, or `seen` is
empty. -/
def RemovalAtomicWhen (faults : Faults) (shard : Shard) (seen wanted : List Key) : Prop :=
  ¬ AllSucceed faults (removalTxnSites faults shard.cache seen) ∨
    if removalDrift faults shard.cache seen then
      seen = wanted ∧ shard.summary.maxSeq ≤ maxSeqOf (shard.cache.eraseAll seen).rows
    else
      (seen = wanted ∨ seen = []) ∧ TotalsRead faults shard.summary

/-- A table that `clear` opens and empties. -/
def wipes (faults : Faults) (table : Table) : Bool :=
  !fails faults (.openTable .maintain table) && !fails faults (.retain table)

/-- A summary field that `clear` sets to 0. -/
def zeroes (faults : Faults) (field : Field) : Bool :=
  !fails faults (.openTable .maintain .summary) && !fails faults (.putField .maintain field)

/-- A clear: it commits nothing, or the cache is empty already (so that only the
high-water mark can change), or every table and field that is not empty already
is emptied, or none is. -/
def ClearAtomicWhen (faults : Faults) (shard : Shard) : Prop :=
  fails faults .beginWrite = true ∨ fails faults .commit = true ∨ shard.cache = ∅ ∨
    (wipes faults .cache = true ∧ wipes faults .seqIndex = true ∧
      zeroes faults .entryCount = true ∧
      (zeroes faults .totalBytes = true ∨ shard.summary.totalBytes = 0) ∧
      (zeroes faults .maxSeq = true ∨ shard.summary.maxSeq = 0)) ∨
    (wipes faults .cache = false ∧ wipes faults .seqIndex = false ∧
      zeroes faults .entryCount = false ∧
      (zeroes faults .totalBytes = false ∨ shard.summary.totalBytes = 0) ∧
      (zeroes faults .maxSeq = false ∨ shard.summary.maxSeq = 0))

/-- The drift check of a heal sees one of the two counts as 0 and the other as it
is. -/
def misreadsOneCount (faults : Faults) (cache : Keyed Key Bytes) : Bool :=
  !fails faults .beginRead && !cache.rows.isEmpty &&
    ((fails faults (.openTable .scan .cache) || fails faults .tableLen) !=
      (fails faults (.openTable .scan .summary) || fails faults (.getField .entryCount)))

/-- The sites of a rebuild in a transaction of its own. -/
def healSites (cache : Keyed Key Bytes) : List Site :=
  .beginWrite :: rebuildSites (cache.rows.map Prod.fst) ++ [.commit]

/-- A heal: it finds no drift, or its rebuild is dropped, or some row carries the
high-water mark. -/
def HealAtomicWhen (faults : Faults) (shard : Shard) : Prop :=
  misreadsOneCount faults shard.cache = false ∨ ¬ AllSucceed faults (healSites shard.cache) ∨
    shard.summary.maxSeq ≤ maxSeqOf shard.cache.rows

def matchingKeys (cache : Keyed Key Bytes) (wanted : Key → Bool) : List Key :=
  cache.keys.filter wanted

def sees (faults : Faults) (key : Key) : Bool :=
  !fails faults (.openTable .scan .cache) && !fails faults (.iter .scan) &&
    !fails faults (.readRow .scan key)

def readableKeys (faults : Faults) (cache : Keyed Key Bytes) (wanted : Key → Bool) : List Key :=
  (matchingKeys cache wanted).filter (sees faults)

section

variable (identityFromSlice : Bytes → Option CacheIdentity)

def AtomicWhen (faults : Faults) (shard : Shard) : ShardOp → Prop
  | .writePendingInserts batch => InsertAtomicWhen faults shard batch
  | .remove key => RemovalAtomicWhen faults shard [key] [key]
  | .removeKeys keys => keys = [] ∨ RemovalAtomicWhen faults shard keys keys
  | .invalidatePackages packageNames =>
      let wanted := cacheKeyMatchesAnyPackage identityFromSlice packageNames
      packageNames = [] ∨
        RemovalAtomicWhen faults shard (readableKeys faults shard.cache wanted)
          (matchingKeys shard.cache wanted)
  | .purgeOrphanEntries pathIsDefinitelyGone currentAnalyzerVersion =>
      let wanted := cacheKeyIsOrphan identityFromSlice pathIsDefinitelyGone currentAnalyzerVersion
      fails faults .beginRead = true ∨ readableKeys faults shard.cache wanted = [] ∨
        RemovalAtomicWhen faults shard (readableKeys faults shard.cache wanted)
          (matchingKeys shard.cache wanted)
  | .clear => ClearAtomicWhen faults shard
  | .rebuildSummary => True
  | .healSummaryIfInconsistent => HealAtomicWhen faults shard

end

/-! ## What determines a shard -/

/-- The bookkeeping of a consistent shard follows from its rows, save the
high-water mark. -/
theorem Consistent.eq_of {left right : Shard} (hleft : Consistent left)
    (hright : Consistent right) (hcache : left.cache = right.cache)
    (hmark : left.summary.maxSeq = right.summary.maxSeq) : left = right := by
  have htotal : left.summary.totalBytes = right.summary.totalBytes := by
    rw [hleft.total, hright.total, hcache]
  have hcount : left.summary.entryCount = right.summary.entryCount := by
    rw [hleft.count, hright.count, hcache]
  have hindex : left.seqIndex = right.seqIndex := by
    ext ⟨seq, key⟩
    rw [hleft.index seq key, hright.index seq key, hcache]
  obtain ⟨leftCache, ⟨leftTotal, leftCount, leftMark⟩, leftIndex⟩ := left
  obtain ⟨rightCache, ⟨rightTotal, rightCount, rightMark⟩, rightIndex⟩ := right
  simp_all only

theorem recounted_maxSeq (cache : Keyed Key Bytes) :
    (recounted cache).summary.maxSeq = maxSeqOf cache.rows := by
  simp [recounted, recount_maxSeq]

/-- No row of a consistent shard is above the high-water mark. -/
theorem Consistent.maxSeqOf_rows_le {shard : Shard} (h : Consistent shard) :
    maxSeqOf shard.cache.rows ≤ shard.summary.maxSeq :=
  maxSeqOf_le fun row hrow => h.bound row.1 row.2 (Keyed.mem_rows.mp hrow)

theorem recounted_eq {shard : Shard} (h : Consistent shard)
    (hmark : shard.summary.maxSeq ≤ maxSeqOf shard.cache.rows) :
    recounted shard.cache = shard := by
  refine (consistent_recounted _).eq_of h rfl ?_
  rw [recounted_maxSeq]
  exact le_antisymm h.maxSeqOf_rows_le hmark

theorem committed_noFaults_consistent (identityFromSlice : Bytes → Option CacheIdentity)
    {shard : Shard} (h : Consistent shard) (op : ShardOp) :
    Consistent (op.committed identityFromSlice noFaults shard) := by
  apply committed_consistent identityFromSlice h
  cases op <;> exact fun _ => rfl

/-! ## Inserts -/

theorem writePendingInserts_ok_iff {faults : Faults} {shard written : Shard}
    {batch : Keyed Key Bytes} :
    writePendingInserts faults shard batch = .ok written ↔
      fails faults .beginWrite = false ∧ insertTxn faults shard batch.rows = .ok written ∧
        fails faults .commit = false := by
  simp only [writePendingInserts, attempt_bind_eq_ok]
  refine and_congr_right fun _ => ?_
  rw [bind_eq_ok]
  simp only [attempt_bind_eq_ok, pure, Except.pure, Except.ok.injEq]
  constructor
  · rintro ⟨written', htxn, hcommit, rfl⟩
    exact ⟨htxn, hcommit⟩
  · rintro ⟨htxn, hcommit⟩
    exact ⟨written, htxn, hcommit, rfl⟩

theorem allSucceed_noFaults (sites : List Site) : AllSucceed noFaults sites := fun _ _ => rfl

theorem insertTxn_cache {faults : Faults} {shard written : Shard} {batch : List (Key × Bytes)}
    (h : insertTxn faults shard batch = .ok written) :
    written.cache = shard.cache.insertAll batch := by
  have hcache : (insertAll batch (Ledger.start faults shard)).cache =
      shard.cache.insertAll batch := insertAll_cache _ _
  rcases insertTxn_eq_ok h with ⟨_, _, rfl⟩ | ⟨_, rfl⟩
  · exact hcache
  · exact hcache

def Ledger.settled (ledger : Ledger) : Shard :=
  ⟨ledger.cache, ⟨ledger.totalBytes.toNat, ledger.entryCount.toNat, ledger.maxSeq⟩,
    ledger.seqIndex⟩

/-- A batch commits exactly when all of its sites succeed, and then it leaves a
rebuild or the totals of its loop. -/
theorem writePendingInserts_iff (faults : Faults) {shard : Shard} (h : Consistent shard)
    (batch : Keyed Key Bytes) (written : Shard) :
    writePendingInserts faults shard batch = .ok written ↔
      AllSucceed faults (insertTxnSites faults shard.cache batch.rows) ∧
        written =
          if insertDrift faults shard.cache batch.rows then
            recounted (shard.cache.insertAll batch.rows)
          else (insertAll batch.rows (Ledger.start faults shard)).settled := by
  have hcache : (insertAll batch.rows (Ledger.start faults shard)).cache =
      shard.cache.insertAll batch.rows := insertAll_cache _ _
  rw [writePendingInserts_ok_iff, insertTxn_ok_iff rfl, hcache]
  simp only [insertDrift_iff faults h batch.nodup_rows_keys rfl, insertTxnSites,
    Ledger.settled, hcache, allSucceed_append, allSucceed_cons,
    allSucceed_nil, and_true, List.cons_append]
  split
  · tauto
  · tauto

/-- The bookkeeping of a batch that committed outside drift is exact exactly
when what it read of the summary was right, or right enough. -/
theorem settled_consistent_iff {faults : Faults} {shard : Shard} (h : Consistent shard)
    {batch : Keyed Key Bytes} (hdrift : insertDrift faults shard.cache batch.rows = false) :
    Consistent (insertAll batch.rows (Ledger.start faults shard)).settled ↔
      TotalsRead faults shard.summary ∧
        (fails faults (.getField .maxSeq) = true →
          ∀ key bytes, shard.cache.lookup key = some bytes → batch.lookup key = none →
            decodeLastSeq bytes ≤ maxSeqOf batch.rows) := by
  have hnonneg := insertDrift_iff faults h batch.nodup_rows_keys rfl
  rw [hdrift] at hnonneg
  have htracks := ledger_tracks faults h batch.rows
  have hcache : (insertAll batch.rows (Ledger.start faults shard)).cache =
      shard.cache.insertAll batch.rows := insertAll_cache _ _
  have hmax : (insertAll batch.rows (Ledger.start faults shard)).maxSeq =
      max (readSummaryField faults shard.summary .maxSeq) (maxSeqOf batch.rows) :=
    insertAll_maxSeq _ _
  generalize insertAll batch.rows (Ledger.start faults shard) = ledger
    at hnonneg htracks hcache hmax
  obtain ⟨htotal, hcount, hindex⟩ := htracks
  have hpos : 0 ≤ ledger.totalBytes ∧ 0 ≤ ledger.entryCount := by
    by_contra hneg
    exact absurd (hnonneg.mp (by omega)) (by simp)
  constructor
  · intro hcons
    have htotal' := hcons.total
    have hcount' := hcons.count
    simp only [Ledger.settled] at htotal' hcount'
    refine ⟨⟨by omega, by omega⟩, fun hfail key bytes hrow hnew => ?_⟩
    have hkey : key ∉ batch.rows.map Prod.fst := by
      simp [Keyed.mem_rows_keys, hnew]
    have hbound := hcons.bound key bytes
    simp only [Ledger.settled, hcache, Keyed.lookup_insertAll_of_notMem hkey, hmax] at hbound
    have hread := read_add_misread faults shard.summary .maxSeq
    simp only [misread, hfail, if_true] at hread
    have := hbound hrow
    omega
  · rintro ⟨⟨hbytes, hrows⟩, hseq⟩
    refine ⟨?_, ?_, hindex, ?_⟩
    · simp only [Ledger.settled]
      omega
    · simp only [Ledger.settled]
      omega
    · intro key bytes hrow
      simp only [Ledger.settled, hmax] at hrow ⊢
      rw [hcache] at hrow
      cases hnew : batch.lookup key with
      | some v =>
          have hmem := Keyed.mem_rows.mpr hnew
          rw [Keyed.lookup_insertAll_of_mem batch.nodup_rows_keys hmem] at hrow
          cases hrow
          exact (le_maxSeqOf hmem).trans (le_max_right _ _)
      | none =>
          have hkey : key ∉ batch.rows.map Prod.fst := by
            simp [Keyed.mem_rows_keys, hnew]
          rw [Keyed.lookup_insertAll_of_notMem hkey] at hrow
          by_cases hfail : fails faults (.getField .maxSeq) = true
          · exact (hseq hfail key bytes hrow hnew).trans (le_max_right _ _)
          · have hread := readSummaryField_eq (by simpa using hfail) shard.summary
            rw [hread]
            exact (h.bound key bytes hrow).trans (le_max_left _ _)

/-- Without failures a batch always commits, with all of its rows and the larger
of the two marks. -/
theorem committed_writePendingInserts_noFaults
    (identityFromSlice : Bytes → Option CacheIdentity) {shard : Shard} (h : Consistent shard)
    (batch : Keyed Key Bytes) :
    let whole := (ShardOp.writePendingInserts batch).committed identityFromSlice noFaults shard
    whole.cache = shard.cache.insertAll batch.rows ∧
      whole.summary.maxSeq = max shard.summary.maxSeq (maxSeqOf batch.rows) := by
  have hok := (writePendingInserts_iff noFaults h batch _).mpr ⟨allSucceed_noFaults _, rfl⟩
  simp only [ShardOp.committed, hok]
  exact ⟨insertAll_cache _ _, insertAll_maxSeq _ _⟩

theorem insert_atomic_iff (identityFromSlice : Bytes → Option CacheIdentity) {faults : Faults}
    {shard : Shard} (h : Consistent shard) (batch : Keyed Key Bytes) :
    Atomic identityFromSlice faults shard (.writePendingInserts batch) ↔
      InsertAtomicWhen faults shard batch := by
  have hwhole := committed_noFaults_consistent identityFromSlice h (.writePendingInserts batch)
  obtain ⟨hcache, hmark⟩ := committed_writePendingInserts_noFaults identityFromSlice h batch
  simp only [Atomic]
  generalize (ShardOp.writePendingInserts batch).committed identityFromSlice noFaults shard =
    whole at hwhole hcache hmark
  have hcommit := writePendingInserts_iff faults h batch
  by_cases hsites : AllSucceed faults (insertTxnSites faults shard.cache batch.rows)
  · have hok := (hcommit _).mpr ⟨hsites, rfl⟩
    simp only [ShardOp.committed, hok, InsertAtomicWhen, hsites, not_true_eq_false, false_or]
    cases hdrift : insertDrift faults shard.cache batch.rows with
    | true =>
        -- the totals went below zero, so what commits is a rebuild
        have hrebuilt := consistent_recounted (shard.cache.insertAll batch.rows)
        have hrebuiltMark := recounted_maxSeq (shard.cache.insertAll batch.rows)
        have hle := hwhole.maxSeqOf_rows_le
        rw [hcache] at hle
        simp only [if_true]
        constructor
        · rintro ⟨-, heq | heq⟩
          · rw [heq] at hrebuiltMark
            exact hrebuiltMark.le
          · rw [heq] at hrebuiltMark
            omega
        · intro hcovered
          refine ⟨hrebuilt, Or.inr (hrebuilt.eq_of hwhole hcache.symm ?_)⟩
          have hbatch := maxSeqOf_le_insertAll shard.cache batch.nodup_rows_keys
          omega
    | false =>
        have hsettled := settled_consistent_iff h hdrift
        have hsettledMark :
            (insertAll batch.rows (Ledger.start faults shard)).settled.summary.maxSeq =
              max (readSummaryField faults shard.summary .maxSeq) (maxSeqOf batch.rows) :=
          insertAll_maxSeq _ _
        have hread := read_add_misread faults shard.summary .maxSeq
        simp only [Summary.get, misread] at hread
        simp only [Bool.false_eq_true, if_false]
        constructor
        · rintro ⟨hcons, heq⟩
          refine ⟨(hsettled.mp hcons).1, fun hfail => ?_⟩
          rw [if_pos hfail] at hread
          rcases heq with heq | heq
          · rw [heq] at hsettledMark
            omega
          · rw [heq] at hsettledMark
            omega
        · rintro ⟨htotals, hcovered⟩
          have hcons := hsettled.mpr ⟨htotals, fun hfail key bytes hrow _ =>
            (h.bound key bytes hrow).trans (hcovered hfail)⟩
          refine ⟨hcons, Or.inr (hcons.eq_of hwhole ?_ ?_)⟩
          · rw [hcache]
            exact insertAll_cache _ _
          · by_cases hfail : fails faults (.getField .maxSeq) = true
            · have := hcovered hfail
              rw [if_pos hfail] at hread
              omega
            · rw [if_neg hfail] at hread
              omega
  · refine iff_of_true ?_ (Or.inl hsites)
    simp only [ShardOp.committed]
    split
    · rename_i written hok
      exact absurd ((hcommit written).mp hok).1 hsites
    · exact ⟨h, Or.inl rfl⟩

/-! ## Removals -/

theorem rebuildSites_congr {faults : Faults} {keys keys' : List Key}
    (h : ∀ key, key ∈ keys ↔ key ∈ keys') :
    AllSucceed faults (rebuildSites keys) ↔ AllSucceed faults (rebuildSites keys') := by
  have hloop :
      AllSucceed faults (keys.flatMap fun key => [.readRow .rebuild key, .rebuildIndex key]) ↔
      AllSucceed faults (keys'.flatMap fun key => [.readRow .rebuild key, .rebuildIndex key]) := by
    simp [AllSucceed, List.mem_flatMap, h]
  simp only [rebuildSites, allSucceed_append, hloop]

def Removal.settled (acc : Removal) (maxSeq : Nat) : Shard :=
  ⟨acc.cache, ⟨acc.totalBytes.toNat, acc.entryCount.toNat, maxSeq⟩, acc.seqIndex⟩

/-- A removal commits exactly when all of its sites succeed, and then it leaves
a rebuild or the totals of its loop. -/
theorem removalTxn_fst (faults : Faults) {shard : Shard} (h : Consistent shard)
    (keys : List Key) {acc : Removal} (hacc : acc = removeAll keys (Removal.start faults shard)) :
    (AllSucceed faults (removalTxnSites faults shard.cache keys) ∧
        (removalTxn faults shard keys).1 =
          if removalDrift faults shard.cache keys then recounted acc.cache
          else acc.settled shard.summary.maxSeq) ∨
      (¬ AllSucceed faults (removalTxnSites faults shard.cache keys) ∧
        (removalTxn faults shard keys).1 = shard) := by
  have hdrift := removalDrift_iff faults h keys hacc
  have hcache : acc.cache = shard.cache.eraseAll keys := by
    rw [hacc, removeAll_cache]
    rfl
  have hrebuild : AllSucceed faults (rebuildSites (acc.cache.rows.map Prod.fst)) ↔
      AllSucceed faults (rebuildSites (shard.cache.keys.filter (· ∉ keys))) := by
    apply rebuildSites_congr
    intro key
    rw [Keyed.mem_rows_keys, hcache, Keyed.lookup_eraseAll]
    by_cases hmem : key ∈ keys <;> simp [hmem, AList.lookup_isSome, AList.mem_keys]
  have hsites : AllSucceed faults (removalTxnSites faults shard.cache keys) ↔
      fails faults .beginWrite = false ∧ fails faults .commit = false ∧
        ∃ removed freed, maintainRemovals faults shard keys = .ok (removed, freed) := by
    simp only [maintainRemovals_ok_iff hacc, hdrift, removalTxnSites, allSucceed_append,
      allSucceed_cons, allSucceed_nil, and_true, List.cons_append]
    split
    · simp [hrebuild]
      tauto
    · simp
      tauto
  have hvalue : ∀ removed freed, maintainRemovals faults shard keys = .ok (removed, freed) →
      removed = if removalDrift faults shard.cache keys then recounted acc.cache
        else acc.settled shard.summary.maxSeq := by
    intro removed freed hok
    have hresult := ((maintainRemovals_ok_iff hacc).mp hok).2.2
    simp only [hdrift] at hresult
    split at hresult
    · simp [*]
    · simp [*, Removal.settled]
  by_cases hall : AllSucceed faults (removalTxnSites faults shard.cache keys)
  · obtain ⟨hbegin, hcommit, removed, freed, hok⟩ := hsites.mp hall
    refine Or.inl ⟨hall, ?_⟩
    rw [← hvalue removed freed hok]
    simp [removalTxn, hbegin, hok, hcommit]
  · refine Or.inr ⟨hall, ?_⟩
    rw [hsites] at hall
    unfold removalTxn
    split
    · rfl
    · rename_i hbegin
      split
      · rename_i removed freed hok
        split
        · rfl
        · rename_i hcommit
          exact absurd ⟨by simpa using hbegin, by simpa using hcommit, removed, freed, hok⟩ hall
      · rfl

/-- The bookkeeping of a removal that committed outside drift is exact exactly
when it read both totals right. -/
theorem removal_settled_consistent_iff {faults : Faults} {shard : Shard} (h : Consistent shard)
    {keys : List Key} (hdrift : removalDrift faults shard.cache keys = false) :
    Consistent ((removeAll keys (Removal.start faults shard)).settled shard.summary.maxSeq) ↔
      TotalsRead faults shard.summary := by
  have hnonneg := removalDrift_iff faults h keys rfl
  rw [hdrift] at hnonneg
  have htracks := removal_tracks faults h keys
  have hcache : (removeAll keys (Removal.start faults shard)).cache =
      shard.cache.eraseAll keys := removeAll_cache _ _
  generalize removeAll keys (Removal.start faults shard) = acc at hnonneg htracks hcache
  obtain ⟨htotal, hcount, hindex⟩ := htracks
  have hpos : 0 ≤ acc.totalBytes ∧ 0 ≤ acc.entryCount := by
    by_contra hneg
    exact absurd (hnonneg.mp (by omega)) (by simp)
  constructor
  · intro hcons
    have htotal' := hcons.total
    have hcount' := hcons.count
    simp only [Removal.settled] at htotal' hcount'
    exact ⟨by omega, by omega⟩
  · rintro ⟨hbytes, hrows⟩
    refine ⟨?_, ?_, hindex, ?_⟩
    · simp only [Removal.settled]
      omega
    · simp only [Removal.settled]
      omega
    · intro key bytes hrow
      simp only [Removal.settled, hcache, Keyed.lookup_eraseAll] at hrow ⊢
      split at hrow
      · cases hrow
      · exact h.bound key bytes hrow

/-- Without failures a removal removes every row it means, and keeps the mark. -/
theorem removalTxn_noFaults {shard : Shard} (h : Consistent shard) (keys : List Key) :
    let whole := (removalTxn noFaults shard keys).1
    whole.cache = shard.cache.eraseAll keys ∧ whole.summary.maxSeq = shard.summary.maxSeq := by
  rcases removalTxn_fst noFaults h keys rfl with ⟨_, heq⟩ | ⟨hall, _⟩
  · rw [heq, if_neg (by simp [removalDrift, fails, noFaults])]
    exact ⟨removeAll_cache _ _, rfl⟩
  · exact absurd (allSucceed_noFaults _) hall

/-- The keys a removal is given are those it should remove, or they are present
and miss one that is there. -/
def Scanned (cache : Keyed Key Bytes) (seen wanted : List Key) : Prop :=
  seen = wanted ∨ (∀ key ∈ seen, (cache.lookup key).isSome) ∧
    ∃ key ∈ wanted, key ∉ seen ∧ (cache.lookup key).isSome

theorem Scanned.eq_of_eraseAll {cache : Keyed Key Bytes} {seen wanted : List Key}
    (h : Scanned cache seen wanted) (heq : cache.eraseAll seen = cache.eraseAll wanted) :
    seen = wanted := by
  rcases h with hsame | ⟨-, missed, hmissed, hseen, hrow⟩
  · exact hsame
  · have hkept : (cache.eraseAll wanted).lookup missed = cache.lookup missed := by
      rw [← heq, Keyed.lookup_eraseAll, if_neg hseen]
    rw [Keyed.lookup_eraseAll, if_pos hmissed] at hkept
    simp [← hkept] at hrow

theorem Scanned.of_eraseAll_unchanged {cache : Keyed Key Bytes} {seen wanted : List Key}
    (h : Scanned cache seen wanted) (heq : cache.eraseAll seen = cache) :
    seen = wanted ∨ seen = [] := by
  rcases h with hsame | ⟨hpresent, -⟩
  · exact Or.inl hsame
  · refine Or.inr (List.eq_nil_iff_forall_not_mem.mpr fun key hkey => ?_)
    have hthere := hpresent key hkey
    rw [← heq, Keyed.lookup_eraseAll, if_pos hkey] at hthere
    simp at hthere

/-- A total can only go below zero when a row goes. -/
theorem eraseAll_ne_of_removalDrift {faults : Faults} {cache : Keyed Key Bytes} {keys : List Key}
    (h : removalDrift faults cache keys = true) : cache.eraseAll keys ≠ cache := by
  intro heq
  have hgone : ∀ key ∈ keys, cache.lookup key = none := by
    intro key hkey
    rw [← heq, Keyed.lookup_eraseAll, if_pos hkey]
  have hnone : removalDrift faults cache keys = false := by
    simp +contextual [removalDrift, hgone]
  simp [hnone] at h

/-- A removal of `seen` where `wanted` was meant is all or nothing in exactly
the stated cases. -/
theorem removalTxn_atomic_iff {faults : Faults} {shard : Shard} (h : Consistent shard)
    {seen wanted : List Key} (hscan : Scanned shard.cache seen wanted) :
    (Consistent (removalTxn faults shard seen).1 ∧
        ((removalTxn faults shard seen).1 = shard ∨
          (removalTxn faults shard seen).1 = (removalTxn noFaults shard wanted).1)) ↔
      RemovalAtomicWhen faults shard seen wanted := by
  have hwhole : Consistent (removalTxn noFaults shard wanted).1 :=
    removalTxn_consistent summaryReadable_noFaults h wanted
  obtain ⟨hwholeCache, hwholeMark⟩ := removalTxn_noFaults h wanted
  generalize (removalTxn noFaults shard wanted).1 = whole at hwhole hwholeCache hwholeMark
  rcases removalTxn_fst faults h seen rfl with ⟨hall, heq⟩ | ⟨hall, heq⟩
  · have hcache : (removeAll seen (Removal.start faults shard)).cache =
        shard.cache.eraseAll seen := removeAll_cache _ _
    simp only [RemovalAtomicWhen, hall, not_true_eq_false, false_or]
    rw [heq, hcache]
    cases hdrift : removalDrift faults shard.cache seen with
    | true =>
        have hrebuilt := consistent_recounted (shard.cache.eraseAll seen)
        have hmark := recounted_maxSeq (shard.cache.eraseAll seen)
        simp only [if_true]
        constructor
        · rintro ⟨-, hbefore | hafter⟩
          · exact absurd (congrArg Shard.cache hbefore) (eraseAll_ne_of_removalDrift hdrift)
          · refine ⟨hscan.eq_of_eraseAll ?_, ?_⟩
            · rw [← hwholeCache, ← hafter]
              rfl
            · rw [hafter] at hmark
              omega
        · rintro ⟨rfl, hcovered⟩
          have hle := hwhole.maxSeqOf_rows_le
          rw [hwholeCache] at hle
          exact ⟨hrebuilt, Or.inr (hrebuilt.eq_of hwhole hwholeCache.symm (by omega))⟩
    | false =>
        have hsettled := removal_settled_consistent_iff h hdrift
        simp only [Bool.false_eq_true, if_false]
        rw [← hsettled, and_comm]
        refine and_congr_left fun hcons => ?_
        constructor
        · rintro (hbefore | hafter)
          · apply hscan.of_eraseAll_unchanged
            rw [← hcache]
            exact congrArg Shard.cache hbefore
          · refine Or.inl (hscan.eq_of_eraseAll ?_)
            rw [← hcache, ← hwholeCache, ← hafter]
            rfl
        · rintro (rfl | rfl)
          · exact Or.inr (hcons.eq_of hwhole (hcache.trans hwholeCache.symm) hwholeMark.symm)
          · exact Or.inl (hcons.eq_of h hcache rfl)
  · rw [heq]
    exact iff_of_true ⟨h, Or.inl rfl⟩ (Or.inl hall)

theorem scanKeys_eq (faults : Faults) (shard : Shard) (wanted : Key → Bool) :
    scanKeys faults shard wanted = readableKeys faults shard.cache wanted := by
  unfold scanKeys readableKeys matchingKeys sees
  cases hopen : fails faults (.openTable .scan .cache) <;>
    cases hiter : fails faults (.iter .scan) <;> simp [List.filter_filter]

/-- A scan sees all the matching rows, or it misses one that is there. -/
theorem scanKeys_scanned (faults : Faults) (shard : Shard) (wanted : Key → Bool) :
    Scanned shard.cache (scanKeys faults shard wanted) (matchingKeys shard.cache wanted) := by
  have hpresent : ∀ key ∈ matchingKeys shard.cache wanted,
      (shard.cache.lookup key).isSome := by
    intro key hkey
    exact AList.lookup_isSome.mpr (List.mem_of_mem_filter hkey)
  rw [scanKeys_eq, readableKeys]
  by_cases hall : ∀ key ∈ matchingKeys shard.cache wanted, sees faults key = true
  · exact Or.inl (List.filter_eq_self.mpr hall)
  · push Not at hall
    obtain ⟨key, hkey, hblind⟩ := hall
    refine Or.inr ⟨fun k hk => hpresent k (List.mem_of_mem_filter hk), key, hkey, ?_,
      hpresent key hkey⟩
    intro hmem
    exact hblind (List.mem_filter.mp hmem).2

theorem scanKeys_noFaults (shard : Shard) (wanted : Key → Bool) :
    scanKeys noFaults shard wanted = matchingKeys shard.cache wanted := by
  rw [scanKeys_eq]
  exact List.filter_eq_self.mpr fun _ _ => rfl

/-! ## Clear -/

theorem Consistent.of_empty {shard : Shard} (h : Consistent shard) (hcache : shard.cache = ∅) :
    shard.summary.totalBytes = 0 ∧ shard.summary.entryCount = 0 ∧ shard.seqIndex = ∅ := by
  refine ⟨?_, ?_, ?_⟩
  · rw [h.total, hcache, Keyed.total_empty]
  · rw [h.count, hcache]
    rfl
  · apply Finset.eq_empty_of_forall_notMem
    rintro ⟨seq, key⟩ hmem
    obtain ⟨bytes, hrow, _⟩ := (h.index seq key).mp hmem
    simp [hcache] at hrow

theorem Consistent.of_nonempty {shard : Shard} (h : Consistent shard) (hcache : shard.cache ≠ ∅) :
    shard.summary.entryCount ≠ 0 ∧ shard.seqIndex ≠ ∅ := by
  obtain ⟨⟨key, bytes⟩, hmem⟩ : ∃ row, row ∈ shard.cache.rows := by
    apply List.exists_mem_of_ne_nil
    intro hrows
    apply hcache
    apply AList.ext
    simpa [Keyed.rows] using hrows
  refine ⟨?_, ?_⟩
  · rw [h.count]
    exact List.length_pos_of_mem hmem |>.ne'
  · intro hempty
    have hindex := (h.index (decodeLastSeq bytes) key).mpr ⟨bytes, Keyed.mem_rows.mp hmem, rfl⟩
    simp [hempty] at hindex

theorem ite_flip {α : Type} (b : Bool) (x y : α) :
    (if b = true then x else y) = if b = false then y else x := by
  cases b <;> rfl

/-- The shard `clear` commits, table by table and field by field. -/
def cleared (faults : Faults) (shard : Shard) : Shard where
  cache := if wipes faults .cache then ∅ else shard.cache
  seqIndex := if wipes faults .seqIndex then ∅ else shard.seqIndex
  summary :=
    { totalBytes := if zeroes faults .totalBytes then 0 else shard.summary.totalBytes
      entryCount := if zeroes faults .entryCount then 0 else shard.summary.entryCount
      maxSeq := if zeroes faults .maxSeq then 0 else shard.summary.maxSeq }

theorem clearTables_eq {faults : Faults} (hbegin : fails faults .beginWrite = false)
    (hcommit : fails faults .commit = false) (shard : Shard) :
    clearTables faults shard = cleared faults shard := by
  cases hcache : fails faults (.openTable .maintain .cache) <;>
    cases hindex : fails faults (.openTable .maintain .seqIndex) <;>
    cases hsummary : fails faults (.openTable .maintain .summary) <;>
    simp [clearTables, cleared, hbegin, hcommit, wipes, zeroes, hcache, hindex, hsummary,
      ite_flip]

/-- With the rows there, nothing else may change. -/
theorem cleared_eq_iff {faults : Faults} {shard : Shard} (h : Consistent shard)
    (hcache : shard.cache ≠ ∅) (hwipe : wipes faults .cache = false) :
    cleared faults shard = shard ↔
      wipes faults .seqIndex = false ∧ zeroes faults .entryCount = false ∧
        (zeroes faults .totalBytes = false ∨ shard.summary.totalBytes = 0) ∧
        (zeroes faults .maxSeq = false ∨ shard.summary.maxSeq = 0) := by
  obtain ⟨hcount, hindex⟩ := h.of_nonempty hcache
  have hzero (field : Field) (n : Nat) :
      (if zeroes faults field = true then 0 else n) = n ↔ zeroes faults field = false ∨ n = 0 := by
    cases zeroes faults field <;> simp [eq_comm]
  have hempty : (if wipes faults .seqIndex = true then ∅ else shard.seqIndex) = shard.seqIndex ↔
      wipes faults .seqIndex = false := by
    cases wipes faults .seqIndex <;> simp [hindex, eq_comm]
  obtain ⟨cache, ⟨total, count, maxSeq⟩, seqIndex⟩ := shard
  simp only at hcount hempty
  simp only [cleared, hwipe, Bool.false_eq_true, if_false, Shard.mk.injEq, Summary.mk.injEq,
    true_and, hzero, hempty, hcount, or_false]
  tauto

/-- With the rows gone, the index and the summary have to be gone too. -/
theorem cleared_eq_empty_iff {faults : Faults} {shard : Shard} (h : Consistent shard)
    (hcache : shard.cache ≠ ∅) (hwipe : wipes faults .cache = true) :
    cleared faults shard = Shard.empty ↔
      wipes faults .seqIndex = true ∧ zeroes faults .entryCount = true ∧
        (zeroes faults .totalBytes = true ∨ shard.summary.totalBytes = 0) ∧
        (zeroes faults .maxSeq = true ∨ shard.summary.maxSeq = 0) := by
  obtain ⟨hcount, hindex⟩ := h.of_nonempty hcache
  simp only [cleared, hwipe, if_true, Shard.empty, Shard.mk.injEq, Summary.mk.injEq, true_and,
    ite_eq_left_iff, hcount, hindex]
  cases zeroes faults .totalBytes <;> cases zeroes faults .entryCount <;>
    cases zeroes faults .maxSeq <;> cases wipes faults .seqIndex <;> simp

theorem clear_atomic_iff (identityFromSlice : Bytes → Option CacheIdentity) {faults : Faults}
    {shard : Shard} (h : Consistent shard) :
    Atomic identityFromSlice faults shard .clear ↔ ClearAtomicWhen faults shard := by
  have hfull : ShardOp.clear.committed identityFromSlice noFaults shard = Shard.empty := rfl
  simp only [Atomic, hfull]
  simp only [ShardOp.committed]
  by_cases hbegin : fails faults .beginWrite = true
  · refine iff_of_true ?_ (Or.inl hbegin)
    simp [clearTables, hbegin, h]
  by_cases hcommit : fails faults .commit = true
  · refine iff_of_true ?_ (Or.inr (Or.inl hcommit))
    simp [clearTables, hbegin, hcommit, h]
  rw [clearTables_eq (by simpa using hbegin) (by simpa using hcommit)]
  have hconsistent : Consistent (cleared faults shard) ∧
      (cleared faults shard = shard ∨ cleared faults shard = Shard.empty) ↔
        cleared faults shard = shard ∨ cleared faults shard = Shard.empty := by
    refine and_iff_right_of_imp ?_
    rintro (heq | heq)
    · rwa [heq]
    · rw [heq]
      exact consistent_empty
  rw [hconsistent]
  by_cases hcache : shard.cache = ∅
  · refine iff_of_true ?_ (Or.inr (Or.inr (Or.inl hcache)))
    obtain ⟨htotal, hcount, hindex⟩ := h.of_empty hcache
    obtain ⟨cache, ⟨total, count, maxSeq⟩, seqIndex⟩ := shard
    cases hzero : zeroes faults .maxSeq <;> simp_all [cleared, Shard.empty]
  simp only [ClearAtomicWhen, hbegin, hcommit, hcache, Bool.false_eq_true, false_or]
  cases hwipe : wipes faults .cache with
  | true =>
      have hchanged : cleared faults shard ≠ shard := by
        intro heq
        exact hcache (by rw [← heq]; simp [cleared, hwipe])
      simp [hchanged, cleared_eq_empty_iff h hcache hwipe]
  | false =>
      have hkept : cleared faults shard ≠ Shard.empty := by
        intro heq
        have hrows := congrArg Shard.cache heq
        simp only [cleared, hwipe, Bool.false_eq_true, if_false] at hrows
        exact hcache hrows
      simp [hkept, cleared_eq_iff h hcache hwipe]

/-! ## Every operation -/

section

variable (identityFromSlice : Bytes → Option CacheIdentity) {faults : Faults} {shard : Shard}

theorem committed_rebuild (faults : Faults) (shard : Shard) :
    ShardOp.rebuildSummary.committed identityFromSlice faults shard =
      if AllSucceed faults (healSites shard.cache) then recounted shard.cache else shard := by
  have hsites : AllSucceed faults (healSites shard.cache) ↔
      fails faults .beginWrite = false ∧ fails faults .commit = false ∧
        AllSucceed faults (rebuildSites (shard.cache.rows.map Prod.fst)) := by
    simp only [healSites, allSucceed_append, allSucceed_cons, allSucceed_nil, and_true,
      List.cons_append]
    tauto
  simp only [ShardOp.committed, hsites]
  cases fails faults .beginWrite with
  | true => simp
  | false =>
      cases hrebuild : rebuildSummaryInTxn faults shard with
      | ok rebuilt =>
          obtain ⟨hall, rfl⟩ := rebuildSummaryInTxn_ok_iff.mp hrebuild
          cases fails faults .commit <;> simp [hall]
      | error _ =>
          have hnot : ¬ AllSucceed faults (rebuildSites (shard.cache.rows.map Prod.fst)) := by
            intro hall
            rw [rebuildSummaryInTxn_ok_iff.mpr ⟨hall, rfl⟩] at hrebuild
            cases hrebuild
          simp [hnot]

theorem needsRebuild_eq (faults : Faults) {shard : Shard} (h : Consistent shard) :
    needsRebuild faults shard = misreadsOneCount faults shard.cache := by
  have hcount : shard.summary.get .entryCount = shard.cache.rows.length := h.count
  simp only [needsRebuild, misreadsOneCount, readSummaryField, hcount]
  cases hrows : shard.cache.rows with
  | nil => cases faults (.getField .entryCount) <;> simp
  | cons row rest =>
      cases hget : faults (.getField .entryCount) <;>
        cases fails faults .beginRead <;> cases fails faults (.openTable .scan .cache) <;>
        cases fails faults .tableLen <;> cases fails faults (.openTable .scan .summary) <;>
        simp [fails, hget]

theorem committed_heal (faults : Faults) {shard : Shard} (h : Consistent shard) :
    ShardOp.healSummaryIfInconsistent.committed identityFromSlice faults shard =
      if misreadsOneCount faults shard.cache = true then
        ShardOp.rebuildSummary.committed identityFromSlice faults shard
      else shard := by
  rw [← needsRebuild_eq faults h]
  rfl

theorem heal_atomic_iff (h : Consistent shard) :
    Atomic identityFromSlice faults shard .healSummaryIfInconsistent ↔
      HealAtomicWhen faults shard := by
  have hwhole : ShardOp.healSummaryIfInconsistent.committed identityFromSlice noFaults shard =
      shard := by
    rw [committed_heal identityFromSlice noFaults h]
    simp [misreadsOneCount, fails, noFaults]
  simp only [Atomic, hwhole, or_self, HealAtomicWhen]
  rw [committed_heal identityFromSlice faults h]
  cases hread : misreadsOneCount faults shard.cache with
  | false => exact iff_of_true ⟨h, rfl⟩ (Or.inl rfl)
  | true =>
      simp only [if_true, reduceCtorEq, false_or]
      rw [committed_rebuild]
      by_cases hsites : AllSucceed faults (healSites shard.cache)
      · rw [if_pos hsites]
        simp only [hsites, not_true_eq_false, false_or]
        constructor
        · rintro ⟨-, heq⟩
          exact (congrArg (fun s : Shard => s.summary.maxSeq) heq).ge.trans
            (recounted_maxSeq _).le
        · exact fun hmark => ⟨consistent_recounted _, recounted_eq h hmark⟩
      · rw [if_neg hsites]
        exact iff_of_true ⟨h, rfl⟩ (Or.inl hsites)

/-- A rebuild in a transaction of its own commits all of it or nothing. -/
theorem rebuild_atomic (h : Consistent shard) :
    Atomic identityFromSlice faults shard .rebuildSummary := by
  have hwhole : ShardOp.rebuildSummary.committed identityFromSlice noFaults shard =
      recounted shard.cache := by
    rw [committed_rebuild, if_pos (allSucceed_noFaults _)]
  simp only [Atomic, hwhole]
  rw [committed_rebuild]
  split
  · exact ⟨consistent_recounted _, Or.inr rfl⟩
  · exact ⟨h, Or.inl rfl⟩

theorem committed_purge (pathIsDefinitelyGone : String → Bool) (currentAnalyzerVersion : String) :
    (ShardOp.purgeOrphanEntries pathIsDefinitelyGone currentAnalyzerVersion).committed
        identityFromSlice faults shard =
      if fails faults .beginRead = true ∨ scanKeys faults shard
          (cacheKeyIsOrphan identityFromSlice pathIsDefinitelyGone currentAnalyzerVersion) = []
      then shard
      else (removalTxn faults shard (scanKeys faults shard
        (cacheKeyIsOrphan identityFromSlice pathIsDefinitelyGone currentAnalyzerVersion))).1 := by
  simp only [ShardOp.committed, purgeFromTable]
  generalize scanKeys faults shard
    (cacheKeyIsOrphan identityFromSlice pathIsDefinitelyGone currentAnalyzerVersion) = keys
  by_cases hread : fails faults .beginRead = true
  · simp [hread]
  · cases keys with
    | nil => simp
    | cons key rest =>
        simp only [hread, Bool.false_eq_true, if_false, List.isEmpty_cons, false_or]
        split <;> simp [*]

/-- An operation is all or nothing on a consistent shard exactly when it drops
its transaction or no discarded failure changes what it commits. -/
theorem committed_atomic_iff (h : Consistent shard) (op : ShardOp) :
    Atomic identityFromSlice faults shard op ↔ AtomicWhen identityFromSlice faults shard op := by
  cases op with
  | writePendingInserts batch => exact insert_atomic_iff identityFromSlice h batch
  | remove key => exact removalTxn_atomic_iff h (Or.inl rfl)
  | removeKeys keys =>
      cases keys with
      | nil => simp [Atomic, AtomicWhen, ShardOp.committed, removeKeysFromTable, h]
      | cons key rest =>
          simp only [Atomic, AtomicWhen, ShardOp.committed, removeKeysFromTable,
            List.isEmpty_cons, Bool.false_eq_true, if_false, reduceCtorEq, false_or]
          exact removalTxn_atomic_iff h (Or.inl rfl)
  | invalidatePackages packageNames =>
      cases packageNames with
      | nil => simp [Atomic, AtomicWhen, ShardOp.committed, h]
      | cons name rest =>
          simp only [Atomic, AtomicWhen, ShardOp.committed, invalidateInTable,
            List.isEmpty_cons, Bool.false_eq_true, if_false, reduceCtorEq, false_or,
            scanKeys_noFaults, ← scanKeys_eq]
          exact removalTxn_atomic_iff h (scanKeys_scanned _ _ _)
  | purgeOrphanEntries gone version =>
      have hfull : (ShardOp.purgeOrphanEntries gone version).committed identityFromSlice noFaults
          shard = (removalTxn noFaults shard
            (matchingKeys shard.cache (cacheKeyIsOrphan identityFromSlice gone version))).1 := by
        rw [committed_purge, scanKeys_noFaults]
        split
        · rename_i hnone
          rw [hnone.resolve_left (by simp [fails, noFaults])]
          obtain ⟨hcache, hmark⟩ := removalTxn_noFaults h []
          exact h.eq_of (removalTxn_consistent summaryReadable_noFaults h []) hcache.symm
            hmark.symm
        · rfl
      simp only [Atomic, AtomicWhen, hfull, ← scanKeys_eq]
      rw [committed_purge, ← or_assoc]
      split
      · rename_i hnone
        exact iff_of_true ⟨h, Or.inl rfl⟩ (Or.inl hnone)
      · rename_i hsome
        rw [or_iff_right hsome]
        exact removalTxn_atomic_iff h (scanKeys_scanned _ _ _)
  | clear => exact clear_atomic_iff identityFromSlice h
  | rebuildSummary => exact iff_of_true (rebuild_atomic identityFromSlice h) trivial
  | healSummaryIfInconsistent => exact heal_atomic_iff identityFromSlice h

end

def oneRowShard : Shard where
  cache := (∅ : Keyed Key Bytes).insert "react" [7, 0, 0, 0, 0, 0, 0, 0, 1]
  summary := ⟨9, 1, 7⟩
  seqIndex := {(7, "react")}

theorem oneRowShard_consistent : Consistent oneRowShard where
  total := rfl
  count := rfl
  index := by
    intro seq key
    rw [show oneRowShard.cache = (∅ : Keyed Key Bytes).insert "react" [7, 0, 0, 0, 0, 0, 0, 0, 1]
      from rfl, Keyed.lookup_insert_eq]
    by_cases hkey : key = "react"
    · subst hkey
      simp [oneRowShard, decodeLastSeq, seqPrefixLen, leValue, eq_comm]
    · simp [oneRowShard, hkey]
  bound := by
    intro key bytes hrow
    rw [show oneRowShard.cache = (∅ : Keyed Key Bytes).insert "react" [7, 0, 0, 0, 0, 0, 0, 0, 1]
      from rfl, Keyed.lookup_insert_eq] at hrow
    split at hrow
    · cases hrow
      decide
    · simp at hrow

def indexKept : Faults := fun site =>
  if site = .retain .seqIndex then some "I/O error" else none

def markKept : Faults := fun site =>
  if site = .putField .maintain .maxSeq then some "I/O error" else none

/-- A clear whose wipe of the index fails commits the empty cache with the old
index, and the count-only check on the next open does not see it; one that fails
to write the high-water mark commits the empty tables with the old mark. -/
theorem clear_with_index_kept_not_atomic :
    Consistent oneRowShard ∧
      ¬ Atomic (fun _ => none) indexKept oneRowShard .clear ∧
      ¬ Consistent (healSummaryIfInconsistent noFaults
        (ShardOp.clear.committed (fun _ => none) indexKept oneRowShard)) ∧
      ¬ Atomic (fun _ => none) markKept oneRowShard .clear := by
  have htorn : ¬ Consistent (ShardOp.clear.committed (fun _ => none) indexKept oneRowShard) := by
    intro hcons
    obtain ⟨bytes, hrow, _⟩ := (hcons.index 7 "react").mp (by decide)
    cases hrow
  have hmark : (ShardOp.clear.committed (fun _ => none) markKept oneRowShard).summary =
      ⟨0, 0, 7⟩ := rfl
  refine ⟨oneRowShard_consistent, fun hatomic => htorn hatomic.1, htorn, ?_⟩
  rintro ⟨-, hbefore | hafter⟩
  · rw [hbefore] at hmark
    exact absurd hmark (by decide)
  · rw [hafter] at hmark
    exact absurd hmark (by decide)

/-- The same clear without the failure is all or nothing. -/
theorem clear_without_failures_atomic :
    Atomic (fun _ => none) noFaults oneRowShard .clear :=
  (committed_atomic_iff (fun _ => none) oneRowShard_consistent .clear).mpr
    (Or.inr (Or.inr (Or.inr (Or.inl ⟨rfl, rfl, rfl, Or.inl rfl, Or.inl rfl⟩))))

end ImportLens.Cache
