import ImportLens.Cache.Disk.Shard
import Mathlib.Tactic.Linarith

/-!
# The bookkeeping invariant of a shard

Four pieces of state repeat what the cache table says: the byte total, the
entry count, the `(last_seq, key)` index and the largest sequence number.
`Consistent` says that they agree with the table.  Each loop of the store is
followed row by row through `Tracks`, which carries a slack for a total that
was read wrongly at the start: with slack zero it is consistency, and with
another slack it says how far off the totals end.
-/

namespace ImportLens.Cache

open ImportLens.Support

/-! ## Outcomes of a transaction -/

theorem bind_eq_ok {α β : Type} {x : Except String α} {f : α → Except String β} {b : β} :
    (x >>= f) = .ok b ↔ ∃ a, x = .ok a ∧ f a = .ok b := by
  cases x with
  | error e => simp [bind, Except.bind]
  | ok a => simp [bind, Except.bind]

theorem attempt_eq_ok {faults : Faults} {site : Site} {message : String} {u : Unit} :
    attempt faults site message = .ok u ↔ fails faults site = false := by
  cases h : faults site <;> simp [attempt, fails, h]

/-! ## The largest sequence number of a list of rows -/

def maxSeqOf (rows : List (Key × Bytes)) : Nat :=
  rows.foldr (fun row seq => max (decodeLastSeq row.2) seq) 0

@[simp] theorem maxSeqOf_nil : maxSeqOf [] = 0 := rfl

@[simp] theorem maxSeqOf_cons (row : Key × Bytes) (rows : List (Key × Bytes)) :
    maxSeqOf (row :: rows) = max (decodeLastSeq row.2) (maxSeqOf rows) := rfl

theorem le_maxSeqOf {rows : List (Key × Bytes)} {row : Key × Bytes} (h : row ∈ rows) :
    decodeLastSeq row.2 ≤ maxSeqOf rows := by
  induction rows with
  | nil => cases h
  | cons head rest ih =>
      rw [maxSeqOf_cons]
      rcases List.mem_cons.mp h with rfl | hrest
      · exact le_max_left _ _
      · exact (ih hrest).trans (le_max_right _ _)

theorem maxSeqOf_le {rows : List (Key × Bytes)} {seq : Nat}
    (h : ∀ row ∈ rows, decodeLastSeq row.2 ≤ seq) : maxSeqOf rows ≤ seq := by
  induction rows with
  | nil => exact Nat.zero_le _
  | cons row rest ih =>
      rw [maxSeqOf_cons]
      exact max_le (h row List.mem_cons_self) (ih fun other hother => h other (by simp [hother]))

theorem maxSeqOf_le_insertAll (cache : Keyed Key Bytes) {batch : List (Key × Bytes)}
    (hnodup : (batch.map Prod.fst).Nodup) :
    maxSeqOf batch ≤ maxSeqOf (cache.insertAll batch).rows :=
  maxSeqOf_le fun _ hrow =>
    le_maxSeqOf (Keyed.mem_rows.mpr (Keyed.lookup_insertAll_of_mem hnodup hrow cache))

/-! ## Consistency -/

/-- The index holds exactly the pair of each row. -/
def Indexes (seqIndex : Finset (Nat × Key)) (cache : Keyed Key Bytes) : Prop :=
  ∀ seq key, (seq, key) ∈ seqIndex ↔
    ∃ bytes, cache.lookup key = some bytes ∧ decodeLastSeq bytes = seq

/-- The four redundant pieces of a shard agree with its cache table. -/
structure Consistent (shard : Shard) : Prop where
  total : shard.summary.totalBytes = shard.cache.total List.length
  count : shard.summary.entryCount = shard.cache.rows.length
  index : Indexes shard.seqIndex shard.cache
  bound : ∀ key bytes, shard.cache.lookup key = some bytes →
    decodeLastSeq bytes ≤ shard.summary.maxSeq

/-- The signed totals of a loop are off by a slack from the table they run
along, and the index is exact. -/
structure Tracks (slackBytes slackCount : Int) (cache : Keyed Key Bytes)
    (seqIndex : Finset (Nat × Key)) (totalBytes entryCount : Int) : Prop where
  total : totalBytes + slackBytes = (cache.total List.length : Int)
  count : entryCount + slackCount = (cache.rows.length : Int)
  index : Indexes seqIndex cache

theorem consistent_empty : Consistent Shard.empty where
  total := rfl
  count := rfl
  index := by
    intro seq key
    simp [Shard.empty]
  bound := by
    intro key bytes h
    simp [Shard.empty] at h

/-! ## One row -/

theorem rows_length_insert (cache : Keyed Key Bytes) (key : Key) (bytes : Bytes) :
    (Keyed.rows (cache.insert key bytes)).length + (if (cache.lookup key).isSome then 1 else 0) =
      cache.rows.length + 1 := by
  have h := Keyed.total_insert (fun _ => 1) cache key bytes
  rw [← Keyed.rows_length, ← Keyed.rows_length] at h
  cases hl : cache.lookup key <;> simp [hl] at h ⊢ <;> omega

theorem rows_length_erase (cache : Keyed Key Bytes) (key : Key) :
    (Keyed.rows (cache.erase key)).length + (if (cache.lookup key).isSome then 1 else 0) =
      cache.rows.length := by
  have h := Keyed.total_erase (fun _ => 1) cache key
  rw [← Keyed.rows_length, ← Keyed.rows_length] at h
  cases hl : cache.lookup key <;> simp [hl] at h ⊢ <;> omega

theorem Indexes.erase {seqIndex : Finset (Nat × Key)} {cache : Keyed Key Bytes}
    (h : Indexes seqIndex cache) {key : Key} {old : Bytes} (hold : cache.lookup key = some old) :
    Indexes (seqIndex.erase (decodeLastSeq old, key)) (cache.erase key) := by
  intro seq key'
  rw [Finset.mem_erase, h seq key', Keyed.lookup_erase_eq]
  by_cases hk : key' = key
  · subst hk
    rw [if_pos rfl, hold]
    simp
    intro hne heq
    exact hne heq.symm
  · simp [hk]

theorem Indexes.insert {seqIndex : Finset (Nat × Key)} {cache : Keyed Key Bytes} {key : Key}
    (h : Indexes seqIndex (cache.erase key)) (bytes : Bytes) :
    Indexes (insert (decodeLastSeq bytes, key) seqIndex) (cache.insert key bytes) := by
  intro seq key'
  rw [Finset.mem_insert, h seq key', Keyed.lookup_erase_eq, Keyed.lookup_insert_eq]
  by_cases hk : key' = key
  · subst hk
    simp [eq_comm]
  · simp [hk]

theorem Indexes.erase_absent {seqIndex : Finset (Nat × Key)} {cache : Keyed Key Bytes}
    (h : Indexes seqIndex cache) {key : Key} (hkey : cache.lookup key = none) :
    Indexes seqIndex (cache.erase key) := by
  intro seq key'
  rw [h seq key', Keyed.lookup_erase_eq]
  by_cases hk : key' = key
  · subst hk
    simp [hkey]
  · simp [hk]

theorem insertRow_tracks {slackBytes slackCount : Int} {ledger : Ledger} (key : Key)
    (bytes : Bytes)
    (h : Tracks slackBytes slackCount ledger.cache ledger.seqIndex ledger.totalBytes
      ledger.entryCount) :
    Tracks slackBytes slackCount (insertRow key bytes ledger).cache
      (insertRow key bytes ledger).seqIndex (insertRow key bytes ledger).totalBytes
      (insertRow key bytes ledger).entryCount := by
  have htotal := Keyed.total_insert List.length ledger.cache key bytes
  have hcount := rows_length_insert ledger.cache key bytes
  obtain ⟨ht, hc, hi⟩ := h
  cases hold : ledger.cache.lookup key with
  | some old =>
      simp only [hold, Option.map_some, Option.getD_some, Option.isSome_some, if_true]
        at htotal hcount
      simp only [insertRow, hold]
      refine ⟨?_, ?_, (hi.erase hold).insert bytes⟩
      · omega
      · omega
  | none =>
      simp only [hold, Option.map_none, Option.getD_none, Option.isSome_none] at htotal hcount
      simp only [insertRow, hold]
      refine ⟨?_, ?_, (hi.erase_absent hold).insert bytes⟩
      · omega
      · simp at hcount
        omega

theorem removeRow_tracks {slackBytes slackCount : Int} {acc : Removal} (key : Key)
    (h : Tracks slackBytes slackCount acc.cache acc.seqIndex acc.totalBytes acc.entryCount) :
    Tracks slackBytes slackCount (removeRow key acc).cache (removeRow key acc).seqIndex
      (removeRow key acc).totalBytes (removeRow key acc).entryCount := by
  have htotal := Keyed.total_erase List.length acc.cache key
  have hcount := rows_length_erase acc.cache key
  obtain ⟨ht, hc, hi⟩ := h
  cases hold : acc.cache.lookup key with
  | some old =>
      simp only [hold, Option.map_some, Option.getD_some, Option.isSome_some, if_true]
        at htotal hcount
      simp only [removeRow, hold]
      refine ⟨?_, ?_, hi.erase hold⟩ <;> omega
  | none =>
      simp only [removeRow, hold]
      exact ⟨ht, hc, hi⟩

@[simp] theorem insertRow_cache (key : Key) (bytes : Bytes) (ledger : Ledger) :
    (insertRow key bytes ledger).cache = ledger.cache.insert key bytes := by
  cases hold : ledger.cache.lookup key <;> simp [insertRow, hold]

@[simp] theorem insertRow_maxSeq (key : Key) (bytes : Bytes) (ledger : Ledger) :
    (insertRow key bytes ledger).maxSeq = max ledger.maxSeq (decodeLastSeq bytes) := by
  cases hold : ledger.cache.lookup key <;> simp [insertRow, hold]

@[simp] theorem removeRow_cache (key : Key) (acc : Removal) :
    (removeRow key acc).cache = acc.cache.erase key := by
  cases hold : acc.cache.lookup key with
  | some old => simp [removeRow, hold]
  | none => simp [removeRow, hold, Keyed.erase_absent hold]

theorem removeRow_freed (key : Key) (acc : Removal) :
    (removeRow key acc).totalBytes + (removeRow key acc).freed = acc.totalBytes + acc.freed := by
  cases hold : acc.cache.lookup key with
  | some old =>
      simp only [removeRow, hold]
      push_cast
      omega
  | none => simp [removeRow, hold]

/-! ## Whole loops -/

def insertAll (batch : List (Key × Bytes)) (ledger : Ledger) : Ledger :=
  batch.foldl (fun acc row => insertRow row.1 row.2 acc) ledger

def removeAll (keys : List Key) (acc : Removal) : Removal :=
  keys.foldl (fun acc key => removeRow key acc) acc

theorem insertRows_eq_ok {faults : Faults} {round : Nat} {batch : List (Key × Bytes)}
    {ledger final : Ledger} (h : insertRows faults round batch ledger = .ok final) :
    final = insertAll batch ledger := by
  induction batch generalizing round ledger with
  | nil =>
      cases h
      rfl
  | cons row rest ih =>
      simp only [insertRows, bind_eq_ok] at h
      obtain ⟨_, _, h⟩ := h
      split at h
      · obtain ⟨_, _, h⟩ := bind_eq_ok.mp h
        obtain ⟨_, _, h⟩ := bind_eq_ok.mp h
        exact ih h
      · obtain ⟨_, _, h⟩ := bind_eq_ok.mp h
        exact ih h

theorem removeRows_eq_ok {faults : Faults} {round : Nat} {keys : List Key}
    {acc final : Removal} (h : removeRows faults round keys acc = .ok final) :
    final = removeAll keys acc := by
  induction keys generalizing round acc with
  | nil =>
      cases h
      rfl
  | cons key rest ih =>
      simp only [removeRows, bind_eq_ok] at h
      obtain ⟨_, _, h⟩ := h
      split at h
      · obtain ⟨_, _, h⟩ := bind_eq_ok.mp h
        exact ih h
      · exact ih h

theorem insertAll_tracks {slackBytes slackCount : Int} {ledger : Ledger}
    (batch : List (Key × Bytes))
    (h : Tracks slackBytes slackCount ledger.cache ledger.seqIndex ledger.totalBytes
      ledger.entryCount) :
    Tracks slackBytes slackCount (insertAll batch ledger).cache (insertAll batch ledger).seqIndex
      (insertAll batch ledger).totalBytes (insertAll batch ledger).entryCount := by
  induction batch generalizing ledger with
  | nil => exact h
  | cons row rest ih => exact ih (insertRow_tracks row.1 row.2 h)

theorem removeAll_tracks {slackBytes slackCount : Int} {acc : Removal} (keys : List Key)
    (h : Tracks slackBytes slackCount acc.cache acc.seqIndex acc.totalBytes acc.entryCount) :
    Tracks slackBytes slackCount (removeAll keys acc).cache (removeAll keys acc).seqIndex
      (removeAll keys acc).totalBytes (removeAll keys acc).entryCount := by
  induction keys generalizing acc with
  | nil => exact h
  | cons key rest ih => exact ih (removeRow_tracks key h)

theorem removeAll_freed (keys : List Key) (acc : Removal) :
    (removeAll keys acc).totalBytes + (removeAll keys acc).freed =
      acc.totalBytes + acc.freed := by
  induction keys generalizing acc with
  | nil => rfl
  | cons key rest ih => exact (ih (removeRow key acc)).trans (removeRow_freed key acc)

/-- A bound on the sequence numbers that covers the start of the loop covers
its end. -/
theorem insertAll_bound {ledger : Ledger} (batch : List (Key × Bytes))
    (h : ∀ key bytes, ledger.cache.lookup key = some bytes →
      decodeLastSeq bytes ≤ ledger.maxSeq) :
    ∀ key bytes, (insertAll batch ledger).cache.lookup key = some bytes →
      decodeLastSeq bytes ≤ (insertAll batch ledger).maxSeq := by
  induction batch generalizing ledger with
  | nil => exact h
  | cons row rest ih =>
      apply ih
      intro key bytes hrow
      rw [insertRow_cache, Keyed.lookup_insert_eq] at hrow
      rw [insertRow_maxSeq]
      split at hrow
      · cases hrow
        exact le_max_right _ _
      · exact (h key bytes hrow).trans (le_max_left _ _)

theorem insertAll_cache (batch : List (Key × Bytes)) (ledger : Ledger) :
    (insertAll batch ledger).cache = ledger.cache.insertAll batch := by
  induction batch generalizing ledger with
  | nil => rfl
  | cons row rest ih => exact (ih _).trans (by rw [insertRow_cache]; rfl)

theorem insertAll_maxSeq (batch : List (Key × Bytes)) (ledger : Ledger) :
    (insertAll batch ledger).maxSeq = max ledger.maxSeq (maxSeqOf batch) := by
  induction batch generalizing ledger with
  | nil => simp [insertAll]
  | cons row rest ih =>
      rw [show insertAll (row :: rest) ledger = insertAll rest (insertRow row.1 row.2 ledger)
        from rfl, ih, insertRow_maxSeq, maxSeqOf_cons, max_assoc]

theorem removeAll_cache (keys : List Key) (acc : Removal) :
    (removeAll keys acc).cache = acc.cache.eraseAll keys := by
  induction keys generalizing acc with
  | nil => rfl
  | cons key rest ih => exact (ih _).trans (by rw [removeRow_cache]; rfl)

/-! ## Rebuild -/

def recount (rows : List (Key × Bytes)) (acc : Recount) : Recount :=
  rows.foldl (fun acc row => recountRow row acc) acc

def recounted (cache : Keyed Key Bytes) : Shard :=
  let acc := recount cache.rows ⟨⟨0, 0, 0⟩, ∅⟩
  ⟨cache, acc.summary, acc.seqIndex⟩

theorem recountRows_eq_ok {faults : Faults} {rows : List (Key × Bytes)} {acc final : Recount}
    (h : recountRows faults rows acc = .ok final) : final = recount rows acc := by
  induction rows generalizing acc with
  | nil =>
      cases h
      rfl
  | cons row rest ih =>
      simp only [recountRows, bind_eq_ok] at h
      obtain ⟨_, _, _, _, h⟩ := h
      exact ih h

theorem recount_totals (rows : List (Key × Bytes)) (acc : Recount) :
    (recount rows acc).summary.totalBytes =
        acc.summary.totalBytes + (rows.map fun row => row.2.length).sum ∧
      (recount rows acc).summary.entryCount = acc.summary.entryCount + rows.length := by
  induction rows generalizing acc with
  | nil => simp [recount]
  | cons row rest ih =>
      obtain ⟨htotal, hcount⟩ := ih (recountRow row acc)
      rw [show recount (row :: rest) acc = recount rest (recountRow row acc) from rfl,
        htotal, hcount]
      simp only [recountRow, List.map_cons, List.sum_cons, List.length_cons]
      omega

theorem recount_maxSeq (rows : List (Key × Bytes)) (acc : Recount) :
    (recount rows acc).summary.maxSeq = max acc.summary.maxSeq (maxSeqOf rows) := by
  induction rows generalizing acc with
  | nil => simp [recount]
  | cons row rest ih =>
      rw [show recount (row :: rest) acc = recount rest (recountRow row acc) from rfl, ih,
        maxSeqOf_cons]
      simp only [recountRow]
      omega

theorem mem_recount_seqIndex (rows : List (Key × Bytes)) (acc : Recount) (seq : Nat)
    (key : Key) :
    (seq, key) ∈ (recount rows acc).seqIndex ↔
      (seq, key) ∈ acc.seqIndex ∨ ∃ bytes, (key, bytes) ∈ rows ∧ decodeLastSeq bytes = seq := by
  induction rows generalizing acc with
  | nil => simp [recount]
  | cons row rest ih =>
      rw [show recount (row :: rest) acc = recount rest (recountRow row acc) from rfl, ih]
      obtain ⟨rowKey, rowBytes⟩ := row
      simp only [recountRow, Finset.mem_insert, Prod.mk.injEq, List.mem_cons]
      constructor
      · rintro ((⟨rfl, rfl⟩ | hacc) | ⟨bytes, hmem, rfl⟩)
        · exact Or.inr ⟨rowBytes, Or.inl ⟨rfl, rfl⟩, rfl⟩
        · exact Or.inl hacc
        · exact Or.inr ⟨bytes, Or.inr hmem, rfl⟩
      · rintro (hacc | ⟨bytes, ⟨rfl, rfl⟩ | hmem, rfl⟩)
        · exact Or.inl (Or.inr hacc)
        · exact Or.inl (Or.inl ⟨rfl, rfl⟩)
        · exact Or.inr ⟨bytes, hmem, rfl⟩

theorem consistent_recounted (cache : Keyed Key Bytes) : Consistent (recounted cache) where
  total := by
    have h := (recount_totals cache.rows ⟨⟨0, 0, 0⟩, ∅⟩).1
    simpa [recounted, Keyed.total, Keyed.rows, Function.comp_def] using h
  count := by
    have h := (recount_totals cache.rows ⟨⟨0, 0, 0⟩, ∅⟩).2
    simpa [recounted] using h
  index := by
    intro seq key
    have h := mem_recount_seqIndex cache.rows ⟨⟨0, 0, 0⟩, ∅⟩ seq key
    simpa [recounted, Keyed.mem_rows] using h
  bound := by
    intro key bytes hrow
    simp only [recounted, recount_maxSeq]
    exact (le_maxSeqOf (Keyed.mem_rows.mpr hrow)).trans (le_max_right _ _)

/-! ## Whole transactions -/

theorem writeSummary_eq_ok {faults : Faults} {phase : Phase} {summary summary' : Summary}
    {totalBytes entryCount : Int} {maxSeq : Option Nat} {consistent : Bool}
    (h : writeSummary faults phase summary totalBytes entryCount maxSeq =
      .ok (consistent, summary')) :
    ((totalBytes < 0 ∨ entryCount < 0) ∧ consistent = false ∧ summary' = summary) ∨
      (0 ≤ totalBytes ∧ 0 ≤ entryCount ∧ consistent = true ∧
        summary' = ⟨totalBytes.toNat, entryCount.toNat, maxSeq.getD summary.maxSeq⟩) := by
  unfold writeSummary at h
  split at h
  · rename_i hdrift
    cases h
    exact Or.inl ⟨hdrift, rfl, rfl⟩
  · rename_i hsound
    simp only [bind_eq_ok] at h
    obtain ⟨_, _, _, _, h⟩ := h
    refine Or.inr ⟨by omega, by omega, ?_⟩
    cases maxSeq with
    | some seq =>
        obtain ⟨_, _, h⟩ := bind_eq_ok.mp h
        cases h
        exact ⟨rfl, rfl⟩
    | none =>
        cases h
        exact ⟨rfl, rfl⟩

theorem rebuildSummaryInTxn_eq_ok {faults : Faults} {shard rebuilt : Shard}
    (h : rebuildSummaryInTxn faults shard = .ok rebuilt) : rebuilt = recounted shard.cache := by
  simp only [rebuildSummaryInTxn, bind_eq_ok] at h
  obtain ⟨_, _, _, _, _, _, acc, hacc, ⟨consistent, summary⟩, hwrite, h⟩ := h
  have hrecount := recountRows_eq_ok hacc
  rcases writeSummary_eq_ok hwrite with ⟨hneg, _, _⟩ | ⟨_, _, _, hsummary⟩
  · omega
  · cases h
    rw [hsummary, recounted, ← hrecount]
    simp

/-- The loop totals at the start of a transaction, with the slack of a summary
field that was read as 0. -/
theorem start_tracks (faults : Faults) {shard : Shard} (h : Consistent shard) :
    Tracks (shard.summary.totalBytes - readSummaryField faults shard.summary .totalBytes)
      (shard.summary.entryCount - readSummaryField faults shard.summary .entryCount)
      shard.cache shard.seqIndex (readSummaryField faults shard.summary .totalBytes)
      (readSummaryField faults shard.summary .entryCount) where
  total := by
    rw [← h.total]
    omega
  count := by
    rw [← h.count]
    omega
  index := h.index

theorem readSummaryField_eq {faults : Faults} {field : Field}
    (h : fails faults (.getField field) = false) (summary : Summary) :
    readSummaryField faults summary field = summary.get field := by
  cases hf : faults (.getField field) with
  | none => simp [readSummaryField, hf]
  | some e => simp [fails, hf] at h

theorem insertTxn_eq_ok {faults : Faults} {shard written : Shard} {batch : List (Key × Bytes)}
    (h : insertTxn faults shard batch = .ok written) :
    let ledger := insertAll batch (Ledger.start faults shard)
    (0 ≤ ledger.totalBytes ∧ 0 ≤ ledger.entryCount ∧
        written = ⟨ledger.cache,
          ⟨ledger.totalBytes.toNat, ledger.entryCount.toNat, ledger.maxSeq⟩, ledger.seqIndex⟩) ∨
      ((ledger.totalBytes < 0 ∨ ledger.entryCount < 0) ∧ written = recounted ledger.cache) := by
  simp only [insertTxn, bind_eq_ok] at h
  obtain ⟨_, _, ledger, hledger, ⟨consistent, summary⟩, hwrite, h⟩ := h
  rw [← insertRows_eq_ok hledger]
  rcases writeSummary_eq_ok hwrite with ⟨hneg, hfalse, _⟩ | ⟨htotal, hcount, htrue, hsummary⟩
  · subst hfalse
    exact Or.inr ⟨hneg, rebuildSummaryInTxn_eq_ok h⟩
  · subst htrue hsummary
    cases h
    exact Or.inl ⟨htotal, hcount, rfl⟩

theorem maintainRemovals_eq_ok {faults : Faults} {shard removed : Shard} {keys : List Key}
    {freed : Nat} (h : maintainRemovals faults shard keys = .ok (removed, freed)) :
    let acc := removeAll keys (Removal.start faults shard)
    freed = acc.freed ∧
      ((0 ≤ acc.totalBytes ∧ 0 ≤ acc.entryCount ∧
          removed = ⟨acc.cache,
            ⟨acc.totalBytes.toNat, acc.entryCount.toNat, shard.summary.maxSeq⟩, acc.seqIndex⟩) ∨
        ((acc.totalBytes < 0 ∨ acc.entryCount < 0) ∧ removed = recounted acc.cache)) := by
  simp only [maintainRemovals, bind_eq_ok] at h
  obtain ⟨_, _, acc, hacc, ⟨consistent, summary⟩, hwrite, h⟩ := h
  rw [← removeRows_eq_ok hacc]
  rcases writeSummary_eq_ok hwrite with ⟨hneg, hfalse, _⟩ | ⟨htotal, hcount, htrue, hsummary⟩
  · subst hfalse
    obtain ⟨rebuilt, hrebuilt, hret⟩ := bind_eq_ok.mp h
    cases hret
    exact ⟨rfl, Or.inr ⟨hneg, rebuildSummaryInTxn_eq_ok hrebuilt⟩⟩
  · subst htrue hsummary
    cases h
    exact ⟨rfl, Or.inl ⟨htotal, hcount, rfl⟩⟩

def SummaryReadable (faults : Faults) : Prop :=
  ∀ field, fails faults (.getField field) = false

theorem summaryReadable_noFaults : SummaryReadable noFaults := fun _ => rfl

theorem insertAll_sound {faults : Faults} (hread : SummaryReadable faults) {shard : Shard}
    (h : Consistent shard) (batch : List (Key × Bytes)) :
    let ledger := insertAll batch (Ledger.start faults shard)
    ledger.totalBytes = (ledger.cache.total List.length : Int) ∧
      ledger.entryCount = (ledger.cache.rows.length : Int) ∧
      Indexes ledger.seqIndex ledger.cache := by
  have hstart : Tracks 0 0 (Ledger.start faults shard).cache (Ledger.start faults shard).seqIndex
      (Ledger.start faults shard).totalBytes (Ledger.start faults shard).entryCount := by
    have hraw := start_tracks faults h
    simp only [readSummaryField_eq (hread _), Summary.get, sub_self] at hraw
    simpa [Ledger.start, readSummaryField_eq (hread _), Summary.get] using hraw
  obtain ⟨htotal, hcount, hindex⟩ := insertAll_tracks batch hstart
  exact ⟨by omega, by omega, hindex⟩

theorem removeAll_sound {faults : Faults} (hread : SummaryReadable faults) {shard : Shard}
    (h : Consistent shard) (keys : List Key) :
    let acc := removeAll keys (Removal.start faults shard)
    acc.totalBytes = (acc.cache.total List.length : Int) ∧
      acc.entryCount = (acc.cache.rows.length : Int) ∧ Indexes acc.seqIndex acc.cache := by
  have hstart : Tracks 0 0 (Removal.start faults shard).cache (Removal.start faults shard).seqIndex
      (Removal.start faults shard).totalBytes (Removal.start faults shard).entryCount := by
    have hraw := start_tracks faults h
    simp only [readSummaryField_eq (hread _), Summary.get, sub_self] at hraw
    simpa [Removal.start, readSummaryField_eq (hread _), Summary.get] using hraw
  obtain ⟨htotal, hcount, hindex⟩ := removeAll_tracks keys hstart
  exact ⟨by omega, by omega, hindex⟩

theorem insertTxn_consistent {faults : Faults} (hread : SummaryReadable faults)
    {shard written : Shard} {batch : List (Key × Bytes)} (h : Consistent shard)
    (hok : insertTxn faults shard batch = .ok written) : Consistent written := by
  obtain ⟨htotal, hcount, hindex⟩ := insertAll_sound hread h batch
  rcases insertTxn_eq_ok hok with ⟨_, _, rfl⟩ | ⟨_, rfl⟩
  · refine ⟨by simp [htotal], by simp [hcount], hindex, ?_⟩
    apply insertAll_bound
    intro key bytes hrow
    rw [show (Ledger.start faults shard).maxSeq = shard.summary.maxSeq from
      readSummaryField_eq (hread _) _]
    exact h.bound key bytes hrow
  · exact consistent_recounted _

theorem maintainRemovals_consistent {faults : Faults} (hread : SummaryReadable faults)
    {shard removed : Shard} {keys : List Key} {freed : Nat} (h : Consistent shard)
    (hok : maintainRemovals faults shard keys = .ok (removed, freed)) : Consistent removed := by
  obtain ⟨htotal, hcount, hindex⟩ := removeAll_sound hread h keys
  obtain ⟨_, ⟨_, _, rfl⟩ | ⟨_, rfl⟩⟩ := maintainRemovals_eq_ok hok
  · refine ⟨by simp [htotal], by simp [hcount], hindex, ?_⟩
    intro key bytes hrow
    rw [removeAll_cache, Keyed.lookup_eraseAll] at hrow
    split at hrow
    · cases hrow
    · exact h.bound key bytes hrow
  · exact consistent_recounted _

/-- The bytes reported freed are what the byte total loses. -/
theorem maintainRemovals_freed {faults : Faults} (hread : SummaryReadable faults)
    {shard removed : Shard} {keys : List Key} {freed : Nat} (h : Consistent shard)
    (hok : maintainRemovals faults shard keys = .ok (removed, freed)) :
    removed.summary.totalBytes + freed = shard.summary.totalBytes := by
  obtain ⟨htotal, _, _⟩ := removeAll_sound hread h keys
  have hfreed := removeAll_freed keys (Removal.start faults shard)
  simp only [Removal.start, readSummaryField_eq (hread _), Summary.get] at hfreed
  have hcons := maintainRemovals_consistent hread h hok
  have hsum := hcons.total
  obtain ⟨rfl, ⟨_, _, rfl⟩ | ⟨_, rfl⟩⟩ := maintainRemovals_eq_ok hok
  · simp only [htotal] at hsum
    simp only [Removal.start, readSummaryField_eq (hread _), Summary.get] at htotal hsum ⊢
    omega
  · simp only [Removal.start, readSummaryField_eq (hread _), Summary.get, recounted]
      at htotal hsum ⊢
    omega

end ImportLens.Cache
