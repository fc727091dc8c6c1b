import ImportLens.Cache.Durability
import ImportLens.Cache.Verdicts
import ImportLens.Cache.Disk.Atomicity

/-!
# The copy of a key on the disk side

Between commits the stored value of a key lives in the queue or in the table,
and the queue wins.  `copyOf` is that value.  A flush moves it, whether it
succeeds or fails; an insert replaces it, as long as the queue has room; a
removal or a read of another key leaves it alone.
-/

namespace ImportLens.Cache

open ImportLens.Daemon ImportLens.Support

variable {codec : Codec}

/-! ## Sequences in stored values -/

theorem leValue_leBytes (width value : Nat) :
    leValue (leBytes width value) = value % 256 ^ width := by
  induction width generalizing value with
  | zero => simp [leBytes, leValue, Nat.mod_one]
  | succ width ih =>
      have hbyte : (UInt8.ofNat (value % 256)).toNat = value % 256 := by
        rw [UInt8.toNat_ofNat']
        omega
      rw [leBytes, leValue, ih, hbyte, Nat.pow_succ, Nat.mul_comm (256 ^ width), Nat.mod_mul]

theorem leValue_lt (bytes : Bytes) : leValue bytes < 256 ^ bytes.length := by
  induction bytes with
  | nil => simp [leValue]
  | cons byte rest ih =>
      have hbyte := byte.toNat_lt
      rw [leValue, List.length_cons, Nat.pow_succ]
      omega

theorem decodeLastSeq_lt (bytes : Bytes) : decodeLastSeq bytes < 2 ^ 64 := by
  unfold decodeLastSeq
  split
  · rename_i hlong
    have hlt := leValue_lt (bytes.take seqPrefixLen)
    rw [List.length_take, Nat.min_eq_left hlong] at hlt
    calc leValue (bytes.take seqPrefixLen) < 256 ^ seqPrefixLen := hlt
      _ = 2 ^ 64 := by decide
  · decide

theorem decodeLastSeq_encoded {seq : Nat} (hseq : seq < 2 ^ 64) (rest : Bytes) :
    decodeLastSeq (leBytes seqPrefixLen seq ++ rest) = seq := by
  have hlong : seqPrefixLen ≤ (leBytes seqPrefixLen seq ++ rest).length := by
    rw [List.length_append, leBytes_length]
    omega
  have hwidth : 256 ^ seqPrefixLen = 2 ^ 64 := by decide
  rw [decodeLastSeq, if_pos hlong, List.take_left' (leBytes_length _ _), leValue_leBytes, hwidth,
    Nat.mod_eq_of_lt hseq]

/-! ## The queue -/

/-- A value of this build: it decodes, and its entry passes the gate. -/
def Encoded (codec : Codec) (bytes : Bytes) : Prop :=
  ∃ seq envelope envelopeBytes, codec.toVec envelope = .ok envelopeBytes ∧
    envelope.analyzerVersion = analyzerVersion ∧
    Gated envelope.result envelope.dependencyFingerprints ∧
    bytes = leBytes seqPrefixLen seq ++ envelopeBytes

namespace DiskCache

/-- Between two calls the queue holds values of the current generation, all of
this build, and no more than its ceiling. -/
structure QueueSound (codec : Codec) (disk : DiskCache) : Prop where
  current : disk.pendingInserts.All fun _ tagged => tagged.1 = disk.clearGeneration
  encoded : disk.pendingInserts.All fun _ tagged => Encoded codec tagged.2
  bounded : disk.pendingInserts.rows.length ≤ maxPendingInserts

theorem QueueSound.congr {disk disk' : DiskCache} (h : QueueSound codec disk)
    (hgeneration : disk'.clearGeneration = disk.clearGeneration)
    (hlookup : ∀ key, disk'.pendingInserts.lookup key = disk.pendingInserts.lookup key)
    (hbounded : disk'.pendingInserts.rows.length ≤ maxPendingInserts) :
    QueueSound codec disk' where
  current key tagged hqueued := by
    rw [hgeneration]
    exact h.current key tagged (by rw [← hlookup, hqueued])
  encoded key tagged hqueued := h.encoded key tagged (by rw [← hlookup, hqueued])
  bounded := hbounded

theorem QueueSound.gated {disk : DiskCache} (h : QueueSound codec disk) :
    QueueGated codec disk := by
  intro key tagged hqueued
  obtain ⟨seq, envelope, envelopeBytes, hvec, _, hgated, hbytes⟩ := h.encoded key tagged hqueued
  exact ⟨seq, envelope, envelopeBytes, hvec, hgated, hbytes⟩

/-- A value for `key` can be queued without shedding. -/
def HasRoom (disk : DiskCache) (key : Key) : Prop :=
  (disk.pendingInserts.lookup key).isSome ∨ disk.pendingInserts.rows.length < maxPendingInserts

instance (disk : DiskCache) (key : Key) : Decidable (disk.HasRoom key) :=
  inferInstanceAs (Decidable (_ ∨ _))

/-- The stored value of a key: the queued one of the current generation, else the
committed row. -/
def copyOf (disk : DiskCache) (key : Key) : Option Bytes :=
  match disk.pendingInserts.lookup key with
  | some (generation, bytes) =>
      if generation = disk.clearGeneration then some bytes else disk.row key
  | none => disk.row key

variable {disk : DiskCache} {key : Key}

theorem copyOf_of_queued (h : QueueSound codec disk) {tagged : Nat × Bytes}
    (hqueued : disk.pendingInserts.lookup key = some tagged) : disk.copyOf key = some tagged.2 := by
  have hcurrent := h.current key tagged hqueued
  obtain ⟨generation, bytes⟩ := tagged
  simp only at hcurrent
  simp only [copyOf, hqueued, hcurrent, if_true]

theorem copyOf_of_not_queued (h : disk.pendingInserts.lookup key = none) :
    disk.copyOf key = disk.row key := by
  simp only [copyOf, h]

theorem copyOf_eq_some {bytes : Bytes} (h : disk.copyOf key = some bytes) :
    disk.pendingInserts.lookup key = some (disk.clearGeneration, bytes) ∨
      disk.row key = some bytes := by
  unfold copyOf at h
  split at h
  · rename_i generation queued hqueued
    split at h
    · rename_i hcurrent
      cases h
      exact .inl (by rw [hqueued, hcurrent])
    · exact .inr h
  · exact .inr h

/-! ## Inserts -/

/-- With room in the queue nothing is shed. -/
theorem enqueue_eq (hbounded : disk.pendingInserts.rows.length ≤ maxPendingInserts)
    (hroom : disk.HasRoom key) (generation : Nat) (bytes : Bytes) :
    (Keyed.rows (disk.pendingInserts.insert key (generation, bytes))).length ≤
        maxPendingInserts ∧
      disk.enqueue key generation bytes =
        { disk with pendingInserts := disk.pendingInserts.insert key (generation, bytes) } := by
  have hlength : (Keyed.rows (disk.pendingInserts.insert key (generation, bytes))).length ≤
      maxPendingInserts := by
    have htotal := Keyed.total_insert (fun _ => 1) disk.pendingInserts key (generation, bytes)
    rw [← Keyed.rows_length, ← Keyed.rows_length] at htotal
    rcases hroom with hqueued | hroom
    · obtain ⟨tagged, hqueued⟩ := Option.isSome_iff_exists.mp hqueued
      rw [hqueued] at htotal
      simp only [Option.map_some, Option.getD_some] at htotal
      omega
    · omega
  refine ⟨hlength, ?_⟩
  rw [enqueue, shedOldestPendingInserts, shedOldest, if_pos hlength]

theorem enqueue_spec (h : QueueSound codec disk) (hroom : disk.HasRoom key) {bytes : Bytes}
    (hbytes : Encoded codec bytes) :
    QueueSound codec (disk.enqueue key disk.clearGeneration bytes) ∧
      ∀ k, (disk.enqueue key disk.clearGeneration bytes).copyOf k =
        if k = key then some bytes else disk.copyOf k := by
  obtain ⟨hbounded, heq⟩ := enqueue_eq h.bounded hroom disk.clearGeneration bytes
  rw [heq]
  have hsound : QueueSound codec
      { disk with
        pendingInserts := disk.pendingInserts.insert key (disk.clearGeneration, bytes) } :=
    ⟨h.current.insert rfl, h.encoded.insert hbytes, hbounded⟩
  refine ⟨hsound, fun k => ?_⟩
  by_cases hk : k = key
  · subst hk
    rw [if_pos rfl]
    exact copyOf_of_queued hsound (AList.lookup_insert _)
  · rw [if_neg hk]
    simp only [copyOf, AList.lookup_insert_ne hk]
    rfl

/-! ## Flushes -/

theorem lookup_keptInserts (h : QueueSound codec disk) (key : Key) :
    disk.keptInserts.lookup key = (disk.pendingInserts.lookup key).map Prod.snd := by
  cases hqueued : disk.pendingInserts.lookup key with
  | none =>
      refine Option.eq_none_iff_forall_ne_some.mpr fun bytes hkept => ?_
      rw [keptInserts, lookup_keptAt, hqueued] at hkept
      cases hkept
  | some tagged =>
      rw [Option.map_some, keptInserts, lookup_keptAt, hqueued, ← h.current key tagged hqueued]

theorem lookup_written {faults : Faults} {shard written : Shard} {batch : Keyed Key Bytes}
    (h : writePendingInserts faults shard batch = .ok written) (key : Key) :
    written.cache.lookup key = (batch.lookup key).or (shard.cache.lookup key) := by
  rw [insertTxn_cache (writePendingInserts_eq_ok h)]
  cases hkept : batch.lookup key with
  | none =>
      rw [Option.none_or, Keyed.lookup_insertAll_of_notMem]
      rw [Keyed.mem_rows_keys, hkept]
      decide
  | some bytes =>
      rw [Option.some_or]
      exact Keyed.lookup_insertAll_of_mem (Keyed.nodup_rows_keys _) (Keyed.mem_rows.mpr hkept) _

theorem requeue_lookup (h : QueueSound codec disk) (after : Nat) :
    let requeued := requeue { disk with pendingInserts := ∅, flushRetryAfter := after }
      disk.keptInserts
    requeued.pendingInserts.rows.length ≤ maxPendingInserts ∧
      ∀ key, requeued.pendingInserts.lookup key = disk.pendingInserts.lookup key := by
  have hlength : disk.keptInserts.rows.length ≤ disk.pendingInserts.rows.length :=
    Keyed.length_rows_filterMapVal_le _ _
  have hrequeued := length_requeueRows_le disk.clearGeneration disk.keptInserts.rows
    (∅ : Keyed Key (Nat × Bytes))
  have hempty : (∅ : Keyed Key (Nat × Bytes)).rows.length = 0 := rfl
  have hbounded : (requeueRows disk.clearGeneration disk.keptInserts.rows
      (∅ : Keyed Key (Nat × Bytes))).rows.length ≤ maxPendingInserts := by
    have := h.bounded
    omega
  intro requeued
  have hshape : requeued.pendingInserts =
      requeueRows disk.clearGeneration disk.keptInserts.rows ∅ := by
    simp only [requeued, requeue, shedOldestPendingInserts, shedOldest, if_pos hbounded]
  rw [hshape]
  refine ⟨hbounded, fun key => ?_⟩
  have hkept := lookup_keptInserts h key
  cases hqueued : disk.pendingInserts.lookup key with
  | none =>
      rw [hqueued] at hkept
      rw [lookup_requeueRows_of_notMem, AList.lookup_empty]
      rw [Keyed.mem_rows_keys, hkept]
      decide
  | some tagged =>
      rw [hqueued] at hkept
      rw [lookup_requeueRows_of_mem (Keyed.nodup_rows_keys _) (Keyed.mem_rows.mpr hkept)
        (AList.lookup_empty _), ← h.current key tagged hqueued]

/-- A flush, successful or not, keeps the copy of every key. -/
theorem flush_spec (h : QueueSound codec disk) (io : Io) :
    QueueSound codec (disk.flushPendingInserts io) ∧
      (∀ k, (disk.flushPendingInserts io).copyOf k = disk.copyOf k) ∧
      (disk.flushPendingInserts io).clearGeneration = disk.clearGeneration ∧
      (disk.flushPendingInserts io).isAvailable = disk.isAvailable := by
  have hkept := lookup_keptInserts h
  unfold flushPendingInserts
  split
  · exact ⟨h, fun _ => rfl, rfl, rfl⟩
  · rename_i shard hdb
    have havailable : disk.isAvailable = true := by rw [isAvailable, hdb]; rfl
    split
    · exact ⟨h, fun _ => rfl, rfl, rfl⟩
    · -- what the queue held is in the batch, so an empty queue has lost nothing
      have htaken : QueueSound codec { disk with pendingInserts := ∅ } :=
        ⟨Keyed.all_empty _, Keyed.all_empty _, Nat.zero_le _⟩
      simp only
      split
      · rename_i hempty
        refine ⟨htaken, fun k => ?_, rfl, rfl⟩
        have hnone : disk.pendingInserts.lookup k = none := by
          rw [← Option.map_eq_none_iff, ← hkept, ← Option.not_isSome_iff_eq_none,
            ← Keyed.mem_rows_keys, List.isEmpty_iff.mp hempty]
          exact List.not_mem_nil
        rw [copyOf_of_not_queued hnone, copyOf_of_not_queued (AList.lookup_empty _)]
        rfl
      · split
        · rename_i written hwritten
          refine ⟨⟨Keyed.all_empty _, Keyed.all_empty _, Nat.zero_le _⟩, fun k => ?_, rfl, ?_⟩
          · rw [copyOf_of_not_queued (AList.lookup_empty _)]
            have hrow := lookup_written hwritten k
            rw [hkept] at hrow
            cases hqueued : disk.pendingInserts.lookup k with
            | none =>
                rw [copyOf_of_not_queued hqueued, row, row, hdb]
                simpa [hqueued] using hrow
            | some tagged =>
                rw [copyOf_of_queued h hqueued, row]
                simpa [hqueued] using hrow
          · rw [havailable]
            rfl
        · obtain ⟨hbounded, hlookup⟩ := requeue_lookup h
            (io.unixMillis + flushRetryBackoffMillis)
          refine ⟨h.congr rfl hlookup hbounded, fun k => ?_, rfl, rfl⟩
          simp only [copyOf, hlookup]
          rfl

/-! ## One insert -/

/-- The copy that an insert of the entry leaves. -/
def Written (codec : Codec) (disk : DiskCache) (heap : Heap) (key : Key)
    (cached : CachedImport) : Prop :=
  ∃ envelopeBytes, codec.toVec (envelopeOf (persisted cached)) = .ok envelopeBytes ∧
    disk.copyOf key =
      some (leBytes seqPrefixLen (heap.cells cached.cell).lastSeq ++ envelopeBytes)

/-- What an insert of a gated entry does, with room in the queue: nothing
without a database, nothing when the entry does not encode, and otherwise a new
copy of its key. -/
structure WriteSpec (codec : Codec) (heap : Heap) (key : Key) (cached : CachedImport)
    (disk : DiskCache) (after : Except String Unit × DiskCache) : Prop where
  sound : QueueSound codec after.2
  generation : after.2.clearGeneration = disk.clearGeneration
  available : after.2.isAvailable = disk.isAvailable
  others : ∀ k, k ≠ key → after.2.copyOf k = disk.copyOf k
  written : after.1 = .ok () → disk.isAvailable = true → Written codec after.2 heap key cached
  kept : after.1 ≠ .ok () → after.2 = disk

theorem insertAtGeneration_spec (h : QueueSound codec disk) {cached : CachedImport}
    (hgated : Gated cached.result cached.dependencyFingerprints) (hroom : disk.HasRoom key)
    (io : Io) (heap : Heap) :
    WriteSpec codec heap key cached disk
      (disk.insertAtGeneration codec io heap key cached disk.clearGeneration) := by
  have hstored : Gated (persisted cached).result (persisted cached).dependencyFingerprints :=
    gated_congr rfl rfl hgated
  unfold insertAtGeneration
  cases havailable : disk.isAvailable with
  | false =>
      refine ⟨h, rfl, rfl, fun _ _ => rfl, fun _ hopen => ?_, fun _ => rfl⟩
      rw [havailable] at hopen
      cases hopen
  | true =>
      simp only [hgated.1, hgated.2, Bool.not_true, Bool.or_self, Bool.false_eq_true, if_false]
      unfold writeAtGeneration encodeCacheValue
      cases hencode : codec.toVec (envelopeOf (persisted cached)) with
      | error error =>
          refine ⟨h, rfl, rfl, fun _ _ => rfl, fun hok => ?_, fun _ => rfl⟩
          cases hok
      | ok envelopeBytes =>
          have hbytes : Encoded codec
              (leBytes seqPrefixLen (heap.cells (persisted cached).cell).lastSeq ++
                envelopeBytes) := ⟨_, _, _, hencode, rfl, hstored, rfl⟩
          obtain ⟨hsound, hcopy⟩ := enqueue_spec h hroom hbytes
          have hothers := fun k (hk : k ≠ key) => (hcopy k).trans (if_neg hk)
          have hself := (hcopy key).trans (if_pos rfl)
          simp only
          split
          · obtain ⟨hflushed, hkept, hgeneration, hopen⟩ := flush_spec hsound io
            refine ⟨hflushed, hgeneration, hopen, fun k hk => (hkept k).trans (hothers k hk),
              fun _ _ => ⟨_, hencode, (hkept key).trans hself⟩, fun hfailed => ?_⟩
            exact absurd rfl hfailed
          · refine ⟨hsound, rfl, rfl, hothers, fun _ _ => ⟨_, hencode, hself⟩, fun hfailed => ?_⟩
            exact absurd rfl hfailed

/-- The outcome of an insert reads only the last sequence of the entry's cell. -/
theorem insertAtGeneration_congr {heap heap' : Heap} {cached : CachedImport}
    (h : (heap.cells cached.cell).lastSeq = (heap'.cells cached.cell).lastSeq) (io : Io)
    (key : Key) (generation : Nat) (disk : DiskCache) :
    disk.insertAtGeneration codec io heap key cached generation =
      disk.insertAtGeneration codec io heap' key cached generation := by
  have hcell : (persisted cached).cell = cached.cell := rfl
  simp only [insertAtGeneration, writeAtGeneration, encodeCacheValue, hcell, h]

/-! ## Removals -/

theorem QueueSound.shrink {disk disk' : DiskCache} (h : QueueSound codec disk)
    (hgeneration : disk'.clearGeneration = disk.clearGeneration)
    (hlookup : ∀ key tagged, disk'.pendingInserts.lookup key = some tagged →
      disk.pendingInserts.lookup key = some tagged)
    (hbounded : disk'.pendingInserts.rows.length ≤ disk.pendingInserts.rows.length) :
    QueueSound codec disk' where
  current key tagged hqueued := by
    rw [hgeneration]
    exact h.current key tagged (hlookup key tagged hqueued)
  encoded key tagged hqueued := h.encoded key tagged (hlookup key tagged hqueued)
  bounded := hbounded.trans h.bounded

/-- The copy of a key whose row and queued value both stay. -/
theorem copyOf_congr {disk disk' : DiskCache} {k : Key}
    (hgeneration : disk'.clearGeneration = disk.clearGeneration)
    (hqueued : disk'.pendingInserts.lookup k = disk.pendingInserts.lookup k)
    (hrow : disk'.row k = disk.row k) : disk'.copyOf k = disk.copyOf k := by
  simp only [copyOf, hqueued, hrow, hgeneration]

theorem remove_spec (h : QueueSound codec disk) (io : Io) (key : Key) :
    QueueSound codec (disk.remove io key) ∧
      (∀ k, k ≠ key → (disk.remove io key).copyOf k = disk.copyOf k) ∧
      (disk.remove io key).clearGeneration = disk.clearGeneration ∧
      (disk.remove io key).isAvailable = disk.isAvailable := by
  refine ⟨h.shrink rfl ?_ ?_, ?_, rfl, ?_⟩
  · intro k tagged hqueued
    have hlookup := Keyed.lookup_erase_eq disk.pendingInserts key k
    rw [show (disk.remove io key).pendingInserts = disk.pendingInserts.erase key from rfl,
      hlookup] at hqueued
    split at hqueued
    · cases hqueued
    · exact hqueued
  · rw [Keyed.rows_length, Keyed.rows_length]
    exact Keyed.total_erase_le _ _ _
  · intro k hk
    obtain ⟨hqueued, hrow⟩ := remove_ne io disk hk
    exact copyOf_congr rfl hqueued hrow
  · simp [isAvailable, remove, onDb]

theorem removeKeys_spec (h : QueueSound codec disk) (io : Io) (keys : List Key) :
    QueueSound codec (disk.removeKeys io keys).2 ∧
      (∀ k, k ∉ keys → (disk.removeKeys io keys).2.copyOf k = disk.copyOf k) ∧
      (disk.removeKeys io keys).2.isAvailable = disk.isAvailable := by
  have hlookup := Keyed.lookup_eraseAll keys disk.pendingInserts
  have hshrunk : ∀ {disk' : DiskCache}, disk'.clearGeneration = disk.clearGeneration →
      disk'.pendingInserts = disk.pendingInserts.eraseAll keys → QueueSound codec disk' := by
    intro disk' hgeneration hqueue
    refine h.shrink hgeneration ?_ ?_
    · intro k tagged hqueued
      rw [hqueue, hlookup] at hqueued
      split at hqueued
      · cases hqueued
      · exact hqueued
    · rw [hqueue, Keyed.rows_length, Keyed.rows_length]
      exact Keyed.total_eraseAll_le _ _ _
  unfold removeKeys
  split
  · exact ⟨h, fun _ _ => rfl, rfl⟩
  · simp only
    split
    · rename_i hdb
      refine ⟨hshrunk rfl rfl, fun k hk => ?_, rfl⟩
      exact copyOf_congr rfl ((hlookup k).trans (if_neg hk)) rfl
    · rename_i shard hdb
      refine ⟨hshrunk rfl rfl, fun k hk => ?_, ?_⟩
      · refine copyOf_congr rfl ((hlookup k).trans (if_neg hk)) ?_
        rw [row, row, hdb]
        simp only [Option.bind_some, removeKeysFromTable]
        split
        · rfl
        · exact removalTxn_lookup_notMem io.faults shard hk
      · rw [isAvailable, isAvailable, hdb]
        rfl

theorem invalidatePackages_spec (h : QueueSound codec disk) (io : Io)
    (packageNames : List String) :
    QueueSound codec (disk.invalidatePackages codec io packageNames) ∧
      (∀ k, cacheKeyMatchesAnyPackage codec.identityFromSlice packageNames k = false →
        (disk.invalidatePackages codec io packageNames).copyOf k = disk.copyOf k) ∧
      (disk.invalidatePackages codec io packageNames).isAvailable = disk.isAvailable := by
  unfold invalidatePackages
  split
  · exact ⟨h, fun _ _ => rfl, rfl⟩
  · generalize cacheKeyMatchesAnyPackage codec.identityFromSlice packageNames = wanted
    have hlookup := Keyed.lookup_retain (fun key => !wanted key) disk.pendingInserts
    refine ⟨h.shrink rfl ?_ ?_, fun k hk => ?_, ?_⟩
    · intro k tagged hqueued
      simp only [onDb, hlookup] at hqueued
      split at hqueued
      · exact hqueued
      · cases hqueued
    · simp only [onDb, Keyed.rows, Keyed.retain, List.length_map]
      exact List.length_filter_le _ _
    · refine copyOf_congr rfl ?_ ?_
      · simp only [onDb, hlookup, hk, Bool.not_false, if_true]
      · simp only [row, onDb]
        cases disk.db with
        | none => rfl
        | some shard =>
            refine removalTxn_lookup_notMem io.faults shard ?_
            unfold scanKeys
            split
            · exact List.not_mem_nil
            · simp [hk]
    · simp [isAvailable, onDb]

end DiskCache

/-! ## The heap of a read -/

/-- The sequences of a heap are `u64`s. -/
def Heap.Bounded (heap : Heap) : Prop :=
  heap.recencyClock < 2 ^ 64 ∧ ∀ id, (heap.cells id).lastSeq < 2 ^ 64

/-- Cells are added, and those that were there are as they were. -/
structure Heap.Grows (heap heap' : Heap) : Prop where
  next : heap.next ≤ heap'.next
  cells : ∀ id, id < heap.next → heap'.cells id = heap.cells id
  bounded : heap.Bounded → heap'.Bounded

namespace Heap

theorem Grows.refl (heap : Heap) : heap.Grows heap := ⟨le_refl _, fun _ _ => rfl, id⟩

theorem Grows.trans {heap heap' heap'' : Heap} (h : heap.Grows heap') (h' : heap'.Grows heap'') :
    heap.Grows heap'' where
  next := h.next.trans h'.next
  cells id hid := (h'.cells id (hid.trans_le h.next)).trans (h.cells id hid)
  bounded hbounded := h'.bounded (h.bounded hbounded)

theorem Bounded.update {heap : Heap} (h : heap.Bounded) {cell : Cell}
    (hcell : cell.lastSeq < 2 ^ 64)
    (target : Nat) (id : Nat) : (Function.update heap.cells target cell id).lastSeq < 2 ^ 64 := by
  by_cases hid : id = target
  · rw [hid, Function.update_self]
    exact hcell
  · rw [Function.update_of_ne hid]
    exact h.2 id

theorem Bounded.nextSeq {heap : Heap} (h : heap.Bounded) :
    heap.nextSeq.1 < 2 ^ 64 ∧ heap.nextSeq.2.Bounded :=
  ⟨h.1, Nat.mod_lt _ (by decide), h.2⟩

end Heap

/-- The heap a decoded entry leaves: one more cell, which carries the stored
sequence twice. -/
theorem decodeCachedResult_heap {heap heap' : Heap} {bytes : Bytes} {cached : CachedImport}
    (h : decodeCachedResult codec heap bytes = some (cached, heap')) :
    cached.cell = heap.next ∧ heap'.next = heap.next + 1 ∧ heap.Grows heap' ∧
      heap'.cells heap.next =
        { lastSeq := decodeLastSeq bytes, persistedSeq := decodeLastSeq bytes } := by
  obtain ⟨envelope, _, _, _, hcell, hnext, hcells⟩ := decodeCachedResult_eq_some h
  have hclock : heap'.recencyClock =
      max heap.recencyClock (min (decodeLastSeq bytes + 1) u64Max) := by
    unfold decodeCachedResult at h
    split at h
    · cases h
    · simp only at h
      split at h
      · cases h
      · split at h
        · cases h
        · cases h
          rfl
  refine ⟨hcell, hnext, ⟨by omega, fun id hid => ?_, fun hbounded => ⟨?_, fun id => ?_⟩⟩, ?_⟩
  · rw [hcells, Function.update_of_ne (by omega)]
  · rw [hclock]
    have hmax : u64Max < 2 ^ 64 := by decide
    have hlt := hbounded.1
    omega
  · rw [hcells]
    exact hbounded.update (decodeLastSeq_lt bytes) _ id
  · rw [hcells, Function.update_self]

/-- Whether a value decodes, and to what entry, does not depend on the heap. -/
theorem decodeCachedResult_any {heap heap₁ : Heap} {bytes : Bytes} {cached : CachedImport}
    (h : decodeCachedResult codec heap bytes = some (cached, heap₁)) (heap' : Heap) :
    ∃ cached' heap₁', decodeCachedResult codec heap' bytes = some (cached', heap₁') ∧
      cached'.result = cached.result ∧
      cached'.dependencyFingerprints = cached.dependencyFingerprints := by
  unfold decodeCachedResult at h ⊢
  split at h
  · cases h
  · rename_i hlong
    rw [if_neg hlong]
    simp only at h ⊢
    split at h
    · cases h
    · rename_i envelope hslice
      split at h
      · cases h
      · rename_i hversion
        cases h
        simp only [hversion, if_false]
        exact ⟨_, _, rfl, rfl, rfl⟩

/-- A value of this build decodes, to an entry that passes the gate and is over the
files it was encoded with. -/
theorem decodeCachedResult_encoded (hcodec : LawfulCodec codec) {envelope : CacheEnvelope}
    {envelopeBytes : Bytes} (hvec : codec.toVec envelope = .ok envelopeBytes)
    (hversion : envelope.analyzerVersion = analyzerVersion)
    (hgated : Gated envelope.result envelope.dependencyFingerprints) (seq : Nat) (heap : Heap) :
    ∃ cached heap', decodeCachedResult codec heap (leBytes seqPrefixLen seq ++ envelopeBytes) =
        some (cached, heap') ∧
      Gated cached.result cached.dependencyFingerprints ∧
      cached.dependencyFingerprints = envelope.dependencyFingerprints := by
  have hlong : ¬ (leBytes seqPrefixLen seq ++ envelopeBytes).length < seqPrefixLen := by
    rw [List.length_append, leBytes_length]
    omega
  have hdrop : (leBytes seqPrefixLen seq ++ envelopeBytes).drop seqPrefixLen = envelopeBytes :=
    List.drop_left' (leBytes_length _ _)
  unfold decodeCachedResult
  simp only [hlong, if_false, hdrop, hcodec.fromSlice_toVec envelope envelopeBytes hvec,
    CacheEnvelope.stored, hversion, ne_eq, not_true_eq_false]
  exact ⟨_, _, rfl, gated_congr rfl rfl hgated, rfl⟩

namespace DiskCache

variable {disk : DiskCache} {key : Key}

/-! ## Reads -/

/-- A read of `key` finds its copy fit to serve, and leaves it where it is. -/
def Steady (codec : Codec) (io : Io) (disk : DiskCache) (key : Key) : Prop :=
  ∃ bytes, disk.copyOf key = some bytes ∧ ∀ heap, ∃ cached heap',
    decodeCachedResult codec heap bytes = some (cached, heap') ∧
      Gated cached.result cached.dependencyFingerprints ∧
      (verdictOf codec io cached = .fresh ∨ verdictOf codec io cached = .unknown)

/-- What a disk read does to the copies, and what it hands out. -/
structure ReadSpec (codec : Codec) (io : Io) (key : Key) (disk : DiskCache) (heap : Heap)
    (fetch : Fetch) : Prop where
  sound : QueueSound codec fetch.disk
  generation : fetch.disk.clearGeneration = disk.clearGeneration
  available : fetch.disk.isAvailable = disk.isAvailable
  others : ∀ k, k ≠ key → fetch.disk.copyOf k = disk.copyOf k
  steady : Steady codec io disk key → fetch.disk.copyOf key = disk.copyOf key
  grows : heap.Grows fetch.heap
  found : ∀ cached verdict, fetch.found = some (cached, verdict) →
    Steady codec io fetch.disk key ∧ cached.cell = heap.next ∧ heap.next < fetch.heap.next ∧
      ∃ bytes, fetch.disk.copyOf key = some bytes ∧ fetch.heap.cells heap.next =
        { lastSeq := decodeLastSeq bytes, persistedSeq := decodeLastSeq bytes }

theorem verifyFetched_spec (h : QueueSound codec disk) (io : Io) {heap heap' : Heap}
    {bytes : Bytes} {cached : CachedImport} (hcopy : disk.copyOf key = some bytes)
    (hdecode : decodeCachedResult codec heap bytes = some (cached, heap'))
    (hgated : Gated cached.result cached.dependencyFingerprints) :
    ReadSpec codec io key disk heap (verifyFetched codec io key cached disk heap') := by
  obtain ⟨hcell, hnext, hgrows, hcells⟩ := decodeCachedResult_heap hdecode
  obtain ⟨hsound, hothers, hgeneration, havailable⟩ := remove_spec h io key
  have hverdict := verdictOf_eq codec io cached
  have hremoved : verdictOf codec io cached ≠ .fresh → verdictOf codec io cached ≠ .unknown →
      ¬ Steady codec io disk key := by
    rintro hfresh hunknown ⟨bytes', hcopy', hdecodes⟩
    cases hcopy.symm.trans hcopy'
    obtain ⟨cached', heap'', hdecode', _, hserved⟩ := hdecodes heap
    cases hdecode.symm.trans hdecode'
    exact hserved.elim hfresh hunknown
  have hsteady : verdictOf codec io cached = .fresh ∨ verdictOf codec io cached = .unknown →
      Steady codec io disk key := by
    intro hserved
    refine ⟨bytes, hcopy, fun other => ?_⟩
    obtain ⟨cached', heap'', hdecode', hresult, hfingerprints⟩ :=
      decodeCachedResult_any hdecode other
    refine ⟨cached', heap'', hdecode', ?_, ?_⟩
    · rw [hresult, hfingerprints]
      exact hgated
    · rw [verdictOf, hfingerprints]
      exact hserved
  have hevicted : verdictOf codec io cached ≠ .fresh → verdictOf codec io cached ≠ .unknown →
      ReadSpec codec io key disk heap
        ⟨none, disk.remove io key, heap', (checkFingerprintsStrict codec.contentHash io.fs
          cached.dependencyFingerprints).accesses⟩ := by
    intro hfresh hunknown
    refine ⟨hsound, hgeneration, havailable, hothers, fun hkept => ?_, hgrows, ?_⟩
    · exact absurd hkept (hremoved hfresh hunknown)
    · intro served verdict hserved
      cases hserved
  have hserved : ∀ served verdict accesses, served.cell = cached.cell →
      (verdictOf codec io cached = .fresh ∨ verdictOf codec io cached = .unknown) →
      ReadSpec codec io key disk heap ⟨some (served, verdict), disk, heap', accesses⟩ := by
    intro served verdict accesses hsame hfit
    refine ⟨h, rfl, rfl, fun _ _ => rfl, fun _ => rfl, hgrows, ?_⟩
    intro served' verdict' hfound
    cases hfound
    have hlt : heap.next < heap'.next := by omega
    exact ⟨hsteady hfit, hsame.trans hcell, hlt, bytes, hcopy, hcells⟩
  unfold verifyFetched
  simp only [hverdict]
  cases hv : verdictOf codec io cached with
  | stale => exact hevicted (by rw [hv]; decide) (by rw [hv]; decide)
  | gone => exact hevicted (by rw [hv]; decide) (by rw [hv]; decide)
  | fresh => exact hserved _ _ _ rfl (.inl hv)
  | unknown => exact hserved _ _ _ rfl (.inr hv)

theorem ReadSpec.nothing (h : QueueSound codec disk) {io : Io} {heap heap' : Heap}
    (hgrows : heap.Grows heap') :
    ReadSpec codec io key disk heap ⟨none, disk, heap', []⟩ :=
  ⟨h, rfl, rfl, fun _ _ => rfl, fun _ => rfl, hgrows, by
    intro cached verdict hfound
    cases hfound⟩

theorem ReadSpec.removed (h : QueueSound codec disk) {io : Io} {heap heap' : Heap}
    (hgrows : heap.Grows heap') (hunfit : ¬ Steady codec io disk key) :
    ReadSpec codec io key disk heap ⟨none, disk.remove io key, heap', []⟩ := by
  obtain ⟨hsound, hothers, hgeneration, havailable⟩ := remove_spec h io key
  refine ⟨hsound, hgeneration, havailable, hothers, fun hkept => absurd hkept hunfit, hgrows, ?_⟩
  intro cached verdict hfound
  cases hfound

theorem row_of_committedRow {io : Io} {bytes : Bytes}
    (h : disk.committedRow io key = some bytes) : disk.row key = some bytes := by
  unfold committedRow at h
  split at h
  · cases h
  · rename_i shard hdb
    split at h
    · cases h
    · rw [row, hdb]
      exact h

theorem readCommitted_grows (disk : DiskCache) (io : Io) (heap : Heap) (key : Key) :
    heap.Grows (disk.readCommitted codec io heap key).2.2 := by
  unfold readCommitted
  split
  · exact Heap.Grows.refl heap
  · split
    · exact Heap.Grows.refl heap
    · rename_i cached heap' hdecode
      have hgrows := (decodeCachedResult_heap hdecode).2.2.1
      split
      · exact hgrows
      · exact hgrows

theorem getEntry_grows (disk : DiskCache) (io : Io) (heap : Heap) (key : Key) :
    heap.Grows (disk.getEntry codec io heap key).heap := by
  have hverified : ∀ (cached : CachedImport) (disk : DiskCache) (heap : Heap),
      (verifyFetched codec io key cached disk heap).heap = heap := by
    intro cached disk heap
    unfold verifyFetched
    simp only
    split <;> rfl
  have hcommitted : heap.Grows (disk.readCommitted codec io heap key).2.2 :=
    readCommitted_grows disk io heap key
  unfold getEntry
  split
  · rename_i cached heap' hpending
    rw [hverified]
    unfold pendingInsert at hpending
    split at hpending
    · cases hpending
    · split at hpending
      · cases hpending
      · exact (decodeCachedResult_heap hpending).2.2.1
  · split
    · rename_i hread
      rw [hread] at hcommitted
      exact hcommitted
    · rename_i hread
      rw [hread] at hcommitted
      rw [hverified]
      exact hcommitted

theorem getEntry_spec (hcodec : LawfulCodec codec) (h : QueueSound codec disk) (io : Io)
    (heap : Heap) (key : Key) :
    ReadSpec codec io key disk heap (disk.getEntry codec io heap key) := by
  unfold getEntry
  cases hqueued : disk.pendingInserts.lookup key with
  | some tagged =>
      -- a queued value is of this build, so it decodes
      have hcopy := copyOf_of_queued h hqueued
      obtain ⟨seq, envelope, envelopeBytes, hvec, hversion, hgate, hbytes⟩ :=
        h.encoded key tagged hqueued
      obtain ⟨cached, heap', hdecode, hgated, _⟩ :=
        decodeCachedResult_encoded hcodec hvec hversion hgate seq heap
      rw [← hbytes] at hdecode
      have hpending : disk.pendingInsert codec heap key = some (cached, heap') := by
        obtain ⟨generation, bytes⟩ := tagged
        have hcurrent : generation = disk.clearGeneration := h.current key _ hqueued
        simp only [pendingInsert, hqueued, hcurrent, ne_eq, not_true_eq_false, if_false]
        exact hdecode
      simp only [hpending]
      exact verifyFetched_spec h io hcopy hdecode hgated
  | none =>
      have hpending : disk.pendingInsert codec heap key = none := by
        simp only [pendingInsert, hqueued]
      simp only [hpending]
      cases hrow : disk.committedRow io key with
      | none =>
          simp only [readCommitted, hrow]
          exact .nothing h (.refl heap)
      | some bytes =>
          have hcopy : disk.copyOf key = some bytes := by
            rw [copyOf_of_not_queued hqueued, row_of_committedRow hrow]
          cases hdecode : decodeCachedResult codec heap bytes with
          | none =>
              simp only [readCommitted, hrow, hdecode]
              refine .removed h (.refl heap) ?_
              rintro ⟨bytes', hcopy', hdecodes⟩
              cases hcopy.symm.trans hcopy'
              obtain ⟨cached, heap', hsome, _⟩ := hdecodes heap
              rw [hdecode] at hsome
              cases hsome
          | some decoded =>
              obtain ⟨cached, heap'⟩ := decoded
              by_cases hgate : Gated cached.result cached.dependencyFingerprints
              · simp only [readCommitted, hrow, hdecode, hgate.1, hgate.2, Bool.not_true,
                  Bool.or_self, Bool.false_eq_true, if_false]
                exact verifyFetched_spec h io hcopy hdecode hgate
              · have hrefused : (!cached.result.isDurable ||
                    !fingerprintsAreReusable cached.dependencyFingerprints) = true := by
                  by_contra hpassed
                  exact hgate (by simpa [Gated] using hpassed)
                simp only [readCommitted, hrow, hdecode, hrefused, if_true]
                refine .removed h (decodeCachedResult_heap hdecode).2.2.1 ?_
                rintro ⟨bytes', hcopy', hdecodes⟩
                cases hcopy.symm.trans hcopy'
                obtain ⟨cached', heap'', hsome, hgated, _⟩ := hdecodes heap
                cases hdecode.symm.trans hsome
                exact hgate hgated

/-! ## The preload -/

theorem Steady.congr {disk disk' : DiskCache} {io : Io} (h : Steady codec io disk key)
    (hcopy : disk'.copyOf key = disk.copyOf key) : Steady codec io disk' key := by
  obtain ⟨bytes, hbytes, hdecodes⟩ := h
  exact ⟨bytes, hcopy.trans hbytes, hdecodes⟩

/-- An entry loaded from its copy, in a cell of its own. -/
def LoadedFrom (codec : Codec) (io : Io) (disk : DiskCache) (heap heap' : Heap)
    (row : Key × CachedImport) : Prop :=
  Steady codec io disk row.1 ∧ heap.next ≤ row.2.cell ∧ row.2.cell < heap'.next ∧
    ∃ bytes, disk.copyOf row.1 = some bytes ∧ heap'.cells row.2.cell =
      { lastSeq := decodeLastSeq bytes, persistedSeq := decodeLastSeq bytes }

/-- What the preload does to the copies, and what it hands out. -/
structure LoadSpec (codec : Codec) (io : Io) (keys : List Key) (disk : DiskCache) (heap : Heap)
    (loaded : List (Key × CachedImport) × DiskCache × Heap) : Prop where
  sound : QueueSound codec loaded.2.1
  generation : loaded.2.1.clearGeneration = disk.clearGeneration
  available : loaded.2.1.isAvailable = disk.isAvailable
  copies : ∀ k, (k ∈ keys → Steady codec io disk k) → loaded.2.1.copyOf k = disk.copyOf k
  grows : heap.Grows loaded.2.2
  entries : ∀ row ∈ loaded.1, LoadedFrom codec io loaded.2.1 heap loaded.2.2 row
  apart : loaded.1.Pairwise fun a b => a.2.cell ≠ b.2.cell

theorem loadKeys_spec (hcodec : LawfulCodec codec) (io : Io) (keys : List Key)
    {disk : DiskCache} (h : QueueSound codec disk) (heap : Heap) :
    LoadSpec codec io keys disk heap (loadKeys codec io keys disk heap) := by
  induction keys generalizing disk heap with
  | nil =>
      simp only [loadKeys]
      refine ⟨h, rfl, rfl, fun _ _ => rfl, Heap.Grows.refl heap, ?_, List.Pairwise.nil⟩
      intro row hrow
      cases hrow
  | cons key rest ih =>
      have hread := getEntry_spec hcodec h io heap key
      simp only [loadKeys]
      generalize disk.getEntry codec io heap key = fetch at hread ⊢
      have hrest := ih hread.sound fetch.heap
      generalize loadKeys codec io rest fetch.disk fetch.heap = loaded at hrest ⊢
      obtain ⟨rows, disk', heap'⟩ := loaded
      have hfirst : ∀ k, (k = key → Steady codec io disk k) →
          fetch.disk.copyOf k = disk.copyOf k := by
        intro k hsteady
        by_cases hk : k = key
        · subst hk
          exact hread.steady (hsteady rfl)
        · exact hread.others k hk
      have hcopies : ∀ k, (k ∈ key :: rest → Steady codec io disk k) →
          disk'.copyOf k = disk.copyOf k := by
        intro k hsteady
        have hkept := hfirst k fun hk => hsteady (by rw [hk]; exact List.mem_cons_self)
        refine (hrest.copies k fun hk => ?_).trans hkept
        exact (hsteady (List.mem_cons_of_mem _ hk)).congr hkept
      have hrows : ∀ row ∈ rows, LoadedFrom codec io disk' heap heap' row := by
        intro row hrow
        obtain ⟨hsteady, hle, hlt, hbytes⟩ := hrest.entries row hrow
        exact ⟨hsteady, hread.grows.next.trans hle, hlt, hbytes⟩
      have hgrows : heap.Grows heap' := hread.grows.trans hrest.grows
      cases hfound : fetch.found with
      | none =>
          exact ⟨hrest.sound, hrest.generation.trans hread.generation,
            hrest.available.trans hread.available, hcopies, hgrows, hrows, hrest.apart⟩
      | some served =>
          obtain ⟨cached, verdict⟩ := served
          obtain ⟨hsteady, hcell, hlt, bytes, hbytes, hcells⟩ := hread.found cached verdict hfound
          have hkept := hrest.copies key fun _ => hsteady
          refine ⟨hrest.sound, hrest.generation.trans hread.generation,
            hrest.available.trans hread.available, hcopies, hgrows, ?_, ?_⟩
          · intro row hrow
            rcases List.mem_cons.mp hrow with rfl | hrow
            · refine ⟨hsteady.congr hkept, by simp only; omega, ?_, bytes, hkept.trans hbytes, ?_⟩
              · exact (by simpa only [hcell] using hlt : cached.cell < fetch.heap.next).trans_le
                  hrest.grows.next
              · simp only [hcell]
                rw [hrest.grows.cells _ hlt, hcells]
            · exact hrows row hrow
          · refine List.Pairwise.cons (fun row hrow => ?_) hrest.apart
            obtain ⟨_, hle, _⟩ := hrest.entries row hrow
            simp only [hcell]
            omega

/-- Listing the recent keys only flushes. -/
theorem recentKeys_spec (h : QueueSound codec disk) (io : Io) (limit : Nat) :
    QueueSound codec (disk.recentKeys io limit).2 ∧
      (∀ k, (disk.recentKeys io limit).2.copyOf k = disk.copyOf k) ∧
      (disk.recentKeys io limit).2.clearGeneration = disk.clearGeneration ∧
      (disk.recentKeys io limit).2.isAvailable = disk.isAvailable := by
  have hflushed := flush_spec h io
  unfold recentKeys
  split
  · exact ⟨h, fun _ => rfl, rfl, rfl⟩
  · simp only
    split
    · exact hflushed
    · split
      · exact hflushed
      · exact hflushed

theorem loadRecent_spec (hcodec : LawfulCodec codec) (io : Io) (limit : Nat)
    (h : QueueSound codec disk) (heap : Heap) :
    LoadSpec codec io (disk.recentKeys io limit).1 disk heap
      (disk.loadRecent codec io heap limit) := by
  obtain ⟨hsound, hcopy, hgeneration, havailable⟩ := recentKeys_spec h io limit
  unfold loadRecent
  split
  · rename_i hlimit
    refine ⟨h, rfl, rfl, fun _ _ => rfl, Heap.Grows.refl heap, ?_, List.Pairwise.nil⟩
    intro row hrow
    cases hrow
  · have hload := loadKeys_spec hcodec io (disk.recentKeys io limit).1 hsound heap
    refine ⟨hload.sound, hload.generation.trans hgeneration,
      hload.available.trans havailable, fun k hsteady => ?_, hload.grows, hload.entries,
      hload.apart⟩
    refine (hload.copies k fun hk => ?_).trans (hcopy k)
    exact (hsteady hk).congr (hcopy k)

/-! ## Opening -/

theorem new_sound (io : Io) (enabled : Bool) : QueueSound codec (DiskCache.new io enabled) :=
  ⟨Keyed.all_empty _, Keyed.all_empty _, Nat.zero_le _⟩

theorem reopenIfUnavailable_spec (h : QueueSound codec disk) (io : Io) {reopened : DiskCache}
    (hreopened : disk.reopenIfUnavailable io = (true, reopened)) :
    QueueSound codec reopened ∧ reopened.isAvailable = true := by
  unfold reopenIfUnavailable at hreopened
  split at hreopened
  · rename_i havailable
    cases hreopened
    exact ⟨h, havailable⟩
  · split at hreopened
    · cases hreopened
    · split at hreopened
      · cases hreopened
      · cases hreopened
        exact ⟨h.congr rfl (fun _ => rfl) h.bounded, rfl⟩

theorem clear_sound (io : Io) (disk : DiskCache) : QueueSound codec (disk.clear io) :=
  ⟨Keyed.all_empty _, Keyed.all_empty _, Nat.zero_le _⟩

end DiskCache

end ImportLens.Cache
