import ImportLens.Cache.Disk.Store
import ImportLens.Support.SortedDedup

/-!
# The discipline of the insert queue

The queue is shared by the threads that insert and by the flush that holds
`clear_lock`.  A flush takes the queue as its batch, writes without holding
the lock of the queue, and puts the batch back when the write fails; inserts
of the same keys may arrive in between.  `QueueSection` lists what runs under
one lock, and a list of sections is one interleaving.
-/

namespace ImportLens.Cache

open ImportLens.Support

/-! ## Shedding -/

section

variable {ν : Type} {seqOf : ν → Nat} {pending kept : Keyed Key (Nat × ν)}

def byRecency (seqOf : ν → Nat) (pending : Keyed Key (Nat × ν)) : List (Nat × Key) :=
  (pending.rows.map fun row => (seqOf row.2.2, row.1)).mergeSort
    fun a b => decide (toLex a ≤ toLex b)

theorem shedOldest_of_full (h : maxPendingInserts < pending.rows.length) :
    shedOldest seqOf pending =
      pending.eraseAll (((byRecency seqOf pending).take
        (pending.rows.length - (maxPendingInserts - insertFlushBatch))).map Prod.snd) := by
  unfold shedOldest
  rw [if_neg (by omega)]
  rfl

theorem byRecency_perm (seqOf : ν → Nat) (pending : Keyed Key (Nat × ν)) :
    (byRecency seqOf pending).Perm (pending.rows.map fun row => (seqOf row.2.2, row.1)) :=
  List.mergeSort_perm _ _

theorem map_byRecency_perm (seqOf : ν → Nat) (pending : Keyed Key (Nat × ν)) :
    ((byRecency seqOf pending).map Prod.snd).Perm (pending.rows.map Prod.fst) := by
  have hperm := (byRecency_perm seqOf pending).map Prod.snd
  rw [List.map_map] at hperm
  exact hperm

theorem nodup_byRecency_keys (seqOf : ν → Nat) (pending : Keyed Key (Nat × ν)) :
    ((byRecency seqOf pending).map Prod.snd).Nodup :=
  (map_byRecency_perm seqOf pending).nodup_iff.mpr (Keyed.nodup_rows_keys pending)

theorem length_byRecency (seqOf : ν → Nat) (pending : Keyed Key (Nat × ν)) :
    (byRecency seqOf pending).length = pending.rows.length := by
  rw [(byRecency_perm seqOf pending).length_eq, List.length_map]

theorem mem_byRecency {key : Key} {row : Nat × ν} (h : pending.lookup key = some row) :
    (seqOf row.2, key) ∈ byRecency seqOf pending := by
  rw [(byRecency_perm seqOf pending).mem_iff, List.mem_map]
  exact ⟨(key, row), Keyed.mem_rows.mpr h, rfl⟩

theorem byRecency_pairwise (seqOf : ν → Nat) (pending : Keyed Key (Nat × ν)) :
    (byRecency seqOf pending).Pairwise fun a b => toLex a ≤ toLex b :=
  @sortByKey_pairwise (Nat × Key) (Lex (Nat × Key)) _ toLex _

/-- What shedding does to a queue: nothing up to the ceiling, and past it one
batch below the ceiling is kept, the most recent values. -/
structure ShedsOldest (seqOf : ν → Nat) (pending kept : Keyed Key (Nat × ν)) : Prop where
  unchanged : pending.rows.length ≤ maxPendingInserts → kept = pending
  length : maxPendingInserts < pending.rows.length →
    kept.rows.length = maxPendingInserts - insertFlushBatch
  keeps : ∀ key row, kept.lookup key = some row → pending.lookup key = some row
  oldest : ∀ key row key' row', pending.lookup key = some row → kept.lookup key = none →
    kept.lookup key' = some row' → toLex (seqOf row.2, key) < toLex (seqOf row'.2, key')

theorem length_shedOldest (h : maxPendingInserts < pending.rows.length) :
    (shedOldest seqOf pending).rows.length = maxPendingInserts - insertFlushBatch := by
  rw [shedOldest_of_full h]
  generalize hexcess : pending.rows.length - (maxPendingInserts - insertFlushBatch) = excess
  have hnodup : (((byRecency seqOf pending).take excess).map Prod.snd).Nodup := by
    rw [List.map_take]
    exact (List.take_sublist _ _).nodup (nodup_byRecency_keys seqOf pending)
  have hlength := Keyed.length_eraseAll hnodup pending (by
    intro key hkey
    rw [← Keyed.mem_rows_keys, ← (map_byRecency_perm seqOf pending).mem_iff]
    rw [List.map_take] at hkey
    exact List.mem_of_mem_take hkey)
  rw [List.length_map, List.length_take, length_byRecency] at hlength
  have hbatch : insertFlushBatch ≤ maxPendingInserts := by decide
  omega

/-- A shed key stands among the first of the sorted queue, a kept one behind
them. -/
theorem shedOldest_oldest (h : maxPendingInserts < pending.rows.length) {key key' : Key}
    {row row' : Nat × ν} (hrow : pending.lookup key = some row)
    (hshed : (shedOldest seqOf pending).lookup key = none)
    (hkept : (shedOldest seqOf pending).lookup key' = some row') :
    toLex (seqOf row.2, key) < toLex (seqOf row'.2, key') := by
  rw [shedOldest_of_full h, Keyed.lookup_eraseAll] at hshed hkept
  generalize hexcess : pending.rows.length - (maxPendingInserts - insertFlushBatch) = excess at *
  have hkey : key ∈ ((byRecency seqOf pending).take excess).map Prod.snd := by
    by_contra hnot
    rw [if_neg hnot, hrow] at hshed
    cases hshed
  have hkey' : key' ∉ ((byRecency seqOf pending).take excess).map Prod.snd := by
    intro hmem
    rw [if_pos hmem] at hkept
    cases hkept
  rw [if_neg hkey'] at hkept
  have hfirst : (seqOf row.2, key) ∈ (byRecency seqOf pending).take excess := by
    obtain ⟨pair, hpair, hsnd⟩ := List.mem_map.mp hkey
    have hsame : pair = (seqOf row.2, key) :=
      List.inj_on_of_nodup_map (nodup_byRecency_keys seqOf pending) (List.mem_of_mem_take hpair)
        (mem_byRecency hrow) hsnd
    rwa [← hsame]
  have hbehind : (seqOf row'.2, key') ∈ (byRecency seqOf pending).drop excess := by
    have hmem : (seqOf row'.2, key') ∈ byRecency seqOf pending := mem_byRecency hkept
    rw [← List.take_append_drop excess (byRecency seqOf pending), List.mem_append] at hmem
    refine hmem.resolve_left fun htake => hkey' ?_
    exact List.mem_map.mpr ⟨_, htake, rfl⟩
  have hle : toLex (seqOf row.2, key) ≤ toLex (seqOf row'.2, key') := by
    have hpairwise := byRecency_pairwise seqOf pending
    rw [← List.take_append_drop excess (byRecency seqOf pending), List.pairwise_append]
      at hpairwise
    exact hpairwise.2.2 _ hfirst _ hbehind
  apply lt_of_le_of_ne hle
  intro heq
  have hsame : key = key' := congrArg Prod.snd (toLex.injective heq)
  exact hkey' (hsame ▸ hkey)

theorem shedOldest_sheds (seqOf : ν → Nat) (pending : Keyed Key (Nat × ν)) :
    ShedsOldest seqOf pending (shedOldest seqOf pending) where
  unchanged h := by
    unfold shedOldest
    rw [if_pos h]
  length h := length_shedOldest h
  keeps key row hrow := by
    by_cases hfull : maxPendingInserts < pending.rows.length
    · rw [shedOldest_of_full hfull, Keyed.lookup_eraseAll] at hrow
      split at hrow
      · cases hrow
      · exact hrow
    · unfold shedOldest at hrow
      rwa [if_pos (by omega)] at hrow
  oldest key row key' row' hrow hshed hkept := by
    by_cases hfull : maxPendingInserts < pending.rows.length
    · exact shedOldest_oldest hfull hrow hshed hkept
    · unfold shedOldest at hshed
      rw [if_pos (by omega), hrow] at hshed
      cases hshed

end

/-! ## Sections -/

/-- The disk cache, with the batch of the flush that holds `clear_lock`. -/
structure Flushing where
  disk : DiskCache
  inFlight : Option (Keyed Key Bytes)

/-- What runs under one lock.  The write of a batch reads nothing of the queue,
so it stands with the section that follows it. -/
inductive QueueSection
  | enqueue (key : Key) (generation : Nat) (bytes : Bytes)
  /-- A flush takes `clear_lock` and the queue. -/
  | take
  /-- The flush writes its batch, or puts it back. -/
  | settle (io : Io)
  | unqueue (covers : Key → Bool)
  | clear (io : Io)

namespace QueueSection

/-- A section that waits for `clear_lock` leaves the state as it is. -/
def apply : QueueSection → Flushing → Flushing
  | enqueue key generation bytes, s => { s with disk := s.disk.enqueue key generation bytes }
  | take, s =>
      match s.inFlight with
      | some _ => s
      | none =>
          if s.disk.db.isNone || s.disk.pendingInserts.rows.isEmpty then s
          else
            let kept := s.disk.keptInserts
            ⟨{ s.disk with pendingInserts := ∅ }, if kept.rows.isEmpty then none else some kept⟩
  | settle io, s =>
      match s.inFlight, s.disk.db with
      | some kept, some shard =>
          match writePendingInserts io.faults shard kept with
          | .ok written => ⟨{ s.disk with db := some written, flushRetryAfter := 0 }, none⟩
          | .error _ =>
              let backedOff :=
                { s.disk with flushRetryAfter := io.unixMillis + flushRetryBackoffMillis }
              ⟨backedOff.requeue kept, none⟩
      | _, _ => s
  | unqueue covers, s =>
      { s with
        disk :=
          { s.disk with
            pendingInserts := s.disk.pendingInserts.retain fun key => !covers key } }
  | clear io, s =>
      match s.inFlight with
      | some _ => s
      | none => { s with disk := s.disk.clear io }

end QueueSection

def runSections (sections : List QueueSection) (s : Flushing) : Flushing :=
  sections.foldl (fun s queueSection => queueSection.apply s) s

@[simp] theorem runSections_nil (s : Flushing) : runSections [] s = s := rfl

@[simp] theorem runSections_cons (queueSection : QueueSection) (rest : List QueueSection)
    (s : Flushing) :
    runSections (queueSection :: rest) s = runSections rest (queueSection.apply s) := rfl

theorem runSections_append (earlier later : List QueueSection) (s : Flushing) :
    runSections (earlier ++ later) s = runSections later (runSections earlier s) :=
  List.foldl_append

/-! ## The operations are runs of sections -/

namespace DiskCache

theorem flushPendingInserts_sections (io : Io) (disk : DiskCache) :
    runSections [.take, .settle io] ⟨disk, none⟩ = ⟨disk.flushPendingInserts io, none⟩ := by
  simp only [runSections_cons, runSections_nil]
  unfold flushPendingInserts
  cases hdb : disk.db with
  | none => simp [QueueSection.apply, hdb]
  | some shard =>
      by_cases hempty : disk.pendingInserts.rows.isEmpty = true
      · simp [QueueSection.apply, hdb, hempty]
      · by_cases hkept : disk.keptInserts.rows.isEmpty = true
        · simp [QueueSection.apply, hdb, hempty, hkept]
        · simp only [QueueSection.apply, hdb, hempty, hkept, Option.isNone_some, Bool.false_or,
            if_false, Bool.false_eq_true]
          cases writePendingInserts io.faults shard disk.keptInserts with
          | ok written => rfl
          | error error => rfl

end DiskCache

/-- What the threads of the shard call. -/
inductive QueueOp
  | write (io : Io) (heap : Heap) (key : Key) (cached : CachedImport) (generation : Nat)
  | flush (io : Io)

def QueueOp.apply (codec : Codec) (disk : DiskCache) : QueueOp → DiskCache
  | write io heap key cached generation =>
      (disk.writeAtGeneration codec io heap key cached generation).2
  | flush io => disk.flushPendingInserts io

theorem exists_sections_op (codec : Codec) (disk : DiskCache) (op : QueueOp) :
    ∃ sections, runSections sections ⟨disk, none⟩ = ⟨op.apply codec disk, none⟩ := by
  cases op with
  | flush io => exact ⟨_, disk.flushPendingInserts_sections io⟩
  | write io heap key cached generation =>
      cases hencode : encodeCacheValue codec heap (DiskCache.persisted cached) with
      | error error =>
          refine ⟨[], ?_⟩
          simp only [QueueOp.apply, DiskCache.writeAtGeneration, hencode, runSections_nil]
      | ok bytes =>
          simp only [QueueOp.apply, DiskCache.writeAtGeneration, hencode]
          by_cases hflush : (disk.enqueue key generation bytes).shouldFlush io = true
          · rw [if_pos hflush]
            exact ⟨[.enqueue key generation bytes, .take, .settle io],
              (disk.enqueue key generation bytes).flushPendingInserts_sections io⟩
          · rw [if_neg hflush]
            exact ⟨[.enqueue key generation bytes], rfl⟩

theorem exists_sections (codec : Codec) (ops : List QueueOp) (disk : DiskCache) :
    ∃ sections, runSections sections ⟨disk, none⟩ =
      ⟨ops.foldl (QueueOp.apply codec) disk, none⟩ := by
  induction ops generalizing disk with
  | nil => exact ⟨[], rfl⟩
  | cons op rest ih =>
      obtain ⟨first, hfirst⟩ := exists_sections_op codec disk op
      obtain ⟨later, hlater⟩ := ih (op.apply codec disk)
      refine ⟨first ++ later, ?_⟩
      rw [runSections_append, hfirst, hlater, List.foldl_cons]

/-! ## The bound -/

section

variable {s : Flushing}

def Flushing.Bounded (s : Flushing) : Prop :=
  s.disk.pendingInserts.rows.length ≤ maxPendingInserts

theorem length_retain_le {ν : Type} (keep : Key → Bool) (pending : Keyed Key ν) :
    (pending.retain keep).rows.length ≤ pending.rows.length := by
  unfold Keyed.rows Keyed.retain
  rw [List.length_map, List.length_map]
  exact List.length_filter_le _ _

theorem apply_bounded (h : s.Bounded) (queueSection : QueueSection) :
    (queueSection.apply s).Bounded := by
  cases queueSection with
  | enqueue key generation bytes => exact length_shedOldest_le _ _
  | take =>
      simp only [QueueSection.apply]
      split
      · exact h
      · split
        · exact h
        · exact Nat.zero_le _
  | settle io =>
      simp only [QueueSection.apply]
      split
      · split
        · exact h
        · exact length_shedOldest_le _ _
      · exact h
  | unqueue covers => exact (length_retain_le _ _).trans h
  | clear io =>
      simp only [QueueSection.apply]
      split
      · exact h
      · exact Nat.zero_le _

theorem runSections_bounded (h : s.Bounded) (sections : List QueueSection) :
    (runSections sections s).Bounded := by
  induction sections generalizing s with
  | nil => exact h
  | cons queueSection rest ih => exact ih (apply_bounded h queueSection)

/-! ## Values queued since the batch was taken -/

def QueueSection.enqueues (key : Key) : QueueSection → Option (Nat × Bytes)
  | enqueue other generation bytes => if other = key then some (generation, bytes) else none
  | _ => none

def lastEnqueued (key : Key) (sections : List QueueSection) : Option (Nat × Bytes) :=
  sections.foldl (fun last queueSection => (queueSection.enqueues key).or last) none

theorem lastEnqueued_concat (key : Key) (sections : List QueueSection)
    (queueSection : QueueSection) :
    lastEnqueued key (sections ++ [queueSection]) =
      (queueSection.enqueues key).or (lastEnqueued key sections) :=
  List.foldl_append

theorem lookup_enqueue {disk : DiskCache} {key other : Key} {generation : Nat} {bytes : Bytes}
    {tagged : Nat × Bytes}
    (h : (disk.enqueue other generation bytes).pendingInserts.lookup key = some tagged) :
    ((QueueSection.enqueue other generation bytes).enqueues key).or
      (disk.pendingInserts.lookup key) = some tagged := by
  have hkept := (shedOldest_sheds decodeLastSeq _).keeps key tagged h
  rw [Keyed.lookup_insert_eq] at hkept
  by_cases hkey : key = other
  · rw [if_pos hkey] at hkept
    simp only [QueueSection.enqueues, if_pos hkey.symm, Option.some_or, hkept]
  · rw [if_neg hkey] at hkept
    simp only [QueueSection.enqueues, if_neg (Ne.symm hkey), Option.none_or, hkept]

/-- A batch in flight was taken by this section, with nothing queued behind it,
or was in flight before, and then the queue holds what it held and what the
section queued. -/
theorem apply_inFlight {queueSection : QueueSection} {kept : Keyed Key Bytes}
    (h : (queueSection.apply s).inFlight = some kept) :
    (s.inFlight = none ∧ queueSection = .take ∧ s.disk.keptInserts = kept ∧
      (queueSection.apply s).disk.pendingInserts = ∅) ∨
    (s.inFlight = some kept ∧ ∀ key tagged,
      (queueSection.apply s).disk.pendingInserts.lookup key = some tagged →
        (queueSection.enqueues key).or (s.disk.pendingInserts.lookup key) = some tagged) := by
  cases hflight : s.inFlight with
  | none =>
      refine Or.inl ⟨rfl, ?_⟩
      cases queueSection with
      | take =>
          simp only [QueueSection.apply, hflight] at h ⊢
          split at h
          · rw [hflight] at h
            cases h
          · rename_i hopen
            rw [if_neg hopen]
            split at h
            · cases h
            · exact ⟨trivial, Option.some.inj h, rfl⟩
      | enqueue key generation bytes => exact absurd (hflight.symm.trans h) (by simp)
      | unqueue covers => exact absurd (hflight.symm.trans h) (by simp)
      | settle io =>
          simp only [QueueSection.apply, hflight] at h
          cases h
      | clear io =>
          simp only [QueueSection.apply, hflight] at h
          cases h
  | some batch =>
      refine Or.inr ?_
      cases queueSection with
      | take =>
          simp only [QueueSection.apply, hflight] at h ⊢
          exact ⟨h, fun key tagged hqueued => hqueued⟩
      | enqueue key generation bytes =>
          exact ⟨hflight.symm.trans h, fun other tagged hqueued => lookup_enqueue hqueued⟩
      | unqueue covers =>
          refine ⟨hflight.symm.trans h, fun other tagged hqueued => ?_⟩
          simp only [QueueSection.apply, Keyed.lookup_retain] at hqueued
          split at hqueued
          · exact hqueued
          · cases hqueued
      | settle io =>
          -- a settled batch is no longer in flight
          simp only [QueueSection.apply, hflight] at h ⊢
          cases hdb : s.disk.db with
          | none =>
              simp only [hdb] at h ⊢
              exact ⟨hflight.symm.trans h, fun key tagged hqueued => hqueued⟩
          | some shard =>
              simp only [hdb] at h
              split at h
              · cases h
              · cases h
      | clear io =>
          simp only [QueueSection.apply, hflight] at h ⊢
          exact ⟨h, fun key tagged hqueued => hqueued⟩

/-- The section that took the batch in flight, and what the queue holds since:
for each key nothing or the value queued last. -/
theorem runSections_inFlight {start : Flushing} (hstart : start.inFlight = none)
    (sections : List QueueSection) {kept : Keyed Key Bytes}
    (h : (runSections sections start).inFlight = some kept) :
    ∃ earlier since, sections = earlier ++ .take :: since ∧
      (runSections earlier start).inFlight = none ∧
      (runSections earlier start).disk.keptInserts = kept ∧
      ∀ key tagged, (runSections sections start).disk.pendingInserts.lookup key = some tagged →
        lastEnqueued key since = some tagged := by
  induction sections using List.reverseRecOn with
  | nil =>
      rw [runSections_nil, hstart] at h
      cases h
  | append_singleton sections queueSection ih =>
      rw [runSections_append, runSections_cons, runSections_nil] at h
      rcases apply_inFlight h with ⟨hidle, rfl, hkept, hempty⟩ | ⟨hbefore, hqueue⟩
      · refine ⟨sections, [], rfl, hidle, hkept, ?_⟩
        intro key tagged hqueued
        rw [runSections_append, runSections_cons, runSections_nil, hempty] at hqueued
        cases hqueued
      · obtain ⟨earlier, since, rfl, hidle, hkept, hsince⟩ := ih hbefore
        refine ⟨earlier, since ++ [queueSection], by simp, hidle, hkept, ?_⟩
        intro key tagged hqueued
        rw [runSections_append, runSections_cons, runSections_nil] at hqueued
        have hlast := hqueue key tagged hqueued
        rw [lastEnqueued_concat]
        cases henqueues : queueSection.enqueues key with
        | some value =>
            rw [henqueues, Option.some_or] at hlast
            rw [Option.some_or, hlast]
        | none =>
            rw [henqueues, Option.none_or] at hlast
            rw [Option.none_or, hsince key tagged hlast]

/-- A key that is queued keeps its value when a batch is put back. -/
theorem lookup_requeueRows_of_queued {generation : Nat} {key : Key} {tagged : Nat × Bytes}
    (rows : List (Key × Bytes)) {pending : Keyed Key (Nat × Bytes)}
    (h : pending.lookup key = some tagged) :
    (requeueRows generation rows pending).lookup key = some tagged := by
  induction rows generalizing pending with
  | nil => exact h
  | cons row rest ih =>
      obtain ⟨other, value⟩ := row
      simp only [requeueRows]
      by_cases hqueued : (pending.lookup other).isSome = true
      · rw [if_pos hqueued]
        exact ih h
      · rw [if_neg hqueued]
        apply ih
        have hne : key ≠ other := by
          intro heq
          rw [← heq, h] at hqueued
          exact hqueued rfl
        rw [AList.lookup_insert_ne hne, h]

end

def Flushing.opened (io : Io) (enabled : Bool) : Flushing := ⟨DiskCache.new io enabled, none⟩

/-- Over every interleaving of inserts, flushes, removals and clears, and over
calls one after the other: the queue stays within its ceiling, a shed drops the
least recently used values down to one batch below it, and a batch that is put
back leaves the value queued last for a key since it was taken. -/
theorem queue_discipline (io : Io) (enabled : Bool) :
    (∀ sections, (runSections sections (.opened io enabled)).Bounded) ∧
    (∀ codec (ops : List QueueOp), (ops.foldl (QueueOp.apply codec)
      (DiskCache.new io enabled)).pendingInserts.rows.length ≤ maxPendingInserts) ∧
    (∀ pending, ShedsOldest decodeLastSeq pending (DiskCache.shedOldestPendingInserts pending)) ∧
    (∀ sections kept, (runSections sections (.opened io enabled)).inFlight = some kept →
      ∃ earlier since, sections = earlier ++ .take :: since ∧
        (runSections earlier (.opened io enabled)).disk.keptInserts = kept ∧
        ∀ io' shard error,
          (runSections sections (.opened io enabled)).disk.db = some shard →
          writePendingInserts io'.faults shard kept = .error error →
          let before := (runSections sections (.opened io enabled)).disk
          let requeued := requeueRows before.clearGeneration kept.rows before.pendingInserts
          (runSections (sections ++ [.settle io'])
              (.opened io enabled)).disk.pendingInserts =
            DiskCache.shedOldestPendingInserts requeued ∧
          ∀ key tagged, before.pendingInserts.lookup key = some tagged →
            lastEnqueued key since = some tagged ∧ requeued.lookup key = some tagged) := by
  have hbounded : ∀ sections, (runSections sections (.opened io enabled)).Bounded := by
    intro sections
    apply runSections_bounded
    exact Nat.zero_le _
  refine ⟨hbounded, ?_, ?_, ?_⟩
  · intro codec ops
    obtain ⟨sections, hsections⟩ := exists_sections codec ops (DiskCache.new io enabled)
    have h := hbounded sections
    rw [Flushing.opened, hsections] at h
    exact h
  · intro pending
    exact shedOldest_sheds decodeLastSeq pending
  · intro sections kept hkept
    obtain ⟨earlier, since, hsections, -, htaken, hsince⟩ := runSections_inFlight rfl sections hkept
    refine ⟨earlier, since, hsections, htaken, ?_⟩
    intro io' shard error hdb hfails before requeued
    constructor
    · rw [runSections_append, runSections_cons, runSections_nil]
      simp only [QueueSection.apply, hkept, hdb, hfails]
      rfl
    · intro key tagged hqueued
      exact ⟨hsince key tagged hqueued, lookup_requeueRows_of_queued kept.rows hqueued⟩

end ImportLens.Cache
