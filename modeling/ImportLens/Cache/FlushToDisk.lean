import ImportLens.Cache.Disk.Retention
import ImportLens.Cache.Recency.Steps

/-!
# What a flush to disk promises

`flush_to_disk` replays the dirty entries, sweeps the promoted ones and flushes
the queue, and its callers take `Ok` for durable.  It reports the enqueues that
fail; a failure of a transaction, in a flush that an enqueue triggers or in the
final one, is logged and its batch queued again.  So two ways to lose an entry
stay unreported: the final transaction fails, or a queue at its ceiling sheds
the entry before a flush has committed it.

The environment answers each enqueue of the call on its own.
-/

namespace ImportLens.Cache

open ImportLens.Support

/-! ## One call in an environment -/

/-- What the environment answers while one entry is enqueued: the store and the
clock, and the error of an enqueue that is refused. -/
structure OfferAnswer where
  io : Io
  refused : Option String

/-- What it answers during one call. -/
structure FlushAnswers where
  replay : Key → OfferAnswer
  sweep : Key → OfferAnswer
  final : Io

section

variable (codec : Codec)

/-- `DiskCache::insert_at_generation`, which may be refused. -/
def DiskCache.offerAtGeneration (answer : OfferAnswer) (heap : Heap) (key : Key)
    (cached : CachedImport) (generation : Nat) (disk : DiskCache) :
    Except String Unit × DiskCache :=
  if !disk.isAvailable then (.ok (), disk)
  else if !cached.result.isDurable || !fingerprintsAreReusable cached.dependencyFingerprints then
    (.ok (), disk)
  else
    match answer.refused with
    | some error => (.error error, disk)
    | none => disk.writeAtGeneration codec answer.io heap key cached generation

namespace ImportCache

def replayUnder (answers : Key → OfferAnswer) (clearGeneration : Nat) :
    List (Key × CachedImport) → DiskCache → Heap → List Key × List String × DiskCache
  | [], disk, _ => ([], [], disk)
  | (key, cached) :: rest, disk, heap =>
      let (outcome, disk') :=
        disk.offerAtGeneration codec (answers key) heap key cached clearGeneration
      let (failed, errors, final) := replayUnder answers clearGeneration rest disk' heap
      match outcome with
      | .ok _ => (failed, errors, final)
      | .error error => (key :: failed, (key ++ ": " ++ error) :: errors, final)

def sweepUnder (answers : Key → OfferAnswer) (clearGeneration : Nat) :
    List (Key × CachedImport) → DiskCache → Heap → List String × DiskCache × Heap
  | [], disk, heap => ([], disk, heap)
  | (key, cached) :: rest, disk, heap =>
      let seqAtFlush := (heap.cells cached.cell).lastSeq
      let (outcome, disk') :=
        disk.offerAtGeneration codec (answers key) heap key cached clearGeneration
      match outcome with
      | .ok _ =>
          sweepUnder answers clearGeneration rest disk'
            (heap.modify cached.cell fun cell => { cell with persistedSeq := seqAtFlush })
      | .error error =>
          let (errors, final, heap') := sweepUnder answers clearGeneration rest disk' heap
          ((key ++ ": " ++ error) :: errors, final, heap')

/-- `ImportCache::flush_to_disk`. -/
def flushToDiskUnder (answers : FlushAnswers) (cache : ImportCache) :
    Except String Unit × ImportCache :=
  let clearGeneration := cache.disk.clearGeneration
  let (failedDirty, dirtyErrors, replayed) :=
    replayUnder codec answers.replay clearGeneration cache.dirtyEntries cache.disk cache.heap
  let promoted := cache.promotedEntries failedDirty
  let (sweepErrors, swept, heap) :=
    sweepUnder codec answers.sweep clearGeneration promoted replayed cache.heap
  let errors := dirtyErrors ++ sweepErrors
  let outcome := if errors.isEmpty then .ok () else .error ("; ".intercalate errors)
  (outcome,
    { cache with
      disk := swept.flushPendingInserts answers.final, dirty := failedDirty, heap := heap })

/-! ## The call that answers alike -/

theorem offerAtGeneration_unrefused (io : Io) (heap : Heap) (key : Key) (cached : CachedImport)
    (generation : Nat) (disk : DiskCache) :
    disk.offerAtGeneration codec ⟨io, none⟩ heap key cached generation =
      disk.insertAtGeneration codec io heap key cached generation := rfl

theorem flushToDiskUnder_const (io : Io) (cache : ImportCache) :
    cache.flushToDiskUnder codec ⟨fun _ => ⟨io, none⟩, fun _ => ⟨io, none⟩, io⟩ =
      cache.flushToDisk codec io := by
  have hreplay : ∀ entries disk, replayUnder codec (fun _ => ⟨io, none⟩)
      cache.disk.clearGeneration entries disk cache.heap =
        replayDirty codec io cache.disk.clearGeneration entries disk cache.heap := by
    intro entries
    induction entries with
    | nil => intro disk; rfl
    | cons row rest ih =>
        intro disk
        obtain ⟨key, cached⟩ := row
        cases hinsert : disk.insertAtGeneration codec io cache.heap key cached
            cache.disk.clearGeneration with
        | mk outcome disk' =>
            cases outcome with
            | ok _ => simp only [replayUnder, replayDirty, offerAtGeneration_unrefused, hinsert, ih]
            | error error =>
                simp only [replayUnder, replayDirty, offerAtGeneration_unrefused, hinsert, ih]
  have hsweep : ∀ entries disk heap, sweepUnder codec (fun _ => ⟨io, none⟩)
      cache.disk.clearGeneration entries disk heap =
        sweepPromoted codec io cache.disk.clearGeneration entries disk heap := by
    intro entries
    induction entries with
    | nil => intro disk heap; rfl
    | cons row rest ih =>
        intro disk heap
        obtain ⟨key, cached⟩ := row
        cases hinsert : disk.insertAtGeneration codec io heap key cached
            cache.disk.clearGeneration with
        | mk outcome disk' =>
            cases outcome with
            | ok _ =>
                simp only [sweepUnder, sweepPromoted, offerAtGeneration_unrefused, hinsert, ih]
            | error error =>
                simp only [sweepUnder, sweepPromoted, offerAtGeneration_unrefused, hinsert, ih]
  simp only [flushToDiskUnder, flushToDisk, hreplay, hsweep]
  all_goals rfl

end ImportCache

end

/-! ## The call as a list of offers -/

section

variable (codec : Codec)

def offerBytes (answer : OfferAnswer) (heap : Heap) (cached : CachedImport) :
    Except String Bytes :=
  match answer.refused with
  | some error => .error error
  | none => encodeCacheValue codec heap (DiskCache.persisted cached)

def accepted (answers : Key → OfferAnswer) (heap : Heap) (entries : List (Key × CachedImport)) :
    List DiskCache.Offer :=
  entries.filterMap fun row =>
    match offerBytes codec (answers row.1) heap row.2 with
    | .ok bytes => some ⟨row.1, bytes, (answers row.1).io⟩
    | .error _ => none

def refused (answers : Key → OfferAnswer) (heap : Heap) (entries : List (Key × CachedImport)) :
    List (Key × String) :=
  entries.filterMap fun row =>
    match offerBytes codec (answers row.1) heap row.2 with
    | .ok _ => none
    | .error error => some (row.1, error)

end

section

variable {codec : Codec} {answers : Key → OfferAnswer} {heap : Heap}
  {entries : List (Key × CachedImport)}

theorem mem_accepted {offer : DiskCache.Offer} :
    offer ∈ accepted codec answers heap entries ↔ ∃ cached, (offer.key, cached) ∈ entries ∧
      offerBytes codec (answers offer.key) heap cached = .ok offer.bytes ∧
      offer.io = (answers offer.key).io := by
  unfold accepted
  rw [List.mem_filterMap]
  constructor
  · intro hmem
    obtain ⟨⟨key, cached⟩, hrow, hoffer⟩ := hmem
    cases hbytes : offerBytes codec (answers key) heap cached with
    | error error =>
        simp only [hbytes] at hoffer
        cases hoffer
    | ok bytes =>
        simp only [hbytes] at hoffer
        cases hoffer
        exact ⟨cached, hrow, hbytes, rfl⟩
  · intro hmem
    obtain ⟨cached, hrow, hbytes, hio⟩ := hmem
    refine ⟨(offer.key, cached), hrow, ?_⟩
    simp only [hbytes]
    rw [← hio]

theorem mem_accepted_keys {key : Key} :
    key ∈ (accepted codec answers heap entries).map DiskCache.Offer.key ↔
      ∃ cached bytes, (key, cached) ∈ entries ∧
        offerBytes codec (answers key) heap cached = .ok bytes := by
  rw [List.mem_map]
  constructor
  · intro hmem
    obtain ⟨offer, hoffer, rfl⟩ := hmem
    obtain ⟨cached, hrow, hbytes, -⟩ := mem_accepted.mp hoffer
    exact ⟨cached, offer.bytes, hrow, hbytes⟩
  · intro hmem
    obtain ⟨cached, bytes, hrow, hbytes⟩ := hmem
    exact ⟨⟨key, bytes, (answers key).io⟩, mem_accepted.mpr ⟨cached, hrow, hbytes, rfl⟩, rfl⟩

theorem mem_refused_keys {key : Key} :
    key ∈ (refused codec answers heap entries).map Prod.fst ↔
      ∃ cached error, (key, cached) ∈ entries ∧
        offerBytes codec (answers key) heap cached = .error error := by
  unfold refused
  rw [List.mem_map]
  constructor
  · intro hmem
    obtain ⟨⟨key', error⟩, hrow, rfl⟩ := hmem
    obtain ⟨⟨key, cached⟩, hentry, heq⟩ := List.mem_filterMap.mp hrow
    cases hbytes : offerBytes codec (answers key) heap cached with
    | error message =>
        simp only [hbytes] at heq
        cases heq
        exact ⟨cached, _, hentry, hbytes⟩
    | ok bytes =>
        simp only [hbytes] at heq
        cases heq
  · intro hmem
    obtain ⟨cached, error, hentry, hbytes⟩ := hmem
    refine ⟨(key, error), List.mem_filterMap.mpr ⟨(key, cached), hentry, ?_⟩, rfl⟩
    simp only [hbytes]

theorem refused_eq_nil_iff :
    refused codec answers heap entries = [] ↔ ∀ key cached, (key, cached) ∈ entries →
      ∃ bytes, offerBytes codec (answers key) heap cached = .ok bytes := by
  rw [← @List.map_eq_nil_iff _ _ Prod.fst, List.eq_nil_iff_forall_not_mem]
  constructor
  · intro hnone key cached hentry
    cases hbytes : offerBytes codec (answers key) heap cached with
    | ok bytes => exact ⟨bytes, rfl⟩
    | error error => exact absurd (mem_refused_keys.mpr ⟨cached, error, hentry, hbytes⟩) (hnone key)
  · intro hall key hmem
    obtain ⟨cached, error, hentry, hbytes⟩ := mem_refused_keys.mp hmem
    obtain ⟨bytes, hok⟩ := hall key cached hentry
    rw [hbytes] at hok
    cases hok

theorem offerBytes_congr {heap' : Heap} {cached : CachedImport}
    (h : (heap.cells cached.cell).lastSeq = (heap'.cells cached.cell).lastSeq)
    (answer : OfferAnswer) :
    offerBytes codec answer heap cached = offerBytes codec answer heap' cached := by
  have hcell : (DiskCache.persisted cached).cell = cached.cell := rfl
  simp only [offerBytes, encodeCacheValue, hcell, h]

/-- An enqueue of a gated entry into an open shard is a put or a refusal. -/
theorem offerAtGeneration_eq {disk : DiskCache} (hopen : disk.isAvailable = true)
    {cached : CachedImport} (hgated : Gated cached.result cached.dependencyFingerprints)
    (answer : OfferAnswer) (key : Key) :
    disk.offerAtGeneration codec answer heap key cached disk.clearGeneration =
      match offerBytes codec answer heap cached with
      | .ok bytes => (.ok (), disk.put ⟨key, bytes, answer.io⟩)
      | .error error => (.error error, disk) := by
  unfold DiskCache.offerAtGeneration offerBytes
  simp only [hopen, hgated.1, hgated.2, Bool.not_true, Bool.or_self, Bool.false_eq_true, if_false]
  cases answer.refused with
  | some error => rfl
  | none =>
      simp only [DiskCache.writeAtGeneration, DiskCache.put]
      cases encodeCacheValue codec heap (DiskCache.persisted cached) with
      | error error => rfl
      | ok bytes =>
          simp only
          split
          · rfl
          · rfl

namespace ImportCache

theorem replayUnder_eq (disk : DiskCache) (hopen : disk.isAvailable = true)
    (hgated : ∀ row ∈ entries, Gated row.2.result row.2.dependencyFingerprints) :
    replayUnder codec answers disk.clearGeneration entries disk heap =
      ((refused codec answers heap entries).map Prod.fst,
        (refused codec answers heap entries).map (fun row => row.1 ++ ": " ++ row.2),
        DiskCache.puts (accepted codec answers heap entries) disk) := by
  induction entries generalizing disk with
  | nil => rfl
  | cons row rest ih =>
      obtain ⟨key, cached⟩ := row
      have hrest : ∀ row ∈ rest, Gated row.2.result row.2.dependencyFingerprints :=
        fun row hrow => hgated row (List.mem_cons_of_mem _ hrow)
      have hoffer := @offerAtGeneration_eq codec heap disk hopen cached
        (hgated (key, cached) List.mem_cons_self) (answers key) key
      cases hbytes : offerBytes codec (answers key) heap cached with
      | error error =>
          rw [hbytes] at hoffer
          simp only [replayUnder, hoffer, ih disk hopen hrest, refused, accepted,
            List.filterMap_cons, hbytes, List.map_cons]
      | ok bytes =>
          rw [hbytes] at hoffer
          have hnext := ih (disk.put ⟨key, bytes, (answers key).io⟩)
            ((DiskCache.put_isAvailable _ _).trans hopen) hrest
          rw [DiskCache.put_clearGeneration] at hnext
          simp only [replayUnder, hoffer, hnext, refused, accepted, List.filterMap_cons, hbytes,
            DiskCache.puts, List.foldl_cons]

def persistAll (rows : List (Key × CachedImport)) (heap : Heap) : Heap :=
  rows.foldl (fun heap row => heap.persistLast row.2.cell) heap

/-- Every sequence stays, and a `persisted_seq` becomes the sequence of its
cell exactly where a row has that cell. -/
theorem persistAll_cells (rows : List (Key × CachedImport)) (heap : Heap) (cell : Nat) :
    ((persistAll rows heap).cells cell).lastSeq = (heap.cells cell).lastSeq ∧
    ((∀ row ∈ rows, row.2.cell ≠ cell) → (persistAll rows heap).cells cell = heap.cells cell) ∧
    ((∃ row ∈ rows, row.2.cell = cell) →
      ((persistAll rows heap).cells cell).persistedSeq = (heap.cells cell).lastSeq) := by
  induction rows generalizing heap with
  | nil => simp [persistAll]
  | cons row rest ih =>
      obtain ⟨hseq, hapart, hmarked⟩ := ih (heap.persistLast row.2.cell)
      obtain ⟨hself, hlast, hothers⟩ := heap.persistLast_seq row.2.cell
      refine ⟨hseq.trans (hlast cell), ?_, ?_⟩
      · intro hnone
        have hhead := hnone row List.mem_cons_self
        exact (hapart fun other hother => hnone other (List.mem_cons_of_mem _ hother)).trans
          (hothers cell (Ne.symm hhead))
      · intro hsome
        by_cases hrest : ∃ other ∈ rest, other.2.cell = cell
        · exact (hmarked hrest).trans (hlast cell)
        · push Not at hrest
          obtain ⟨other, hother, hcell⟩ := hsome
          have hhead : row.2.cell = cell := by
            rcases List.mem_cons.mp hother with rfl | hlater
            · exact hcell
            · exact absurd hcell (hrest other hlater)
          have hsame := hapart hrest
          rw [hhead] at hself hsame
          calc ((persistAll rest (heap.persistLast row.2.cell)).cells cell).persistedSeq
              = ((heap.persistLast cell).cells cell).persistedSeq := by rw [hhead, hsame]
            _ = (heap.cells cell).lastSeq := hself

def swept (codec : Codec) (answers : Key → OfferAnswer) (heap : Heap)
    (entries : List (Key × CachedImport)) : List (Key × CachedImport) :=
  entries.filter fun row => (offerBytes codec (answers row.1) heap row.2).toBool

theorem mem_swept {row : Key × CachedImport} :
    row ∈ swept codec answers heap entries ↔
      row ∈ entries ∧ ∃ bytes, offerBytes codec (answers row.1) heap row.2 = .ok bytes := by
  unfold swept
  rw [List.mem_filter]
  cases offerBytes codec (answers row.1) heap row.2 with
  | error error => simp [Except.toBool]
  | ok bytes => simp [Except.toBool]

theorem sweepUnder_eq (disk : DiskCache) (heap₀ : Heap) (hopen : disk.isAvailable = true)
    (hgated : ∀ row ∈ entries, Gated row.2.result row.2.dependencyFingerprints)
    (hseq : ∀ cell, (heap.cells cell).lastSeq = (heap₀.cells cell).lastSeq) :
    sweepUnder codec answers disk.clearGeneration entries disk heap =
      ((refused codec answers heap₀ entries).map (fun row => row.1 ++ ": " ++ row.2),
        DiskCache.puts (accepted codec answers heap₀ entries) disk,
        persistAll (swept codec answers heap₀ entries) heap) := by
  induction entries generalizing disk heap with
  | nil => rfl
  | cons row rest ih =>
      obtain ⟨key, cached⟩ := row
      have hrest : ∀ row ∈ rest, Gated row.2.result row.2.dependencyFingerprints :=
        fun row hrow => hgated row (List.mem_cons_of_mem _ hrow)
      have hoffer := @offerAtGeneration_eq codec heap disk hopen cached
        (hgated (key, cached) List.mem_cons_self) (answers key) key
      rw [offerBytes_congr (hseq cached.cell)] at hoffer
      cases hbytes : offerBytes codec (answers key) heap₀ cached with
      | error error =>
          rw [hbytes] at hoffer
          simp only [sweepUnder, hoffer, ih disk hopen hrest hseq, refused, accepted, swept,
            List.filterMap_cons, List.filter_cons, hbytes, List.map_cons, Except.toBool,
            Bool.false_eq_true, if_false]
      | ok bytes =>
          rw [hbytes] at hoffer
          have hnext := ih (disk.put ⟨key, bytes, (answers key).io⟩)
            ((DiskCache.put_isAvailable _ _).trans hopen) hrest
            (fun cell => ((heap.persistLast_seq cached.cell).2.1 cell).trans (hseq cell))
          rw [DiskCache.put_clearGeneration] at hnext
          simp only [sweepUnder, hoffer, refused, accepted, swept, List.filterMap_cons,
            List.filter_cons, hbytes, DiskCache.puts, List.foldl_cons, Except.toBool, if_true,
            persistAll]
          exact hnext

end ImportCache

end

/-! ## What the caller is promised -/

namespace ImportCache

def Promoted (cache : ImportCache) (cached : CachedImport) : Prop :=
  (cache.heap.cells cached.cell).persistedSeq < (cache.heap.cells cached.cell).lastSeq

def Due (cache : ImportCache) (key : Key) (cached : CachedImport) : Prop :=
  cache.memory.lookup key = some cached ∧ (key ∈ cache.dirty ∨ cache.Promoted cached)

/-- A stored value that carries the entry with a sequence at least its own. -/
def Carries (codec : Codec) (heap : Heap) (cached : CachedImport) (bytes : Bytes) : Prop :=
  (heap.cells cached.cell).lastSeq ≤ decodeLastSeq bytes ∧
    codec.toVec (envelopeOf (DiskCache.persisted cached)) = .ok (bytes.drop seqPrefixLen)

section

variable (codec : Codec) (answers : FlushAnswers) (cache : ImportCache)

/-- `Ok` means durable, and after `Err` a later flush can retry what was not
written. -/
structure FlushedDurably : Prop where
  ok : (cache.flushToDiskUnder codec answers).1 = .ok () → ∀ key cached, cache.Due key cached →
    (cache.flushToDiskUnder codec answers).2.disk.Holds (Carries codec cache.heap cached) key
  error : ∀ error, (cache.flushToDiskUnder codec answers).1 = .error error →
    ∀ key cached, cache.Due key cached →
    let after := (cache.flushToDiskUnder codec answers).2
    after.disk.Holds (Carries codec cache.heap cached) key ∨ key ∈ after.dirty ∨
      after.Promoted cached ∨ ∃ bytes, after.disk.pendingInserts.lookup key =
        some (after.disk.clearGeneration, bytes) ∧ Carries codec cache.heap cached bytes

/-- Both loops enqueue the entry as often as it is due there, without error. -/
def AcceptedDue (key : Key) (cached : CachedImport) : Prop :=
  cache.Due key cached ∧
    (key ∈ cache.dirty →
      ∃ bytes, offerBytes codec (answers.replay key) cache.heap cached = .ok bytes) ∧
    (cache.Promoted cached →
      ∃ bytes, offerBytes codec (answers.sweep key) cache.heap cached = .ok bytes)

def refusedDirty : List Key :=
  (refused codec answers.replay cache.heap cache.dirtyEntries).map Prod.fst

def sweepEntries : List (Key × CachedImport) :=
  cache.promotedEntries (refusedDirty codec answers cache)

def flushOffers : List DiskCache.Offer :=
  accepted codec answers.replay cache.heap cache.dirtyEntries ++
    accepted codec answers.sweep cache.heap (sweepEntries codec answers cache)

def flushErrors : List String :=
  (refused codec answers.replay cache.heap cache.dirtyEntries ++
    refused codec answers.sweep cache.heap (sweepEntries codec answers cache)).map
      fun row => row.1 ++ ": " ++ row.2

def offeredDisk : DiskCache := DiskCache.puts (flushOffers codec answers cache) cache.disk

end

section

variable {codec : Codec} {answers : FlushAnswers} {cache : ImportCache}

theorem mem_promotedEntries {failed : List Key} {key : Key} {cached : CachedImport} :
    (key, cached) ∈ cache.promotedEntries failed ↔
      cache.memory.lookup key = some cached ∧ key ∉ failed ∧ cache.Promoted cached := by
  unfold promotedEntries
  rw [List.mem_filter, Keyed.mem_rows, Bool.and_eq_true, decide_eq_true_eq, Bool.not_eq_true',
    List.contains_eq_mem, decide_eq_false_iff_not]
  rfl

/-- The call in terms of its offers. -/
theorem flushToDiskUnder_eq (hopen : cache.disk.isAvailable = true) (h : cache.WellKept) :
    cache.flushToDiskUnder codec answers =
      (if (flushErrors codec answers cache).isEmpty then .ok ()
        else .error ("; ".intercalate (flushErrors codec answers cache)),
        { cache with
          disk := (offeredDisk codec answers cache).flushPendingInserts answers.final
          dirty := refusedDirty codec answers cache
          heap := persistAll (swept codec answers.sweep cache.heap
            (sweepEntries codec answers cache)) cache.heap }) := by
  have hdirty : ∀ row ∈ cache.dirtyEntries, Gated row.2.result row.2.dependencyFingerprints :=
    fun row hrow => h.gated row.1 row.2 (mem_dirtyEntries.mp hrow).2
  have hpromoted : ∀ row ∈ sweepEntries codec answers cache,
      Gated row.2.result row.2.dependencyFingerprints :=
    fun row hrow => h.gated row.1 row.2 (mem_promotedEntries.mp hrow).1
  have hputs : (DiskCache.puts (accepted codec answers.replay cache.heap cache.dirtyEntries)
      cache.disk).isAvailable = true := by
    rw [DiskCache.puts_isAvailable, hopen]
  have hreplay := @replayUnder_eq codec answers.replay cache.heap cache.dirtyEntries cache.disk
    hopen hdirty
  have hsweep := @sweepUnder_eq codec answers.sweep cache.heap (sweepEntries codec answers cache)
    (DiskCache.puts (accepted codec answers.replay cache.heap cache.dirtyEntries) cache.disk)
    cache.heap hputs hpromoted (fun _ => rfl)
  rw [DiskCache.puts_clearGeneration] at hsweep
  have happend : offeredDisk codec answers cache =
      DiskCache.puts (accepted codec answers.sweep cache.heap (sweepEntries codec answers cache))
        (DiskCache.puts (accepted codec answers.replay cache.heap cache.dirtyEntries)
          cache.disk) := List.foldl_append
  have herrors : flushErrors codec answers cache =
      (refused codec answers.replay cache.heap cache.dirtyEntries).map
          (fun row => row.1 ++ ": " ++ row.2) ++
        (refused codec answers.sweep cache.heap (sweepEntries codec answers cache)).map
          fun row => row.1 ++ ": " ++ row.2 := List.map_append
  rw [happend, herrors]
  unfold sweepEntries refusedDirty at hsweep ⊢
  simp only [flushToDiskUnder, hreplay, hsweep]

theorem flush_ok_iff (hopen : cache.disk.isAvailable = true) (h : cache.WellKept) :
    (cache.flushToDiskUnder codec answers).1 = .ok () ↔
      ∀ key cached, cache.Due key cached → AcceptedDue codec answers cache key cached := by
  have hempty : (cache.flushToDiskUnder codec answers).1 = .ok () ↔
      refused codec answers.replay cache.heap cache.dirtyEntries = [] ∧
        refused codec answers.sweep cache.heap (sweepEntries codec answers cache) = [] := by
    rw [flushToDiskUnder_eq hopen h, ← List.append_eq_nil_iff, ← List.map_eq_nil_iff,
      ← List.isEmpty_iff]
    by_cases hnil : (flushErrors codec answers cache).isEmpty = true
    · simp only [hnil, if_true, true_iff]
      exact hnil
    · simp only [hnil, if_false, Bool.false_eq_true, reduceCtorEq, false_iff]
      exact hnil
  rw [hempty, refused_eq_nil_iff, refused_eq_nil_iff]
  constructor
  · intro hall key cached hdue
    refine ⟨hdue, ?_, ?_⟩
    · intro hdirty
      exact hall.1 key cached (mem_dirtyEntries.mpr ⟨hdirty, hdue.1⟩)
    · intro hpromoted
      apply hall.2 key cached
      refine mem_promotedEntries.mpr ⟨hdue.1, ?_, hpromoted⟩
      intro hrefused
      obtain ⟨cached', error, hentry, hfailed⟩ := mem_refused_keys.mp hrefused
      obtain ⟨bytes, hok⟩ := hall.1 key cached' hentry
      rw [hfailed] at hok
      cases hok
  · intro hall
    constructor
    · intro key cached hentry
      obtain ⟨hdirty, hlookup⟩ := mem_dirtyEntries.mp hentry
      exact (hall key cached ⟨hlookup, Or.inl hdirty⟩).2.1 hdirty
    · intro key cached hentry
      obtain ⟨hlookup, -, hpromoted⟩ := mem_promotedEntries.mp hentry
      exact (hall key cached ⟨hlookup, Or.inr hpromoted⟩).2.2 hpromoted

theorem carries_of_offerBytes (h : cache.heap.Bounded) {answer : OfferAnswer}
    {cached : CachedImport} {bytes : Bytes}
    (hbytes : offerBytes codec answer cache.heap cached = .ok bytes) :
    Carries codec cache.heap cached bytes := by
  unfold offerBytes at hbytes
  split at hbytes
  · cases hbytes
  · unfold encodeCacheValue at hbytes
    split at hbytes
    · cases hbytes
    · rename_i envelopeBytes hvec
      cases hbytes
      constructor
      · rw [decodeLastSeq_encoded (h.2 _)]
        exact le_refl _
      · rw [hvec, List.drop_left' (leBytes_length _ _)]

/-- Every enqueue of a key brings a value of its memory entry. -/
theorem carries_of_offer (h : cache.WellKept) {key : Key} {cached : CachedImport}
    (hlookup : cache.memory.lookup key = some cached) {offer : DiskCache.Offer}
    (hoffer : offer ∈ flushOffers codec answers cache) (hkey : offer.key = key) :
    Carries codec cache.heap cached offer.bytes := by
  unfold flushOffers at hoffer
  rcases List.mem_append.mp hoffer with hreplay | hsweep
  · obtain ⟨cached', hentry, hbytes, -⟩ := mem_accepted.mp hreplay
    have hsame := (mem_dirtyEntries.mp hentry).2
    rw [hkey, hlookup] at hsame
    cases hsame
    exact carries_of_offerBytes h.bounded hbytes
  · obtain ⟨cached', hentry, hbytes, -⟩ := mem_accepted.mp hsweep
    have hsame := (mem_promotedEntries.mp hentry).1
    rw [hkey, hlookup] at hsame
    cases hsame
    exact carries_of_offerBytes h.bounded hbytes

theorem AcceptedDue.mem_offers {key : Key} {cached : CachedImport}
    (h : AcceptedDue codec answers cache key cached) :
    key ∈ (flushOffers codec answers cache).map DiskCache.Offer.key := by
  obtain ⟨⟨hlookup, hdue⟩, hreplay, hsweep⟩ := h
  unfold flushOffers
  rw [List.map_append, List.mem_append]
  by_cases hdirty : key ∈ cache.dirty
  · obtain ⟨bytes, hbytes⟩ := hreplay hdirty
    exact Or.inl (mem_accepted_keys.mpr
      ⟨cached, bytes, mem_dirtyEntries.mpr ⟨hdirty, hlookup⟩, hbytes⟩)
  · have hpromoted := hdue.resolve_left hdirty
    obtain ⟨bytes, hbytes⟩ := hsweep hpromoted
    refine Or.inr (mem_accepted_keys.mpr ⟨cached, bytes, ?_, hbytes⟩)
    refine mem_promotedEntries.mpr ⟨hlookup, ?_, hpromoted⟩
    intro hrefused
    obtain ⟨cached', error, hentry, -⟩ := mem_refused_keys.mp hrefused
    exact hdirty (mem_dirtyEntries.mp hentry).1

/-- An accepted entry that is spared is kept until the final flush. -/
theorem offeredDisk_kept (h : cache.WellKept) {key : Key} {cached : CachedImport}
    (haccepted : AcceptedDue codec answers cache key cached)
    (hspared : DiskCache.Spared (Carries codec cache.heap cached) key
      (flushOffers codec answers cache) cache.disk) :
    (offeredDisk codec answers cache).Kept (Carries codec cache.heap cached) key := by
  apply DiskCache.puts_kept haccepted.mem_offers _ hspared
  intro offer hoffer hkey
  exact carries_of_offer h haccepted.1.1 hoffer hkey

theorem offeredDisk_bounded {key : Key} {cached : CachedImport}
    (haccepted : AcceptedDue codec answers cache key cached) :
    (offeredDisk codec answers cache).pendingInserts.rows.length ≤ maxPendingInserts := by
  have hmem := haccepted.mem_offers
  unfold offeredDisk
  cases hoffers : flushOffers codec answers cache using List.reverseRecOn with
  | nil =>
      rw [hoffers] at hmem
      cases hmem
  | append_singleton offers offer =>
      rw [DiskCache.puts_concat]
      exact DiskCache.put_bounded _ _

theorem promoted_after (hopen : cache.disk.isAvailable = true) (h : cache.WellKept) {key : Key}
    {cached : CachedImport} (haccepted : AcceptedDue codec answers cache key cached) :
    ¬(cache.flushToDiskUnder codec answers).2.Promoted cached := by
  obtain ⟨⟨hlookup, hdue⟩, hreplay, hsweep⟩ := haccepted
  rw [flushToDiskUnder_eq hopen h]
  unfold Promoted
  simp only
  obtain ⟨hseq, hapart, hmarked⟩ := persistAll_cells
    (swept codec answers.sweep cache.heap (sweepEntries codec answers cache)) cache.heap cached.cell
  rw [hseq]
  by_cases hrow : ∃ row ∈ swept codec answers.sweep cache.heap (sweepEntries codec answers cache),
      row.2.cell = cached.cell
  · rw [hmarked hrow]
    exact lt_irrefl _
  · intro hpromoted
    push Not at hrow
    rw [hapart hrow] at hpromoted
    obtain ⟨bytes, hbytes⟩ := hsweep hpromoted
    apply hrow (key, cached) _ rfl
    refine mem_swept.mpr ⟨mem_promotedEntries.mpr ⟨hlookup, ?_, hpromoted⟩, bytes, hbytes⟩
    intro hrefused
    obtain ⟨cached', error, hentry, hfailed⟩ := mem_refused_keys.mp hrefused
    obtain ⟨hdirty, hsame⟩ := mem_dirtyEntries.mp hentry
    rw [hlookup] at hsame
    cases hsame
    obtain ⟨bytes', hok⟩ := hreplay hdirty
    rw [hfailed] at hok
    cases hok

/-- A due entry with a failed enqueue is dirty again, or still promoted. -/
theorem retried_of_not_accepted (hopen : cache.disk.isAvailable = true) (h : cache.WellKept)
    {key : Key} {cached : CachedImport} (hdue : cache.Due key cached)
    (hfailed : ¬AcceptedDue codec answers cache key cached) :
    key ∈ (cache.flushToDiskUnder codec answers).2.dirty ∨
      (cache.flushToDiskUnder codec answers).2.Promoted cached := by
  rw [flushToDiskUnder_eq hopen h]
  by_cases hrefused : key ∈ refusedDirty codec answers cache
  · exact Or.inl hrefused
  · refine Or.inr ?_
    have hreplay : key ∈ cache.dirty →
        ∃ bytes, offerBytes codec (answers.replay key) cache.heap cached = .ok bytes := by
      intro hdirty
      cases hbytes : offerBytes codec (answers.replay key) cache.heap cached with
      | ok bytes => exact ⟨bytes, rfl⟩
      | error error =>
          exact absurd (mem_refused_keys.mpr
            ⟨cached, error, mem_dirtyEntries.mpr ⟨hdirty, hdue.1⟩, hbytes⟩) hrefused
    have hsweep : cache.Promoted cached ∧
        ¬∃ bytes, offerBytes codec (answers.sweep key) cache.heap cached = .ok bytes := by
      by_contra hnot
      apply hfailed
      refine ⟨hdue, hreplay, ?_⟩
      intro hpromoted
      by_contra hnone
      exact hnot ⟨hpromoted, hnone⟩
    obtain ⟨hseq, hapart, -⟩ := persistAll_cells
      (swept codec answers.sweep cache.heap (sweepEntries codec answers cache)) cache.heap
        cached.cell
    unfold Promoted
    simp only
    rw [hapart]
    · exact hsweep.1
    · intro row hrow hcell
      obtain ⟨key', cached'⟩ := row
      obtain ⟨hentry, hok⟩ := mem_swept.mp hrow
      have hlookup := (mem_promotedEntries.mp hentry).1
      by_cases hkey : key = key'
      · subst hkey
        rw [hdue.1] at hlookup
        cases hlookup
        exact hsweep.2 hok
      · exact h.apart key cached hdue.1 key' cached' hlookup hkey hcell.symm

end

end ImportCache

section

variable {codec : Codec} {answers : FlushAnswers} {cache : ImportCache} {key : Key}
  {cached : CachedImport}

theorem ImportCache.disk_flushToDiskUnder (hopen : cache.disk.isAvailable = true)
    (h : cache.WellKept) :
    (cache.flushToDiskUnder codec answers).2.disk =
      (ImportCache.offeredDisk codec answers cache).flushPendingInserts answers.final := by
  rw [ImportCache.flushToDiskUnder_eq hopen h]

/-- A flush that keeps its promise spares what it was accepted to keep. -/
theorem ImportCache.FlushedDurably.spares (hdurable : FlushedDurably codec answers cache)
    (hopen : cache.disk.isAvailable = true) (h : cache.WellKept)
    (haccepted : AcceptedDue codec answers cache key cached) :
    DiskCache.Spared (Carries codec cache.heap cached) key (flushOffers codec answers cache)
      cache.disk := by
  by_contra hnot
  have hlost := (DiskCache.puts_lost hnot).flush answers.final
  rw [← offeredDisk, ← disk_flushToDiskUnder hopen h] at hlost
  cases houtcome : (cache.flushToDiskUnder codec answers).1 with
  | ok _ => exact hlost.2 (hdurable.ok houtcome key cached haccepted.1)
  | error error =>
      rcases hdurable.error error houtcome key cached haccepted.1 with
        hholds | hdirty | hpromoted | ⟨bytes, hqueued, -⟩
      · exact hlost.2 hholds
      · rw [flushToDiskUnder_eq hopen h] at hdirty
        obtain ⟨cached', error', hentry, hfailed⟩ := mem_refused_keys.mp hdirty
        obtain ⟨hwas, hsame⟩ := mem_dirtyEntries.mp hentry
        rw [haccepted.1.1] at hsame
        cases hsame
        obtain ⟨bytes, hok⟩ := haccepted.2.1 hwas
        rw [hfailed] at hok
        cases hok
      · exact promoted_after hopen h haccepted hpromoted
      · rw [hlost.1] at hqueued
        cases hqueued

/-- A flush that keeps its promise and refuses nothing commits what is still queued. -/
theorem ImportCache.FlushedDurably.commits (hdurable : FlushedDurably codec answers cache)
    (hopen : cache.disk.isAvailable = true) (h : cache.WellKept)
    (hall : ∀ key cached, cache.Due key cached → AcceptedDue codec answers cache key cached)
    (hdue : cache.Due key cached)
    (hsome : ((offeredDisk codec answers cache).pendingInserts.lookup key).isSome) :
    (offeredDisk codec answers cache).Holds (Carries codec cache.heap cached) key ∨
      DiskCache.Commits answers.final (offeredDisk codec answers cache) := by
  have haccepted := hall key cached hdue
  rcases offeredDisk_kept h haccepted (hdurable.spares hopen h haccepted) with
    ⟨bytes, hqueued, -⟩ | ⟨hnone, -⟩
  · by_contra hnot
    rw [not_or] at hnot
    obtain ⟨-, hfailed⟩ := DiskCache.flush_of_queued answers.final
      (offeredDisk_bounded haccepted) hqueued
    have hholds := hdurable.ok ((flush_ok_iff hopen h).mpr hall) key cached hdue
    rw [disk_flushToDiskUnder hopen h] at hholds
    obtain ⟨stored, hrow, hcarries⟩ := hholds
    rw [(hfailed hnot.2).2] at hrow
    exact hnot.1 ⟨stored, hrow, hcarries⟩
  · rw [hnone] at hsome
    cases hsome

/-- What is spared to the end of the offers, and is committed if it is still queued, is in
the table after the flush. -/
theorem ImportCache.holds_of_spared (hopen : cache.disk.isAvailable = true) (h : cache.WellKept)
    (haccepted : AcceptedDue codec answers cache key cached)
    (hspared : DiskCache.Spared (Carries codec cache.heap cached) key
      (flushOffers codec answers cache) cache.disk)
    (hcommits : ((offeredDisk codec answers cache).pendingInserts.lookup key).isSome →
      (offeredDisk codec answers cache).Holds (Carries codec cache.heap cached) key ∨
        DiskCache.Commits answers.final (offeredDisk codec answers cache)) :
    (cache.flushToDiskUnder codec answers).2.disk.Holds (Carries codec cache.heap cached) key := by
  rw [disk_flushToDiskUnder hopen h]
  rcases offeredDisk_kept h haccepted hspared with ⟨bytes, hqueued, hcarries⟩ | ⟨hnone, hholds⟩
  · obtain ⟨hcommitted, hfailed⟩ := DiskCache.flush_of_queued answers.final
      (offeredDisk_bounded haccepted) hqueued
    by_cases hfinal : DiskCache.Commits answers.final (offeredDisk codec answers cache)
    · exact ⟨bytes, (hcommitted hfinal).2, hcarries⟩
    · have hsome : ((offeredDisk codec answers cache).pendingInserts.lookup key).isSome := by
        rw [hqueued]
        rfl
      obtain ⟨stored, hrow, hstored⟩ := (hcommits hsome).resolve_right hfinal
      exact ⟨stored, (hfailed hfinal).2.trans hrow, hstored⟩
  · obtain ⟨stored, hrow, hstored⟩ := hholds
    exact ⟨stored, (DiskCache.flush_of_not_queued answers.final hnone).2.trans hrow, hstored⟩

end

/-- Exactly when a flush to disk keeps its promise: every entry whose enqueues
are accepted is spared by the sheds until the table holds it, and when nothing
is refused, the final transaction commits if a due entry that the table lacks
is still queued. -/
theorem flush_to_disk_durable_iff {codec : Codec} {answers : FlushAnswers} {cache : ImportCache}
    (hopen : cache.disk.isAvailable = true) (h : cache.WellKept) :
    ImportCache.FlushedDurably codec answers cache ↔
      (∀ key cached, ImportCache.AcceptedDue codec answers cache key cached →
        DiskCache.Spared (ImportCache.Carries codec cache.heap cached) key
          (ImportCache.flushOffers codec answers cache) cache.disk) ∧
      ((∀ key cached, cache.Due key cached →
          ImportCache.AcceptedDue codec answers cache key cached) →
        ∀ key cached, cache.Due key cached →
          ((ImportCache.offeredDisk codec answers cache).pendingInserts.lookup key).isSome →
          (ImportCache.offeredDisk codec answers cache).Holds
              (ImportCache.Carries codec cache.heap cached) key ∨
            DiskCache.Commits answers.final (ImportCache.offeredDisk codec answers cache)) := by
  constructor
  · intro hdurable
    exact ⟨fun key cached haccepted => hdurable.spares hopen h haccepted,
      fun hall key cached hdue hsome => hdurable.commits hopen h hall hdue hsome⟩
  · intro hcondition
    obtain ⟨hspared, hcommits⟩ := hcondition
    constructor
    · intro hok key cached hdue
      have hall := (ImportCache.flush_ok_iff hopen h).mp hok
      have haccepted := hall key cached hdue
      exact ImportCache.holds_of_spared hopen h haccepted (hspared key cached haccepted)
        (hcommits hall key cached hdue)
    · intro error houtcome key cached hdue after
      by_cases haccepted : ImportCache.AcceptedDue codec answers cache key cached
      · have hkept := (ImportCache.offeredDisk_kept h haccepted
          (hspared key cached haccepted)).flush (ImportCache.offeredDisk_bounded haccepted)
            answers.final
        rw [← ImportCache.disk_flushToDiskUnder hopen h] at hkept
        rcases hkept with ⟨bytes, hqueued, hcarries⟩ | ⟨-, hholds⟩
        · exact Or.inr (Or.inr (Or.inr ⟨bytes, hqueued, hcarries⟩))
        · exact Or.inl hholds
      · rcases ImportCache.retried_of_not_accepted hopen h hdue haccepted with hdirty | hpromoted
        · exact Or.inr (Or.inl hdirty)
        · exact Or.inr (Or.inr (Or.inl hpromoted))

/-! ## A promotion and one flush of it -/

def promotedCache : ImportCache where
  memory := AList.insert "react" ⟨smallResult 7, [], 0, false⟩ ∅
  disk := DiskCache.new (Io.quiet Shard.empty) true
  dirty := []
  unknownRetry := ∅
  heap := ⟨fun _ => { lastSeq := 2, persistedSeq := 1 }, 1, 3⟩

def acceptedAnswers (faults : Faults) : FlushAnswers where
  replay _ := ⟨Io.quiet Shard.empty, none⟩
  sweep _ := ⟨Io.quiet Shard.empty, none⟩
  final := { Io.quiet Shard.empty with faults := faults }

def noWrite : Faults := fun site => if site = .beginWrite then some "disk full" else none

theorem promotedCache_lookup {key : Key} {cached : CachedImport}
    (h : promotedCache.memory.lookup key = some cached) :
    key = "react" ∧ cached = ⟨smallResult 7, [], 0, false⟩ := by
  have hrow := Keyed.mem_rows.mpr h
  have hrows : promotedCache.memory.rows = [("react", ⟨smallResult 7, [], 0, false⟩)] := rfl
  rw [hrows, List.mem_singleton] at hrow
  exact Prod.mk.inj hrow

theorem promotedCache_wellKept : promotedCache.WellKept where
  gated key cached hrow := by
    obtain ⟨-, rfl⟩ := promotedCache_lookup hrow
    exact ⟨by decide, by decide⟩
  apart key cached hrow key' cached' hrow' hne := by
    obtain ⟨rfl, -⟩ := promotedCache_lookup hrow
    obtain ⟨rfl, -⟩ := promotedCache_lookup hrow'
    exact absurd rfl hne
  bounded := ⟨by decide, fun _ => Nat.lt_of_lt_of_le (Nat.lt_succ_self 2) (by decide)⟩

/-- The final transaction fails, and the flush returns `Ok`: the entry is only
queued, and nothing tells the caller. -/
theorem failed_commit_returns_ok :
    ¬∀ (codec : Codec) (answers : FlushAnswers) (cache : ImportCache),
      cache.disk.isAvailable = true → cache.WellKept →
        ImportCache.FlushedDurably codec answers cache := by
  intro hflushes
  have hdurable := hflushes smallCodec (acceptedAnswers noWrite) promotedCache rfl
    promotedCache_wellKept
  have hok : (promotedCache.flushToDiskUnder smallCodec (acceptedAnswers noWrite)).1 = .ok () := by
    decide
  have hrow : (promotedCache.flushToDiskUnder smallCodec (acceptedAnswers noWrite)).2.disk.row
      "react" = none := by
    decide
  obtain ⟨bytes, hholds, -⟩ := hdurable.ok hok "react" ⟨smallResult 7, [], 0, false⟩
    ⟨rfl, Or.inr (Nat.lt_succ_self 1)⟩
  rw [hrow] at hholds
  cases hholds

/-- Without a failure the promotion is durable. -/
theorem promotion_flushed :
    ImportCache.FlushedDurably smallCodec (acceptedAnswers noFaults) promotedCache := by
  rw [flush_to_disk_durable_iff rfl promotedCache_wellKept]
  constructor
  · intro key cached _ before offer after hsplit hin _ hnone
    have hone : (ImportCache.flushOffers smallCodec (acceptedAnswers noFaults)
        promotedCache).length = 1 := by
      decide
    rw [hsplit, List.length_append, List.length_cons] at hone
    have hbefore : before = [] := List.length_eq_zero_iff.mp (by omega)
    subst hbefore
    rw [List.nil_append, List.map_singleton, List.mem_singleton] at hin
    have hshort : (Keyed.rows (promotedCache.disk.pendingInserts.insert offer.key
        (promotedCache.disk.clearGeneration, offer.bytes))).length ≤ maxPendingInserts :=
      (Keyed.length_insert_le _ _ _).trans (by decide)
    have hqueue : (promotedCache.disk.enqueue offer.key promotedCache.disk.clearGeneration
        offer.bytes).pendingInserts = promotedCache.disk.pendingInserts.insert offer.key
          (promotedCache.disk.clearGeneration, offer.bytes) :=
      (shedOldest_sheds decodeLastSeq _).unchanged hshort
    have hgone : (promotedCache.disk.enqueue offer.key promotedCache.disk.clearGeneration
        offer.bytes).pendingInserts.lookup key = none := hnone
    rw [hqueue, hin, AList.lookup_insert] at hgone
    cases hgone
  · intro _ key cached _ _
    exact Or.inr ⟨_, _, rfl, rfl⟩

end ImportLens.Cache
