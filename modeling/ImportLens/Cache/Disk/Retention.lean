import ImportLens.Cache.Disk.Copies
import ImportLens.Cache.Disk.Discipline

/-!
# How an enqueued value is kept or lost

A value that was enqueued stays in the queue until a flush commits it, or it is
put back and stays longer; the one way out that leaves no row behind is a shed.
Followed here for one key, through any list of enqueues with the flushes that
they trigger.
-/

namespace ImportLens.Cache

open ImportLens.Support

/-! ## One key on its way to the table -/

namespace DiskCache

/-- The final transaction over what is queued commits. -/
def Commits (io : Io) (disk : DiskCache) : Prop :=
  ∃ shard written, disk.db = some shard ∧
    writePendingInserts io.faults shard disk.keptInserts = .ok written

section

variable {disk : DiskCache} {key : Key}

theorem flush_of_not_queued (io : Io) (h : disk.pendingInserts.lookup key = none) :
    (disk.flushPendingInserts io).pendingInserts.lookup key = none ∧
      (disk.flushPendingInserts io).row key = disk.row key := by
  have hkept : disk.keptInserts.lookup key = none := by
    rw [Option.eq_none_iff_forall_ne_some]
    intro bytes hbytes
    rw [keptInserts, lookup_keptAt, h] at hbytes
    cases hbytes
  unfold flushPendingInserts
  cases hdb : disk.db with
  | none => exact ⟨h, rfl⟩
  | some shard =>
      simp only
      split
      · exact ⟨h, rfl⟩
      · split
        · exact ⟨rfl, by simp only [row, hdb]⟩
        · split
          · rename_i written hwritten
            refine ⟨rfl, ?_⟩
            simp only [row, hdb, Option.bind_some]
            rw [lookup_written hwritten, hkept, Option.none_or]
          · refine ⟨?_, by simp only [row, requeue, hdb]⟩
            rw [Option.eq_none_iff_forall_ne_some]
            intro tagged hqueued
            have hback := (shedOldest_sheds decodeLastSeq _).keeps key tagged hqueued
            rw [lookup_requeueRows_of_notMem (by rw [Keyed.mem_rows_keys, hkept]; decide)] at hback
            cases hback

/-- A queued value of the current generation is committed, or queued again. -/
theorem flush_of_queued (io : Io) (hbounded : disk.pendingInserts.rows.length ≤ maxPendingInserts)
    {bytes : Bytes} (h : disk.pendingInserts.lookup key = some (disk.clearGeneration, bytes)) :
    (Commits io disk → (disk.flushPendingInserts io).pendingInserts.lookup key = none ∧
      (disk.flushPendingInserts io).row key = some bytes) ∧
    (¬Commits io disk →
      (disk.flushPendingInserts io).pendingInserts.lookup key =
          some (disk.clearGeneration, bytes) ∧
        (disk.flushPendingInserts io).row key = disk.row key) := by
  have hkept : disk.keptInserts.lookup key = some bytes := by
    rw [keptInserts, lookup_keptAt]
    exact h
  have hsome : disk.pendingInserts.rows.isEmpty = false := by
    rw [List.isEmpty_eq_false_iff_exists_mem]
    exact ⟨_, Keyed.mem_rows.mpr h⟩
  have hkeptSome : disk.keptInserts.rows.isEmpty = false := by
    rw [List.isEmpty_eq_false_iff_exists_mem]
    exact ⟨_, Keyed.mem_rows.mpr hkept⟩
  unfold flushPendingInserts
  cases hdb : disk.db with
  | none =>
      refine ⟨?_, fun _ => ⟨h, rfl⟩⟩
      intro hcommits
      obtain ⟨shard, written, hshard, -⟩ := hcommits
      rw [hdb] at hshard
      cases hshard
  | some shard =>
      simp only [hsome, hkeptSome, Bool.false_eq_true, if_false]
      cases hwrite : writePendingInserts io.faults shard disk.keptInserts with
      | ok written =>
          constructor
          · intro hcommits
            refine ⟨rfl, ?_⟩
            simp only [row, Option.bind_some]
            rw [lookup_written hwrite, hkept, Option.some_or]
          · intro hfails
            exact absurd ⟨shard, written, hdb, hwrite⟩ hfails
      | error error =>
          constructor
          · intro hcommits
            obtain ⟨shard', written, hshard, hok⟩ := hcommits
            rw [hdb] at hshard
            cases hshard
            rw [hwrite] at hok
            cases hok
          · intro hfails
            have hlength := length_requeueRows_le disk.clearGeneration disk.keptInserts.rows
              (∅ : Keyed Key (Nat × Bytes))
            have hrows : disk.keptInserts.rows.length ≤ disk.pendingInserts.rows.length :=
              Keyed.length_rows_filterMapVal_le _ _
            have hempty : (∅ : Keyed Key (Nat × Bytes)).rows.length = 0 := rfl
            have hshed := (shedOldest_sheds decodeLastSeq (requeueRows disk.clearGeneration
              disk.keptInserts.rows ∅)).unchanged (by omega)
            refine ⟨?_, by simp only [row, requeue, hdb]⟩
            simp only [requeue, shedOldestPendingInserts]
            rw [hshed]
            exact lookup_requeueRows_of_mem (Keyed.nodup_rows_keys _) (Keyed.mem_rows.mpr hkept)
              (AList.lookup_empty _)

theorem flush_clearGeneration (io : Io) (disk : DiskCache) :
    (disk.flushPendingInserts io).clearGeneration = disk.clearGeneration := by
  unfold flushPendingInserts
  split
  · rfl
  · split
    · rfl
    · simp only
      split
      · rfl
      · split
        · rfl
        · rfl

theorem flush_isAvailable (io : Io) (disk : DiskCache) :
    (disk.flushPendingInserts io).isAvailable = disk.isAvailable := by
  unfold flushPendingInserts
  cases hdb : disk.db with
  | none => rfl
  | some shard =>
      simp only
      split
      · rfl
      · split
        · simp only [isAvailable, hdb]
        · split
          · simp only [isAvailable, hdb, Option.isSome_some]
          · simp only [isAvailable, requeue, hdb]

theorem flush_bounded (io : Io)
    (h : disk.pendingInserts.rows.length ≤ maxPendingInserts) :
    (disk.flushPendingInserts io).pendingInserts.rows.length ≤ maxPendingInserts := by
  have hstart : Flushing.Bounded ⟨disk, none⟩ := h
  have hrun := runSections_bounded hstart [.take, .settle io]
  rw [flushPendingInserts_sections] at hrun
  exact hrun

end

structure Offer where
  key : Key
  bytes : Bytes
  io : Io

def put (disk : DiskCache) (offer : Offer) : DiskCache :=
  let queued := disk.enqueue offer.key disk.clearGeneration offer.bytes
  if queued.shouldFlush offer.io then queued.flushPendingInserts offer.io else queued

def puts (offers : List Offer) (disk : DiskCache) : DiskCache := offers.foldl put disk

def Holds (good : Bytes → Prop) (key : Key) (disk : DiskCache) : Prop :=
  ∃ bytes, disk.row key = some bytes ∧ good bytes

/-- A good value is queued, or the table holds one and nothing is queued. -/
def Kept (good : Bytes → Prop) (key : Key) (disk : DiskCache) : Prop :=
  (∃ bytes, disk.pendingInserts.lookup key = some (disk.clearGeneration, bytes) ∧ good bytes) ∨
    (disk.pendingInserts.lookup key = none ∧ disk.Holds good key)

/-- Nothing is queued, and the table holds no good value. -/
def Lost (good : Bytes → Prop) (key : Key) (disk : DiskCache) : Prop :=
  disk.pendingInserts.lookup key = none ∧ ¬disk.Holds good key

section

variable {good : Bytes → Prop} {disk : DiskCache} {key : Key}

theorem Kept.not_lost (h : disk.Kept good key) : ¬disk.Lost good key := by
  intro hlost
  rcases h with ⟨bytes, hqueued, -⟩ | ⟨-, hholds⟩
  · rw [hlost.1] at hqueued
    cases hqueued
  · exact hlost.2 hholds

theorem Lost.flush (h : disk.Lost good key) (io : Io) :
    (disk.flushPendingInserts io).Lost good key := by
  obtain ⟨hnone, hrow⟩ := flush_of_not_queued io h.1
  refine ⟨hnone, ?_⟩
  unfold Holds
  rw [hrow]
  exact h.2

theorem Kept.flush (h : disk.Kept good key)
    (hbounded : disk.pendingInserts.rows.length ≤ maxPendingInserts) (io : Io) :
    (disk.flushPendingInserts io).Kept good key := by
  unfold Kept
  rw [flush_clearGeneration]
  rcases h with ⟨bytes, hqueued, hgood⟩ | ⟨hnone, hholds⟩
  · obtain ⟨hcommitted, hfailed⟩ := flush_of_queued io hbounded hqueued
    by_cases hcommits : Commits io disk
    · obtain ⟨hnone, hrow⟩ := hcommitted hcommits
      exact Or.inr ⟨hnone, bytes, hrow, hgood⟩
    · exact Or.inl ⟨bytes, (hfailed hcommits).1, hgood⟩
  · obtain ⟨hnone', hrow⟩ := flush_of_not_queued io hnone
    refine Or.inr ⟨hnone', ?_⟩
    unfold Holds
    rw [hrow]
    exact hholds

theorem put_bounded (disk : DiskCache) (offer : Offer) :
    (disk.put offer).pendingInserts.rows.length ≤ maxPendingInserts := by
  have henqueued : (disk.enqueue offer.key disk.clearGeneration
      offer.bytes).pendingInserts.rows.length ≤ maxPendingInserts := length_shedOldest_le _ _
  unfold put
  simp only
  split
  · exact flush_bounded _ henqueued
  · exact henqueued

theorem put_clearGeneration (disk : DiskCache) (offer : Offer) :
    (disk.put offer).clearGeneration = disk.clearGeneration := by
  unfold put
  simp only
  split
  · exact flush_clearGeneration _ _
  · rfl

theorem put_isAvailable (disk : DiskCache) (offer : Offer) :
    (disk.put offer).isAvailable = disk.isAvailable := by
  unfold put
  simp only
  split
  · exact flush_isAvailable _ _
  · rfl

theorem puts_clearGeneration (offers : List Offer) (disk : DiskCache) :
    (puts offers disk).clearGeneration = disk.clearGeneration := by
  induction offers generalizing disk with
  | nil => rfl
  | cons offer rest ih => exact (ih (disk.put offer)).trans (put_clearGeneration disk offer)

theorem puts_isAvailable (offers : List Offer) (disk : DiskCache) :
    (puts offers disk).isAvailable = disk.isAvailable := by
  induction offers generalizing disk with
  | nil => rfl
  | cons offer rest ih => exact (ih (disk.put offer)).trans (put_isAvailable disk offer)

theorem puts_concat (offers : List Offer) (offer : Offer) (disk : DiskCache) :
    puts (offers ++ [offer]) disk = (puts offers disk).put offer :=
  List.foldl_append

/-- An enqueue that leaves the key queued leaves it a good value. -/
theorem enqueue_kept {offer : Offer}
    (hgood : offer.key = key → good offer.bytes) (hkept : offer.key ≠ key → disk.Kept good key)
    (hspared : (disk.enqueue offer.key disk.clearGeneration
      offer.bytes).pendingInserts.lookup key = none → disk.Holds good key) :
    (disk.enqueue offer.key disk.clearGeneration offer.bytes).Kept good key := by
  cases hqueued : (disk.enqueue offer.key disk.clearGeneration
      offer.bytes).pendingInserts.lookup key with
  | none => exact Or.inr ⟨hqueued, hspared hqueued⟩
  | some tagged =>
      have hinserted := (shedOldest_sheds decodeLastSeq _).keeps key tagged hqueued
      rw [Keyed.lookup_insert_eq] at hinserted
      by_cases hkey : offer.key = key
      · rw [if_pos hkey.symm] at hinserted
        rw [← Option.some.inj hinserted] at hqueued
        exact Or.inl ⟨offer.bytes, hqueued, hgood hkey⟩
      · rw [if_neg (Ne.symm hkey)] at hinserted
        rcases hkept hkey with ⟨bytes, hbefore, hbytes⟩ | ⟨hbefore, -⟩
        · rw [hbefore] at hinserted
          rw [← Option.some.inj hinserted] at hqueued
          exact Or.inl ⟨bytes, hqueued, hbytes⟩
        · rw [hbefore] at hinserted
          cases hinserted

theorem put_kept {offer : Offer}
    (hgood : offer.key = key → good offer.bytes) (hkept : offer.key ≠ key → disk.Kept good key)
    (hspared : (disk.enqueue offer.key disk.clearGeneration
      offer.bytes).pendingInserts.lookup key = none → disk.Holds good key) :
    (disk.put offer).Kept good key := by
  have henqueued := enqueue_kept hgood hkept hspared
  unfold put
  simp only
  split
  · exact henqueued.flush (length_shedOldest_le _ _) _
  · exact henqueued

theorem put_lost_of_shed {offer : Offer}
    (hnone : (disk.enqueue offer.key disk.clearGeneration
      offer.bytes).pendingInserts.lookup key = none) (hholds : ¬disk.Holds good key) :
    (disk.put offer).Lost good key := by
  have henqueued : (disk.enqueue offer.key disk.clearGeneration offer.bytes).Lost good key :=
    ⟨hnone, hholds⟩
  unfold put
  simp only
  split
  · exact henqueued.flush _
  · exact henqueued

theorem Lost.put (h : disk.Lost good key) {offer : Offer} (hkey : offer.key ≠ key) :
    (disk.put offer).Lost good key := by
  apply put_lost_of_shed _ h.2
  rw [Option.eq_none_iff_forall_ne_some]
  intro tagged hqueued
  have hinserted := (shedOldest_sheds decodeLastSeq _).keeps key tagged hqueued
  rw [Keyed.lookup_insert_eq, if_neg (Ne.symm hkey), h.1] at hinserted
  cases hinserted

theorem Lost.puts (h : disk.Lost good key) {offers : List Offer}
    (hkey : key ∉ offers.map Offer.key) : (puts offers disk).Lost good key := by
  induction offers generalizing disk with
  | nil => exact h
  | cons offer rest ih =>
      rw [List.map_cons, List.mem_cons, not_or] at hkey
      exact ih (h.put (Ne.symm hkey.1)) hkey.2

end

/-- Whenever an enqueue leaves the key out of the queue, after the last time
it was put there, the table holds a good value of it. -/
def Spared (good : Bytes → Prop) (key : Key) (offers : List Offer) (disk : DiskCache) : Prop :=
  ∀ before offer after, offers = before ++ offer :: after →
    key ∈ (before ++ [offer]).map Offer.key → key ∉ after.map Offer.key →
    ((puts before disk).enqueue offer.key disk.clearGeneration
      offer.bytes).pendingInserts.lookup key = none →
    (puts before disk).Holds good key

section

variable {good : Bytes → Prop} {disk : DiskCache} {key : Key} {offers : List Offer}

theorem puts_kept (hmem : key ∈ offers.map Offer.key)
    (hgood : ∀ offer ∈ offers, offer.key = key → good offer.bytes)
    (hspared : Spared good key offers disk) : (puts offers disk).Kept good key := by
  induction offers using List.reverseRecOn with
  | nil => cases hmem
  | append_singleton offers offer ih =>
      rw [puts_concat]
      apply put_kept
      · exact hgood offer (by simp)
      · intro hkey
        apply ih
        · rw [List.map_append, List.mem_append] at hmem
          refine hmem.resolve_right ?_
          intro hlast
          exact hkey (List.mem_singleton.mp hlast).symm
        · intro other hother
          exact hgood other (List.mem_append_left _ hother)
        · intro before other after hsplit hin hout hnone
          apply hspared before other (after ++ [offer]) (by rw [hsplit]; simp) hin _ hnone
          rw [List.map_append, List.mem_append, not_or]
          exact ⟨hout, fun hlast => hkey (List.mem_singleton.mp hlast).symm⟩
      · intro hnone
        apply hspared offers offer [] rfl hmem List.not_mem_nil
        rw [puts_clearGeneration] at hnone
        exact hnone

theorem puts_lost (h : ¬Spared good key offers disk) : (puts offers disk).Lost good key := by
  unfold Spared at h
  push Not at h
  obtain ⟨before, offer, after, hsplit, -, hout, hnone, hholds⟩ := h
  have hlost : ((puts before disk).put offer).Lost good key := by
    apply put_lost_of_shed _ hholds
    rw [puts_clearGeneration]
    exact hnone
  rw [hsplit, puts, List.foldl_append]
  exact hlost.puts hout

end

end DiskCache

end ImportLens.Cache
