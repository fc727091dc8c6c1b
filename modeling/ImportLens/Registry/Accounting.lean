import ImportLens.Registry.SizeCap
import ImportLens.Support.Interleaving

/-!
# Unpersisted writes

One daemon's registry cache under any interleaving of its callers.  A writer
counts after it has inserted; a flush takes the count before it writes and gives
it back when the write fails; a clear and a compaction reset the count with the
entries they capture, before their write.  `persist_lock` covers the file, the
entries lock is held for one step at a time, and the release of a lock belongs to
the step before it.  Each read and write of the file succeeds or fails.
-/

namespace ImportLens.Registry.Accounting

open ImportLens.Support

structure Shared where
  cache : RegistryMetadataCache
  file : File
  persistLock : Option Nat := none

inductive Position
  | idle
  /-- `write_entry` has inserted. -/
  | counting
  /-- `write_entry` has filled the batch. -/
  | flushing
  -- `flush` with the count it has taken
  | persisting (had : Nat)
  | loading (had : Nat)
  | loaded (had : Nat) (onDisk : RegistrySnapshot)
  | captured (had : Nat) (snapshot : Entries)
  | restoring (had : Nat)
  -- `clear`
  | clearing (nowMs : Nat)
  | cleared
  -- `compact_authoritatively`; `reset` is the count it has set to zero
  | compacting (nowMs retentionMs : Nat) (maxBytes : Option Nat)
  | compacted (snapshot : Entries) (reset : Nat)

inductive Call
  | writeEntry (packageName : String) (entry : RegistryPackageMetadataEntry)
  | flush
  | clear (nowMs : Nat)
  | purgeExpired (nowMs retentionMs : Nat)
  | runMaintenance (nowMs maxBytes : Nat)

structure Action where
  call : Call := .flush
  io : Io := {}

namespace Shared

/-- `unpersisted_writes.swap(0)`. -/
def swap (s : Shared) : Shared × Position :=
  let had := s.cache.unpersistedWrites
  ({ s with cache := { s.cache with unpersistedWrites := 0 } },
    if had = 0 then .idle else .persisting had)

/-- Wait for `persist_lock`. -/
def lock (t : Nat) (next : Position) (s : Shared) : Option (Shared × Position) :=
  if s.persistLock.isSome then none else some ({ s with persistLock := some t }, next)

/-- `write_snapshot`, and the release of `persist_lock`. -/
def write (io : Io) (snapshot : Entries) (failed : Position) (s : Shared) : Shared × Position :=
  let (ok, file) := s.cache.writeSnapshot io snapshot s.file
  ({ s with file := file, persistLock := none }, if ok then .idle else failed)

end Shared

section

variable (snapshotBytes : Entries → Nat)
  (entryFootprint : String → RegistryPackageMetadataEntry → Nat)

def Shared.compact (io : Io) (nowMs retentionMs : Nat) (maxBytes : Option Nat) (s : Shared) :
    Shared × Position :=
  let onDisk := loadSnapshot io s.file
  let cache := s.cache.adoptClear onDisk.clearedAt
  let entries := (compactEntries snapshotBytes entryFootprint nowMs retentionMs maxBytes
    (mergeNewest cache.entries onDisk.entries)).2
  ({ s with cache := { cache with entries := entries, unpersistedWrites := 0 } },
    .compacted entries s.cache.unpersistedWrites)

def program : Program Shared Position Action := fun t a s position =>
  match position with
  | .idle =>
      match a.call with
      | .writeEntry packageName entry =>
          some ({ s with cache := s.cache.insert packageName entry }, .counting)
      | .flush => some s.swap
      | .clear nowMs => s.lock t (.clearing nowMs)
      | .purgeExpired nowMs retentionMs => s.lock t (.compacting nowMs retentionMs none)
      | .runMaintenance nowMs maxBytes =>
          s.lock t (.compacting nowMs registryRetentionMs (some maxBytes))
  | .counting =>
      let unpersistedWrites := s.cache.unpersistedWrites + 1
      some ({ s with cache := { s.cache with unpersistedWrites := unpersistedWrites } },
        if registryPersistBatch ≤ unpersistedWrites then .flushing else .idle)
  | .flushing => some s.swap
  | .persisting had => s.lock t (.loading had)
  | .loading had => some (s, .loaded had (loadSnapshot a.io s.file))
  | .loaded had onDisk =>
      let cache := s.cache.adoptClear onDisk.clearedAt
      some ({ s with cache := cache }, .captured had (mergeNewest cache.entries onDisk.entries))
  | .captured had snapshot => some (s.write a.io snapshot (.restoring had))
  | .restoring had =>
      some ({ s with
        cache := { s.cache with
          unpersistedWrites := s.cache.unpersistedWrites + had } }, .idle)
  | .clearing nowMs =>
      some ({ s with
        cache := { entries := ∅, clearedAt := max s.cache.clearedAt nowMs } }, .cleared)
  | .cleared => some (s.write a.io ∅ .idle)
  | .compacting nowMs retentionMs maxBytes =>
      some (s.compact snapshotBytes entryFootprint a.io nowMs retentionMs maxBytes)
  | .compacted snapshot _ => some (s.write a.io snapshot .idle)

end

def started (file : File) : Config Shared Position where
  shared := { cache := .new {} file, file := file }
  thread _ := .idle

/-! ## What is not in the file -/

def Position.owes : Position → Bool
  | .counting | .persisting _ | .loading _ | .loaded _ _ | .restoring _ => true
  | _ => false

def Position.had : Position → Option Nat
  | .persisting had | .loading had | .loaded had _ | .captured had _ | .restoring had => some had
  | _ => none

def Position.snapshot : Position → Option Entries
  | .captured _ snapshot => some snapshot
  | .cleared => some ∅
  | .compacted snapshot _ => some snapshot
  | _ => none

def Position.carries : Position → Bool
  | .captured _ _ => true
  | .compacted _ reset => reset != 0
  | _ => false

/-- The caller holds `persist_lock`. -/
def Position.locked : Position → Bool
  | .loading _ | .loaded _ _ | .captured _ _ | .clearing _ | .cleared => true
  | .compacting _ _ _ | .compacted _ _ => true
  | _ => false

def resetsNothing (position : Position) (io : Io) : Bool :=
  match position with
  | .compacted _ reset => io.writeOk || reset == 0
  | _ => true

abbrev Covers (u t : Entries) : Prop := Keyed.Covers RegistryPackageMetadataEntry.updatedAt u t

/-- Some write is counted, or a caller still owes it. -/
def Dirty (s : Shared) (thread : Nat → Position) : Prop :=
  0 < s.cache.unpersistedWrites ∨ ∃ t, (thread t).owes = true

/-- What is in memory is covered, by the file or by what is about to be written,
or somebody accounts for it. -/
structure Accounted (s : Shared) (thread : Nat → Position) : Prop where
  lock : ∀ t, (thread t).locked = true → s.persistLock = some t
  taken : ∀ t had, (thread t).had = some had → had ≠ 0
  snapshot : ∀ t snapshot, (thread t).snapshot = some snapshot →
    Covers snapshot s.cache.entries ∨ Dirty s thread
  file : (∀ t, (thread t).carries = false) →
    Covers s.file.entries s.cache.entries ∨ Dirty s thread

section

variable {snapshotBytes : Entries → Nat}
variable {entryFootprint : String → RegistryPackageMetadataEntry → Nat}
variable {s s' : Shared} {thread : Nat → Position} {t : Nat} {p' : Position} {a : Action}

/-! ### The lock -/

theorem Accounted.alone (h : Accounted s thread) (ht : (thread t).locked = true) {u : Nat}
    (hut : u ≠ t) {snapshot : Entries} : (thread u).snapshot ≠ some snapshot := by
  intro hsnapshot
  have hu : (thread u).locked = true := by
    cases hposition : thread u <;> simp_all [Position.snapshot, Position.locked]
  have hboth := (h.lock u hu).symm.trans (h.lock t ht)
  exact hut (Option.some.inj hboth)

theorem Accounted.lock_same (h : Accounted s thread) (hsame : s'.persistLock = s.persistLock)
    (hlocked : p'.locked = true → (thread t).locked = true) (u : Nat)
    (hu : (Function.update thread t p' u).locked = true) : s'.persistLock = some u := by
  rw [Function.update_apply] at hu
  rw [hsame]
  split at hu
  · rename_i hut
    rw [hut]
    exact h.lock t (hlocked hu)
  · exact h.lock u hu

theorem Accounted.lock_taken (h : Accounted s thread) (hfree : s.persistLock = none)
    (htaken : s'.persistLock = some t) (u : Nat)
    (hu : (Function.update thread t p' u).locked = true) : s'.persistLock = some u := by
  rw [Function.update_apply] at hu
  split at hu
  · rename_i hut
    rw [hut, htaken]
  · have := h.lock u hu
    rw [hfree] at this
    cases this

theorem Accounted.lock_released (h : Accounted s thread) (ht : (thread t).locked = true)
    (hp' : p'.locked = false) (u : Nat)
    (hu : (Function.update thread t p' u).locked = true) : s'.persistLock = some u := by
  rw [Function.update_apply] at hu
  split at hu
  · rw [hp'] at hu
    cases hu
  · rename_i hut
    have hboth := (h.lock u hu).symm.trans (h.lock t ht)
    exact absurd (Option.some.inj hboth) hut

/-! ### What is dirty -/

theorem dirty_of_count (h : 0 < s'.cache.unpersistedWrites) :
    Dirty s' (Function.update thread t p') :=
  .inl h

theorem dirty_of_owes (h : p'.owes = true) : Dirty s' (Function.update thread t p') :=
  .inr ⟨t, by rwa [Function.update_self]⟩

theorem Dirty.step (h : Dirty s thread)
    (hcount : 0 < s.cache.unpersistedWrites → 0 < s'.cache.unpersistedWrites ∨ p'.owes = true)
    (howes : (thread t).owes = true → p'.owes = true) :
    Dirty s' (Function.update thread t p') := by
  obtain hpos | ⟨u, hu⟩ := h
  · obtain hpos' | howes' := hcount hpos
    · exact .inl hpos'
    · exact dirty_of_owes howes'
  · by_cases hut : u = t
    · exact dirty_of_owes (howes (hut ▸ hu))
    · exact .inr ⟨u, by rwa [Function.update_of_ne hut]⟩

/-! ### The steps -/

theorem had_update (h : ∀ t had, (thread t).had = some had → had ≠ 0)
    (hp' : ∀ had, p'.had = some had → had ≠ 0) (u had : Nat)
    (hu : (Function.update thread t p' u).had = some had) : had ≠ 0 := by
  rw [Function.update_apply] at hu
  split at hu
  · exact hp' had hu
  · exact h u had hu

theorem carries_of_update (hp : (thread t).carries = false)
    (h : ∀ u, (Function.update thread t p' u).carries = false) (u : Nat) :
    (thread u).carries = false := by
  by_cases hut : u = t
  · rwa [hut]
  · have := h u
    rwa [Function.update_of_ne hut] at this

/-- A step that leaves something dirty. -/
theorem Accounted.of_dirty (h : Accounted s thread)
    (hlock : ∀ u, (Function.update thread t p' u).locked = true → s'.persistLock = some u)
    (htaken : ∀ had, p'.had = some had → had ≠ 0)
    (hdirty : Dirty s' (Function.update thread t p')) :
    Accounted s' (Function.update thread t p') :=
  ⟨hlock, had_update h.taken htaken, fun _ _ _ => .inr hdirty, fun _ => .inr hdirty⟩

/-- A step that neither changes the entries nor what is about to be written. -/
theorem Accounted.of_steady (h : Accounted s thread)
    (hlock : ∀ u, (Function.update thread t p' u).locked = true → s'.persistLock = some u)
    (htaken : ∀ had, p'.had = some had → had ≠ 0)
    (hentries : s'.cache.entries = s.cache.entries) (hfile : s'.file = s.file)
    (hcarries : (thread t).carries = false) (hsnapshot : p'.snapshot = none)
    (hdirty : Dirty s thread → Dirty s' (Function.update thread t p')) :
    Accounted s' (Function.update thread t p') := by
  refine ⟨hlock, had_update h.taken htaken, fun u snapshot hu => ?_, fun hnone => ?_⟩
  · rw [hentries]
    rw [Function.update_apply] at hu
    split at hu
    · rw [hsnapshot] at hu
      cases hu
    · exact (h.snapshot u snapshot hu).imp_right hdirty
  · rw [hentries, hfile]
    exact (h.file (carries_of_update hcarries hnone)).imp_right hdirty

/-- The write of the caller that holds the lock. -/
theorem Accounted.of_write {io : Io} {snapshot : Entries} {failed : Position}
    (h : Accounted s thread) (ht : (thread t).snapshot = some snapshot)
    (hlocked : (thread t).locked = true) (howes : (thread t).owes = false)
    (hfailed : failed.locked = false ∧ failed.snapshot = none)
    (htaken : ∀ had, failed.had = some had → had ≠ 0)
    (hlost : io.writeOk = false → (∀ u, (Function.update thread t failed u).carries = false) →
      Covers s.file.entries s.cache.entries ∨ Dirty s thread ∨ failed.owes = true) :
    Accounted (s.write io snapshot failed).1
      (Function.update thread t (s.write io snapshot failed).2) := by
  have hown := h.snapshot t snapshot ht
  unfold Shared.write RegistryMetadataCache.writeSnapshot
  cases hwrite : io.writeOk with
  | true =>
      simp only [if_true]
      have hkeep : ∀ {s' : Shared}, s'.cache = s.cache → Dirty s thread →
          Dirty s' (Function.update thread t .idle) := by
        intro s' hcache hdirty
        refine hdirty.step (fun hpos => .inl (by rwa [hcache])) fun hp => ?_
        rw [howes] at hp
        cases hp
      refine ⟨h.lock_released hlocked rfl, had_update h.taken (by simp [Position.had]),
        fun u other hu => ?_, fun _ => hown.imp_right (hkeep rfl)⟩
      rw [Function.update_apply] at hu
      split at hu
      · cases hu
      · exact (h.snapshot u other hu).imp_right (hkeep rfl)
  | false =>
      simp only [Bool.false_eq_true, if_false]
      have hkeep : ∀ {s' : Shared}, s'.cache = s.cache → Dirty s thread →
          Dirty s' (Function.update thread t failed) := by
        intro s' hcache hdirty
        refine hdirty.step (fun hpos => .inl (by rwa [hcache])) fun hp => ?_
        rw [howes] at hp
        cases hp
      refine ⟨h.lock_released hlocked hfailed.1, had_update h.taken htaken,
        fun u other hu => ?_, fun hnone => ?_⟩
      · rw [Function.update_apply] at hu
        split at hu
        · rw [hfailed.2] at hu
          cases hu
        · exact (h.snapshot u other hu).imp_right (hkeep rfl)
      · obtain hcovers | hdirty | howes' := hlost hwrite hnone
        · exact .inl hcovers
        · exact .inr (hkeep rfl hdirty)
        · exact .inr (dirty_of_owes howes')

/-- A section of the caller that holds the lock, which captures the entries. -/
theorem Accounted.of_capture {snapshot : Entries} (h : Accounted s thread)
    (hlocked : (thread t).locked = true) (hsame : s'.persistLock = s.persistLock)
    (htaken : ∀ had, p'.had = some had → had ≠ 0) (hsnapshot : p'.snapshot = some snapshot)
    (hcovers : Covers snapshot s'.cache.entries)
    (hfile : (∀ u, (Function.update thread t p' u).carries = false) →
      Covers s'.file.entries s'.cache.entries ∨ Dirty s' (Function.update thread t p')) :
    Accounted s' (Function.update thread t p') := by
  refine ⟨h.lock_same hsame fun _ => hlocked, had_update h.taken htaken,
    fun u other hu => ?_, hfile⟩
  by_cases hut : u = t
  · subst hut
    rw [Function.update_self, hsnapshot] at hu
    cases hu
    exact .inl hcovers
  · rw [Function.update_of_ne hut] at hu
    exact absurd hu (h.alone hlocked hut)

theorem covers_adopted {u : Entries} {cache : RegistryMetadataCache} {clearedAt : Nat}
    (h : Covers u cache.entries) : Covers u (cache.adoptClear clearedAt).entries :=
  h.trans (Keyed.covers_of_all fun _ _ hentry =>
    (RegistryMetadataCache.lookup_adoptClear.mp hentry).1)

/-- The entries a compaction leaves are in the file or were in memory. -/
theorem covers_compacted {io : Io} {nowMs retentionMs : Nat} {maxBytes : Option Nat}
    (h : Covers s.file.entries s.cache.entries) :
    Covers s.file.entries
      (compactEntries snapshotBytes entryFootprint nowMs retentionMs maxBytes
        (mergeNewest (s.cache.adoptClear (loadSnapshot io s.file).clearedAt).entries
          (loadSnapshot io s.file).entries)).2 := by
  have hload : Covers s.file.entries (loadSnapshot io s.file).entries := by
    obtain heq | heq := loadSnapshot_cases io s.file
    · rw [heq]
      exact .refl _ _
    · rw [heq]
      exact Keyed.covers_empty _ _
  have hmerged : (mergeNewest (s.cache.adoptClear (loadSnapshot io s.file).clearedAt).entries
      (loadSnapshot io s.file).entries).All fun packageName entry =>
        ∃ newer, s.file.entries.lookup packageName = some newer ∧
          entry.updatedAt ≤ newer.updatedAt :=
    Keyed.All.mergeNewest (covers_adopted h) hload
  exact all_compactEntries hmerged

theorem Accounted.of_swap (h : Accounted s thread)
    (hp : thread t = .idle ∨ thread t = .flushing) :
    Accounted s.swap.1 (Function.update thread t s.swap.2) := by
  have hplain : (thread t).owes = false ∧ (thread t).carries = false := by
    obtain heq | heq := hp <;> rw [heq] <;> exact ⟨rfl, rfl⟩
  unfold Shared.swap
  dsimp only
  by_cases hzero : s.cache.unpersistedWrites = 0
  · rw [if_pos hzero]
    refine h.of_steady (h.lock_same rfl (by simp [Position.locked])) (by simp [Position.had]) rfl
      rfl hplain.2 rfl fun hdirty => hdirty.step (fun hpos => by omega) fun howes => ?_
    rw [hplain.1] at howes
    cases howes
  · rw [if_neg hzero]
    refine h.of_steady (h.lock_same rfl (by simp [Position.locked])) ?_ rfl rfl hplain.2 rfl
      fun _ => dirty_of_owes rfl
    intro had hhad
    cases hhad
    exact hzero

theorem Accounted.of_lock {next : Shared × Position} (h : Accounted s thread)
    (hnext : s.lock t p' = some next) (htaken : ∀ had, p'.had = some had → had ≠ 0)
    (hcarries : (thread t).carries = false) (hsnapshot : p'.snapshot = none)
    (howes : (thread t).owes = true → p'.owes = true) :
    Accounted next.1 (Function.update thread t next.2) := by
  unfold Shared.lock at hnext
  split at hnext
  · cases hnext
  · rename_i hfree
    cases hnext
    refine h.of_steady (h.lock_taken (by simpa using hfree) rfl) htaken rfl rfl hcarries hsnapshot
      fun hdirty => hdirty.step (fun hpos => .inl hpos) howes

theorem Accounted.of_compact {io : Io} {nowMs retentionMs : Nat} {maxBytes : Option Nat}
    (h : Accounted s thread) (hp : thread t = .compacting nowMs retentionMs maxBytes) :
    Accounted (s.compact snapshotBytes entryFootprint io nowMs retentionMs maxBytes).1
      (Function.update thread t
        (s.compact snapshotBytes entryFootprint io nowMs retentionMs maxBytes).2) := by
  have hcompacted : Covers s.file.entries s.cache.entries → Covers s.file.entries
      (compactEntries snapshotBytes entryFootprint nowMs retentionMs maxBytes
        (mergeNewest (s.cache.adoptClear (loadSnapshot io s.file).clearedAt).entries
          (loadSnapshot io s.file).entries)).2 := covers_compacted
  unfold Shared.compact
  dsimp only
  generalize (compactEntries snapshotBytes entryFootprint nowMs retentionMs maxBytes
    (mergeNewest (s.cache.adoptClear (loadSnapshot io s.file).clearedAt).entries
      (loadSnapshot io s.file).entries)).2 = entries at hcompacted
  refine h.of_capture (by rw [hp]; rfl) rfl (by simp [Position.had]) rfl (.refl _ _)
    fun hnone => ?_
  have hreset : s.cache.unpersistedWrites = 0 := by
    have := hnone t
    rw [Function.update_self] at this
    simpa [Position.carries] using this
  obtain hcovers | hdirty := h.file (carries_of_update (by rw [hp]; rfl) hnone)
  · exact .inl (hcompacted hcovers)
  · refine .inr (hdirty.step (fun hpos => by omega) fun howes => ?_)
    rw [hp] at howes
    cases howes

theorem Accounted.step {next : Shared × Position} (h : Accounted s thread)
    (hguard : resetsNothing (thread t) a.io = true)
    (hprog : program snapshotBytes entryFootprint t a s (thread t) = some next) :
    Accounted next.1 (Function.update thread t next.2) := by
  cases hp : thread t with
  | idle =>
      simp only [hp, program] at hprog
      have hcarries : (thread t).carries = false := by rw [hp]; rfl
      have howes : ∀ {q : Position}, (thread t).owes = true → q.owes = true := by
        intro q howes
        rw [hp] at howes
        cases howes
      split at hprog
      · cases hprog
        exact h.of_dirty (h.lock_same rfl (by simp [Position.locked])) (by simp [Position.had])
          (dirty_of_owes rfl)
      · cases hprog
        exact h.of_swap (.inl hp)
      all_goals exact h.of_lock hprog (by simp [Position.had]) hcarries rfl howes
  | counting =>
      simp only [hp, program] at hprog
      cases hprog
      refine h.of_dirty (h.lock_same rfl ?_) ?_ (dirty_of_count (Nat.succ_pos _))
      · split <;> simp [Position.locked]
      · split <;> simp [Position.had]
  | flushing =>
      simp only [hp, program] at hprog
      cases hprog
      exact h.of_swap (.inr hp)
  | persisting had =>
      simp only [hp, program] at hprog
      refine h.of_lock hprog ?_ (by rw [hp]; rfl) rfl fun _ => rfl
      intro had' hhad'
      cases hhad'
      exact h.taken t had (by rw [hp]; rfl)
  | loading had =>
      simp only [hp, program] at hprog
      cases hprog
      refine h.of_steady (h.lock_same rfl fun _ => by rw [hp]; rfl) ?_ rfl rfl (by rw [hp]; rfl)
        rfl fun _ => dirty_of_owes rfl
      intro had' hhad'
      cases hhad'
      exact h.taken t had (by rw [hp]; rfl)
  | loaded had onDisk =>
      simp only [hp, program] at hprog
      cases hprog
      refine h.of_capture (by rw [hp]; rfl) rfl ?_ rfl (Keyed.covers_mergeNewest_left _ _ _) ?_
      · intro had' hhad'
        cases hhad'
        exact h.taken t had (by rw [hp]; rfl)
      · intro hnone
        have := hnone t
        rw [Function.update_self] at this
        cases this
  | captured had snapshot =>
      simp only [hp, program] at hprog
      cases hprog
      refine h.of_write (by rw [hp]; rfl) (by rw [hp]; rfl) (by rw [hp]; rfl) ⟨rfl, rfl⟩ ?_
        fun _ _ => .inr (.inr rfl)
      intro had' hhad'
      cases hhad'
      exact h.taken t had (by rw [hp]; rfl)
  | restoring had =>
      simp only [hp, program] at hprog
      cases hprog
      have hhad := h.taken t had (by rw [hp]; rfl)
      exact h.of_dirty (h.lock_same rfl (by simp [Position.locked])) (by simp [Position.had])
        (dirty_of_count (by dsimp only; omega))
  | clearing nowMs =>
      simp only [hp, program] at hprog
      cases hprog
      exact h.of_capture (by rw [hp]; rfl) rfl (by simp [Position.had]) rfl (.refl _ _)
        fun _ => .inl (Keyed.covers_empty _ _)
  | cleared =>
      simp only [hp, program] at hprog
      cases hprog
      refine h.of_write (by rw [hp]; rfl) (by rw [hp]; rfl) (by rw [hp]; rfl) ⟨rfl, rfl⟩
        (by simp [Position.had]) fun _ _ => ?_
      obtain hcovers | hdirty := h.snapshot t ∅ (by rw [hp]; rfl)
      · exact .inl ((Keyed.covers_empty _ _).trans hcovers)
      · exact .inr (.inl hdirty)
  | compacting nowMs retentionMs maxBytes =>
      simp only [hp, program] at hprog
      cases hprog
      exact h.of_compact hp
  | compacted snapshot reset =>
      simp only [hp, program] at hprog
      cases hprog
      refine h.of_write (by rw [hp]; rfl) (by rw [hp]; rfl) (by rw [hp]; rfl) ⟨rfl, rfl⟩
        (by simp [Position.had]) fun hfail hnone => ?_
      have hreset : reset = 0 := by
        simpa [resetsNothing, hp, hfail] using hguard
      have hcarries : (thread t).carries = false := by
        rw [hp, hreset]
        rfl
      obtain hcovers | hdirty := h.file (carries_of_update hcarries hnone)
      · exact .inl hcovers
      · exact .inr (.inl hdirty)

theorem accounted_started (file : File) :
    Accounted (started file).shared (started file).thread where
  lock := by simp [started, Position.locked]
  taken := by simp [started, Position.had]
  snapshot := by simp [started, Position.snapshot]
  file := fun _ => .inl (.refl _ _)

end

section

variable {snapshotBytes : Entries → Nat}
variable {entryFootprint : String → RegistryPackageMetadataEntry → Nat}

/-- In every run in which no compaction fails to write after it has reset a count,
a daemon with nothing counted and no call in progress has every entry of its
memory in the file. -/
theorem clean_is_persisted {file : File} {acts : List (Nat × Action)} {c : Config Shared Position}
    (h : Runs (program snapshotBytes entryFootprint)
      (fun c t a => resetsNothing (c.thread t) a.io = true) (started file) acts c)
    (hclean : c.shared.cache.unpersistedWrites = 0) (hidle : ∀ t, c.thread t = .idle) :
    Covers c.shared.file.entries c.shared.cache.entries := by
  have haccounted : Accounted c.shared c.thread := by
    refine h.invariant (I := fun c => Accounted c.shared c.thread)
      (fun c d t a hguard hstep hc => ?_) (accounted_started file)
    obtain ⟨s', p', hprog, rfl⟩ := Config.step_eq_some hstep
    exact hc.step hguard hprog
  refine (haccounted.file fun t => by rw [hidle t]; rfl).resolve_right ?_
  rintro (hpos | ⟨t, ht⟩)
  · omega
  · rw [hidle t] at ht
    cases ht

/-- Callers that have taken no step are idle. -/
theorem idle_of_runs {guard : Config Shared Position → Nat → Action → Prop} {file : File}
    {acts : List (Nat × Action)} {c : Config Shared Position}
    (h : Runs (program snapshotBytes entryFootprint) guard (started file) acts c)
    (hacts : ∀ t ∈ acts.map Prod.fst, c.thread t = .idle) (t : Nat) : c.thread t = .idle := by
  by_cases ht : t ∈ acts.map Prod.fst
  · exact hacts t ht
  · rw [h.thread_of_notMem ht]
    rfl

end

def Position.isIdle : Position → Bool
  | .idle => true
  | _ => false

theorem eq_idle {p : Position} (h : p.isIdle = true) : p = .idle := by
  cases p with
  | idle => rfl
  | _ => cases h

/-- A write whose flush fails once and succeeds at the second try. -/
theorem clean_is_persisted_retried :
    ∃ c : Config Shared Position, c.shared.cache.entries.lookup "a" = some (entryAt 5) ∧
      Covers c.shared.file.entries c.shared.cache.entries := by
  have hrun : (((started none).run
      (program (snapshotBytes entryJson) (entryFootprint entryJson))
      (fun c t a => resetsNothing (c.thread t) a.io = true)
      [(0, { call := .writeEntry "a" (entryAt 5) }), (0, {}), (0, {}), (0, {}), (0, {}), (0, {}),
        (0, { io := { writeOk := false } }), (0, {}), (0, {}), (0, {}), (0, {}), (0, {}),
        (0, {})]).any
      fun c => decide (c.shared.cache.entries.lookup "a" = some (entryAt 5) ∧
        c.shared.cache.unpersistedWrites = 0 ∧ (c.thread 0).isIdle = true)) = true := by
    decide
  obtain ⟨c, hc, htest⟩ := Runs.of_run_any hrun
  obtain ⟨hentry, hclean, hidle⟩ := of_decide_eq_true htest
  refine ⟨c, hentry, clean_is_persisted hc hclean (idle_of_runs hc fun t ht => ?_)⟩
  have hzero : t = 0 := by simpa using ht
  rw [hzero]
  exact eq_idle hidle

/-- A maintenance pass under a budget of 10000 bytes evicts nothing of a snapshot of
105, resets the count of a write, and its own write fails. -/
theorem failed_compaction_loses_count :
    ¬ ∀ (acts : List (Nat × Action)) (c : Config Shared Position),
      Runs (program (snapshotBytes entryJson) (entryFootprint entryJson)) (fun _ _ _ => True)
        (started none) acts c →
      c.shared.cache.unpersistedWrites = 0 → (∀ t, c.thread t = .idle) →
      Covers c.shared.file.entries c.shared.cache.entries := by
  intro hall
  have hrun : (((started none).run
      (program (snapshotBytes entryJson) (entryFootprint entryJson)) (fun _ _ _ => True)
      [(0, { call := .writeEntry "a" (entryAt 5) }), (0, {}),
        (0, { call := .runMaintenance 6 10000 }), (0, {}), (0, { io := { writeOk := false } })]).any
      fun c => decide (¬ Covers c.shared.file.entries c.shared.cache.entries ∧
        c.shared.cache.unpersistedWrites = 0 ∧ (c.thread 0).isIdle = true)) = true := by
    decide +kernel
  obtain ⟨c, hc, htest⟩ := Runs.of_run_any hrun
  obtain ⟨hlost, hclean, hidle⟩ := of_decide_eq_true htest
  refine hlost (hall _ c hc hclean (idle_of_runs hc fun t ht => ?_))
  have hzero : t = 0 := by simpa using ht
  rw [hzero]
  exact eq_idle hidle

end ImportLens.Registry.Accounting
