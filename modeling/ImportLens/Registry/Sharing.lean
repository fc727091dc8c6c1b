import ImportLens.Registry.SizeCap
import ImportLens.Support.Interleaving

/-!
# Daemons that share the registry file

Any number of daemons run over one registry file.  Each flush, clear and
compaction is one step on the file; `write_entry` is its section, then its count
with the flush of a full batch.  A position is the state of one daemon, and the
clock is the same for all of them.
-/

namespace ImportLens.Registry.Sharing

open ImportLens.Support

structure Daemon where
  cache : RegistryMetadataCache
  /-- The packages of the `write_entry` calls that have inserted and not counted yet. -/
  inserting : List String := []

structure Shared where
  file : File
  clock : Nat
  /-- The time of the last clear. -/
  lastClear : Nat

inductive Op
  | start
  | insert (packageName : String) (entry : RegistryPackageMetadataEntry)
  | count (packageName : String)
  | flush
  | clear
  | purgeExpired (nowMs retentionMs : Nat)
  | runMaintenance (nowMs maxBytes : Nat)
  | elapse (millis : Nat)
  deriving DecidableEq

structure Action where
  op : Op
  io : Io := {}
  deriving DecidableEq

def Shared.leave {α : Type} (s : Shared) (inserting : List String)
    (result : α × File × RegistryMetadataCache) : Shared × Option Daemon :=
  ({ s with file := result.2.1 }, some { cache := result.2.2, inserting := inserting })

section

variable (snapshotBytes : Entries → Nat)
  (entryFootprint : String → RegistryPackageMetadataEntry → Nat)

def program : Program Shared (Option Daemon) Action := fun _ a s position =>
  match a.op, position with
  | .elapse millis, position => some ({ s with clock := s.clock + millis }, position)
  | .start, none => some (s, some { cache := .new a.io s.file })
  | .insert packageName entry, some daemon =>
      some (s, some
        { cache := daemon.cache.insert packageName entry
          inserting := packageName :: daemon.inserting })
  | .count packageName, some daemon =>
      if packageName ∈ daemon.inserting then
        some (s.leave (daemon.inserting.erase packageName) (daemon.cache.count a.io s.file))
      else none
  | .flush, some daemon =>
      some (s.leave daemon.inserting (daemon.cache.flush a.io s.file))
  | .clear, some daemon =>
      some ({ s with lastClear := s.clock }.leave daemon.inserting
        (daemon.cache.clear a.io s.clock s.file))
  | .purgeExpired nowMs retentionMs, some daemon =>
      some (s.leave daemon.inserting (daemon.cache.purgeExpired snapshotBytes entryFootprint a.io
        nowMs retentionMs s.file))
  | .runMaintenance nowMs maxBytes, some daemon =>
      some (s.leave daemon.inserting (daemon.cache.runMaintenance snapshotBytes entryFootprint
        a.io nowMs maxBytes s.file))
  | _, _ => none

end

def started (file : File) (clock : Nat) : Config Shared (Option Daemon) where
  shared := { file := file, clock := clock, lastClear := file.clearedAt }
  thread _ := none

/-! ## A clear holds -/

/-- Every access of the file succeeds, no entry is written with a time the clock
has not reached, and the clock has advanced since the last clear. -/
def timely (c : Config Shared (Option Daemon)) (a : Action) : Bool :=
  (a.io == {}) &&
    match a.op with
    | .insert _ entry => decide (entry.updatedAt ≤ c.shared.clock)
    | .clear => decide (c.shared.lastClear < c.shared.clock)
    | _ => true

/-- The entry is in the file or in the memory of a daemon. -/
def Held (c : Config Shared (Option Daemon)) (packageName : String)
    (entry : RegistryPackageMetadataEntry) : Prop :=
  c.shared.file.entries.lookup packageName = some entry ∨
    ∃ t daemon, c.thread t = some daemon ∧ daemon.cache.entries.lookup packageName = some entry

/-- What a step leaves in the file and in the memory of its daemon. -/
inductive Rewrites (s : Shared) (p : Option Daemon) (a : Action)
    (next : Shared × Option Daemon) : Prop
  /-- The file and the entries of the daemon are as they were. -/
  | quiet (hfile : next.1.file = s.file) (hclear : next.1.lastClear = s.lastClear)
      (hkept : ∀ daemon', next.2 = some daemon' → ∃ daemon, p = some daemon ∧
        daemon'.cache.entries = daemon.cache.entries ∧
        daemon'.cache.clearedAt = daemon.cache.clearedAt)
  | started (hfile : next.1.file = s.file) (hclear : next.1.lastClear = s.lastClear)
      (hstarted : ∀ daemon', next.2 = some daemon' →
        daemon'.cache.entries = s.file.entries ∧ daemon'.cache.clearedAt = s.file.clearedAt)
  | inserted (packageName : String) (entry : RegistryPackageMetadataEntry) (daemon : Daemon)
      (hop : a.op = .insert packageName entry) (hp : p = some daemon)
      (hfile : next.1.file = s.file) (hclear : next.1.lastClear = s.lastClear)
      (hinserted : ∀ daemon', next.2 = some daemon' →
        daemon'.cache.entries = daemon.cache.entries.insert packageName entry ∧
        daemon'.cache.clearedAt = daemon.cache.clearedAt)
  /-- Both hold entries of the two after the clear of the file was adopted. -/
  | merged (daemon : Daemon) (hp : p = some daemon) (hclear : next.1.lastClear = s.lastClear)
      (hcleared : next.1.file.clearedAt = max daemon.cache.clearedAt s.file.clearedAt)
      (hall : ∀ P : String → RegistryPackageMetadataEntry → Prop,
        (daemon.cache.adoptClear s.file.clearedAt).entries.All P → s.file.entries.All P →
          next.1.file.entries.All P ∧ ∀ daemon', next.2 = some daemon' →
            daemon'.cache.entries.All P ∧ daemon'.cache.clearedAt = next.1.file.clearedAt)
  | cleared (daemon : Daemon) (hop : a.op = .clear) (hp : p = some daemon)
      (hclear : next.1.lastClear = s.clock) (hentries : next.1.file.entries = ∅)
      (hcleared : next.1.file.clearedAt = max daemon.cache.clearedAt s.clock)
      (hempty : ∀ daemon', next.2 = some daemon' → daemon'.cache.entries = ∅ ∧
        daemon'.cache.clearedAt = next.1.file.clearedAt)

section

variable {snapshotBytes : Entries → Nat}
variable {entryFootprint : String → RegistryPackageMetadataEntry → Nat}
variable {s : Shared} {p : Option Daemon} {a : Action} {t : Nat} {next : Shared × Option Daemon}

theorem clock_of_program (h : program snapshotBytes entryFootprint t a s p = some next) :
    s.clock ≤ next.1.clock := by
  unfold program at h
  split at h
  · cases h
    exact Nat.le_add_right _ _
  · cases h
    exact Nat.le_refl _
  · cases h
    exact Nat.le_refl _
  · split at h <;> cases h
    exact Nat.le_refl _
  all_goals cases h <;> exact Nat.le_refl _

/-- A flush whose accesses succeed. -/
theorem rewrites_flush {cache : RegistryMetadataCache} {daemon : Daemon}
    (hentries : cache.entries = daemon.cache.entries)
    (hcleared : cache.clearedAt = daemon.cache.clearedAt) (inserting : List String) :
    Rewrites s (some daemon) a (s.leave inserting (cache.flush {} s.file)) := by
  obtain ⟨_, heq⟩ | ⟨adopted, hadopted, _, ⟨_, heq⟩ | ⟨hfail, _⟩⟩ :=
    RegistryMetadataCache.flush_cases {} s.file cache
  · rw [heq]
    refine .quiet rfl rfl fun daemon' hdaemon' => ?_
    cases hdaemon'
    exact ⟨daemon, rfl, hentries, hcleared⟩
  · rw [heq]
    have hsame : adopted.clearedAt = max daemon.cache.clearedAt s.file.clearedAt := by
      rw [hadopted, RegistryMetadataCache.clearedAt_adoptClear, hcleared]
      rfl
    refine .merged daemon rfl rfl hsame fun P hmemory hfile => ?_
    have hall : adopted.entries.All P := by
      intro packageName entry hentry
      rw [hadopted, RegistryMetadataCache.lookup_adoptClear, hentries, hcleared] at hentry
      exact hmemory packageName entry (RegistryMetadataCache.lookup_adoptClear.mpr hentry)
    refine ⟨hall.mergeNewest hfile, fun daemon' hdaemon' => ?_⟩
    cases hdaemon'
    exact ⟨hall, rfl⟩
  · cases hfail

/-- A compaction whose accesses succeed. -/
theorem rewrites_compact {daemon : Daemon} {nowMs retentionMs : Nat} {maxBytes : Option Nat}
    {inserting : List String} :
    Rewrites s (some daemon) a (s.leave inserting
      (daemon.cache.compactAuthoritatively snapshotBytes entryFootprint {} nowMs retentionMs
        maxBytes s.file)) := by
  refine .merged daemon rfl rfl RegistryMetadataCache.clearedAt_adoptClear fun P hmemory hfile => ?_
  have hmerged : (mergeNewest (daemon.cache.adoptClear s.file.clearedAt).entries
      s.file.entries).All P := hmemory.mergeNewest hfile
  have hall : (compactEntries snapshotBytes entryFootprint nowMs retentionMs maxBytes
      (mergeNewest (daemon.cache.adoptClear s.file.clearedAt).entries
        s.file.entries)).2.All P := all_compactEntries hmerged
  refine ⟨hall, fun daemon' hdaemon' => ?_⟩
  cases hdaemon'
  exact ⟨hall, rfl⟩

theorem rewrites_of_program (hio : a.io = {})
    (h : program snapshotBytes entryFootprint t a s p = some next) : Rewrites s p a next := by
  unfold program at h
  rw [hio] at h
  split at h
  · cases h
    exact .quiet rfl rfl fun daemon hdaemon => ⟨daemon, hdaemon, rfl, rfl⟩
  · cases h
    refine .started rfl rfl fun daemon' hdaemon' => ?_
    cases hdaemon'
    exact ⟨rfl, rfl⟩
  · rename_i packageName entry daemon hop
    cases h
    refine .inserted packageName entry daemon hop rfl rfl rfl fun daemon' hdaemon' => ?_
    cases hdaemon'
    exact ⟨rfl, rfl⟩
  · rename_i packageName daemon hop
    split at h
    · cases h
      unfold RegistryMetadataCache.count
      dsimp only
      split
      · refine rewrites_flush ?_ ?_ _ <;> rfl
      · refine .quiet rfl rfl fun daemon' hdaemon' => ?_
        cases hdaemon'
        exact ⟨daemon, rfl, rfl, rfl⟩
    · cases h
  · cases h
    exact rewrites_flush rfl rfl _
  · rename_i daemon hop
    cases h
    refine .cleared daemon hop rfl rfl rfl rfl fun daemon' hdaemon' => ?_
    cases hdaemon'
    exact ⟨rfl, rfl⟩
  · cases h
    exact rewrites_compact
  · cases h
    exact rewrites_compact
  · cases h

/-- No entry is newer than the clock, and no clear is newer than the last one. -/
structure Bounded (c : Config Shared (Option Daemon)) : Prop where
  file : c.shared.file.entries.All fun _ entry => entry.updatedAt ≤ c.shared.clock
  memory : ∀ t daemon, c.thread t = some daemon →
    daemon.cache.entries.All fun _ entry => entry.updatedAt ≤ c.shared.clock
  fileCleared : c.shared.file.clearedAt ≤ c.shared.lastClear
  memoryCleared : ∀ t daemon, c.thread t = some daemon →
    daemon.cache.clearedAt ≤ c.shared.lastClear

/-- The last clear is at `clearedAt` or later, and the entry is left in no file
and only with daemons that have not adopted it. -/
structure Gone (packageName : String) (entry : RegistryPackageMetadataEntry) (clearedAt : Nat)
    (c : Config Shared (Option Daemon)) : Prop where
  old : entry.updatedAt ≤ clearedAt
  recorded : clearedAt ≤ c.shared.file.clearedAt
  file : c.shared.file.entries.lookup packageName ≠ some entry
  memory : ∀ t daemon, c.thread t = some daemon →
    daemon.cache.entries.lookup packageName = some entry → daemon.cache.clearedAt < clearedAt

variable {c : Config Shared (Option Daemon)} {P : Daemon → Prop}

theorem daemons_update (hothers : ∀ u daemon, u ≠ t → c.thread u = some daemon → P daemon)
    (hnext : ∀ daemon, next.2 = some daemon → P daemon) (u : Nat) (daemon : Daemon)
    (hu : Function.update c.thread t next.2 u = some daemon) : P daemon := by
  by_cases hut : u = t
  · subst hut
    rw [Function.update_self] at hu
    exact hnext daemon hu
  · rw [Function.update_of_ne hut] at hu
    exact hothers u daemon hut hu

theorem all_adopted {Q : String → RegistryPackageMetadataEntry → Prop}
    {cache : RegistryMetadataCache} (h : cache.entries.All Q) (clearedAt : Nat) :
    (cache.adoptClear clearedAt).entries.All Q :=
  fun packageName entry hentry =>
    h packageName entry (RegistryMetadataCache.lookup_adoptClear.mp hentry).1

theorem Bounded.step (h : Bounded c) (hguard : timely c a = true)
    (hclock : c.shared.clock ≤ next.1.clock)
    (hrewrites : Rewrites c.shared (c.thread t) a next) :
    Bounded ⟨next.1, Function.update c.thread t next.2⟩ := by
  have hfile := h.file.imp fun _ _ hle => hle.trans hclock
  have hmemory : ∀ u daemon, c.thread u = some daemon →
      daemon.cache.entries.All fun _ entry => entry.updatedAt ≤ next.1.clock :=
    fun u daemon hu => (h.memory u daemon hu).imp fun _ _ hle => hle.trans hclock
  cases hrewrites with
  | quiet hsame hclear hkept =>
      refine ⟨by rwa [hsame], daemons_update (fun u daemon _ hu => hmemory u daemon hu) ?_,
        by rw [hsame, hclear]; exact h.fileCleared,
        daemons_update (fun u daemon _ hu => hclear ▸ h.memoryCleared u daemon hu) ?_⟩
      · intro daemon' hdaemon'
        obtain ⟨daemon, hdaemon, hentries, _⟩ := hkept daemon' hdaemon'
        rw [hentries]
        exact hmemory t daemon hdaemon
      · intro daemon' hdaemon'
        obtain ⟨daemon, hdaemon, _, hcleared⟩ := hkept daemon' hdaemon'
        rw [hcleared, hclear]
        exact h.memoryCleared t daemon hdaemon
  | started hsame hclear hstarted =>
      refine ⟨by rwa [hsame], daemons_update (fun u daemon _ hu => hmemory u daemon hu) ?_,
        by rw [hsame, hclear]; exact h.fileCleared,
        daemons_update (fun u daemon _ hu => hclear ▸ h.memoryCleared u daemon hu) ?_⟩
      · intro daemon' hdaemon'
        rw [(hstarted daemon' hdaemon').1]
        exact hfile
      · intro daemon' hdaemon'
        rw [(hstarted daemon' hdaemon').2, hclear]
        exact h.fileCleared
  | inserted packageName entry daemon hop hp hsame hclear hinserted =>
      have hle : entry.updatedAt ≤ c.shared.clock := by
        simp only [timely, hop, Bool.and_eq_true, decide_eq_true_eq] at hguard
        exact hguard.2
      refine ⟨by rwa [hsame], daemons_update (fun u daemon _ hu => hmemory u daemon hu) ?_,
        by rw [hsame, hclear]; exact h.fileCleared,
        daemons_update (fun u daemon _ hu => hclear ▸ h.memoryCleared u daemon hu) ?_⟩
      · intro daemon' hdaemon'
        rw [(hinserted daemon' hdaemon').1]
        exact (hmemory t daemon hp).insert (hle.trans hclock)
      · intro daemon' hdaemon'
        rw [(hinserted daemon' hdaemon').2, hclear]
        exact h.memoryCleared t daemon hp
  | merged daemon hp hclear hcleared hall =>
      obtain ⟨hfile', hmemory'⟩ := hall _ (all_adopted (hmemory t daemon hp) _) hfile
      have hle : next.1.file.clearedAt ≤ next.1.lastClear := by
        have := h.memoryCleared t daemon hp
        have := h.fileCleared
        rw [hcleared, hclear]
        omega
      refine ⟨hfile', daemons_update (fun u daemon _ hu => hmemory u daemon hu) ?_, hle,
        daemons_update (fun u daemon _ hu => hclear ▸ h.memoryCleared u daemon hu) ?_⟩
      · exact fun daemon' hdaemon' => (hmemory' daemon' hdaemon').1
      · intro daemon' hdaemon'
        rw [(hmemory' daemon' hdaemon').2]
        exact hle
  | cleared daemon hop hp hclear hentries hcleared hempty =>
      have hlt : c.shared.lastClear < c.shared.clock := by
        simp only [timely, hop, Bool.and_eq_true, decide_eq_true_eq] at hguard
        exact hguard.2
      have hle : next.1.file.clearedAt ≤ next.1.lastClear := by
        have := h.memoryCleared t daemon hp
        rw [hcleared, hclear]
        omega
      refine ⟨by rw [hentries]; exact Keyed.all_empty _,
        daemons_update (fun u daemon _ hu => hmemory u daemon hu) ?_, hle,
        daemons_update (fun u daemon _ hu => ?_) ?_⟩
      · intro daemon' hdaemon'
        rw [(hempty daemon' hdaemon').1]
        exact Keyed.all_empty _
      · have := h.memoryCleared u daemon hu
        rw [hclear]
        omega
      · intro daemon' hdaemon'
        rw [(hempty daemon' hdaemon').2]
        exact hle

theorem Gone.step {packageName : String} {entry : RegistryPackageMetadataEntry} {clearedAt : Nat}
    (h : Gone packageName entry clearedAt c) (hbounded : Bounded c) (hguard : timely c a = true)
    (hwritten : a.op ≠ .insert packageName entry)
    (hrewrites : Rewrites c.shared (c.thread t) a next) :
    Gone packageName entry clearedAt ⟨next.1, Function.update c.thread t next.2⟩ := by
  have hold := h.old
  have hrecorded := h.recorded
  cases hrewrites with
  | quiet hsame hclear hkept =>
      refine ⟨hold, hsame ▸ hrecorded, by rw [hsame]; exact h.file,
        daemons_update (fun u daemon _ hu => h.memory u daemon hu) fun daemon' hdaemon' => ?_⟩
      obtain ⟨daemon, hdaemon, hentries, hcleared⟩ := hkept daemon' hdaemon'
      rw [hentries, hcleared]
      exact h.memory t daemon hdaemon
  | started hsame hclear hstarted =>
      refine ⟨hold, hsame ▸ hrecorded, by rw [hsame]; exact h.file,
        daemons_update (fun u daemon _ hu => h.memory u daemon hu) fun daemon' hdaemon' => ?_⟩
      rw [(hstarted daemon' hdaemon').1]
      exact fun hheld => absurd hheld h.file
  | inserted packageName' entry' daemon hop hp hsame hclear hinserted =>
      refine ⟨hold, hsame ▸ hrecorded, by rw [hsame]; exact h.file,
        daemons_update (fun u daemon _ hu => h.memory u daemon hu) fun daemon' hdaemon' => ?_⟩
      obtain ⟨hentries, hcleared⟩ := hinserted daemon' hdaemon'
      rw [hentries, hcleared, Keyed.lookup_insert_eq]
      split
      · rename_i hname
        rintro heq
        cases heq
        rw [hop, hname] at hwritten
        exact absurd rfl hwritten
      · exact h.memory t daemon hp
  | merged daemon hp hclear hcleared hall =>
      -- the daemon still holds the entry only if it has not adopted the clear, and
      -- then it adopts it now
      have hmemory : (daemon.cache.adoptClear c.shared.file.clearedAt).entries.All
          fun name e => ¬ (name = packageName ∧ e = entry) := by
        rintro _ _ hheld ⟨rfl, rfl⟩
        obtain ⟨hbefore, hnewer⟩ := RegistryMetadataCache.lookup_adoptClear.mp hheld
        have hlt := h.memory t daemon hp hbefore
        have := hnewer (by omega)
        omega
      have hfile : c.shared.file.entries.All fun name e => ¬ (name = packageName ∧ e = entry) := by
        rintro _ _ hheld ⟨rfl, rfl⟩
        exact h.file hheld
      obtain ⟨hfile', hmemory'⟩ := hall _ hmemory hfile
      refine ⟨hold, by simp only; rw [hcleared]; omega,
        fun hheld => hfile' packageName entry hheld ⟨rfl, rfl⟩,
        daemons_update (fun u daemon _ hu => h.memory u daemon hu) fun daemon' hdaemon' => ?_⟩
      intro hheld
      exact absurd ⟨rfl, rfl⟩ ((hmemory' daemon' hdaemon').1 packageName entry hheld)
  | cleared daemon hop hp hclear hentries hcleared hempty =>
      have hlt : c.shared.lastClear < c.shared.clock := by
        simp only [timely, hop, Bool.and_eq_true, decide_eq_true_eq] at hguard
        exact hguard.2
      have hle := hbounded.fileCleared
      refine ⟨hold, by simp only; rw [hcleared]; omega, by simp [hentries],
        daemons_update (fun u daemon _ hu => h.memory u daemon hu) fun daemon' hdaemon' => ?_⟩
      rw [(hempty daemon' hdaemon').1]
      simp

theorem Held.updatedAt_le {packageName : String} {entry : RegistryPackageMetadataEntry}
    (h : Held c packageName entry) (hbounded : Bounded c) :
    entry.updatedAt ≤ c.shared.clock := by
  obtain hfile | ⟨t, daemon, hdaemon, hmemory⟩ := h
  · exact hbounded.file packageName entry hfile
  · exact hbounded.memory t daemon hdaemon packageName entry hmemory

/-- A clear leaves what was held to daemons that will adopt it. -/
theorem gone_of_clear {packageName : String} {entry : RegistryPackageMetadataEntry}
    (hbounded : Bounded c) (hguard : timely c a = true) (hop : a.op = .clear)
    (hheld : Held c packageName entry) (hrewrites : Rewrites c.shared (c.thread t) a next)
    (hclear : next.1.lastClear ≠ c.shared.lastClear) :
    Gone packageName entry c.shared.clock ⟨next.1, Function.update c.thread t next.2⟩ := by
  have hlt : c.shared.lastClear < c.shared.clock := by
    simp only [timely, hop, Bool.and_eq_true, decide_eq_true_eq] at hguard
    exact hguard.2
  cases hrewrites with
  | quiet _ hsame _ => exact absurd hsame hclear
  | started _ hsame _ => exact absurd hsame hclear
  | inserted _ _ _ hinsert _ _ _ _ =>
      rw [hop] at hinsert
      cases hinsert
  | merged _ _ hsame _ _ => exact absurd hsame hclear
  | cleared daemon _ hp _ hentries hcleared hempty =>
      refine ⟨hheld.updatedAt_le hbounded, by simp only; rw [hcleared]; omega, by simp [hentries],
        daemons_update (fun u daemon _ hu _ => ?_) fun daemon' hdaemon' => ?_⟩
      · have := hbounded.memoryCleared u daemon hu
        omega
      · rw [(hempty daemon' hdaemon').1]
        simp

theorem lastClear_of_clear (hop : a.op = .clear)
    (h : program snapshotBytes entryFootprint t a s p = some next) :
    next.1.lastClear = s.clock := by
  unfold program at h
  rw [hop] at h
  split at h <;> first | cases h; rfl | simp_all

end

section

variable {snapshotBytes : Entries → Nat}
variable {entryFootprint : String → RegistryPackageMetadataEntry → Nat}
variable {c d e : Config Shared (Option Daemon)} {a : Action} {t : Nat}

theorem io_of_timely (h : timely c a = true) : a.io = {} := by
  simp only [timely, Bool.and_eq_true, beq_iff_eq] at h
  exact h.1

theorem Bounded.of_step (h : Bounded c) (hguard : timely c a = true)
    (hstep : c.step (program snapshotBytes entryFootprint) t a = some d) : Bounded d := by
  obtain ⟨s', p', hprog, rfl⟩ := Config.step_eq_some hstep
  exact h.step hguard (clock_of_program hprog) (rewrites_of_program (io_of_timely hguard) hprog)

theorem bounded_started {file : File} {clock : Nat}
    (hfile : file.entries.All fun _ entry => entry.updatedAt ≤ clock) :
    Bounded (started file clock) where
  file := hfile
  memory := by simp [started]
  fileCleared := Nat.le_refl _
  memoryCleared := by simp [started]

/-- What was in the file or in the memory of a daemon when a clear began, and is
not written again, is never in the file after that clear. -/
theorem clear_holds {file : File} {clock : Nat}
    (hfile : file.entries.All fun _ entry => entry.updatedAt ≤ clock)
    {before after : List (Nat × Action)}
    (hbefore : Runs (program snapshotBytes entryFootprint) (fun c _ a => timely c a = true)
      (started file clock) before c)
    (hop : a.op = .clear) (hguard : timely c a = true)
    (hstep : c.step (program snapshotBytes entryFootprint) t a = some d)
    {packageName : String} {entry : RegistryPackageMetadataEntry} (hheld : Held c packageName entry)
    (hafter : Runs (program snapshotBytes entryFootprint)
      (fun c _ a => timely c a = true ∧ a.op ≠ .insert packageName entry) d after e) :
    e.shared.file.entries.lookup packageName ≠ some entry := by
  have hbounded : Bounded c := hbefore.invariant
    (fun _ _ _ _ hguard hstep h => h.of_step hguard hstep) (bounded_started hfile)
  have hgone : Gone packageName entry c.shared.clock d := by
    obtain ⟨s', p', hprog, rfl⟩ := Config.step_eq_some hstep
    refine gone_of_clear hbounded hguard hop hheld
      (rewrites_of_program (io_of_timely hguard) hprog) ?_
    rw [lastClear_of_clear hop hprog]
    simp only [timely, hop, Bool.and_eq_true, decide_eq_true_eq] at hguard
    omega
  refine (hafter.invariant (I := fun c => Bounded c ∧ Gone packageName entry d.shared.lastClear c)
    (fun c d t a hguard hstep h => ?_) ⟨hbounded.of_step hguard hstep, ?_⟩).2.file
  · refine ⟨h.1.of_step hguard.1 hstep, ?_⟩
    obtain ⟨s', p', hprog, rfl⟩ := Config.step_eq_some hstep
    exact h.2.step h.1 hguard.1 hguard.2 (rewrites_of_program (io_of_timely hguard.1) hprog)
  · obtain ⟨s', p', hprog, rfl⟩ := Config.step_eq_some hstep
    rw [lastClear_of_clear hop hprog]
    exact hgone

end

/-- One daemon clears while another holds the entry, writes another package and
flushes. -/
theorem clear_holds_sibling :
    ∃ e : Config Shared (Option Daemon),
      e.shared.file.entries.lookup "b" = some (entryAt 12) ∧
      e.shared.file.entries.lookup "a" ≠ some (entryAt 5) := by
  let file : File := some ⟨registrySchemaVersion, (∅ : Entries).insert "a" (entryAt 5), 2⟩
  have hrun : (((started file 10).run (program (snapshotBytes entryJson) (entryFootprint entryJson))
      (fun c _ a => timely c a = true) [(0, { op := .start }), (1, { op := .start })]).any
      fun c => timely c { op := .clear } &&
        decide (c.shared.file.entries.lookup "a" = some (entryAt 5)) &&
        (c.step (program (snapshotBytes entryJson) (entryFootprint entryJson)) 0
          { op := .clear }).any fun d =>
          (d.run (program (snapshotBytes entryJson) (entryFootprint entryJson))
            (fun c _ a => timely c a = true ∧ a.op ≠ .insert "a" (entryAt 5))
            [(0, { op := .elapse 2 }), (1, { op := .insert "b" (entryAt 12) }),
              (1, { op := .count "b" }), (1, { op := .flush })]).any
            fun e => decide (e.shared.file.entries.lookup "b" = some (entryAt 12))) = true := by
    decide
  obtain ⟨c, hc, htest⟩ := Runs.of_run_any hrun
  rw [Bool.and_eq_true, Bool.and_eq_true] at htest
  obtain ⟨⟨hguard, hheld⟩, hrest⟩ := htest
  cases hstep :
    c.step (program (snapshotBytes entryJson) (entryFootprint entryJson)) 0 { op := .clear } with
  | none => simp [hstep] at hrest
  | some d =>
      rw [hstep] at hrest
      obtain ⟨e, he, hkept⟩ := Runs.of_run_any hrest
      have hfile : file.entries.All fun _ entry => entry.updatedAt ≤ 10 :=
        Keyed.All.insert (Keyed.all_empty _) (by decide)
      exact ⟨e, of_decide_eq_true hkept,
        clear_holds hfile hc rfl hguard hstep (.inl (of_decide_eq_true hheld)) he⟩

end ImportLens.Registry.Sharing
