import ImportLens.Registry.Cache
import ImportLens.Support.Interleaving

/-!
# Daemons that write and flush

Any number of daemons share the registry file, and nobody clears or compacts.
Each call is one step; a daemon that starts reads the file, and any later read or
write of it may fail.
-/

namespace ImportLens.Registry.Flushing

open ImportLens.Support

inductive Op
  | start
  | writeEntry (packageName : String) (entry : RegistryPackageMetadataEntry)
  | flush

structure Action where
  op : Op
  io : Io := {}

/-- The cache that a step flushes: the one of a flush call, or that of a write
whose count fills the batch. -/
def flushing (a : Action) : Option RegistryMetadataCache → Option RegistryMetadataCache
  | none => none
  | some cache =>
      match a.op with
      | .start => none
      | .writeEntry packageName entry =>
          let cache := cache.insert packageName entry
          let cache := { cache with unpersistedWrites := cache.unpersistedWrites + 1 }
          if registryPersistBatch ≤ cache.unpersistedWrites then some cache else none
      | .flush => some cache

def program : Program File (Option RegistryMetadataCache) Action := fun _ a file position =>
  match a.op, position with
  | .start, none => some (file, some (.new {} file))
  | .writeEntry packageName entry, some cache =>
      let result := cache.writeEntry a.io packageName entry file
      some (result.2.1, some result.2.2)
  | .flush, some cache =>
      let result := cache.flush a.io file
      some (result.2.1, some result.2.2)
  | _, _ => none

def started (file : File) : Config File (Option RegistryMetadataCache) where
  shared := file
  thread _ := none

/-- One table has an entry at least as new for every package of the other. -/
abbrev Covers (u t : Entries) : Prop := Keyed.Covers RegistryPackageMetadataEntry.updatedAt u t

/-- A flush that writes without having read the file has all of it in memory. -/
def Merges (io : Io) (file : File) (cache : RegistryMetadataCache) : Prop :=
  cache.unpersistedWrites = 0 ∨ io.readOk = true ∨ io.writeOk = false ∨
    Covers cache.entries file.entries

instance (io : Io) (file : File) (cache : RegistryMetadataCache) :
    Decidable (Merges io file cache) :=
  inferInstanceAs (Decidable (_ ∨ _))

def merging (c : Config File (Option RegistryMetadataCache)) (t : Nat) (a : Action) : Bool :=
  (flushing a (c.thread t)).all fun cache => decide (Merges a.io c.shared cache)

/-- What a flush owes the other daemons and its own memory. -/
structure Kept (before after : File) (cache : RegistryMetadataCache) : Prop where
  file : Covers after.entries before.entries
  memory : Covers after.entries cache.entries

/-- Nobody has cleared the file, and a daemon that has counted no write since its
last flush has nothing that is not in the file. -/
structure Accounted (clearedAt : Nat) (c : Config File (Option RegistryMetadataCache)) : Prop where
  file : c.shared.clearedAt = clearedAt
  memory : ∀ t cache, c.thread t = some cache → cache.clearedAt = clearedAt
  clean : ∀ t cache, c.thread t = some cache → cache.unpersistedWrites = 0 →
    Covers c.shared.entries cache.entries

section

variable {io : Io} {file : File} {cache : RegistryMetadataCache} {clearedAt : Nat}
variable {c d : Config File (Option RegistryMetadataCache)} {a : Action} {t : Nat}

/-- With no clear to adopt, a flush that writes leaves the merge. -/
theorem flush_of_ne_zero (io : Io) (hfile : file.clearedAt = clearedAt)
    (hcache : cache.clearedAt = clearedAt)
    (hdirty : cache.unpersistedWrites ≠ 0) :
    io.writeOk = true ∧ cache.flush io file =
        (true,
          some ⟨registrySchemaVersion, mergeNewest cache.entries (loadSnapshot io file).entries,
            clearedAt⟩, { cache with unpersistedWrites := 0 }) ∨
      io.writeOk = false ∧ cache.flush io file = (false, file, cache) := by
  have hadopt : cache.adoptClear (loadSnapshot io file).clearedAt = cache := by
    apply RegistryMetadataCache.adoptClear_of_le
    obtain heq | heq := loadSnapshot_cases io file
    · rw [heq, hcache, ← hfile]
      exact Nat.le_refl _
    · rw [heq]
      exact Nat.zero_le _
  obtain ⟨hzero, _⟩ | ⟨adopted, hadopted, _, hresult⟩ :=
    RegistryMetadataCache.flush_cases io file cache
  · exact absurd hzero hdirty
  · rw [hadopt] at hadopted
    subst hadopted
    rw [← hcache]
    exact hresult

/-- A flush that returns `Ok` keeps what it found, exactly when it merges. -/
theorem kept_iff_merges (hfile : file.clearedAt = clearedAt) (hcache : cache.clearedAt = clearedAt)
    (hclean : cache.unpersistedWrites = 0 → Covers file.entries cache.entries)
    (hok : (cache.flush io file).1 = true) :
    Merges io file cache ↔ Kept file (cache.flush io file).2.1 cache := by
  by_cases hzero : cache.unpersistedWrites = 0
  · have heq : cache.flush io file = (true, file, cache) := by
      simp [RegistryMetadataCache.flush, hzero]
    rw [heq]
    exact ⟨fun _ => ⟨.refl _ _, hclean hzero⟩, fun _ => .inl hzero⟩
  · obtain ⟨hwrite, heq⟩ | ⟨_, heq⟩ := flush_of_ne_zero io hfile hcache hzero
    · rw [heq]
      have hmemory : Covers (mergeNewest cache.entries (loadSnapshot io file).entries)
          cache.entries := Keyed.covers_mergeNewest_left _ _ _
      constructor
      · rintro (hdone | hread | hfail | hcovers)
        · exact absurd hdone hzero
        · have hload : (loadSnapshot io file).entries = file.entries := by
            unfold File.entries loadSnapshot
            rw [hread]
          refine ⟨?_, hmemory⟩
          rw [← hload]
          exact Keyed.covers_mergeNewest_right _ _ _
        · rw [hwrite] at hfail
          cases hfail
        · exact ⟨hmemory.trans hcovers, hmemory⟩
      · intro hkept
        by_cases hread : io.readOk = true
        · exact .inr (.inl hread)
        · -- nothing was read, so the file is now what the memory holds
          have hload : (loadSnapshot io file).entries = ∅ := by
            unfold loadSnapshot
            rw [if_neg hread]
          have hmerged : mergeNewest cache.entries (loadSnapshot io file).entries =
              cache.entries := by
            rw [hload]
            rfl
          have hcovers := hkept.file
          rw [hmerged] at hcovers
          exact .inr (.inr (.inr hcovers))
    · rw [heq] at hok
      cases hok

/-- What a flush that merges leaves, whether it returns `Ok` or not. -/
theorem flush_accounts (hfile : file.clearedAt = clearedAt) (hcache : cache.clearedAt = clearedAt)
    (hclean : cache.unpersistedWrites = 0 → Covers file.entries cache.entries)
    (hmerges : Merges io file cache) :
    (cache.flush io file).2.1.clearedAt = clearedAt ∧
      (cache.flush io file).2.2.clearedAt = clearedAt ∧
      Covers (cache.flush io file).2.1.entries file.entries ∧
      ((cache.flush io file).2.2.unpersistedWrites = 0 →
        Covers (cache.flush io file).2.1.entries (cache.flush io file).2.2.entries) := by
  by_cases hzero : cache.unpersistedWrites = 0
  · have heq : cache.flush io file = (true, file, cache) := by
      simp [RegistryMetadataCache.flush, hzero]
    rw [heq]
    exact ⟨hfile, hcache, .refl _ _, hclean⟩
  · obtain ⟨hwrite, heq⟩ | ⟨_, heq⟩ := flush_of_ne_zero io hfile hcache hzero
    · have hkept := (kept_iff_merges hfile hcache hclean (by rw [heq])).mp hmerges
      rw [heq] at hkept ⊢
      exact ⟨rfl, hcache, hkept.file, fun _ => hkept.memory⟩
    · rw [heq]
      exact ⟨hfile, hcache, .refl _ _, fun hdone => absurd hdone hzero⟩

/-- A step flushes, or leaves the file alone. -/
theorem step_cases {position : Option RegistryMetadataCache}
    {next : File × Option RegistryMetadataCache} (h : program t a file position = some next) :
    (∃ cache, flushing a position = some cache ∧
      (∃ before, position = some before ∧ cache.clearedAt = before.clearedAt ∧
        (cache.unpersistedWrites = 0 → cache = before)) ∧
      next = ((cache.flush a.io file).2.1, some (cache.flush a.io file).2.2)) ∨
    flushing a position = none ∧ next.1 = file ∧
      ((position = none ∧ next.2 = some (.new {} file)) ∨
        ∃ before cache, position = some before ∧ next.2 = some cache ∧
          cache.clearedAt = before.clearedAt ∧ cache.unpersistedWrites ≠ 0) := by
  unfold program at h
  split at h
  · cases h
    exact .inr ⟨rfl, rfl, .inl ⟨rfl, rfl⟩⟩
  · rename_i packageName entry before hop
    cases h
    unfold flushing RegistryMetadataCache.writeEntry RegistryMetadataCache.count
    rw [hop]
    dsimp only
    split
    · refine .inl ⟨_, rfl, ⟨before, rfl, rfl, fun hzero => ?_⟩, rfl⟩
      cases hzero
    · exact .inr ⟨rfl, rfl, .inr ⟨before, _, rfl, rfl, rfl, Nat.succ_ne_zero _⟩⟩
  · rename_i before hop
    cases h
    refine .inl ⟨before, by simp [flushing, hop], ⟨before, rfl, rfl, fun _ => rfl⟩, rfl⟩
  · cases h

theorem Accounted.step (h : Accounted clearedAt c) (hguard : merging c t a = true)
    (hstep : c.step program t a = some d) : Accounted clearedAt d := by
  obtain ⟨file', position', hprog, rfl⟩ := Config.step_eq_some hstep
  have hothers : ∀ {P : RegistryMetadataCache → Prop},
      (∀ u cache, c.thread u = some cache → P cache) → (∀ cache, position' = some cache → P cache) →
      ∀ u cache, Function.update c.thread t position' u = some cache → P cache := by
    intro P hold hnew u cache hu
    rw [Function.update_apply] at hu
    split at hu
    · exact hnew cache hu
    · exact hold u cache hu
  obtain ⟨cache, hflushing, ⟨before, hbefore, hsame, hwhole⟩, heq⟩ | ⟨_, hfile, hnext⟩ :=
    step_cases hprog
  · cases heq
    have hclean : cache.unpersistedWrites = 0 → Covers c.shared.entries cache.entries := by
      intro hzero
      have hcache := hwhole hzero
      rw [hcache] at hzero ⊢
      exact h.clean t before hbefore hzero
    have hmerges : Merges a.io c.shared cache := by
      simpa [merging, hflushing] using hguard
    obtain ⟨hcleared, hcache, hcovers, hafter⟩ := flush_accounts h.file
      (hsame.trans (h.memory t before hbefore)) hclean hmerges
    refine ⟨hcleared, hothers h.memory ?_, hothers ?_ ?_⟩
    · intro cache' hcache'
      cases hcache'
      exact hcache
    · exact fun u other hu hzero => hcovers.trans (h.clean u other hu hzero)
    · intro cache' hcache'
      cases hcache'
      exact hafter
  · dsimp only at hfile hnext
    subst hfile
    refine ⟨h.file, hothers h.memory ?_, hothers h.clean ?_⟩
    · intro cache' hcache'
      obtain ⟨_, heq⟩ | ⟨before, cache, hbefore, heq, hsame, _⟩ := hnext
      · rw [heq] at hcache'
        cases hcache'
        exact h.file
      · rw [heq] at hcache'
        cases hcache'
        exact hsame.trans (h.memory t before hbefore)
    · intro cache' hcache' hzero
      obtain ⟨_, heq⟩ | ⟨before, cache, _, heq, _, hdirty⟩ := hnext
      · rw [heq] at hcache'
        cases hcache'
        exact .refl _ _
      · rw [heq] at hcache'
        cases hcache'
        exact absurd hzero hdirty

/-- In every run whose flushes merge, a flush that returns `Ok` leaves nothing
older in the file than the file or its own memory had, exactly when it merges. -/
theorem flush_keeps_others {acts : List (Nat × Action)}
    (h : Runs program (fun c t a => merging c t a = true) (started file) acts c)
    (hflushing : flushing a (c.thread t) = some cache)
    (hstep : c.step program t a = some d) (hok : (cache.flush a.io c.shared).1 = true) :
    merging c t a = true ↔ Kept c.shared d.shared cache := by
  have haccounted : Accounted file.clearedAt c := by
    refine h.invariant (I := Accounted file.clearedAt)
      (fun _ _ _ _ hguard hstep h => h.step hguard hstep) ⟨rfl, ?_, ?_⟩
    · simp [started]
    · simp [started]
  obtain ⟨file', position', hprog, rfl⟩ := Config.step_eq_some hstep
  obtain ⟨cache', hflushing', ⟨before, hbefore, hsame, hwhole⟩, heq⟩ | ⟨hnone, _⟩ :=
    step_cases hprog
  · rw [hflushing] at hflushing'
    cases hflushing'
    cases heq
    have hclean : cache.unpersistedWrites = 0 → Covers c.shared.entries cache.entries := by
      intro hzero
      have hcache := hwhole hzero
      rw [hcache] at hzero ⊢
      exact haccounted.clean t before hbefore hzero
    rw [← kept_iff_merges haccounted.file (hsame.trans (haccounted.memory t before hbefore)) hclean
      hok]
    simp [merging, hflushing]
  · rw [hflushing] at hnone
    cases hnone

end

/-- Two daemons write one package each and flush. -/
theorem flush_keeps_others_two :
    ∃ (c d : Config File (Option RegistryMetadataCache)) (cache : RegistryMetadataCache),
      flushing { op := .flush } (c.thread 0) = some cache ∧
      Kept c.shared d.shared cache := by
  have hrun : (((started none).run program (fun c t a => merging c t a = true)
      [(0, { op := .start }), (1, { op := .start }), (0, { op := .writeEntry "a" (entryAt 6) }),
        (1, { op := .writeEntry "b" (entryAt 5) }), (1, { op := .flush })]).any
      fun c => ((flushing { op := .flush } (c.thread 0)).any fun cache =>
          (cache.flush {} c.shared).1) &&
        merging c 0 { op := .flush } && (c.step program 0 { op := .flush }).isSome) = true := by
    decide
  obtain ⟨c, hc, htest⟩ := Runs.of_run_any hrun
  rw [Bool.and_eq_true, Bool.and_eq_true, Option.isSome_iff_exists] at htest
  obtain ⟨⟨hany, hmerging⟩, d, hstep⟩ := htest
  cases hflushing : flushing { op := .flush } (c.thread 0) with
  | none => simp [hflushing] at hany
  | some cache =>
      rw [hflushing] at hany
      exact ⟨c, d, cache, hflushing, (flush_keeps_others hc hflushing hstep hany).mp hmerging⟩

/-- One daemon has written package `b`; the flush of another cannot read the file
and writes package `a` alone. -/
theorem unread_file_lost :
    ¬ ∀ (acts : List (Nat × Action)) (c : Config File (Option RegistryMetadataCache)),
      Runs program (fun _ _ _ => True) (started none) acts c →
      ∀ t a d cache, flushing a (c.thread t) = some cache → c.step program t a = some d →
        (cache.flush a.io c.shared).1 = true → Kept c.shared d.shared cache := by
  intro hall
  let action : Action := { op := .flush, io := { readOk := false } }
  have hrun : (((started none).run program (fun _ _ _ => True)
      [(0, { op := .start }), (1, { op := .start }), (0, { op := .writeEntry "a" (entryAt 6) }),
        (1, { op := .writeEntry "b" (entryAt 5) }), (1, { op := .flush })]).any
      fun c => ((flushing action (c.thread 0)).any fun cache =>
          (cache.flush action.io c.shared).1) &&
        (c.step program 0 action).any fun d =>
          decide (¬ Covers d.shared.entries c.shared.entries)) = true := by
    decide
  obtain ⟨c, hc, htest⟩ := Runs.of_run_any hrun
  rw [Bool.and_eq_true] at htest
  obtain ⟨hany, hlost⟩ := htest
  cases hflushing : flushing action (c.thread 0) with
  | none => simp [hflushing] at hany
  | some cache =>
      cases hstep : c.step program 0 action with
      | none => simp [hstep] at hlost
      | some d =>
          rw [hflushing] at hany
          rw [hstep] at hlost
          exact of_decide_eq_true hlost (hall _ c hc 0 action d cache hflushing hstep hany).file

end ImportLens.Registry.Flushing
