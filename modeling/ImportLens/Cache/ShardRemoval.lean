import ImportLens.Cache.Shards

/-!
# Removal beside use

The load lock keeps the opens of the database apart, and a removal apart from
every load.  What is registered and what is on disk after a removal can then only
come from a load that took the lock later, or from a warm hit that still has its
metadata to write.
-/

namespace ImportLens.Cache.Shards

open ImportLens.Support

/-! ## Kinds of positions -/

namespace Position

def locked : Position → Bool
  | retryHeld _ | retryOpening _ | retryReopened _ | retryWrite _ _ | coldHeld _
  | coldHitWrite _ _ | coldOpening _ | coldOpened _ | coldInsert _ | release _ | removeHeld
  | removeTaken _ | removeOpening | removeDirectory | removeRelease _ => true
  | _ => false

def opening : Position → Bool
  | retryOpening _ | coldOpening _ | removeOpening => true
  | _ => false

def foundEmpty : Position → Bool
  | coldOpening _ | coldOpened _ | coldInsert _ | removeTaken _ | removeOpening
  | removeDirectory | removeRelease _ => true
  | _ => false

def loadingShard : Position → Bool
  | retryOpening _ | retryReopened _ | retryWrite _ _ | coldHitWrite _ _ | coldOpened _
  | coldInsert _ => true
  | _ => false

def coldPath : Position → Bool
  | coldHeld _ | coldHitWrite _ _ | coldOpening _ | coldOpened _ | coldInsert _ => true
  | _ => false

def makesDirectory : Position → Bool
  | coldOpening _ | warmWrite _ _ => true
  | _ => false

/-- The next step writes metadata that was captured under `loaded`. -/
def writesMetadata : Position → Bool
  | warmWrite _ _ | retryWrite _ _ | coldHitWrite _ _ => true
  | _ => false

theorem locked_of_opening {p : Position} (h : p.opening = true) : p.locked = true := by
  cases p with
  | retryOpening | coldOpening | removeOpening => rfl
  | _ => cases h

theorem locked_of_foundEmpty {p : Position} (h : p.foundEmpty = true) : p.locked = true := by
  cases p with
  | coldOpening | coldOpened | coldInsert | removeTaken | removeOpening | removeDirectory
  | removeRelease => rfl
  | _ => cases h

theorem locked_of_loadingShard {p : Position} (h : p.loadingShard = true) : p.locked = true := by
  cases p with
  | retryOpening | retryReopened | retryWrite | coldHitWrite | coldOpened | coldInsert => rfl
  | _ => cases h

theorem locked_of_coldPath {p : Position} (h : p.coldPath = true) : p.locked = true := by
  cases p with
  | coldHeld | coldHitWrite | coldOpening | coldOpened | coldInsert => rfl
  | _ => cases h

end Position

/-! ## Steps -/

section

variable {storageEnabled : Bool} {t now cache : Nat} {a : Choice} {s s' : Shared} {p q : Position}
variable {shard : Option LoadedProjectCache}

theorem next_cases (hit : Hit) :
    hit.next = .retryAcquire hit.cache ∨ hit.next = .served hit.cache := by
  unfold Hit.next
  split
  · exact .inl rfl
  · exact .inr rfl

theorem storageEnabled_of_pendingMetadata {claimRetry : Bool} {shard : LoadedProjectCache}
    {lastUsedMillis : Nat}
    (h : (warmShardHit storageEnabled now claimRetry shard).2.pendingMetadata =
      some lastUsedMillis) : storageEnabled = true := by
  cases storageEnabled with
  | true => rfl
  | false =>
      rw [warmShardHit] at h
      generalize hclaimed : (if claimRetry = true then _ else none) = claimed at h
      simp only at h
      split at h <;> cases h

theorem acquire_eq_some (h : acquire t s p = some (s', q)) :
    s.loadLock = none ∧ s' = { s with loadLock := some t } ∧ q = p := by
  unfold acquire at h
  split at h
  · rename_i hfree
    cases h
    exact ⟨Option.isNone_iff_eq_none.mp hfree, rfl, rfl⟩
  · cases h

theorem warmHit_cases (h : program storageEnabled t a s (.warmHit now) = some (s', q)) :
    (s.loaded = none ∧ s' = s ∧ q = .coldAcquire now) ∨
      ∃ shard hit, s.loaded ≠ none ∧ s' = { s with loaded := some shard } ∧
        ((∃ lastUsedMillis, q = .warmWrite lastUsedMillis hit ∧ storageEnabled = true) ∨
          q = hit.next) := by
  unfold program at h
  dsimp only at h
  split at h
  · rename_i hloaded
    cases h
    exact .inl ⟨hloaded, rfl, rfl⟩
  · rename_i shard hloaded
    cases h
    refine .inr ⟨_, (warmShardHit storageEnabled now true shard).2,
      by rw [hloaded]; exact Option.some_ne_none _, rfl, ?_⟩
    split
    · rename_i hpending
      exact .inl ⟨_, rfl, storageEnabled_of_pendingMetadata hpending⟩
    · exact .inr rfl

theorem coldHeld_cases (h : program storageEnabled t a s (.coldHeld now) = some (s', q)) :
    (s.loaded = none ∧ s' = s ∧ q = .coldOpening now) ∨
      ∃ shard cache, s.loaded ≠ none ∧ s' = { s with loaded := some shard } ∧
        ((∃ lastUsedMillis, q = .coldHitWrite lastUsedMillis cache ∧ storageEnabled = true) ∨
          q = .release cache) := by
  unfold program at h
  dsimp only at h
  split at h
  · rename_i hloaded
    cases h
    exact .inl ⟨hloaded, rfl, rfl⟩
  · rename_i shard hloaded
    cases h
    refine .inr ⟨_, (warmShardHit storageEnabled now false shard).2.cache,
      by rw [hloaded]; exact Option.some_ne_none _, rfl, ?_⟩
    split
    · rename_i hpending
      exact .inl ⟨_, rfl, storageEnabled_of_pendingMetadata hpending⟩
    · exact .inr rfl

theorem retryHeld_cases (h : program storageEnabled t a s (.retryHeld cache) = some (s', q)) :
    s' = s ∧ ((s.loaded ≠ none ∧ q = .retryOpening cache) ∨ q = .release cache) := by
  unfold program at h
  dsimp only at h
  cases h
  refine ⟨rfl, ?_⟩
  split
  · rename_i hregistered
    refine .inl ⟨fun hnone => ?_, rfl⟩
    rw [stillRegistered, hnone] at hregistered
    cases hregistered
  · exact .inr rfl

theorem openDatabase_of_disabled (outcome : DatabaseOpen) (directory : Option Directory) :
    openDatabase false outcome directory = (directory, false) := rfl

theorem retryOpening_cases
    (h : program storageEnabled t a s (.retryOpening cache) = some (s', q)) :
    s'.loadLock = s.loadLock ∧ (s.loaded = none → s'.loaded = none) ∧
      (storageEnabled = false → s'.directory = s.directory) ∧
      (q = .retryReopened cache ∨ q = .release cache) := by
  unfold program at h
  dsimp only at h
  split at h
  · cases h
    exact ⟨rfl, id, fun _ => rfl, .inl rfl⟩
  · split at h
    · cases h
      refine ⟨rfl, fun hnone => by simp [hnone], fun hdisabled => ?_, .inl rfl⟩
      simp [hdisabled, openDatabase_of_disabled]
    · cases h
      refine ⟨rfl, id, fun hdisabled => ?_, .inr rfl⟩
      simp [hdisabled, openDatabase_of_disabled]

theorem retryReopened_cases
    (h : program storageEnabled t a s (.retryReopened cache) = some (s', q)) :
    s'.loadLock = s.loadLock ∧ s'.directory = s.directory ∧
      (s.loaded = none → s'.loaded = none) ∧
      ((∃ lastUsedMillis, q = .retryWrite lastUsedMillis cache ∧ storageEnabled = true) ∨
        q = .release cache) := by
  unfold program at h
  dsimp only at h
  split at h
  · cases h
    exact ⟨rfl, rfl, id, .inr rfl⟩
  · rename_i hloaded
    cases h
    refine ⟨rfl, rfl, fun hnone => ?_, ?_⟩
    · rw [hnone] at hloaded
      cases hloaded
    · split
      · rename_i henabled
        exact .inl ⟨_, rfl, henabled⟩
      · exact .inr rfl

theorem removeTaken_cases
    (h : program storageEnabled t a s (.removeTaken shard) = some (s', q)) :
    s' = s ∧ (q = .removeOpening ∨
      ∃ result, q = .removeRelease result ∧ (result.removed = true → storageEnabled = false)) := by
  unfold program at h
  dsimp only at h
  split at h
  · cases h
    exact ⟨rfl, .inr ⟨_, rfl, fun hremoved => Bool.noConfusion hremoved⟩⟩
  · split at h
    · cases h
      exact ⟨rfl, .inl rfl⟩
    · rename_i henabled
      cases h
      exact ⟨rfl, .inr ⟨_, rfl, fun _ => Bool.eq_false_iff.mpr henabled⟩⟩

theorem removeOpening_cases (h : program storageEnabled t a s .removeOpening = some (s', q)) :
    s'.loadLock = s.loadLock ∧ s'.loaded = s.loaded ∧
      (s.directory = none → s'.directory = none) ∧
      (q = .removeDirectory ∨ ∃ result, q = .removeRelease result ∧ result.removed = false) := by
  unfold program at h
  dsimp only at h
  split at h
  · cases h
    exact ⟨rfl, rfl, id, .inl rfl⟩
  · rename_i directory hdirectory
    split at h
    · split at h
      · cases h
        exact ⟨rfl, rfl, id, .inr ⟨_, rfl, rfl⟩⟩
      · cases h
        refine ⟨rfl, rfl, fun hnone => ?_, .inl rfl⟩
        rw [hnone] at hdirectory
        cases hdirectory
    · cases h
      exact ⟨rfl, rfl, id, .inl rfl⟩

/-- A removal that reports `removed` leaves no directory. -/
theorem removeDirectory_cases
    (h : program storageEnabled t a s .removeDirectory = some (s', q)) :
    s'.loadLock = s.loadLock ∧ s'.loaded = s.loaded ∧
      (s.directory = none → s'.directory = none) ∧
      ∃ result, q = .removeRelease result ∧ (result.removed = true → s'.directory = none) := by
  unfold program at h
  dsimp only at h
  split at h
  · rename_i hdirectory
    cases h
    exact ⟨rfl, rfl, id, _, rfl, fun _ => hdirectory⟩
  · cases h
    exact ⟨rfl, rfl, fun _ => rfl, _, rfl, fun _ => rfl⟩
  · rename_i hdirectory _
    cases h
    refine ⟨rfl, rfl, fun hnone => ?_, _, rfl, fun hremoved => Bool.noConfusion hremoved⟩
    rw [hnone] at hdirectory
    cases hdirectory

theorem discipline (h : program storageEnabled t a s p = some (s', q)) :
    Mutex.Discipline Position.locked t s.loadLock s'.loadLock p q := by
  cases p with
  | retryAcquire | coldAcquire | removeAcquire =>
      obtain ⟨hfree, rfl, rfl⟩ := acquire_eq_some h
      exact .takes rfl hfree rfl
  | release | removeRelease =>
      cases h
      exact .gives rfl rfl
  | retryHeld =>
      obtain ⟨rfl, _⟩ := retryHeld_cases h
      exact .inside rfl rfl
  | coldHeld =>
      obtain ⟨_, rfl, _⟩ | ⟨_, _, _, rfl, _⟩ := coldHeld_cases h
      · exact .inside rfl rfl
      · exact .inside rfl rfl
  | retryOpening => exact .inside rfl (retryOpening_cases h).1
  | retryReopened => exact .inside rfl (retryReopened_cases h).1
  | removeTaken =>
      obtain ⟨rfl, _⟩ := removeTaken_cases h
      exact .inside rfl rfl
  | removeOpening => exact .inside rfl (removeOpening_cases h).1
  | removeDirectory => exact .inside rfl (removeDirectory_cases h).1
  | retryWrite | coldHitWrite | coldOpening | coldOpened | coldInsert | removeHeld =>
      cases h
      exact .inside rfl rfl
  | idle =>
      cases h
      exact .outside rfl (by split <;> rfl) rfl
  | warmHit =>
      obtain ⟨_, rfl, rfl⟩ | ⟨_, hit, _, rfl, ⟨_, rfl, _⟩ | rfl⟩ := warmHit_cases h
      · exact .outside rfl rfl rfl
      · exact .outside rfl rfl rfl
      · exact .outside rfl (by obtain hq | hq := next_cases hit <;> rw [hq] <;> rfl) rfl
  | warmWrite _ hit =>
      cases h
      exact .outside rfl (by obtain hq | hq := next_cases hit <;> rw [hq] <;> rfl) rfl
  | served | removed =>
      cases h
      exact .outside rfl rfl rfl

theorem loaded_step (h : program storageEnabled t a s p = some (s', q)) (hnone : s.loaded = none) :
    s'.loaded = none ∨ ∃ shard, p = .coldInsert shard := by
  cases p with
  | coldInsert shard => exact .inr ⟨shard, rfl⟩
  | retryAcquire | coldAcquire | removeAcquire =>
      obtain ⟨_, rfl, _⟩ := acquire_eq_some h
      exact .inl hnone
  | warmHit =>
      obtain ⟨_, rfl, _⟩ | ⟨_, _, hsome, _⟩ := warmHit_cases h
      · exact .inl hnone
      · exact absurd hnone hsome
  | coldHeld =>
      obtain ⟨_, rfl, _⟩ | ⟨_, _, hsome, _⟩ := coldHeld_cases h
      · exact .inl hnone
      · exact absurd hnone hsome
  | retryHeld =>
      obtain ⟨rfl, _⟩ := retryHeld_cases h
      exact .inl hnone
  | retryOpening => exact .inl ((retryOpening_cases h).2.1 hnone)
  | retryReopened => exact .inl ((retryReopened_cases h).2.2.1 hnone)
  | removeHeld =>
      cases h
      exact .inl rfl
  | removeTaken =>
      obtain ⟨rfl, _⟩ := removeTaken_cases h
      exact .inl hnone
  | removeOpening => exact .inl ((removeOpening_cases h).2.1.trans hnone)
  | removeDirectory => exact .inl ((removeDirectory_cases h).2.1.trans hnone)
  | _ =>
      cases h
      exact .inl hnone

theorem foundEmpty_step (h : program storageEnabled t a s p = some (s', q))
    (hq : q.foundEmpty = true) : s'.loaded = none ∨ p.foundEmpty = true := by
  cases p with
  | coldOpening | coldOpened | coldInsert | removeTaken | removeOpening | removeDirectory
  | removeRelease => exact .inr rfl
  | retryAcquire | coldAcquire | removeAcquire =>
      obtain ⟨_, _, rfl⟩ := acquire_eq_some h
      cases hq
  | warmHit =>
      obtain ⟨_, _, rfl⟩ | ⟨_, hit, _, _, ⟨_, rfl, _⟩ | rfl⟩ := warmHit_cases h
      · cases hq
      · cases hq
      · obtain heq | heq := next_cases hit <;> rw [heq] at hq <;> cases hq
  | warmWrite _ hit =>
      cases h
      obtain heq | heq := next_cases hit <;> rw [heq] at hq <;> cases hq
  | coldHeld =>
      obtain ⟨hnone, rfl, _⟩ | ⟨_, _, _, _, ⟨_, rfl, _⟩ | rfl⟩ := coldHeld_cases h
      · exact .inl hnone
      · cases hq
      · cases hq
  | retryHeld =>
      obtain ⟨_, ⟨_, rfl⟩ | rfl⟩ := retryHeld_cases h <;> cases hq
  | retryOpening =>
      obtain ⟨_, _, _, rfl | rfl⟩ := retryOpening_cases h <;> cases hq
  | retryReopened =>
      obtain ⟨_, _, _, ⟨_, rfl, _⟩ | rfl⟩ := retryReopened_cases h <;> cases hq
  | removeHeld =>
      cases h
      exact .inl rfl
  | idle =>
      cases h
      cases hcall : a.call <;> rw [hcall] at hq <;> cases hq
  | _ =>
      cases h
      cases hq

theorem removed_step (h : program storageEnabled t a s p = some (s', q))
    {result : CacheOperationResult} (hq : q = .removeRelease result)
    (hremoved : result.removed = true) : s'.directory = none ∨ storageEnabled = false := by
  subst hq
  cases p with
  | removeDirectory =>
      obtain ⟨_, _, _, _, heq, hnone⟩ := removeDirectory_cases h
      cases heq
      exact .inl (hnone hremoved)
  | removeTaken =>
      obtain ⟨_, heq | ⟨_, heq, hdisabled⟩⟩ := removeTaken_cases h
      · cases heq
      · cases heq
        exact .inr (hdisabled hremoved)
  | removeOpening =>
      obtain ⟨_, _, _, heq | ⟨_, heq, hfalse⟩⟩ := removeOpening_cases h
      · cases heq
      · cases heq
        rw [hfalse] at hremoved
        cases hremoved
  | retryAcquire | coldAcquire | removeAcquire =>
      obtain ⟨_, _, heq⟩ := acquire_eq_some h
      cases heq
  | warmHit =>
      obtain ⟨_, _, heq⟩ | ⟨_, hit, _, _, ⟨_, heq, _⟩ | heq⟩ := warmHit_cases h
      · cases heq
      · cases heq
      · obtain hnext | hnext := next_cases hit <;> rw [hnext] at heq <;> cases heq
  | warmWrite _ hit =>
      obtain hnext | hnext := next_cases hit <;> simp [program, hnext] at h
  | coldHeld =>
      obtain ⟨_, _, heq⟩ | ⟨_, _, _, _, ⟨_, heq, _⟩ | heq⟩ := coldHeld_cases h <;> cases heq
  | retryHeld =>
      obtain ⟨_, ⟨_, heq⟩ | heq⟩ := retryHeld_cases h <;> cases heq
  | retryOpening =>
      obtain ⟨_, _, _, heq | heq⟩ := retryOpening_cases h <;> cases heq
  | retryReopened =>
      obtain ⟨_, _, _, ⟨_, heq, _⟩ | heq⟩ := retryReopened_cases h <;> cases heq
  | idle => cases hcall : a.call <;> simp [program, hcall] at h
  | _ => cases h

theorem directory_step (h : program storageEnabled t a s p = some (s', q))
    (hnone : s.directory = none) :
    s'.directory = none ∨ p.makesDirectory = true ∨ p.loadingShard = true := by
  cases p with
  | warmWrite | coldOpening => exact .inr (.inl rfl)
  | retryOpening | retryReopened | retryWrite | coldHitWrite | coldOpened | coldInsert =>
      exact .inr (.inr rfl)
  | retryAcquire | coldAcquire | removeAcquire =>
      obtain ⟨_, rfl, _⟩ := acquire_eq_some h
      exact .inl hnone
  | warmHit =>
      obtain ⟨_, rfl, _⟩ | ⟨_, _, _, rfl, _⟩ := warmHit_cases h <;> exact .inl hnone
  | coldHeld =>
      obtain ⟨_, rfl, _⟩ | ⟨_, _, _, rfl, _⟩ := coldHeld_cases h <;> exact .inl hnone
  | retryHeld =>
      obtain ⟨rfl, _⟩ := retryHeld_cases h
      exact .inl hnone
  | removeTaken =>
      obtain ⟨rfl, _⟩ := removeTaken_cases h
      exact .inl hnone
  | removeOpening => exact .inl ((removeOpening_cases h).2.2.1 hnone)
  | removeDirectory => exact .inl ((removeDirectory_cases h).2.2.1 hnone)
  | _ =>
      cases h
      exact .inl hnone

theorem disabled_step (h : program storageEnabled t a s p = some (s', q))
    (hdisabled : storageEnabled = false) (hp : p.writesMetadata = false)
    (hnone : s.directory = none) : s'.directory = none ∧ q.writesMetadata = false := by
  subst hdisabled
  cases p with
  | warmWrite | retryWrite | coldHitWrite => cases hp
  | retryAcquire | coldAcquire | removeAcquire =>
      obtain ⟨_, rfl, rfl⟩ := acquire_eq_some h
      exact ⟨hnone, rfl⟩
  | warmHit =>
      obtain ⟨_, rfl, rfl⟩ | ⟨_, hit, _, rfl, ⟨_, _, henabled⟩ | rfl⟩ := warmHit_cases h
      · exact ⟨hnone, rfl⟩
      · cases henabled
      · refine ⟨hnone, ?_⟩
        obtain heq | heq := next_cases hit <;> rw [heq] <;> rfl
  | coldHeld =>
      obtain ⟨_, rfl, rfl⟩ | ⟨_, _, _, rfl, ⟨_, _, henabled⟩ | rfl⟩ := coldHeld_cases h
      · exact ⟨hnone, rfl⟩
      · cases henabled
      · exact ⟨hnone, rfl⟩
  | retryHeld =>
      obtain ⟨rfl, ⟨_, rfl⟩ | rfl⟩ := retryHeld_cases h <;> exact ⟨hnone, rfl⟩
  | retryOpening =>
      obtain ⟨_, _, hsame, rfl | rfl⟩ := retryOpening_cases h <;>
        exact ⟨(hsame rfl).trans hnone, rfl⟩
  | retryReopened =>
      obtain ⟨_, hsame, _, ⟨_, _, henabled⟩ | rfl⟩ := retryReopened_cases h
      · cases henabled
      · exact ⟨hsame.trans hnone, rfl⟩
  | coldOpening =>
      cases h
      exact ⟨hnone, rfl⟩
  | coldOpened shard =>
      unfold program at h
      dsimp only at h
      cases h
      exact ⟨by simp [hnone], rfl⟩
  | removeTaken =>
      obtain ⟨rfl, rfl | ⟨_, rfl, _⟩⟩ := removeTaken_cases h <;> exact ⟨hnone, rfl⟩
  | removeOpening =>
      obtain ⟨_, _, hkept, rfl | ⟨_, rfl, _⟩⟩ := removeOpening_cases h <;>
        exact ⟨hkept hnone, rfl⟩
  | removeDirectory =>
      obtain ⟨_, _, hkept, _, rfl, _⟩ := removeDirectory_cases h
      exact ⟨hkept hnone, rfl⟩
  | idle =>
      cases hcall : a.call <;> simp only [program, hcall] at h <;> cases h <;> exact ⟨hnone, rfl⟩
  | _ =>
      cases h
      exact ⟨hnone, rfl⟩

theorem loadingShard_step (h : program storageEnabled t a s p = some (s', q))
    (hnone : s.loaded = none) (hq : q.loadingShard = true) :
    p.loadingShard = true ∨ p.makesDirectory = true := by
  cases p with
  | warmWrite | coldOpening => exact .inr rfl
  | retryOpening | retryReopened | retryWrite | coldHitWrite | coldOpened | coldInsert =>
      exact .inl rfl
  | retryAcquire | coldAcquire | removeAcquire =>
      obtain ⟨_, _, rfl⟩ := acquire_eq_some h
      cases hq
  | warmHit =>
      obtain ⟨_, _, rfl⟩ | ⟨_, _, hsome, _⟩ := warmHit_cases h
      · cases hq
      · exact absurd hnone hsome
  | coldHeld =>
      obtain ⟨_, _, rfl⟩ | ⟨_, _, hsome, _⟩ := coldHeld_cases h
      · cases hq
      · exact absurd hnone hsome
  | retryHeld =>
      obtain ⟨_, ⟨hsome, _⟩ | rfl⟩ := retryHeld_cases h
      · exact absurd hnone hsome
      · cases hq
  | removeTaken =>
      obtain ⟨_, rfl | ⟨_, rfl, _⟩⟩ := removeTaken_cases h <;> cases hq
  | removeOpening =>
      obtain ⟨_, _, _, rfl | ⟨_, rfl, _⟩⟩ := removeOpening_cases h <;> cases hq
  | removeDirectory =>
      obtain ⟨_, _, _, _, rfl, _⟩ := removeDirectory_cases h
      cases hq
  | idle => cases hcall : a.call <;> simp only [program, hcall] at h <;> cases h <;> cases hq
  | _ =>
      cases h
      cases hq

theorem coldPath_step (h : program storageEnabled t a s p = some (s', q))
    (hp : p.coldPath = false) (hq : q.coldPath = true) :
    ∃ now, p = .coldAcquire now ∧ s.loadLock = none := by
  cases p with
  | coldHeld | coldHitWrite | coldOpening | coldOpened | coldInsert => cases hp
  | coldAcquire now => exact ⟨now, rfl, (acquire_eq_some h).1⟩
  | retryAcquire | removeAcquire =>
      obtain ⟨_, _, rfl⟩ := acquire_eq_some h
      cases hq
  | warmHit =>
      obtain ⟨_, _, rfl⟩ | ⟨_, hit, _, _, ⟨_, rfl, _⟩ | rfl⟩ := warmHit_cases h
      · cases hq
      · cases hq
      · obtain heq | heq := next_cases hit <;> rw [heq] at hq <;> cases hq
  | warmWrite _ hit =>
      cases h
      obtain heq | heq := next_cases hit <;> rw [heq] at hq <;> cases hq
  | retryHeld =>
      obtain ⟨_, ⟨_, rfl⟩ | rfl⟩ := retryHeld_cases h <;> cases hq
  | retryOpening =>
      obtain ⟨_, _, _, rfl | rfl⟩ := retryOpening_cases h <;> cases hq
  | retryReopened =>
      obtain ⟨_, _, _, ⟨_, rfl, _⟩ | rfl⟩ := retryReopened_cases h <;> cases hq
  | removeTaken =>
      obtain ⟨_, rfl | ⟨_, rfl, _⟩⟩ := removeTaken_cases h <;> cases hq
  | removeOpening =>
      obtain ⟨_, _, _, rfl | ⟨_, rfl, _⟩⟩ := removeOpening_cases h <;> cases hq
  | removeDirectory =>
      obtain ⟨_, _, _, _, rfl, _⟩ := removeDirectory_cases h
      cases hq
  | idle => cases hcall : a.call <;> simp only [program, hcall] at h <;> cases h <;> cases hq
  | _ =>
      cases h
      cases hq

end

/-! ## Runs -/

section

variable {storageEnabled : Bool} {c d e : Config Shared Position} {t u : Nat} {a : Choice}
variable {acts later : List (Nat × Choice)}

/-- What holds in every configuration. -/
structure Sound (storageEnabled : Bool) (c : Config Shared Position) : Prop where
  lock : Mutex.Held Shared.loadLock Position.locked c
  /-- Whoever has found the slot empty still may rely on it. -/
  slot : ∀ t, (c.thread t).foundEmpty = true → c.shared.loaded = none
  disabled : storageEnabled = false →
    c.shared.directory = none ∧ ∀ t, (c.thread t).writesMetadata = false

theorem sound_started (directory : Option Directory) :
    Sound storageEnabled (started storageEnabled directory) where
  lock _ h := Bool.noConfusion h
  slot _ h := Bool.noConfusion h
  disabled h := ⟨by simp [started, h], fun _ => rfl⟩

theorem sound_step (hstep : c.step (program storageEnabled) t a = some d)
    (hc : Sound storageEnabled c) : Sound storageEnabled d := by
  have hlock := hc.lock.step (fun _ _ _ _ _ _ => discipline) hstep
  obtain ⟨shared, position, hprog, rfl⟩ := Config.step_eq_some hstep
  refine ⟨hlock, fun u hu => ?_, fun hdisabled => ?_⟩
  · by_cases hut : u = t
    · subst hut
      simp only [Function.update_self] at hu
      obtain hnone | hp := foundEmpty_step hprog hu
      · exact hnone
      · obtain hnone | ⟨shard, hinsert⟩ := loaded_step hprog (hc.slot u hp)
        · exact hnone
        · -- the insert is the one step that fills the slot, and it ends the cold path
          rw [hinsert] at hprog
          cases hprog
          cases hu
    · simp only [Function.update_of_ne hut] at hu
      obtain hnone | ⟨shard, hinsert⟩ := loaded_step hprog (hc.slot u hu)
      · exact hnone
      · have ht : (c.thread t).locked = true := by rw [hinsert]; rfl
        exact absurd (hc.lock.exclusive (Position.locked_of_foundEmpty hu) ht) hut
  · obtain ⟨hnone, hwrites⟩ := hc.disabled hdisabled
    obtain ⟨hnone', hwrites'⟩ := disabled_step hprog hdisabled (hwrites t) hnone
    refine ⟨hnone', fun u => ?_⟩
    by_cases hut : u = t
    · subst hut
      simpa using hwrites'
    · simpa [Function.update_of_ne hut] using hwrites u

theorem sound_of_runs {directory : Option Directory}
    (h : Runs (program storageEnabled) (fun _ _ _ => True) (started storageEnabled directory)
      acts c) : Sound storageEnabled c :=
  h.invariant (fun _ _ _ _ _ hstep hsound => sound_step hstep hsound) (sound_started directory)

/-- No step opens a cold shard, and none makes the write that a warm hit captured. -/
def Quiet (c : Config Shared Position) (t : Nat) (_ : Choice) : Prop :=
  (c.thread t).makesDirectory = false

instance (c : Config Shared Position) (t : Nat) (a : Choice) : Decidable (Quiet c t a) :=
  inferInstanceAs (Decidable (_ = _))

/-- The shard is gone, and no thread is about to bring it back. -/
structure Gone (c : Config Shared Position) : Prop where
  directory : c.shared.directory = none
  loaded : c.shared.loaded = none
  threads : ∀ t, (c.thread t).loadingShard = false

theorem gone_step (hquiet : Quiet c t a) (hstep : c.step (program storageEnabled) t a = some d)
    (hc : Gone c) : Gone d := by
  obtain ⟨shared, position, hprog, rfl⟩ := Config.step_eq_some hstep
  have ht := hc.threads t
  refine ⟨?_, ?_, fun u => ?_⟩
  · obtain hnone | hmakes | hloading := directory_step hprog hc.directory
    · exact hnone
    · rw [hquiet] at hmakes
      cases hmakes
    · rw [ht] at hloading
      cases hloading
  · obtain hnone | ⟨shard, hinsert⟩ := loaded_step hprog hc.loaded
    · exact hnone
    · rw [hinsert] at ht
      cases ht
  · by_cases hut : u = t
    · subst hut
      simp only [Function.update_self]
      by_contra hloading
      obtain hp | hp := loadingShard_step hprog hc.loaded (Bool.not_eq_false _ ▸ hloading)
      · rw [ht] at hp
        cases hp
      · rw [hquiet] at hp
        cases hp
    · simpa [Function.update_of_ne hut] using hc.threads u

/-- A removal that reports `removed` leaves the shard gone. -/
theorem gone_of_removed (hc : Sound storageEnabled c)
    (hstep : c.step (program storageEnabled) t a = some d) {result : CacheOperationResult}
    (hreports : d.thread t = .removeRelease result) (hremoved : result.removed = true) :
    Gone d ∧ ∀ u, (d.thread u).coldPath = false := by
  have hd := sound_step hstep hc
  have hlocked : (d.thread t).locked = true := by rw [hreports]; rfl
  have hempty : (d.thread t).foundEmpty = true := by rw [hreports]; rfl
  obtain ⟨shared, position, hprog, rfl⟩ := Config.step_eq_some hstep
  have hposition : position = .removeRelease result := by simpa using hreports
  refine ⟨⟨?_, hd.slot t hempty, fun u => ?_⟩, fun u => ?_⟩
  · obtain hnone | hdisabled := removed_step hprog hposition hremoved
    · exact hnone
    · exact (hd.disabled hdisabled).1
  · by_contra hloading
    rw [Bool.not_eq_false] at hloading
    have hut := hd.lock.exclusive (Position.locked_of_loadingShard hloading) hlocked
    rw [hut, hreports] at hloading
    cases hloading
  · by_contra hcold
    rw [Bool.not_eq_false] at hcold
    have hut := hd.lock.exclusive (Position.locked_of_coldPath hcold) hlocked
    rw [hut, hreports] at hcold
    cases hcold

/-- At most one cache of the shard is registered, at most one open of its database
is in progress, and after a removal the directory comes back only with the cold
open of a call that took the load lock after it. -/
theorem shard_removal_and_use {directory : Option Directory}
    (h : Runs (program storageEnabled) (fun _ _ _ => True) (started storageEnabled directory)
      acts c) :
    (∀ t shard, c.thread t = .coldInsert shard → c.shared.loaded = none) ∧
      (∀ t u, (c.thread t).opening = true → (c.thread u).opening = true → t = u) ∧
      ∀ t a d result later e, c.step (program storageEnabled) t a = some d →
        d.thread t = .removeRelease result → result.removed = true →
        Runs (program storageEnabled) Quiet d later e →
        e.shared.directory = none ∧
          ∀ u now, e.thread u = .coldOpening now →
            ∃ first b rest m start, later = first ++ (u, b) :: rest ∧
              Runs (program storageEnabled) Quiet d first m ∧
              m.thread u = .coldAcquire start ∧ m.shared.loadLock = none := by
  have hsound := sound_of_runs h
  refine ⟨fun t shard ht => ?_, fun t u ht hu => ?_, ?_⟩
  · exact hsound.slot t (by rw [ht]; rfl)
  · exact hsound.lock.exclusive (Position.locked_of_opening ht) (Position.locked_of_opening hu)
  · intro t a d result later e hstep hreports hremoved hlater
    obtain ⟨hgone, hcold⟩ := gone_of_removed hsound hstep hreports hremoved
    have hlast := hlater.invariant (fun _ _ _ _ hquiet hone => gone_step hquiet hone) hgone
    refine ⟨hlast.directory, fun u now hu => ?_⟩
    obtain ⟨first, b, rest, m, n, heq, hfirst, hone, hm, hn⟩ :=
      hlater.exists_entering (P := fun p => p.coldPath = true) (u := u)
        (by rw [hcold u]; exact Bool.false_ne_true) (by rw [hu]; rfl)
    obtain ⟨_, position, hprog, rfl⟩ := Config.step_eq_some hone
    obtain ⟨start, hstart, hfree⟩ :=
      coldPath_step hprog (Bool.eq_false_iff.mpr hm) (by simpa using hn)
    exact ⟨first, b, rest, m, start, heq, hfirst, hstart, hfree⟩

end

/-! ## A cold call beside a removal -/

/-- A cold call has found the slot empty, and a removal is about to delete the
directory that an earlier session has left. -/
def raceSchedule : List (Nat × Choice) :=
  [(1, { call := .cacheForRoot }), (1, {}), (2, { call := .removeShardById }), (2, {}), (2, {}),
    (2, {}), (2, {})]

def raceStarted : Config Shared Position := started true (some ⟨true, some 0⟩)

def raced : Config Shared Position :=
  (raceStarted.run (program true) (fun _ _ _ => True) raceSchedule).getD raceStarted

def reported : Config Shared Position := (raced.step (program true) 2 {}).getD raced

theorem runs_raced :
    Runs (program true) (fun _ _ _ => True) raceStarted raceSchedule raced :=
  .of_run rfl

theorem step_raced : raced.step (program true) 2 {} = some reported := rfl

theorem reported_removes : reported.thread 2 = .removeRelease ⟨true, none⟩ := rfl

/-- The cold call that has waited for the load lock opens the shard after the
removal has reported, and no call has started since. -/
theorem waiting_call_restores_directory :
    ∃ before c d later e,
      Runs (program true) (fun _ _ _ => True) (started true (some ⟨true, some 0⟩)) before c ∧
        c.step (program true) 2 {} = some d ∧ d.thread 2 = .removeRelease ⟨true, none⟩ ∧
        Runs (program true) (fun c u _ => c.thread u ≠ .idle) d later e ∧
        e.shared.directory ≠ none := by
  have hrun : (reported.run (program true) (fun c u _ => c.thread u ≠ .idle)
      [(2, {}), (1, {}), (1, {}), (1, {})]).any (fun e => e.shared.directory.isSome) = true := by
    decide
  obtain ⟨e, he, htest⟩ := Runs.of_run_any hrun
  refine ⟨raceSchedule, raced, reported, _, e, runs_raced, step_raced, reported_removes, he, ?_⟩
  exact Option.isSome_iff_ne_none.mp htest

/-- Up to the cold open that comes after the removal. -/
theorem shard_removal_and_use_raced :
    ∃ later e, Runs (program true) Quiet reported later e ∧ e.thread 1 = .coldOpening 0 ∧
      e.shared.directory = none := by
  have hrun : (reported.run (program true) Quiet [(2, {}), (1, {}), (1, {})]).any
      (fun e => decide (e.thread 1 = .coldOpening 0)) = true := by
    decide
  obtain ⟨e, he, htest⟩ := Runs.of_run_any hrun
  refine ⟨_, e, he, of_decide_eq_true htest, ?_⟩
  exact ((shard_removal_and_use runs_raced).2.2 2 {} reported _ _ e step_raced reported_removes
    rfl he).1

end ImportLens.Cache.Shards
