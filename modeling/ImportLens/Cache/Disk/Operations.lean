import ImportLens.Cache.Disk.Bookkeeping

/-!
# Sequences of shard operations

The operations that write a shard, as one type, with what each leaves committed
under a choice of failures.  Over any sequence of them the bookkeeping stays
exact, provided that the failures are ones the code reports: an error that is
discarded (a summary field that reads as 0, a table that `clear` leaves alone)
is the subject of the next module.
-/

namespace ImportLens.Cache

open ImportLens.Support

inductive ShardOp
  | writePendingInserts (batch : Keyed Key Bytes)
  | remove (key : Key)
  | removeKeys (keys : List Key)
  | invalidatePackages (packageNames : List String)
  | purgeOrphanEntries (pathIsDefinitelyGone : String → Bool) (currentAnalyzerVersion : String)
  | clear
  | rebuildSummary
  | healSummaryIfInconsistent

namespace ShardOp

section

variable (identityFromSlice : Bytes → Option CacheIdentity)

def committed (faults : Faults) (shard : Shard) : ShardOp → Shard
  | writePendingInserts batch =>
      match Cache.writePendingInserts faults shard batch with
      | .ok written => written
      | .error _ => shard
  | remove key => removeFromTable faults shard key
  | removeKeys keys => (removeKeysFromTable faults shard keys).1
  | invalidatePackages packageNames =>
      if packageNames.isEmpty then shard
      else
        invalidateInTable faults shard (cacheKeyMatchesAnyPackage identityFromSlice packageNames)
  | purgeOrphanEntries pathIsDefinitelyGone currentAnalyzerVersion =>
      (purgeFromTable faults shard
        (cacheKeyIsOrphan identityFromSlice pathIsDefinitelyGone currentAnalyzerVersion)).1
  | clear => clearTables faults shard
  | rebuildSummary =>
      if fails faults .beginWrite then shard
      else
        match rebuildSummaryInTxn faults shard with
        | .ok rebuilt => if fails faults .commit then shard else rebuilt
        | .error _ => shard
  | healSummaryIfInconsistent => Cache.healSummaryIfInconsistent faults shard

end

/-- The failures of an operation are among those it reports: `clear` discards
every error, the others only that of a summary field they read. -/
def Reported (faults : Faults) : ShardOp → Prop
  | clear => ∀ site, fails faults site = false
  | _ => SummaryReadable faults

end ShardOp

/-! ## One operation -/

theorem removalTxn_eq (faults : Faults) (shard : Shard) (keys : List Key) :
    removalTxn faults shard keys = (shard, none) ∨
      ∃ removed freed, maintainRemovals faults shard keys = .ok (removed, freed) ∧
        removalTxn faults shard keys = (removed, some freed) := by
  unfold removalTxn
  cases fails faults .beginWrite with
  | true => exact Or.inl rfl
  | false =>
      cases hmaintain : maintainRemovals faults shard keys with
      | error e => exact Or.inl rfl
      | ok outcome =>
          obtain ⟨removed, freed⟩ := outcome
          cases hcommit : fails faults .commit with
          | true => exact Or.inl rfl
          | false => exact Or.inr ⟨removed, freed, rfl, rfl⟩

theorem removalTxn_lookup_notMem (faults : Faults) (shard : Shard) {keys : List Key} {k : Key}
    (hk : k ∉ keys) : (removalTxn faults shard keys).1.cache.lookup k = shard.cache.lookup k := by
  rcases removalTxn_eq faults shard keys with heq | ⟨removed, freed, hok, heq⟩
  · rw [heq]
  · have hcache : removed.cache = shard.cache.eraseAll keys := by
      obtain ⟨_, ⟨_, _, rfl⟩ | ⟨_, rfl⟩⟩ := maintainRemovals_eq_ok hok
      · exact removeAll_cache _ _
      · exact removeAll_cache _ _
    rw [heq, hcache, Keyed.lookup_eraseAll, if_neg hk]

theorem removalTxn_consistent {faults : Faults} (hread : SummaryReadable faults) {shard : Shard}
    (h : Consistent shard) (keys : List Key) : Consistent (removalTxn faults shard keys).1 := by
  rcases removalTxn_eq faults shard keys with heq | ⟨removed, freed, hok, heq⟩
  · rw [heq]
    exact h
  · rw [heq]
    exact maintainRemovals_consistent hread h hok

theorem writePendingInserts_eq_ok {faults : Faults} {shard written : Shard}
    {batch : Keyed Key Bytes} (h : writePendingInserts faults shard batch = .ok written) :
    insertTxn faults shard batch.rows = .ok written := by
  simp only [writePendingInserts, bind_eq_ok] at h
  obtain ⟨_, _, written', htxn, _, _, hret⟩ := h
  cases hret
  exact htxn

/-- The drift branch of `write_summary` is not taken from a consistent shard,
for a batch of inserts. -/
theorem insertRows_nonneg {faults : Faults} (hread : SummaryReadable faults) {shard : Shard}
    (h : Consistent shard) {batch : List (Key × Bytes)} {ledger : Ledger}
    (hok : insertRows faults 0 batch (Ledger.start faults shard) = .ok ledger) :
    0 ≤ ledger.totalBytes ∧ 0 ≤ ledger.entryCount := by
  obtain ⟨htotal, hcount, _⟩ := insertAll_sound hread h batch
  rw [insertRows_eq_ok hok, htotal, hcount]
  exact ⟨Int.natCast_nonneg _, Int.natCast_nonneg _⟩

/-- Nor for a list of removals, with duplicates and absent keys. -/
theorem removeRows_nonneg {faults : Faults} (hread : SummaryReadable faults) {shard : Shard}
    (h : Consistent shard) {keys : List Key} {acc : Removal}
    (hok : removeRows faults 0 keys (Removal.start faults shard) = .ok acc) :
    0 ≤ acc.totalBytes ∧ 0 ≤ acc.entryCount := by
  obtain ⟨htotal, hcount, _⟩ := removeAll_sound hread h keys
  rw [removeRows_eq_ok hok, htotal, hcount]
  exact ⟨Int.natCast_nonneg _, Int.natCast_nonneg _⟩

theorem committed_consistent (identityFromSlice : Bytes → Option CacheIdentity) {faults : Faults}
    {shard : Shard} (h : Consistent shard) {op : ShardOp} (hop : op.Reported faults) :
    Consistent (op.committed identityFromSlice faults shard) := by
  cases op with
  | writePendingInserts batch =>
      simp only [ShardOp.committed]
      split
      · rename_i written hok
        exact insertTxn_consistent hop h (writePendingInserts_eq_ok hok)
      · exact h
  | remove key => exact removalTxn_consistent hop h _
  | removeKeys keys =>
      simp only [ShardOp.committed, removeKeysFromTable]
      split
      · exact h
      · exact removalTxn_consistent hop h keys
  | invalidatePackages packageNames =>
      simp only [ShardOp.committed]
      split
      · exact h
      · exact removalTxn_consistent hop h _
  | purgeOrphanEntries gone version =>
      simp only [ShardOp.committed, purgeFromTable]
      generalize (if fails faults .beginRead = true then []
        else scanKeys faults shard (cacheKeyIsOrphan identityFromSlice gone version)) = keys
      split
      · exact h
      · have hremoved := removalTxn_consistent hop h keys
        split <;> simp_all
  | clear =>
      have hclear : ShardOp.clear.committed identityFromSlice faults shard = Shard.empty := by
        simp [ShardOp.committed, clearTables, hop _, Shard.empty]
      rw [hclear]
      exact consistent_empty
  | rebuildSummary =>
      simp only [ShardOp.committed]
      split
      · exact h
      · split
        · rename_i rebuilt hok
          split
          · exact h
          · rw [rebuildSummaryInTxn_eq_ok hok]
            exact consistent_recounted _
        · exact h
  | healSummaryIfInconsistent =>
      simp only [ShardOp.committed, healSummaryIfInconsistent]
      split
      · split
        · exact h
        · split
          · rename_i rebuilt hok
            split
            · exact h
            · rw [rebuildSummaryInTxn_eq_ok hok]
              exact consistent_recounted _
          · exact h
      · exact h

/-! ## Sequences -/

/-- An operation with the failures it meets. -/
structure ShardStep where
  op : ShardOp
  faults : Faults

def runSteps (identityFromSlice : Bytes → Option CacheIdentity) (shard : Shard)
    (steps : List ShardStep) : Shard :=
  steps.foldl (fun s step => step.op.committed identityFromSlice step.faults s) shard

theorem runSteps_consistent (identityFromSlice : Bytes → Option CacheIdentity) {shard : Shard}
    (h : Consistent shard) {steps : List ShardStep}
    (hsteps : ∀ step ∈ steps, step.op.Reported step.faults) :
    Consistent (runSteps identityFromSlice shard steps) := by
  induction steps generalizing shard with
  | nil => exact h
  | cons step rest ih =>
      apply ih
      · exact committed_consistent identityFromSlice h (hsteps step (by simp))
      · intro later hlater
        exact hsteps later (by simp [hlater])

/-- Every shard a sequence of operations leads to from a consistent one has
exact bookkeeping, the next removal frees what the byte total loses, and
neither loop of the next operation ends with a negative total. -/
theorem bookkeeping_exact_after_runs (identityFromSlice : Bytes → Option CacheIdentity)
    (shard : Shard) (h : Consistent shard) (steps : List ShardStep)
    (hsteps : ∀ step ∈ steps, step.op.Reported step.faults) :
    let final := runSteps identityFromSlice shard steps
    Consistent final ∧
      (∀ faults keys removed freed, SummaryReadable faults →
        maintainRemovals faults final keys = .ok (removed, freed) →
          removed.summary.totalBytes + freed = final.summary.totalBytes) ∧
      (∀ faults batch ledger, SummaryReadable faults →
        insertRows faults 0 batch (Ledger.start faults final) = .ok ledger →
          0 ≤ ledger.totalBytes ∧ 0 ≤ ledger.entryCount) ∧
      (∀ faults keys acc, SummaryReadable faults →
        removeRows faults 0 keys (Removal.start faults final) = .ok acc →
          0 ≤ acc.totalBytes ∧ 0 ≤ acc.entryCount) := by
  have hfinal := runSteps_consistent identityFromSlice h hsteps
  refine ⟨hfinal, ?_, ?_, ?_⟩
  · intro faults keys removed freed hread hok
    exact maintainRemovals_freed hread hfinal hok
  · intro faults batch ledger hread hok
    exact insertRows_nonneg hread hfinal hok
  · intro faults keys acc hread hok
    exact removeRows_nonneg hread hfinal hok

/-- A replace by a shorter value, then a removal with a duplicate and an absent
key, from the empty shard. -/
theorem bookkeeping_exact_after_replace_and_remove :
    Consistent (runSteps (fun _ => none) Shard.empty
      [⟨.writePendingInserts ((∅ : Keyed Key Bytes).insert "react" [7, 0, 0, 0, 0, 0, 0, 0, 1, 2]),
          noFaults⟩,
        ⟨.writePendingInserts
          (((∅ : Keyed Key Bytes).insert "react" [9, 0, 0, 0, 0, 0, 0, 0]).insert
          "vue" [3]), noFaults⟩,
        ⟨.removeKeys ["react", "react", "lodash"], noFaults⟩,
        ⟨.clear, noFaults⟩]) :=
  (bookkeeping_exact_after_runs (fun _ => none) Shard.empty consistent_empty _ (by
    intro step hstep
    simp only [List.mem_cons, List.not_mem_nil, or_false] at hstep
    rcases hstep with rfl | rfl | rfl | rfl
    · exact summaryReadable_noFaults
    · exact summaryReadable_noFaults
    · exact summaryReadable_noFaults
    · exact fun _ => rfl)).1

end ImportLens.Cache
