import ImportLens.Cache.Key
import ImportLens.Support.Keyed
import ImportLens.Support.Rounds
import Mathlib.Data.List.MinMax
import Mathlib.Data.List.Count

/-!
# The byte budget of the cache

The coordinator evicts across the shards until the bytes it has summed are at the
low-water mark: it picks the shard with the globally oldest entry, evicts a batch
of its oldest entries and reads its rollup again.  A shard that names no key or
frees no byte is retired for the pass.

A shard is what it answers.  The answers may depend on a world that every call
may change, so nothing ties one answer to another here.
-/

namespace ImportLens.Cache.Budget

open ImportLens.Support

def evictionFloor : Nat := 128

def evictionBatch : Nat := 128

structure ShardRollup where
  totalBytes : Nat
  oldestSeq : Nat
  entryCount : Nat
  deriving DecidableEq, Repr

def ShardRollup.empty : ShardRollup := ⟨0, u64Max, 0⟩

structure EvictableShard (ω : Type) where
  shardId : String
  rollup : ω → ShardRollup × ω
  /-- Up to so many least recent keys, without so many of the newest. -/
  lowestSeqKeys : Nat → Nat → ω → List String × ω
  /-- Delete keys; the bytes freed. -/
  evictKeys : List String → ω → Nat × ω

structure EvictionOutcome where
  evictedBytes : Nat := 0
  evictedKeys : Nat := 0
  stillOverBudget : Bool := false
  deriving DecidableEq, Repr

structure BudgetCoordinator where
  budgetBytes : Nat

/-- One pass over the shards, at the head of its loop. -/
structure Pass (ω : Type) where
  rollups : Keyed String ShardRollup
  total : Nat
  exhausted : List String
  evictedBytes : Nat
  evictedKeys : Nat
  world : ω

section

variable {ω : Type}

def firstOfEachId : List String → List (EvictableShard ω) → List (EvictableShard ω)
  | _, [] => []
  | seen, shard :: rest =>
      if shard.shardId ∈ seen then firstOfEachId seen rest
      else shard :: firstOfEachId (shard.shardId :: seen) rest

def readRollups : List (EvictableShard ω) → ω → Keyed String ShardRollup × ω
  | [], world => (∅, world)
  | shard :: rest, world =>
      let read := shard.rollup world
      let others := readRollups rest read.2
      (others.1.insert shard.shardId read.1, others.2)

/-- The shard with the globally oldest entry, of those that are not exhausted and
hold entries above their floor. -/
def victim (shards : List (EvictableShard ω)) (pass : Pass ω) : Option (EvictableShard ω) :=
  ((shards.filter fun shard => decide (shard.shardId ∉ pass.exhausted)).filter fun shard =>
    (pass.rollups.lookup shard.shardId).any fun rollup =>
      decide (evictionFloor < rollup.entryCount)).argmin fun shard =>
        ((pass.rollups.lookup shard.shardId).map ShardRollup.oldestSeq).getD u64Max

def evictBatch (shard : EvictableShard ω) (pass : Pass ω) : Pass ω :=
  let selected := shard.lowestSeqKeys evictionBatch evictionFloor pass.world
  if selected.1 = [] then
    { pass with exhausted := shard.shardId :: pass.exhausted, world := selected.2 }
  else
    let freed := shard.evictKeys selected.1 selected.2
    let after := shard.rollup freed.2
    { rollups := pass.rollups.insert shard.shardId after.1
      total := pass.total - freed.1
      -- nothing freed is a failed write, which would be tried again for ever
      exhausted := if freed.1 = 0 then shard.shardId :: pass.exhausted else pass.exhausted
      evictedBytes := pass.evictedBytes + freed.1
      evictedKeys := pass.evictedKeys + selected.1.length
      world := after.2 }

def evictRound (lowWater : Nat) (shards : List (EvictableShard ω)) (pass : Pass ω) :
    Option (Pass ω) :=
  if lowWater < pass.total then (victim shards pass).map fun shard => evictBatch shard pass
  else none

def evictTo (budgetBytes lowWater fuel : Nat) (shards : List (EvictableShard ω)) (total : Nat)
    (read : Keyed String ShardRollup × ω) : Option (EvictionOutcome × ω) :=
  (rounds (evictRound lowWater shards) fuel ⟨read.1, total, [], 0, 0, read.2⟩).map fun pass =>
    (⟨pass.evictedBytes, pass.evictedKeys, decide (budgetBytes < pass.total)⟩, pass.world)

/-- `evict`; the share of the budget it evicts down to is a number of the budget. -/
def BudgetCoordinator.evict (coordinator : BudgetCoordinator) (lowWaterOf : Nat → Nat)
    (fuel : Nat) (shards : List (EvictableShard ω)) (targetBytes : Option Nat) (world : ω) :
    Option (EvictionOutcome × ω) :=
  if coordinator.budgetBytes = 0 then some ({}, world)
  else
    let shards := firstOfEachId [] shards
    let read := readRollups shards world
    let total := read.1.total ShardRollup.totalBytes
    match targetBytes with
    | some target => evictTo coordinator.budgetBytes target fuel shards total read
    | none =>
        if total ≤ coordinator.budgetBytes then some ({}, read.2)
        else
          evictTo coordinator.budgetBytes (lowWaterOf coordinator.budgetBytes) fuel shards total
            read

end

/-! ## Rounds -/

section

variable {ω : Type} {shards : List (EvictableShard ω)} {shard : EvictableShard ω}
variable {pass next : Pass ω} {lowWater : Nat}

theorem mem_firstOfEachId {seen : List String} (h : shard ∈ firstOfEachId seen shards) :
    shard ∈ shards := by
  induction shards generalizing seen with
  | nil => exact h
  | cons first rest ih =>
      unfold firstOfEachId at h
      split at h
      · exact List.mem_cons_of_mem _ (ih h)
      · rcases List.mem_cons.mp h with heq | hrest
        · rw [heq]
          exact List.mem_cons_self
        · exact List.mem_cons_of_mem _ (ih hrest)

theorem victim_spec (h : victim shards pass = some shard) :
    shard ∈ shards ∧ shard.shardId ∉ pass.exhausted ∧
      ∃ rollup, pass.rollups.lookup shard.shardId = some rollup ∧
        evictionFloor < rollup.entryCount := by
  have hmem := List.argmin_mem h
  rw [List.mem_filter, List.mem_filter, decide_eq_true_eq, Option.any_eq_true] at hmem
  obtain ⟨⟨hshard, hlive⟩, rollup, hrollup, hcount⟩ := hmem
  exact ⟨hshard, hlive, rollup, hrollup, of_decide_eq_true hcount⟩

theorem victim_none (h : victim shards pass = none) (hshard : shard ∈ shards)
    (hlive : shard.shardId ∉ pass.exhausted) {rollup : ShardRollup}
    (hrollup : pass.rollups.lookup shard.shardId = some rollup) :
    rollup.entryCount ≤ evictionFloor := by
  rw [victim, List.argmin_eq_none] at h
  have hout : shard ∉ (shards.filter fun shard => decide (shard.shardId ∉ pass.exhausted)).filter
      fun shard => (pass.rollups.lookup shard.shardId).any fun rollup =>
        decide (evictionFloor < rollup.entryCount) := by
    rw [h]
    exact List.not_mem_nil
  rw [List.mem_filter, List.mem_filter, hrollup] at hout
  by_contra hmore
  exact hout ⟨⟨hshard, decide_eq_true hlive⟩, decide_eq_true (Nat.lt_of_not_le hmore)⟩

theorem evictRound_eq_some (h : evictRound lowWater shards pass = some next) :
    lowWater < pass.total ∧ ∃ shard, victim shards pass = some shard ∧
      next = evictBatch shard pass := by
  unfold evictRound at h
  split at h
  · rename_i habove
    obtain ⟨shard, hvictim, heq⟩ := Option.map_eq_some_iff.mp h
    exact ⟨habove, shard, hvictim, heq.symm⟩
  · cases h

theorem evictRound_eq_none (h : evictRound lowWater shards pass = none) :
    pass.total ≤ lowWater ∨ victim shards pass = none := by
  unfold evictRound at h
  split at h
  · exact .inr (Option.map_eq_none_iff.mp h)
  · omega

/-- A batch frees bytes, or it retires the shard. -/
theorem evictBatch_progress (shard : EvictableShard ω) (pass : Pass ω) :
    (∃ freed, 0 < freed ∧ (evictBatch shard pass).total = pass.total - freed ∧
      (evictBatch shard pass).exhausted = pass.exhausted) ∨
    (evictBatch shard pass).total = pass.total ∧
      (evictBatch shard pass).exhausted = shard.shardId :: pass.exhausted := by
  unfold evictBatch
  dsimp only
  split
  · exact .inr ⟨rfl, rfl⟩
  · split
    · rename_i hzero
      exact .inr ⟨by simp only [hzero, Nat.sub_zero], rfl⟩
    · rename_i hfreed
      exact .inl ⟨_, Nat.pos_of_ne_zero hfreed, rfl, rfl⟩

/-- A round decreases the total, or it retires a shard for good. -/
theorem evictRound_progress (h : evictRound lowWater shards pass = some next) :
    (next.total < pass.total ∧ next.exhausted = pass.exhausted) ∨
    (next.total = pass.total ∧ ∃ shard ∈ shards, shard.shardId ∉ pass.exhausted ∧
      next.exhausted = shard.shardId :: pass.exhausted) := by
  obtain ⟨habove, shard, hvictim, rfl⟩ := evictRound_eq_some h
  obtain ⟨hshard, hlive, _⟩ := victim_spec hvictim
  rcases evictBatch_progress shard pass with ⟨freed, hpos, htotal, hsame⟩ | ⟨htotal, hretired⟩
  · exact .inl ⟨by omega, hsame⟩
  · exact .inr ⟨htotal, shard, hshard, hlive, hretired⟩

/-! ## Termination -/

def live (shards : List (EvictableShard ω)) (exhausted : List String) : Nat :=
  shards.countP fun shard => decide (shard.shardId ∉ exhausted)

theorem live_retire (hshard : shard ∈ shards) {exhausted : List String}
    (hlive : shard.shardId ∉ exhausted) :
    live shards (shard.shardId :: exhausted) < live shards exhausted := by
  unfold live
  induction shards with
  | nil => cases hshard
  | cons first rest ih =>
      rw [List.countP_cons, List.countP_cons]
      have hle : rest.countP (fun other => decide (other.shardId ∉ shard.shardId :: exhausted)) ≤
          rest.countP fun other => decide (other.shardId ∉ exhausted) := by
        apply List.countP_mono_left
        intro other _ hother
        rw [decide_eq_true_eq] at hother ⊢
        exact fun hmem => hother (List.mem_cons_of_mem _ hmem)
      rcases List.mem_cons.mp hshard with heq | hrest
      · rw [if_neg (by simp [heq]), if_pos (by simpa [heq] using hlive)]
        omega
      · have hless := ih hrest
        split
        · rename_i hout
          rw [decide_eq_true_eq] at hout
          rw [if_pos (by
            rw [decide_eq_true_eq]
            exact fun hmem => hout (List.mem_cons_of_mem _ hmem))]
          omega
        · omega

def roundsLeft (shards : List (EvictableShard ω)) (pass : Pass ω) : Nat :=
  pass.total + live shards pass.exhausted

theorem roundsLeft_evictRound (h : evictRound lowWater shards pass = some next) :
    roundsLeft shards next < roundsLeft shards pass := by
  unfold roundsLeft
  rcases evictRound_progress h with ⟨hless, hsame⟩ | ⟨hsame, shard, hshard, hlive, hretired⟩
  · rw [hsame]
    omega
  · rw [hsame, hretired]
    have := live_retire hshard hlive
    omega

theorem evictTo_returns (budgetBytes lowWater : Nat) (shards : List (EvictableShard ω))
    (total : Nat) (read : Keyed String ShardRollup × ω) :
    ∃ result, evictTo budgetBytes lowWater (total + shards.length + 1) shards total read =
      some result := by
  have hfuel : roundsLeft shards ⟨read.1, total, [], 0, 0, read.2⟩ < total + shards.length + 1 := by
    have : live shards [] ≤ shards.length := List.countP_le_length
    show total + live shards [] < total + shards.length + 1
    omega
  obtain ⟨pass, hpass⟩ := rounds_return (roundsLeft shards)
    (fun pass next (h : evictRound lowWater shards pass = some next) =>
      roundsLeft_evictRound h) hfuel
  unfold evictTo
  rw [hpass]
  exact ⟨_, rfl⟩

/-- The evictor returns whatever the shards answer: each round decreases the
running total or retires a shard that was not retired. -/
theorem evict_returns (coordinator : BudgetCoordinator) (lowWaterOf : Nat → Nat)
    (shards : List (EvictableShard ω)) (targetBytes : Option Nat) (world : ω) :
    (∃ fuel result, coordinator.evict lowWaterOf fuel shards targetBytes world = some result) ∧
    ∀ lowWater (pass next : Pass ω),
      evictRound lowWater (firstOfEachId [] shards) pass = some next →
        (next.total < pass.total ∧ next.exhausted = pass.exhausted) ∨
        (next.total = pass.total ∧ ∃ shard ∈ shards, shard.shardId ∉ pass.exhausted ∧
          next.exhausted = shard.shardId :: pass.exhausted) := by
  constructor
  · unfold BudgetCoordinator.evict
    split
    · exact ⟨0, _, rfl⟩
    · dsimp only
      cases targetBytes with
      | some target => exact ⟨_, evictTo_returns _ _ _ _ _⟩
      | none =>
          dsimp only
          split
          · exact ⟨0, _, rfl⟩
          · exact ⟨_, evictTo_returns _ _ _ _ _⟩
  · intro lowWater pass next h
    rcases evictRound_progress h with hless | ⟨hsame, shard, hshard, hlive, hretired⟩
    · exact .inl hless
    · exact .inr ⟨hsame, shard, mem_firstOfEachId hshard, hlive, hretired⟩

end

end ImportLens.Cache.Budget
