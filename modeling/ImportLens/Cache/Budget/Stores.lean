import ImportLens.Cache.Budget.Coordinator

/-!
# Eviction from sorted stores

What the coordinator does to shards that answer truthfully: each of them is a
store in recency order, its rollup is the summary of it, and an eviction removes
the keys it is given and nothing else.  `Tied` ties the running total, the rollups
and the counts of the outcome to the stores, and every round keeps it.
-/

namespace ImportLens.Cache.Budget

open ImportLens.Support

structure StoredEntry where
  key : String
  seq : Nat
  bytes : Nat
  deriving DecidableEq, Repr

/-- The entries of a shard in recency order, the least recent one first. -/
structure Store where
  entries : List StoredEntry
  nodup : (entries.map StoredEntry.key).Nodup
  sorted : entries.Pairwise fun a b => a.seq ≤ b.seq

def bytesOf (entries : List StoredEntry) : Nat := (entries.map StoredEntry.bytes).sum

def rollupOf (entries : List StoredEntry) : ShardRollup :=
  if entries = [] then .empty
  else ⟨bytesOf entries, (entries.map StoredEntry.seq).min?.getD u64Max, entries.length⟩

section

variable {ω : Type}

/-- The shards answer as the stores of their ids, and only evictions change them. -/
structure Truthful (shards : List (EvictableShard ω)) (stores : String → ω → Store) : Prop where
  rollup : ∀ shard ∈ shards, ∀ world,
    (shard.rollup world).1 = rollupOf (stores shard.shardId world).entries ∧
    ∀ id, stores id (shard.rollup world).2 = stores id world
  lowestSeqKeys : ∀ shard ∈ shards, ∀ n floor world,
    (shard.lowestSeqKeys n floor world).1 =
      ((stores shard.shardId world).entries.take
        (min n ((stores shard.shardId world).entries.length - floor))).map StoredEntry.key ∧
    ∀ id, stores id (shard.lowestSeqKeys n floor world).2 = stores id world
  evictKeys : ∀ shard ∈ shards, ∀ keys world,
    (shard.evictKeys keys world).1 =
      bytesOf ((stores shard.shardId world).entries.filter fun e => decide (e.key ∈ keys)) ∧
    (stores shard.shardId (shard.evictKeys keys world).2).entries =
      (stores shard.shardId world).entries.filter (fun e => decide (e.key ∉ keys)) ∧
    ∀ id, id ≠ shard.shardId → stores id (shard.evictKeys keys world).2 = stores id world

def sumOver (shards : List (EvictableShard ω)) (f : EvictableShard ω → Nat) : Nat :=
  (shards.map f).sum

def remainingBytes (shards : List (EvictableShard ω)) (stores : String → ω → Store) (world : ω) :
    Nat :=
  sumOver shards fun shard => bytesOf (stores shard.shardId world).entries

def remainingKeys (shards : List (EvictableShard ω)) (stores : String → ω → Store) (world : ω) :
    Nat :=
  sumOver shards fun shard => (stores shard.shardId world).entries.length

end

/-! ## Prefixes of a store -/

section

variable {entries : List StoredEntry} {k : Nat}

theorem bytesOf_take_add_drop (entries : List StoredEntry) (k : Nat) :
    bytesOf (entries.take k) + bytesOf (entries.drop k) = bytesOf entries := by
  unfold bytesOf
  rw [← List.sum_append, ← List.map_append, List.take_append_drop]

theorem totalBytes_rollupOf (entries : List StoredEntry) :
    (rollupOf entries).totalBytes = bytesOf entries := by
  unfold rollupOf
  split
  · rename_i hempty
    rw [hempty]
    rfl
  · rfl

theorem entryCount_rollupOf (entries : List StoredEntry) :
    (rollupOf entries).entryCount = entries.length := by
  unfold rollupOf
  split
  · rename_i hempty
    rw [hempty]
    rfl
  · rfl

theorem mem_take_keys (hnodup : (entries.map StoredEntry.key).Nodup) {e : StoredEntry}
    (he : e ∈ entries.drop k) : e.key ∉ (entries.take k).map StoredEntry.key := by
  intro hkey
  rw [← List.take_append_drop k entries, List.map_append, List.nodup_append] at hnodup
  exact hnodup.2.2 _ hkey _ (List.mem_map_of_mem he) rfl

theorem filter_take_keys (hnodup : (entries.map StoredEntry.key).Nodup) (k : Nat) :
    entries.filter (fun e => decide (e.key ∈ (entries.take k).map StoredEntry.key)) =
      entries.take k := by
  calc entries.filter (fun e => decide (e.key ∈ (entries.take k).map StoredEntry.key))
      = (entries.take k ++ entries.drop k).filter
          (fun e => decide (e.key ∈ (entries.take k).map StoredEntry.key)) := by
        rw [List.take_append_drop]
    _ = entries.take k := by
        rw [List.filter_append, List.filter_eq_self.mpr, List.filter_eq_nil_iff.mpr,
          List.append_nil]
        · intro e he
          rw [decide_eq_true_eq]
          exact mem_take_keys hnodup he
        · intro e he
          exact decide_eq_true (List.mem_map_of_mem he)

theorem filter_drop_keys (hnodup : (entries.map StoredEntry.key).Nodup) (k : Nat) :
    entries.filter (fun e => decide (e.key ∉ (entries.take k).map StoredEntry.key)) =
      entries.drop k := by
  calc entries.filter (fun e => decide (e.key ∉ (entries.take k).map StoredEntry.key))
      = (entries.take k ++ entries.drop k).filter
          (fun e => decide (e.key ∉ (entries.take k).map StoredEntry.key)) := by
        rw [List.take_append_drop]
    _ = entries.drop k := by
        rw [List.filter_append, List.filter_eq_nil_iff.mpr, List.filter_eq_self.mpr,
          List.nil_append]
        · intro e he
          exact decide_eq_true (mem_take_keys hnodup he)
        · intro e he
          rw [decide_eq_true_eq, not_not]
          exact List.mem_map_of_mem he

end

/-! ## Sums over the shards -/

section

variable {ω : Type} {shards : List (EvictableShard ω)} {shard : EvictableShard ω}
variable {f g : EvictableShard ω → Nat} {d : Nat}

theorem sumOver_congr (h : ∀ shard ∈ shards, f shard = g shard) :
    sumOver shards f = sumOver shards g := by
  unfold sumOver
  rw [List.map_congr_left h]

/-- The sum when one shard changes. -/
theorem sumOver_change (hdistinct : (shards.map EvictableShard.shardId).Nodup)
    (hshard : shard ∈ shards) (hchange : f shard = g shard + d)
    (hothers : ∀ other ∈ shards, other.shardId ≠ shard.shardId → f other = g other) :
    sumOver shards f = sumOver shards g + d := by
  induction shards with
  | nil => cases hshard
  | cons first rest ih =>
      rw [List.map_cons, List.nodup_cons] at hdistinct
      have hcons : ∀ h : EvictableShard ω → Nat,
          sumOver (first :: rest) h = h first + sumOver rest h := fun h => List.sum_cons
      rw [hcons, hcons]
      rcases List.mem_cons.mp hshard with heq | hrest
      · have hsame : sumOver rest f = sumOver rest g := by
          apply sumOver_congr
          intro other hother
          apply hothers other (List.mem_cons_of_mem _ hother)
          intro hid
          apply hdistinct.1
          rw [← heq, ← hid]
          exact List.mem_map_of_mem hother
        rw [hsame, ← heq, hchange]
        omega
      · have hid : first.shardId ≠ shard.shardId := by
          intro hid
          apply hdistinct.1
          rw [hid]
          exact List.mem_map_of_mem hrest
        rw [hothers first List.mem_cons_self hid,
          ih hdistinct.2 hrest fun other hother => hothers other (List.mem_cons_of_mem _ hother)]
        omega

theorem firstOfEachId_of_nodup {seen : List String}
    (hdistinct : (shards.map EvictableShard.shardId).Nodup)
    (hseen : ∀ shard ∈ shards, shard.shardId ∉ seen) : firstOfEachId seen shards = shards := by
  induction shards generalizing seen with
  | nil => rfl
  | cons first rest ih =>
      rw [List.map_cons, List.nodup_cons] at hdistinct
      unfold firstOfEachId
      rw [if_neg (hseen first List.mem_cons_self), ih hdistinct.2]
      intro shard hshard hmem
      rcases List.mem_cons.mp hmem with heq | hin
      · apply hdistinct.1
        rw [← heq]
        exact List.mem_map_of_mem hshard
      · exact hseen shard (List.mem_cons_of_mem _ hshard) hin

end

/-! ## The pass -/

section

variable {ω : Type} {shards : List (EvictableShard ω)} {shard : EvictableShard ω}
variable {stores : String → ω → Store} {world : ω} {pass next : Pass ω} {lowWater : Nat}

theorem Truthful.tail {first : EvictableShard ω} (h : Truthful (first :: shards) stores) :
    Truthful shards stores where
  rollup shard hshard := h.rollup shard (List.mem_cons_of_mem _ hshard)
  lowestSeqKeys shard hshard := h.lowestSeqKeys shard (List.mem_cons_of_mem _ hshard)
  evictKeys shard hshard := h.evictKeys shard (List.mem_cons_of_mem _ hshard)

/-- The rollups that are read are those of the stores. -/
theorem readRollups_spec (h : Truthful shards stores)
    (hdistinct : (shards.map EvictableShard.shardId).Nodup) (world : ω) :
    (∀ id, stores id (readRollups shards world).2 = stores id world) ∧
    (∀ shard ∈ shards, (readRollups shards world).1.lookup shard.shardId =
      some (rollupOf (stores shard.shardId world).entries)) ∧
    (∀ id, id ∉ shards.map EvictableShard.shardId →
      (readRollups shards world).1.lookup id = none) ∧
    (readRollups shards world).1.total ShardRollup.totalBytes =
      remainingBytes shards stores world := by
  induction shards generalizing world with
  | nil => exact ⟨fun _ => rfl, by simp, fun _ _ => rfl, rfl⟩
  | cons first rest ih =>
      rw [List.map_cons, List.nodup_cons] at hdistinct
      obtain ⟨hrollup, hsame⟩ := h.rollup first List.mem_cons_self world
      obtain ⟨hworld, hlookup, hnone, htotal⟩ := ih h.tail hdistinct.2 (first.rollup world).2
      unfold readRollups
      dsimp only
      refine ⟨fun id => (hworld id).trans (hsame id), ?_, ?_, ?_⟩
      · intro shard hshard
        rw [Keyed.lookup_insert_eq]
        rcases List.mem_cons.mp hshard with heq | hrest
        · rw [heq, if_pos rfl, hrollup]
        · have hne : first.shardId ≠ shard.shardId := by
            intro hid
            apply hdistinct.1
            rw [hid]
            exact List.mem_map_of_mem hrest
          rw [if_neg hne.symm, hlookup shard hrest, hsame]
      · intro id hid
        rw [List.map_cons, List.mem_cons, not_or] at hid
        rw [Keyed.lookup_insert_eq, if_neg hid.1]
        exact hnone id hid.2
      · have hinsert := Keyed.total_insert ShardRollup.totalBytes
          (readRollups rest (first.rollup world).2).1 first.shardId (first.rollup world).1
        rw [hnone _ hdistinct.1, htotal, hrollup, totalBytes_rollupOf] at hinsert
        have hrest : remainingBytes rest stores (first.rollup world).2 =
            remainingBytes rest stores world :=
          sumOver_congr fun shard _ => by rw [hsame]
        have hcons : remainingBytes (first :: rest) stores world =
            bytesOf (stores first.shardId world).entries + remainingBytes rest stores world :=
          List.sum_cons
        rw [hrest] at hinsert
        rw [hcons, hrollup]
        simp only [Option.map_none, Option.getD_none] at hinsert
        omega

/-- The pass at the head of the loop and the stores it began with. -/
structure Tied (shards : List (EvictableShard ω)) (stores : String → ω → Store) (world : ω)
    (pass : Pass ω) : Prop where
  rollups : ∀ shard ∈ shards, pass.rollups.lookup shard.shardId =
    some (rollupOf (stores shard.shardId pass.world).entries)
  total : pass.total = remainingBytes shards stores pass.world
  newest : ∀ shard ∈ shards, ∃ k,
    (stores shard.shardId pass.world).entries = (stores shard.shardId world).entries.drop k ∧
    min (stores shard.shardId world).entries.length evictionFloor ≤
      (stores shard.shardId pass.world).entries.length
  bytes : pass.evictedBytes + remainingBytes shards stores pass.world =
    remainingBytes shards stores world
  keys : pass.evictedKeys + remainingKeys shards stores pass.world =
    remainingKeys shards stores world
  /-- Only a batch without bytes retires a shard. -/
  exhausted : (∀ shard ∈ shards, ∀ e ∈ (stores shard.shardId world).entries, 0 < e.bytes) →
    pass.exhausted = []

/-- A batch of `k` entries of a shard above its floor. -/
structure Batch (stores : String → ω → Store) (shard : EvictableShard ω) (pass next : Pass ω)
    (k : Nat) : Prop where
  pos : 0 < k
  le : k + evictionFloor ≤ (stores shard.shardId pass.world).entries.length
  entries : (stores shard.shardId next.world).entries =
    (stores shard.shardId pass.world).entries.drop k
  others : ∀ id, id ≠ shard.shardId → stores id next.world = stores id pass.world
  rollups : next.rollups = pass.rollups.insert shard.shardId
    (rollupOf (stores shard.shardId next.world).entries)
  total : next.total = pass.total - bytesOf ((stores shard.shardId pass.world).entries.take k)
  bytes : next.evictedBytes =
    pass.evictedBytes + bytesOf ((stores shard.shardId pass.world).entries.take k)
  keys : next.evictedKeys = pass.evictedKeys + k
  exhausted : 0 < bytesOf ((stores shard.shardId pass.world).entries.take k) →
    next.exhausted = pass.exhausted

theorem batch_evictBatch (h : Truthful shards stores) (hshard : shard ∈ shards)
    (habove : evictionFloor < (stores shard.shardId pass.world).entries.length) :
    ∃ k, Batch stores shard pass (evictBatch shard pass) k := by
  obtain ⟨hselected, hkept⟩ :=
    h.lowestSeqKeys shard hshard evictionBatch evictionFloor pass.world
  generalize hbatch : min evictionBatch
    ((stores shard.shardId pass.world).entries.length - evictionFloor) = k at hselected
  have hpos : 0 < k := by
    have : 0 < evictionBatch := by decide
    omega
  have hle : k + evictionFloor ≤ (stores shard.shardId pass.world).entries.length := by omega
  have hkeys : (shard.lowestSeqKeys evictionBatch evictionFloor pass.world).1 ≠ [] := by
    intro hempty
    have hlength := congrArg List.length (hselected.symm.trans hempty)
    rw [List.length_map, List.length_take, List.length_nil] at hlength
    omega
  unfold evictBatch
  dsimp only
  rw [if_neg hkeys]
  generalize shard.lowestSeqKeys evictionBatch evictionFloor pass.world = selected
    at hselected hkept ⊢
  obtain ⟨hfreed, hleft, hothers⟩ := h.evictKeys shard hshard selected.1 selected.2
  have hlength : selected.1.length = k := by
    rw [hselected, List.length_map, List.length_take]
    omega
  generalize shard.evictKeys selected.1 selected.2 = freed at hfreed hleft hothers ⊢
  rw [hselected, hkept, filter_take_keys (stores _ _).nodup] at hfreed
  rw [hkept, hselected, filter_drop_keys (stores _ _).nodup] at hleft
  obtain ⟨hrollup, hsame⟩ := h.rollup shard hshard freed.2
  refine ⟨k, hpos, hle, ?_, ?_, ?_, ?_, ?_, ?_, ?_⟩
  · dsimp only
    rw [hsame, hleft]
  · intro id hid
    dsimp only
    rw [hsame, hothers id hid, hkept]
  · dsimp only
    rw [hrollup, hsame]
  · dsimp only
    rw [hfreed]
  · dsimp only
    rw [hfreed]
  · dsimp only
    rw [hlength]
  · intro hfull
    dsimp only
    rw [if_neg (by omega)]

theorem Tied.batch {k : Nat} (h : Tied shards stores world pass)
    (hdistinct : (shards.map EvictableShard.shardId).Nodup) (hshard : shard ∈ shards)
    (hbatch : Batch stores shard pass next k) : Tied shards stores world next := by
  have hsum := bytesOf_take_add_drop (stores shard.shardId pass.world).entries k
  have hbytes : remainingBytes shards stores pass.world =
      remainingBytes shards stores next.world +
        bytesOf ((stores shard.shardId pass.world).entries.take k) := by
    apply sumOver_change hdistinct hshard
    · rw [hbatch.entries]
      omega
    · intro other _ hid
      rw [hbatch.others _ hid]
  have hkeys : remainingKeys shards stores pass.world =
      remainingKeys shards stores next.world + k := by
    have hle := hbatch.le
    apply sumOver_change hdistinct hshard
    · rw [hbatch.entries, List.length_drop]
      omega
    · intro other _ hid
      rw [hbatch.others _ hid]
  constructor
  · intro other hother
    rw [hbatch.rollups, Keyed.lookup_insert_eq]
    split
    · rename_i hid
      rw [hid]
    · rename_i hid
      rw [h.rollups other hother, hbatch.others _ hid]
  · rw [hbatch.total, h.total, hbytes]
    omega
  · intro other hother
    by_cases hid : other.shardId = shard.shardId
    · obtain ⟨dropped, hdropped, _⟩ := h.newest shard hshard
      have hle := hbatch.le
      refine ⟨dropped + k, ?_, ?_⟩
      · rw [hid, hbatch.entries, hdropped, List.drop_drop]
      · rw [hid, hbatch.entries, List.length_drop]
        omega
    · rw [hbatch.others _ hid]
      exact h.newest other hother
  · have := h.bytes
    rw [hbatch.bytes]
    omega
  · have := h.keys
    rw [hbatch.keys]
    omega
  · intro hpositive
    rw [hbatch.exhausted, h.exhausted hpositive]
    -- the batch has an entry, and that entry has bytes
    obtain ⟨dropped, hdropped, _⟩ := h.newest shard hshard
    have hle := hbatch.le
    have hpos := hbatch.pos
    cases hentries : (stores shard.shardId pass.world).entries with
    | nil =>
        rw [hentries, List.length_nil] at hle
        omega
    | cons first rest =>
        have hmem : first ∈ (stores shard.shardId world).entries := by
          apply List.mem_of_mem_drop (i := dropped)
          rw [← hdropped, hentries]
          exact List.mem_cons_self
        have hfirst := hpositive shard hshard first hmem
        obtain ⟨m, rfl⟩ : ∃ m, k = m + 1 := ⟨k - 1, by omega⟩
        rw [List.take_succ_cons]
        show 0 < bytesOf (first :: rest.take m)
        unfold bytesOf
        rw [List.map_cons, List.sum_cons]
        omega

theorem Tied.round (h : Tied shards stores world pass) (htruthful : Truthful shards stores)
    (hdistinct : (shards.map EvictableShard.shardId).Nodup)
    (hround : evictRound lowWater shards pass = some next) : Tied shards stores world next := by
  obtain ⟨_, shard, hvictim, rfl⟩ := evictRound_eq_some hround
  obtain ⟨hshard, _, rollup, hrollup, habove⟩ := victim_spec hvictim
  rw [h.rollups shard hshard, Option.some.injEq] at hrollup
  rw [← hrollup, entryCount_rollupOf] at habove
  obtain ⟨k, hbatch⟩ : ∃ k, Batch stores shard pass (evictBatch shard pass) k :=
    batch_evictBatch htruthful hshard habove
  exact h.batch hdistinct hshard hbatch

/-! ## The outcome -/

/-- What a call of the evictor leaves of the stores it began with. -/
structure Evicted (shards : List (EvictableShard ω)) (stores : String → ω → Store)
    (budgetBytes lowWater : Nat) (targetBytes : Option Nat) (world : ω)
    (outcome : EvictionOutcome) (left : ω) : Prop where
  newest : ∀ shard ∈ shards, ∃ k,
    (stores shard.shardId left).entries = (stores shard.shardId world).entries.drop k ∧
    min (stores shard.shardId world).entries.length evictionFloor ≤
      (stores shard.shardId left).entries.length
  bytes : outcome.evictedBytes + remainingBytes shards stores left =
    remainingBytes shards stores world
  keys : outcome.evictedKeys + remainingKeys shards stores left = remainingKeys shards stores world
  overBudget : 0 < budgetBytes →
    (outcome.stillOverBudget = true ↔ budgetBytes < remainingBytes shards stores left)
  /-- Unless the budget is off, or kept with no target given. -/
  mark : 0 < budgetBytes →
    (targetBytes = none → budgetBytes < remainingBytes shards stores world) →
    (∀ shard ∈ shards, ∀ e ∈ (stores shard.shardId world).entries, 0 < e.bytes) →
      remainingBytes shards stores left ≤ lowWater ∨
      ∀ shard ∈ shards, (stores shard.shardId left).entries.length ≤ evictionFloor
  untouched : (budgetBytes = 0 ∨
      (targetBytes = none ∧ remainingBytes shards stores world ≤ budgetBytes)) →
    outcome = {} ∧ ∀ id, stores id left = stores id world

theorem remainingBytes_congr (shards : List (EvictableShard ω)) {left : ω}
    (h : ∀ id, stores id left = stores id world) :
    remainingBytes shards stores left = remainingBytes shards stores world :=
  sumOver_congr fun shard _ => by rw [h]

theorem remainingKeys_congr (shards : List (EvictableShard ω)) {left : ω}
    (h : ∀ id, stores id left = stores id world) :
    remainingKeys shards stores left = remainingKeys shards stores world :=
  sumOver_congr fun shard _ => by rw [h]

theorem tied_readRollups (htruthful : Truthful shards stores)
    (hdistinct : (shards.map EvictableShard.shardId).Nodup) (world : ω) :
    Tied shards stores world ⟨(readRollups shards world).1,
      (readRollups shards world).1.total ShardRollup.totalBytes, [], 0, 0,
      (readRollups shards world).2⟩ := by
  obtain ⟨hsame, hlookup, _, htotal⟩ := readRollups_spec htruthful hdistinct world
  have hbytes := remainingBytes_congr shards hsame
  have hkeys := remainingKeys_congr shards hsame
  constructor
  · intro shard hshard
    rw [hlookup shard hshard, hsame]
  · rw [htotal, hbytes]
  · intro shard _
    refine ⟨0, ?_, ?_⟩
    · rw [hsame, List.drop_zero]
    · rw [hsame]
      exact Nat.min_le_left _ _
  · rw [hbytes, Nat.zero_add]
  · rw [hkeys, Nat.zero_add]
  · exact fun _ => rfl

/-- A call that returns without a round. -/
theorem evicted_untouched {budgetBytes lowWater : Nat} {targetBytes : Option Nat} {left : ω}
    (hsame : ∀ id, stores id left = stores id world)
    (hwhy : budgetBytes = 0 ∨
      (targetBytes = none ∧ remainingBytes shards stores world ≤ budgetBytes)) :
    Evicted shards stores budgetBytes lowWater targetBytes world {} left := by
  have hbytes := remainingBytes_congr shards hsame
  have hkeys := remainingKeys_congr shards hsame
  constructor
  · intro shard _
    refine ⟨0, ?_, ?_⟩
    · rw [hsame, List.drop_zero]
    · rw [hsame]
      exact Nat.min_le_left _ _
  · rw [hbytes, Nat.zero_add]
  · rw [hkeys, Nat.zero_add]
  · intro hpos
    rw [hbytes]
    simp only [Bool.false_eq_true, false_iff]
    omega
  · intro hpos hover
    rcases hwhy with hzero | ⟨hnone, hwithin⟩
    · omega
    · have := hover hnone
      omega
  · exact fun _ => ⟨rfl, hsame⟩

/-- A call that runs the loop. -/
theorem evicted_evictTo {budgetBytes lowWater fuel : Nat} {targetBytes : Option Nat}
    {outcome : EvictionOutcome} {left : ω} (htruthful : Truthful shards stores)
    (hdistinct : (shards.map EvictableShard.shardId).Nodup) (hbudget : 0 < budgetBytes)
    (htarget : targetBytes = none → budgetBytes < remainingBytes shards stores world)
    (h : evictTo budgetBytes lowWater fuel shards
      ((readRollups shards world).1.total ShardRollup.totalBytes) (readRollups shards world) =
        some (outcome, left)) :
    Evicted shards stores budgetBytes lowWater targetBytes world outcome left := by
  obtain ⟨pass, hpass, heq⟩ := Option.map_eq_some_iff.mp h
  rw [Prod.mk.injEq] at heq
  obtain ⟨rfl, rfl⟩ := heq
  obtain ⟨htied, hdone⟩ := rounds_invariant (I := Tied shards stores world)
    (fun _ _ hround htied => htied.round htruthful hdistinct hround) hpass
    (tied_readRollups htruthful hdistinct world)
  constructor
  · exact htied.newest
  · exact htied.bytes
  · exact htied.keys
  · intro _
    rw [decide_eq_true_eq, htied.total]
  · intro _ _ hpositive
    rw [← htied.total]
    rcases evictRound_eq_none hdone with hmark | hnone
    · exact .inl hmark
    · right
      intro shard hshard
      rw [← entryCount_rollupOf]
      refine victim_none hnone hshard ?_ (htied.rollups shard hshard)
      rw [htied.exhausted hpositive]
      exact List.not_mem_nil
  · rintro (hzero | ⟨hnone, hwithin⟩)
    · omega
    · have := htarget hnone
      omega

/-- On truthful shards the evictor takes least recent entries only, leaves every
shard its floor, counts what it took, and stops at the mark or where no shard holds
more than its floor. -/
theorem evict_truthful (coordinator : BudgetCoordinator) (lowWaterOf : Nat → Nat)
    (htruthful : Truthful shards stores)
    (hdistinct : (shards.map EvictableShard.shardId).Nodup)
    (targetBytes : Option Nat) (world : ω) :
    ∃ fuel outcome left,
      coordinator.evict lowWaterOf fuel shards targetBytes world = some (outcome, left) ∧
      Evicted shards stores coordinator.budgetBytes
        (targetBytes.getD (lowWaterOf coordinator.budgetBytes)) targetBytes world outcome left := by
  obtain ⟨hsame, _, _, htotal⟩ := readRollups_spec htruthful hdistinct world
  have hfirst : firstOfEachId [] shards = shards :=
    firstOfEachId_of_nodup hdistinct fun _ _ => List.not_mem_nil
  unfold BudgetCoordinator.evict
  by_cases hzero : coordinator.budgetBytes = 0
  · refine ⟨0, {}, world, ?_, evicted_untouched (fun _ => rfl) (.inl hzero)⟩
    rw [if_pos hzero]
  · have hbudget : 0 < coordinator.budgetBytes := Nat.pos_of_ne_zero hzero
    simp only [if_neg hzero, hfirst]
    cases targetBytes with
    | some target =>
        obtain ⟨⟨outcome, left⟩, hresult⟩ := evictTo_returns coordinator.budgetBytes target shards
          ((readRollups shards world).1.total ShardRollup.totalBytes) (readRollups shards world)
        exact ⟨_, outcome, left, hresult,
          evicted_evictTo htruthful hdistinct hbudget (fun h => by cases h) hresult⟩
    | none =>
        dsimp only
        by_cases hwithin : (readRollups shards world).1.total ShardRollup.totalBytes ≤
            coordinator.budgetBytes
        · simp only [if_pos hwithin]
          rw [htotal] at hwithin
          exact ⟨0, {}, _, rfl, evicted_untouched hsame (.inr ⟨rfl, hwithin⟩)⟩
        · simp only [if_neg hwithin]
          obtain ⟨⟨outcome, left⟩, hresult⟩ := evictTo_returns coordinator.budgetBytes
            (lowWaterOf coordinator.budgetBytes) shards
            ((readRollups shards world).1.total ShardRollup.totalBytes) (readRollups shards world)
          rw [htotal] at hwithin
          exact ⟨_, outcome, left, hresult,
            evicted_evictTo htruthful hdistinct hbudget (fun _ => by omega) hresult⟩

end

/-! ## Stores in memory -/

def Store.without (keys : List String) (store : Store) : Store where
  entries := store.entries.filter fun e => decide (e.key ∉ keys)
  nodup := store.nodup.sublist (List.filter_sublist.map _)
  sorted := store.sorted.sublist List.filter_sublist

def storeShard (id : String) : EvictableShard (String → Store) where
  shardId := id
  rollup world := (rollupOf (world id).entries, world)
  lowestSeqKeys n floor world :=
    (((world id).entries.take (min n ((world id).entries.length - floor))).map StoredEntry.key,
      world)
  evictKeys keys world :=
    (bytesOf ((world id).entries.filter fun e => decide (e.key ∈ keys)),
      Function.update world id ((world id).without keys))

theorem truthful_storeShard (ids : List String) :
    Truthful (ids.map storeShard) fun id world => world id := by
  constructor
  · intro shard hshard world
    obtain ⟨id, _, rfl⟩ := List.mem_map.mp hshard
    exact ⟨rfl, fun _ => rfl⟩
  · intro shard hshard n floor world
    obtain ⟨id, _, rfl⟩ := List.mem_map.mp hshard
    exact ⟨rfl, fun _ => rfl⟩
  · intro shard hshard keys world
    obtain ⟨id, _, rfl⟩ := List.mem_map.mp hshard
    refine ⟨rfl, ?_, fun other hother => Function.update_of_ne hother _ _⟩
    show (Function.update world id ((world id).without keys) id).entries = _
    rw [Function.update_self]
    rfl

def storeOf (count : Nat) : Store where
  entries := (List.range count).map fun i => ⟨String.ofList (List.replicate i 'k'), i, 10⟩
  nodup := by
    rw [List.map_map]
    refine List.nodup_range.map fun i j hij => ?_
    have hlists := String.ofList_injective hij
    have hlengths := congrArg List.length hlists
    rwa [List.length_replicate, List.length_replicate] at hlengths
  sorted := by
    rw [List.pairwise_map]
    exact List.pairwise_lt_range.imp Nat.le_of_lt

/-- Two hundred entries are evicted down to their floor, and a small store beside
them keeps what it has. -/
theorem evict_truthful_two_stores :
    ∃ fuel outcome left,
      (BudgetCoordinator.mk 1000).evict (fun budget => budget * 9 / 10) fuel
        (["large", "small"].map storeShard) (some 500)
        (fun id => if id = "large" then storeOf 200 else storeOf 3) = some (outcome, left) ∧
      Evicted (["large", "small"].map storeShard) (fun id world => world id) 1000 500 (some 500)
        (fun id => if id = "large" then storeOf 200 else storeOf 3) outcome left :=
  evict_truthful (BudgetCoordinator.mk 1000) _ (truthful_storeShard _) (by decide) (some 500) _

/-- A budget of zero is no budget. -/
theorem zero_budget_disables_eviction :
    ¬ ∀ (ω : Type) (shards : List (EvictableShard ω)) (stores : String → ω → Store)
      (coordinator : BudgetCoordinator) (lowWaterOf : Nat → Nat) (targetBytes : Option Nat)
      (world : ω),
      Truthful shards stores → (shards.map EvictableShard.shardId).Nodup →
        ∀ fuel outcome left,
          coordinator.evict lowWaterOf fuel shards targetBytes world = some (outcome, left) →
            (outcome.stillOverBudget = true ↔
              coordinator.budgetBytes < remainingBytes shards stores left) := by
  intro hreports
  have hiff := hreports (String → Store) (["a"].map storeShard) (fun id world => world id) ⟨0⟩
    (fun budget => budget * 9 / 10) none (fun _ => storeOf 1) (truthful_storeShard _) (by decide)
    0 {} (fun _ => storeOf 1) rfl
  have hover := hiff.mpr (by decide)
  cases hover

end ImportLens.Cache.Budget
