import ImportLens.Cache.Concurrent.Machine

/-!
# What the sections can do

Each part of the shared state is changed by a few sections only.  The first
half says, for a property of every row, what a section has to respect to keep
it; the second says from which positions a section can be taken, and what a
thread carries from one position to the next.
-/

namespace ImportLens.Cache.Concurrent

open ImportLens.Support

variable {ν : Type} {s : Shared ν} {effect : Effect ν}

/-! ## Rows -/

/-- Every committed row satisfies `P`. -/
def Shared.TableAll (P : Key → Option (Stored ν) → Prop) (s : Shared ν) : Prop :=
  ∀ rows, s.table = some rows → rows.All P

namespace Effect

theorem apply_memory_all {P : Key → Entry ν → Prop} (h : s.memory.All P)
    (hstore : ∀ key entry, effect = .store key entry → P key entry) :
    (effect.apply s).memory.All P := by
  cases effect with
  | store key entry => exact h.insert (hstore key entry rfl)
  | drop key => exact h.erase key
  | wipeMemory => exact Keyed.all_empty _
  | _ => exact h

theorem apply_queue_all {P : Key → Nat × Stored ν → Prop} (h : s.queue.All P)
    (henqueue : ∀ key generation stored, effect = .enqueue key generation stored →
      P key (generation, stored))
    (hrequeue : effect = .requeue →
      s.inFlight.All fun key stored => P key (s.clearGeneration, stored)) :
    (effect.apply s).queue.All P := by
  cases effect with
  | enqueue key generation stored =>
      exact shedOldest_all _ (h.insert (henqueue key generation stored rfl))
  | unqueue covers => exact h.retain _
  | requeue =>
      refine shedOldest_all _ (requeueRows_all h ?_)
      rintro ⟨key, stored⟩ hrow
      exact hrequeue rfl key stored (Keyed.mem_rows.mp hrow)
  | discard | take _ | wipeQueue => exact Keyed.all_empty _
  | _ => exact h

theorem apply_inFlight_all {P : Key → Stored ν → Prop} (h : s.inFlight.All P)
    (htake : ∀ t, effect = .take t →
      s.queue.All fun key tagged => tagged.1 = s.clearGeneration → P key tagged.2) :
    (effect.apply s).inFlight.All P := by
  cases effect with
  | take t =>
      intro key stored hrow
      exact htake t rfl key _ (lookup_keptAt.mp hrow) rfl
  | commit | requeue => exact Keyed.all_empty _
  | _ => exact h

theorem apply_tableAll {P : Key → Option (Stored ν) → Prop} (h : s.TableAll P)
    (hcommit : effect = .commit → s.inFlight.All fun key stored => P key (some stored)) :
    (effect.apply s).TableAll P := by
  intro rows' hrows'
  cases effect with
  | untable covers =>
      obtain ⟨rows, hrows, rfl⟩ := Option.map_eq_some_iff.mp hrows'
      exact (h rows hrows).retain _
  | commit =>
      obtain ⟨rows, hrows, rfl⟩ := Option.map_eq_some_iff.mp hrows'
      refine (h rows hrows).insertAll ?_
      intro row hrow
      obtain ⟨⟨key, stored⟩, hflight, rfl⟩ := List.mem_map.mp hrow
      exact hcommit rfl key stored (Keyed.mem_rows.mp hflight)
  | wipeTable =>
      obtain ⟨_, _, rfl⟩ := Option.map_eq_some_iff.mp hrows'
      exact Keyed.all_empty _
  | _ => exact h rows' hrows'

theorem apply_memory_cases {key : Key} {entry : Entry ν}
    (h : (effect.apply s).memory.lookup key = some entry) :
    effect = .store key entry ∨ s.memory.lookup key = some entry := by
  cases effect with
  | store key' entry' =>
      simp only [apply, Keyed.lookup_insert_eq] at h
      split at h
      · rename_i hkey
        cases h
        exact .inl (by rw [hkey])
      · exact .inr h
  | drop key' =>
      simp only [apply, Keyed.lookup_erase_eq] at h
      split at h
      · cases h
      · exact .inr h
  | wipeMemory => simp [apply] at h
  | _ => exact .inr h

theorem apply_clearGeneration (s : Shared ν) (effect : Effect ν) :
    (∃ t, effect = .bump t) ∧ (effect.apply s).clearGeneration = s.clearGeneration + 1 ∨
      (effect.apply s).clearGeneration = s.clearGeneration := by
  cases effect with
  | bump t => exact .inl ⟨⟨t, rfl⟩, rfl⟩
  | _ => exact .inr rfl

theorem le_apply_clearGeneration (s : Shared ν) (effect : Effect ν) :
    s.clearGeneration ≤ (effect.apply s).clearGeneration := by
  rcases apply_clearGeneration s effect with ⟨_, h⟩ | h <;> omega

end Effect

/-! ## Steps -/

/-- The sections a thread can take from each position, with what they depend
on. -/
inductive Taken (t : Nat) (a : Action ν) (s : Shared ν) :
    Position ν → Effect ν → Position ν → Prop
  | insert (key value) (hcall : a.call = .insert key value) (entry : Entry ν)
      (hentry : entry = ⟨⟨value, s.nextWriter, s.clearGeneration⟩, s.heap.next⟩) :
      Taken t a s .idle .born (.persist key entry s.clearGeneration .insert)
  | callFlush (hcall : a.call = .flush) : Taken t a s .idle .quiet (.flush .idle)
  | callRemove (covers) (hcall : a.call = .remove covers) :
      Taken t a s .idle .quiet (.removeQueue covers)
  | bump (hcall : a.call = .clear) (hlock : s.clearLock = none) :
      Taken t a s .idle (.bump t) .wipeTable
  | hit (key mode entry) (hcall : a.call = .lookup key mode)
      (hmemory : s.memory.lookup key = some entry) :
      Taken t a s .idle .quiet (.touch key entry mode)
  | miss (key mode) (hcall : a.call = .lookup key mode) :
      Taken t a s .idle .quiet (.capture key mode)
  | callPeek (key) (hcall : a.call = .peek key) :
      Taken t a s .idle .quiet (.fetchQueue key .peek)
  | callFlushToDisk (hcall : a.call = .flushToDisk) :
      Taken t a s .idle .quiet (.takeDirty s.clearGeneration)
  | offline (key entry generation caller) (htable : s.table = none) :
      Taken t a s (.persist key entry generation caller) .quiet (caller.ok key entry generation)
  | encodeFails (key entry generation caller) (hfails : a.encodeFails = true) :
      Taken t a s (.persist key entry generation caller) .quiet
        (caller.failed key entry generation)
  | enqueue (key entry generation caller stored after) (htable : s.table ≠ none)
      (hfails : a.encodeFails = false)
      (hstored : stored =
        ⟨entry.copy.through generation, (s.heap.cells entry.cell).lastSeq⟩)
      (hafter : after = caller.ok key entry generation ∨
        after = .flush (.persisted key entry generation caller)) :
      Taken t a s (.persist key entry generation caller) (.enqueue key generation stored) after
  | flushNothing (after) : Taken t a s (.flush after) .quiet after.position
  | flushDiscard (after) (hlock : s.clearLock = none)
      (hkept : (keptAt s.clearGeneration s.queue).rows = []) :
      Taken t a s (.flush after) .discard after.position
  | flushTake (after) (hlock : s.clearLock = none) :
      Taken t a s (.flush after) (.take t) (.flushWrite after)
  | flushFails (after) (hfails : a.writeFails = true) :
      Taken t a s (.flushWrite after) .quiet (.flushRequeue after)
  | commit (after) (hfails : a.writeFails = false) :
      Taken t a s (.flushWrite after) .commit after.position
  | requeue (after) : Taken t a s (.flushRequeue after) .requeue after.position
  | unqueue (covers) : Taken t a s (.removeQueue covers) (.unqueue covers) (.removeTable covers)
  | untableFails (covers) (hfails : a.writeFails = true) :
      Taken t a s (.removeTable covers) .quiet .idle
  | untable (covers) (hfails : a.writeFails = false) :
      Taken t a s (.removeTable covers) (.untable covers) .idle
  | wipeTableFails (hfails : a.writeFails = true) : Taken t a s .wipeTable .quiet .wipeQueue
  | wipeTable (hfails : a.writeFails = false) : Taken t a s .wipeTable .wipeTable .wipeQueue
  | wipeQueue : Taken t a s .wipeQueue .wipeQueue .wipeMemory
  | wipeMemory : Taken t a s .wipeMemory .wipeMemory .wipeDirty
  | wipeDirty : Taken t a s .wipeDirty .takeDirty .idle
  | markDirty (key entry generation) :
      Taken t a s (.markDirty key entry generation) (.addDirty [key]) (.guard key entry generation)
  | guardSkips (key entry generation) (hgeneration : s.clearGeneration ≠ generation) :
      Taken t a s (.guard key entry generation) .quiet .cap
  | guardPasses (key entry generation) (hgeneration : s.clearGeneration = generation) :
      Taken t a s (.guard key entry generation) .quiet (.store key entry generation)
  | store (key entry generation) :
      Taken t a s (.store key entry generation) (.store key entry) (.recheck key entry generation)
  | recheckPasses (key entry generation) (hgeneration : s.clearGeneration = generation) :
      Taken t a s (.recheck key entry generation) .quiet .cap
  | recheckFails (key entry generation) (hgeneration : s.clearGeneration ≠ generation) :
      Taken t a s (.recheck key entry generation) .quiet (.rollback key entry generation)
  | rollback (key entry generation current) (hmemory : s.memory.lookup key = some current)
      (hcell : current.cell = entry.cell) :
      Taken t a s (.rollback key entry generation) (.drop key) .cap
  | rollbackSkips (key entry generation)
      (hmemory : ∀ current, s.memory.lookup key = some current → current.cell ≠ entry.cell) :
      Taken t a s (.rollback key entry generation) .quiet .cap
  | capWithin : Taken t a s .cap .quiet .idle
  | capOver : Taken t a s .cap .quiet (.capSnapshot s.clearGeneration)
  | capSnapshot (generation keys) (hkeys : ∀ key ∈ keys, key ∈ a.victims) :
      Taken t a s (.capSnapshot generation) .quiet (.capLoop generation keys)
  | capDone (generation) : Taken t a s (.capLoop generation []) .quiet .idle
  | capPersists (generation key keys entry seq) (hmemory : s.memory.lookup key = some entry) :
      Taken t a s (.capLoop generation (key :: keys)) .quiet
        (.persist key entry generation (.cap seq keys))
  | capEvicts (generation key keys) :
      Taken t a s (.capLoop generation (key :: keys)) .quiet (.capRemove generation key keys)
  | capMark (generation key cell seq keys) :
      Taken t a s (.capMark generation key cell seq keys) (.mark cell seq)
        (.capRemove generation key keys)
  | capRemove (generation key keys) :
      Taken t a s (.capRemove generation key keys) (.drop key) (.capLoop generation keys)
  | promote (key entry mode) : Taken t a s (.touch key entry mode) (.touch entry.cell)
      (.judge key entry mode)
  | keepRecency (key entry mode) :
      Taken t a s (.touch key entry mode) .quiet (.judge key entry mode)
  | condemn (key entry mode) : Taken t a s (.judge key entry mode) .quiet (.evict key entry.cell)
  | serve (key entry mode) : Taken t a s (.judge key entry mode) .quiet .idle
  | evict (key cell current) (hmemory : s.memory.lookup key = some current)
      (hcell : current.cell = cell) :
      Taken t a s (.evict key cell) (.drop key) (.removeQueue fun key' => key' == key)
  | evictSkips (key cell) : Taken t a s (.evict key cell) .quiet .idle
  | capture (key mode) :
      Taken t a s (.capture key mode) .quiet (.fetchQueue key (.hydrate s.clearGeneration mode))
  | fetchedQueue (key reader stored)
      (hqueue : s.queue.lookup key = some (s.clearGeneration, stored)) :
      Taken t a s (.fetchQueue key reader) (.hydrate stored.seq)
        (.judgeFetched key ⟨reader.decode stored.copy, s.heap.next⟩ reader)
  | missedQueue (key reader) :
      Taken t a s (.fetchQueue key reader) .quiet (.fetchTable key reader)
  | fetchedTable (key reader stored rows) (htable : s.table = some rows)
      (hrow : rows.lookup key = some (some stored)) :
      Taken t a s (.fetchTable key reader) (.hydrate stored.seq)
        (.judgeFetched key ⟨reader.decode stored.copy, s.heap.next⟩ reader)
  | refused (key reader) :
      Taken t a s (.fetchTable key reader) .quiet (.removeQueue fun key' => key' == key)
  | missedTable (key reader) : Taken t a s (.fetchTable key reader) .quiet .idle
  | condemnFetched (key entry reader) :
      Taken t a s (.judgeFetched key entry reader) .quiet (.removeQueue fun key' => key' == key)
  | serveFetched (key entry reader) : Taken t a s (.judgeFetched key entry reader) .quiet .idle
  | mirror (key entry generation mode effect)
      (heffect : effect = .quiet ∨ effect = .touch entry.cell) :
      Taken t a s (.judgeFetched key entry (.hydrate generation mode)) effect
        (.guard key entry generation)
  | takeDirty (generation) :
      Taken t a s (.takeDirty generation) .takeDirty (.snapshotDirty generation s.dirty)
  | snapshotDirty (generation keys entries)
      (hentries : ∀ row ∈ entries, s.memory.lookup row.1 = some row.2) :
      Taken t a s (.snapshotDirty generation keys) .quiet (.replay generation entries [])
  | replayed (generation failed) :
      Taken t a s (.replay generation [] failed) .quiet (.snapshotPromoted generation failed)
  | replay (generation key entry entries failed) :
      Taken t a s (.replay generation ((key, entry) :: entries) failed) .quiet
        (.persist key entry generation (.replay entries failed))
  | snapshotPromoted (generation failed entries)
      (hentries : ∀ row ∈ entries, s.memory.lookup row.1 = some row.2) :
      Taken t a s (.snapshotPromoted generation failed) .quiet (.sweep generation entries failed)
  | swept (generation failed) :
      Taken t a s (.sweep generation [] failed) .quiet (.flush (.swept failed))
  | sweep (generation key entry entries failed seq) :
      Taken t a s (.sweep generation ((key, entry) :: entries) failed) .quiet
        (.persist key entry generation (.sweep seq entries failed))
  | sweepMark (generation cell seq entries failed) :
      Taken t a s (.sweepMark generation cell seq entries failed) (.mark cell seq)
        (.sweep generation entries failed)
  | restoreDirty (failed) : Taken t a s (.restoreDirty failed) (.addDirty failed) .idle

variable {t : Nat} {a : Action ν} {p p' : Position ν}

theorem taken_of_begin (h : begin t s a.call = some (effect, p')) :
    Taken t a s .idle effect p' := by
  cases hcall : a.call with
  | insert key value =>
      simp only [begin, hcall] at h
      cases h
      exact .insert key value hcall _ rfl
  | flush =>
      simp only [begin, hcall] at h
      cases h
      exact .callFlush hcall
  | remove covers =>
      simp only [begin, hcall] at h
      cases h
      exact .callRemove covers hcall
  | clear =>
      simp only [begin, hcall] at h
      split at h
      · cases h
      · rename_i hlock
        cases h
        exact .bump hcall (by simpa using hlock)
  | lookup key mode =>
      simp only [begin, hcall] at h
      split at h
      · rename_i entry hmemory
        cases h
        exact .hit key mode entry hcall hmemory
      · cases h
        exact .miss key mode hcall
  | peek key =>
      simp only [begin, hcall] at h
      cases h
      exact .callPeek key hcall
  | flushToDisk =>
      simp only [begin, hcall] at h
      cases h
      exact .callFlushToDisk hcall

theorem taken_of_persist {key : Key} {entry : Entry ν} {generation : Nat} {caller : Caller ν}
    (h : next t a s (.persist key entry generation caller) = some (effect, p')) :
    Taken t a s (.persist key entry generation caller) effect p' := by
  unfold next at h
  dsimp only at h
  split at h
  · rename_i hnone
    cases h
    exact .offline _ _ _ _ (by simpa using hnone)
  · rename_i hsome
    split at h
    · rename_i hfails
      cases h
      exact .encodeFails _ _ _ _ hfails
    · rename_i hfails
      cases h
      refine .enqueue _ _ _ _ _ _ (by simpa using hsome) (by simpa using hfails) rfl ?_
      split
      · exact .inr rfl
      · exact .inl rfl

theorem taken_of_flush {after : Return ν}
    (h : next t a s (.flush after) = some (effect, p')) :
    Taken t a s (.flush after) effect p' := by
  unfold next at h
  dsimp only at h
  split at h
  · cases h
  · rename_i hlock
    split at h
    · cases h
      exact .flushNothing _
    · split at h
      · rename_i hkept
        cases h
        exact .flushDiscard _ (by simpa using hlock) (by simpa using hkept)
      · cases h
        exact .flushTake _ (by simpa using hlock)

theorem taken_of_guard {key : Key} {entry : Entry ν} {generation : Nat}
    (h : next t a s (.guard key entry generation) = some (effect, p')) :
    Taken t a s (.guard key entry generation) effect p' := by
  unfold next at h
  dsimp only at h
  split at h
  · cases h
    exact .guardSkips _ _ _ ‹_›
  · cases h
    exact .guardPasses _ _ _ (by simpa using ‹¬s.clearGeneration ≠ generation›)

theorem taken_of_recheck {key : Key} {entry : Entry ν} {generation : Nat}
    (h : next t a s (.recheck key entry generation) = some (effect, p')) :
    Taken t a s (.recheck key entry generation) effect p' := by
  unfold next at h
  dsimp only at h
  split at h
  · cases h
    exact .recheckFails _ _ _ ‹_›
  · cases h
    exact .recheckPasses _ _ _ (by simpa using ‹¬s.clearGeneration ≠ generation›)

theorem taken_of_rollback {key : Key} {entry : Entry ν} {generation : Nat}
    (h : next t a s (.rollback key entry generation) = some (effect, p')) :
    Taken t a s (.rollback key entry generation) effect p' := by
  unfold next at h
  dsimp only at h
  split at h
  · rename_i current hmemory
    split at h
    · cases h
      exact .rollback _ _ _ current hmemory ‹_›
    · rename_i hcell
      cases h
      refine .rollbackSkips _ _ _ fun other hother => ?_
      rw [hmemory] at hother
      cases hother
      exact hcell
  · rename_i hmemory
    cases h
    exact .rollbackSkips _ _ _ fun other hother => by simp [hmemory] at hother

theorem taken_of_capLoop {generation : Nat} {keys : List Key}
    (h : next t a s (.capLoop generation keys) = some (effect, p')) :
    Taken t a s (.capLoop generation keys) effect p' := by
  cases keys with
  | nil =>
      cases h
      exact .capDone _
  | cons key keys =>
      unfold next at h
      dsimp only at h
      split at h
      · rename_i entry hmemory
        split at h
        · cases h
          exact .capPersists _ _ _ entry _ hmemory
        · cases h
          exact .capEvicts _ _ _
      · cases h
        exact .capEvicts _ _ _

theorem taken_of_evict {key : Key} {cell : Nat}
    (h : next t a s (.evict key cell) = some (effect, p')) :
    Taken t a s (.evict key cell) effect p' := by
  unfold next at h
  dsimp only at h
  split at h
  · rename_i current hmemory
    split at h
    · cases h
      exact .evict _ _ current hmemory ‹_›
    · cases h
      exact .evictSkips _ _
  · cases h
    exact .evictSkips _ _

theorem taken_of_fetchQueue {key : Key} {reader : Reader}
    (h : next t a s (.fetchQueue key reader) = some (effect, p')) :
    Taken t a s (.fetchQueue key reader) effect p' := by
  unfold next at h
  dsimp only at h
  split at h
  · rename_i generation stored hqueue
    split at h
    · cases h
      exact .missedQueue _ _
    · rename_i hgeneration
      cases h
      rw [Decidable.not_not.mp hgeneration] at hqueue
      exact .fetchedQueue _ _ stored hqueue
  · cases h
    exact .missedQueue _ _

theorem taken_of_fetchTable {key : Key} {reader : Reader}
    (h : next t a s (.fetchTable key reader) = some (effect, p')) :
    Taken t a s (.fetchTable key reader) effect p' := by
  unfold next at h
  dsimp only at h
  split at h
  · cases h
    exact .missedTable _ _
  · split at h
    · cases h
      exact .missedTable _ _
    · cases h
      exact .refused _ _
    · rename_i stored hrow
      obtain ⟨rows, hrows, hlookup⟩ := Option.bind_eq_some_iff.mp hrow
      cases h
      exact .fetchedTable _ _ stored rows hrows hlookup

theorem taken_of_judgeFetched {key : Key} {entry : Entry ν} {reader : Reader}
    (h : next t a s (.judgeFetched key entry reader) = some (effect, p')) :
    Taken t a s (.judgeFetched key entry reader) effect p' := by
  unfold next at h
  dsimp only at h
  split at h
  · cases h
    exact .condemnFetched _ _ _
  · split at h
    · cases h
      exact .serveFetched _ _ _
    · split at h
      · cases h
        exact .serveFetched _ _ _
      · cases h
        refine .mirror _ _ _ _ _ ?_
        split
        · exact .inr rfl
        · exact .inl rfl

theorem taken_of_next (h : next t a s p = some (effect, p')) : Taken t a s p effect p' := by
  cases p with
  | idle => exact taken_of_begin h
  | persist key entry generation caller => exact taken_of_persist h
  | flush after => exact taken_of_flush h
  | flushWrite after =>
      unfold next at h
      dsimp only at h
      split at h
      · cases h
        exact .flushFails _ ‹_›
      · cases h
        exact .commit _ (by simpa using ‹¬a.writeFails = true›)
  | flushRequeue after =>
      cases h
      exact .requeue _
  | removeQueue covers =>
      cases h
      exact .unqueue _
  | removeTable covers =>
      unfold next at h
      dsimp only at h
      split at h
      · cases h
        exact .untableFails _ ‹_›
      · cases h
        exact .untable _ (by simpa using ‹¬a.writeFails = true›)
  | wipeTable =>
      unfold next at h
      dsimp only at h
      split at h
      · cases h
        exact .wipeTableFails ‹_›
      · cases h
        exact .wipeTable (by simpa using ‹¬a.writeFails = true›)
  | wipeQueue =>
      cases h
      exact .wipeQueue
  | wipeMemory =>
      cases h
      exact .wipeMemory
  | wipeDirty =>
      cases h
      exact .wipeDirty
  | markDirty key entry generation =>
      cases h
      exact .markDirty _ _ _
  | guard key entry generation => exact taken_of_guard h
  | store key entry generation =>
      cases h
      exact .store _ _ _
  | recheck key entry generation => exact taken_of_recheck h
  | rollback key entry generation => exact taken_of_rollback h
  | cap =>
      unfold next at h
      dsimp only at h
      split at h
      · cases h
        exact .capOver
      · cases h
        exact .capWithin
  | capSnapshot generation =>
      cases h
      exact .capSnapshot _ _ fun key hkey => (List.mem_filter.mp hkey).1
  | capLoop generation keys => exact taken_of_capLoop h
  | capMark generation key cell seq keys =>
      cases h
      exact .capMark _ _ _ _ _
  | capRemove generation key keys =>
      cases h
      exact .capRemove _ _ _
  | touch key entry mode =>
      unfold next at h
      dsimp only at h
      split at h
      · cases h
        exact .promote _ _ _
      · cases h
        exact .keepRecency _ _ _
  | judge key entry mode =>
      unfold next at h
      dsimp only at h
      split at h
      · cases h
        exact .condemn _ _ _
      · cases h
        exact .serve _ _ _
  | evict key cell => exact taken_of_evict h
  | capture key mode =>
      cases h
      exact .capture _ _
  | fetchQueue key reader => exact taken_of_fetchQueue h
  | fetchTable key reader => exact taken_of_fetchTable h
  | judgeFetched key entry reader => exact taken_of_judgeFetched h
  | takeDirty generation =>
      cases h
      exact .takeDirty _
  | snapshotDirty generation keys =>
      cases h
      refine .snapshotDirty _ _ _ ?_
      intro row hrow
      obtain ⟨key, _, hkey⟩ := List.mem_filterMap.mp hrow
      obtain ⟨entry, hentry, rfl⟩ := Option.map_eq_some_iff.mp hkey
      exact hentry
  | replay generation entries failed =>
      cases entries with
      | nil =>
          cases h
          exact .replayed _ _
      | cons row entries =>
          cases h
          exact .replay _ _ _ _ _
  | snapshotPromoted generation failed =>
      cases h
      refine .snapshotPromoted _ _ _ ?_
      rintro ⟨key, entry⟩ hrow
      exact Keyed.mem_rows.mp (List.mem_filter.mp hrow).1
  | sweep generation entries failed =>
      cases entries with
      | nil =>
          cases h
          exact .swept _ _
      | cons row entries =>
          cases h
          exact .sweep _ _ _ _ _ _
  | sweepMark generation cell seq entries failed =>
      cases h
      exact .sweepMark _ _ _ _ _
  | restoreDirty failed =>
      cases h
      exact .restoreDirty _

theorem taken_store {key : Key} {entry : Entry ν} (h : Taken t a s p (.store key entry) p') :
    ∃ generation, p = .store key entry generation ∧ p' = .recheck key entry generation := by
  cases h with
  | store _ _ generation => exact ⟨generation, rfl, rfl⟩
  | mirror _ _ _ _ _ heffect => rcases heffect with heq | heq <;> cases heq

theorem taken_bump {u : Nat} (h : Taken t a s p (.bump u) p') :
    p = .idle ∧ p' = .wipeTable ∧ s.clearLock = none := by
  cases h with
  | bump _ hlock => exact ⟨rfl, rfl, hlock⟩
  | mirror _ _ _ _ _ heffect => rcases heffect with heq | heq <;> cases heq

/-- A value is queued from one position only. -/
theorem taken_enqueue {key : Key} {generation : Nat} {stored : Stored ν}
    (h : Taken t a s p (.enqueue key generation stored) p') :
    ∃ entry caller, p = .persist key entry generation caller ∧
      stored = ⟨entry.copy.through generation, (s.heap.cells entry.cell).lastSeq⟩ := by
  cases h with
  | enqueue _ entry _ caller _ _ _ _ hstored _ => exact ⟨entry, caller, rfl, hstored⟩
  | mirror _ _ _ _ _ heffect => rcases heffect with heq | heq <;> cases heq

/-- A step takes a section from the position of its thread, and moves no other
thread. -/
theorem taken_of_step {c d : Config (Shared ν) (Position ν)} (h : c.step program t a = some d) :
    ∃ effect, next t a c.shared (c.thread t) = some (effect, d.thread t) ∧
      Taken t a c.shared (c.thread t) effect (d.thread t) ∧
      d.shared = effect.apply c.shared ∧ ∀ u, u ≠ t → d.thread u = c.thread u := by
  have hothers := fun u => Config.thread_of_step_ne h (u := u)
  obtain ⟨_, _, hprogram, rfl⟩ := Config.step_eq_some h
  obtain ⟨⟨effect, position⟩, hnext, heq⟩ := Option.map_eq_some_iff.mp hprogram
  cases heq
  simp only [Function.update_self]
  exact ⟨effect, hnext, taken_of_next hnext, rfl, hothers⟩

end ImportLens.Cache.Concurrent
