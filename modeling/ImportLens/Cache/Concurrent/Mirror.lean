import ImportLens.Cache.Concurrent.Clear

/-!
# The two copies of an insert

An insert queues its bytes and then mirrors the entry into memory, both under
one captured generation.  `latest` is the measurement that the disk layer will
settle on for a key: the queued one if its generation is current, else the one
of the batch in flight, else the committed one.  The invariant says when memory
may disagree with it: while a clear is on its way to memory, while an insert of
the key is between its two copies, and while a superseded insert awaits its
rollback.
-/

namespace ImportLens.Cache.Concurrent

open ImportLens.Support

variable {ν : Type} {key : Key}

/-! ## The latest copy on disk -/

def Copy.measurement (copy : Copy ν) : ν × Nat := (copy.value, copy.writer)

def committed (key : Key) (s : Shared ν) : Option (ν × Nat) :=
  match s.inFlight.lookup key with
  | some stored => some stored.copy.measurement
  | none => (s.table.bind fun rows => rows.lookup key).bind fun row =>
      row.map fun stored => stored.copy.measurement

def queued (key : Key) (s : Shared ν) : Option (ν × Nat) :=
  (s.queue.lookup key).bind fun tagged =>
    if tagged.1 = s.clearGeneration then some tagged.2.copy.measurement else none

def latest (key : Key) (s : Shared ν) : Option (ν × Nat) :=
  (queued key s).or (committed key s)

section

variable {s : Shared ν}

theorem latest_discard (h : (keptAt s.clearGeneration s.queue).rows = []) :
    latest key (Effect.discard.apply s) = latest key s := by
  have hqueued : queued key s = none := by
    rw [queued, Option.bind_eq_none_iff]
    rintro ⟨tag, stored⟩ hrow
    rw [if_neg]
    rintro rfl
    have hkept := Keyed.mem_rows.mpr (lookup_keptAt.mpr hrow)
    rw [h] at hkept
    cases hkept
  simp only [latest, hqueued, Option.none_or]
  rfl

theorem latest_take (t : Nat) (h : s.inFlight = ∅) :
    latest key ((Effect.take t).apply s) = latest key s := by
  have hqueued : queued key ((Effect.take t).apply s) = none := by simp [queued, Effect.apply]
  rw [latest, hqueued, Option.none_or]
  cases hkept : (keptAt s.clearGeneration s.queue).lookup key with
  | some stored =>
      have hrow := lookup_keptAt.mp hkept
      simp [committed, Effect.apply, hkept, latest, queued, hrow]
  | none =>
      have hnone : queued key s = none := by
        rw [queued, Option.bind_eq_none_iff]
        rintro ⟨tag, stored⟩ hrow
        rw [if_neg]
        rintro rfl
        rw [lookup_keptAt.mpr hrow] at hkept
        cases hkept
      simp [committed, Effect.apply, hkept, latest, hnone, h]

theorem latest_commit (h : s.table ≠ none) :
    latest key (Effect.commit.apply s) = latest key s := by
  obtain ⟨rows, hrows⟩ := Option.ne_none_iff_exists'.mp h
  suffices hcommitted : committed key (Effect.commit.apply s) = committed key s by
    rw [latest, latest, hcommitted]
    rfl
  simp only [committed, Effect.apply, hrows, Option.map_some, Option.bind_some,
    AList.lookup_empty]
  have hkeys : (s.inFlight.rows.map fun row => (row.1, some row.2)).map Prod.fst =
      s.inFlight.rows.map Prod.fst := by
    simp [Function.comp_def]
  cases hflight : s.inFlight.lookup key with
  | some stored =>
      have hmem : (key, some stored) ∈ s.inFlight.rows.map fun row => (row.1, some row.2) :=
        List.mem_map.mpr ⟨(key, stored), Keyed.mem_rows.mpr hflight, rfl⟩
      rw [Keyed.lookup_insertAll_of_mem (by rw [hkeys]; exact Keyed.nodup_rows_keys _) hmem]
      rfl
  | none =>
      rw [Keyed.lookup_insertAll_of_notMem]
      rw [hkeys, Keyed.mem_rows_keys, hflight]
      simp

/-- An enqueue that sheds nothing of `key`. -/
theorem queued_enqueue {key' : Key} {generation : Nat} {stored : Stored ν}
    (hshed : ((Effect.enqueue key' generation stored).apply s).queue.lookup key =
      (s.queue.insert key' (generation, stored)).lookup key) :
    queued key ((Effect.enqueue key' generation stored).apply s) =
      if key = key' then
        if generation = s.clearGeneration then some stored.copy.measurement else none
      else queued key s := by
  rw [queued, hshed, Keyed.lookup_insert_eq]
  split
  · rfl
  · rfl

end

/-! ## Runs of inserts and clears -/

def Call.writes : Call ν → Bool
  | .insert _ _ | .clear => true
  | _ => false

/-- Whether a section sheds `key` from the queue. -/
def Effect.sheds (key : Key) (s : Shared ν) : Effect ν → Bool
  | enqueue key' generation stored =>
      ((shedOldest Stored.seq (s.queue.insert key' (generation, stored))).lookup key).isSome !=
        ((s.queue.insert key' (generation, stored)).lookup key).isSome
  | _ => false

/-- The calls are inserts and clears, no flush fails, and `key` is neither
evicted by a cap pass nor shed from the queue. -/
structure Spares (key : Key) (c : Config (Shared ν) (Position ν)) (t : Nat) (a : Action ν) :
    Prop where
  call : (c.thread t).isIdle = true → a.call.writes = true
  flush : (c.thread t).flushes = true → a.writeFails = false
  victims : key ∉ a.victims
  sheds : ((next t a c.shared (c.thread t)).any fun taken =>
    taken.1.sheds key c.shared) = false

instance (key : Key) (c : Config (Shared ν) (Position ν)) (t : Nat) (a : Action ν) :
    Decidable (Spares key c t a) :=
  decidable_of_iff
    (((c.thread t).isIdle = true → a.call.writes = true) ∧
      ((c.thread t).flushes = true → a.writeFails = false) ∧ key ∉ a.victims ∧
      ((next t a c.shared (c.thread t)).any fun taken => taken.1.sheds key c.shared) = false)
    ⟨fun h => ⟨h.1, h.2.1, h.2.2.1, h.2.2.2⟩, fun h => ⟨h.call, h.flush, h.victims, h.sheds⟩⟩

/-- The positions of such a run; none of them re-persists or evicts `key`. -/
def Caller.Sparing (key key' : Key) : Caller ν → Prop
  | insert => True
  | cap _ keys => key' ≠ key ∧ key ∉ keys
  | _ => False

def Return.Sparing (key : Key) : Return ν → Prop
  | idle => True
  | persisted key' _ _ caller => caller.Sparing key key'
  | swept _ => False

namespace Position

def Sparing (key : Key) : Position ν → Prop
  | idle | wipeTable | wipeQueue | wipeMemory | wipeDirty | guard _ _ _ | store _ _ _
  | recheck _ _ _ | rollback _ _ _ | cap | capSnapshot _ => True
  | persist key' _ _ caller => caller.Sparing key key'
  | flush after | flushWrite after => after.Sparing key
  | markDirty key' _ _ => key' ≠ key
  | capLoop _ keys => key ∉ keys
  | capMark _ key' _ _ keys | capRemove _ key' keys => key' ≠ key ∧ key ∉ keys
  | _ => False

def wiping : Position ν → Bool
  | wipeTable | wipeQueue => true
  | _ => false

end Position

def Caller.landing (key : Key) (entry : Entry ν) (generation : Nat) :
    Caller ν → Option (Key × Entry ν × Nat)
  | insert => some (key, entry, generation)
  | _ => none

def Return.landing : Return ν → Option (Key × Entry ν × Nat)
  | persisted key entry generation caller => caller.landing key entry generation
  | _ => none

def Position.landing : Position ν → Option (Key × Entry ν × Nat)
  | flush after | flushWrite after | flushRequeue after => after.landing
  | guard key entry generation | store key entry generation => some (key, entry, generation)
  | _ => none

/-- An insert of `key` is queued without an encoding failure; under the current
generation while no clear is about to wipe it and no other insert of `key` is
between its two copies; under a superseded one while it shadows nothing
current. -/
structure Unraced (key : Key) (c : Config (Shared ν) (Position ν)) (t : Nat) (a : Action ν) :
    Prop where
  encodes : ∀ entry generation caller, c.thread t = .persist key entry generation caller →
    a.encodeFails = false
  current : ∀ entry caller, c.thread t = .persist key entry c.shared.clearGeneration caller →
    (∀ u, (c.thread u).wiping = false) ∧
    ∀ u other, (c.thread u).landing ≠ some (key, other, c.shared.clearGeneration)
  superseded : ∀ entry generation caller, c.thread t = .persist key entry generation caller →
    generation ≠ c.shared.clearGeneration → queued key c.shared = none

/-! ## The invariant -/

/-- A thread that accounts for an entry of memory which the disk layer does not
have. -/
def Excuse (key : Key) (entry : Entry ν) (current : Nat) (p : Position ν) : Prop :=
  p.clearing = true ∨ (∃ other, p.landing = some (key, other, current)) ∨
    ∃ generation, p.unchecked = some (key, entry, generation) ∧ generation ≠ current

structure Mirrored (key : Key) (c : Config (Shared ν) (Position ν)) : Prop where
  sound : Sound c
  online : c.shared.table ≠ none
  sparing : ∀ u, (c.thread u).Sparing key
  memory : ∀ entry, c.shared.memory.lookup key = some entry →
    latest key c.shared = some entry.copy.measurement ∨
      ∃ u, Excuse key entry c.shared.clearGeneration (c.thread u)
  landing : ∀ u entry, (c.thread u).landing = some (key, entry, c.shared.clearGeneration) →
    latest key c.shared = some entry.copy.measurement
  wiping : ∀ u, (c.thread u).wiping = true →
    ∀ v entry, (c.thread v).landing ≠ some (key, entry, c.shared.clearGeneration)

section

variable {s : Shared ν} {effect : Effect ν} {t : Nat} {a : Action ν} {p p' : Position ν}

theorem Caller.sparing_ok {caller : Caller ν} {key' : Key} {entry : Entry ν} {generation : Nat}
    (h : caller.Sparing key key') : (caller.ok key' entry generation).Sparing key := by
  cases caller with
  | insert => trivial
  | cap => exact h
  | _ => cases h

theorem Return.sparing_position {after : Return ν} (h : after.Sparing key) :
    after.position.Sparing key := by
  cases after with
  | idle => trivial
  | persisted => exact Caller.sparing_ok h
  | swept => cases h

theorem taken_sparing (h : Taken t a s p effect p') (hp : p.Sparing key)
    (hcall : p.isIdle = true → a.call.writes = true)
    (hflush : p.flushes = true → a.writeFails = false) (hvictims : key ∉ a.victims)
    (hencodes : ∀ entry generation caller, p = .persist key entry generation caller →
      a.encodeFails = false) : p'.Sparing key := by
  cases h with
  | insert | bump | wipeTable | wipeTableFails | wipeQueue | wipeMemory | wipeDirty
  | markDirty | guardSkips | guardPasses | store | recheckPasses | recheckFails | rollback
  | rollbackSkips | capWithin | capOver | capDone => trivial
  | callFlush hcall' | callRemove _ hcall' | hit _ _ _ hcall' | miss _ _ hcall'
  | callPeek _ hcall' | callFlushToDisk hcall' =>
      have := hcall rfl
      rw [hcall'] at this
      cases this
  | offline => exact Caller.sparing_ok hp
  | encodeFails key' entry generation caller hfails =>
      cases caller with
      | insert =>
          rintro rfl
          simp [hencodes entry generation _ rfl] at hfails
      | cap => exact hp
      | _ => cases hp
  | enqueue _ _ _ caller _ _ _ _ _ hafter =>
      rcases hafter with rfl | rfl
      · exact Caller.sparing_ok hp
      · exact hp
  | flushNothing | flushDiscard | commit => exact Return.sparing_position hp
  | flushTake => exact hp
  | flushFails _ hfails => simp [hflush rfl] at hfails
  | capSnapshot _ keys hkeys => exact fun hmem => hvictims (hkeys key hmem)
  | capPersists _ key' keys _ _ _ | capEvicts _ key' keys =>
      rw [Position.Sparing, List.mem_cons, not_or] at hp
      exact ⟨Ne.symm hp.1, hp.2⟩
  | capMark => exact hp
  | capRemove => exact hp.2
  | _ => cases hp

theorem Position.guarded_of_landing {x : Key × Entry ν × Nat} (h : p.landing = some x) :
    p.guarded = some x := by
  have hcaller : ∀ key (entry : Entry ν) generation (caller : Caller ν),
      caller.landing key entry generation = some x →
        caller.guarded key entry generation = some x := by
    intro key entry generation caller hcaller
    cases caller with
    | insert => exact hcaller
    | _ => cases hcaller
  cases p with
  | flush after | flushWrite after | flushRequeue after =>
      cases after with
      | persisted key entry generation caller => exact hcaller key entry generation caller h
      | _ => cases h
  | guard | store => exact h
  | _ => cases h

theorem Return.landing_position {after : Return ν} (h : after.Sparing key) {entry : Entry ν}
    {generation : Nat} (hl : after.position.landing = some (key, entry, generation)) :
    after.landing = some (key, entry, generation) := by
  cases after with
  | idle => cases hl
  | persisted _ _ _ caller =>
      cases caller with
      | insert => exact hl
      | _ => cases hl
  | swept => cases h

/-- An insert of `key` lands when it is queued. -/
theorem taken_landing (h : Taken t a s p effect p') (hp : p.Sparing key) (htable : s.table ≠ none)
    {entry : Entry ν} {generation : Nat} (hl : p'.landing = some (key, entry, generation)) :
    p.landing = some (key, entry, generation) ∨
      p = .persist key entry generation .insert := by
  cases h with
  | offline _ _ _ _ hnone => exact absurd hnone htable
  | encodeFails _ _ _ caller _ => cases caller <;> cases hl
  | enqueue _ _ _ caller _ _ _ _ _ hafter =>
      cases caller with
      | insert =>
          rcases hafter with rfl | rfl <;>
          · cases hl
            exact .inr rfl
      | _ => rcases hafter with rfl | rfl <;> cases hl
  | flushNothing | flushDiscard | commit => exact .inl (Return.landing_position hp hl)
  | flushTake | flushFails | guardPasses => exact .inl hl
  | markDirty =>
      cases hl
      exact absurd rfl hp
  | requeue | mirror => cases hp
  | _ => cases hl

theorem enqueue_lookup {key' : Key} {generation : Nat} {stored : Stored ν}
    (hsheds : (Effect.enqueue key' generation stored).sheds key s = false) :
    ((Effect.enqueue key' generation stored).apply s).queue.lookup key =
      (s.queue.insert key' (generation, stored)).lookup key :=
  lookup_shedOldest (by simpa [Effect.sheds] using hsheds)

/-- An insert under the current generation becomes the latest copy. -/
theorem taken_queued {entry : Entry ν} {generation : Nat}
    (h : Taken t a s (.persist key entry generation .insert) effect p')
    (htable : s.table ≠ none) (hencodes : a.encodeFails = false)
    (hsheds : effect.sheds key s = false)
    (hcurrent : generation = (effect.apply s).clearGeneration) :
    latest key (effect.apply s) = some entry.copy.measurement := by
  cases h with
  | offline _ _ _ _ hnone => exact absurd hnone htable
  | encodeFails _ _ _ _ hfails => simp [hencodes] at hfails
  | enqueue _ _ _ _ stored _ _ _ hstored _ =>
      have hgeneration : generation = s.clearGeneration := hcurrent
      rw [latest, queued_enqueue (enqueue_lookup hsheds), if_pos rfl, if_pos hgeneration, hstored]
      rfl

/-- How a section changes the latest copy of `key`: not at all, as part of a
clear, or by an insert under the current generation. -/
theorem taken_latest (h : Taken t a s p effect p') (hp : p.Sparing key) (htable : s.table ≠ none)
    (hfree : s.clearLock = none → s.inFlight = ∅) (hsheds : effect.sheds key s = false)
    (hsuperseded : ∀ entry generation caller, p = .persist key entry generation caller →
      generation ≠ s.clearGeneration → queued key s = none) :
    latest key (effect.apply s) = latest key s ∨
    (p'.clearing = true ∧ (p.wiping = true ∨ ∃ u, effect = .bump u)) ∨
    ∃ entry, p = .persist key entry s.clearGeneration .insert ∧
      p'.landing = some (key, entry, s.clearGeneration) ∧
      latest key (effect.apply s) = some entry.copy.measurement := by
  cases h with
  | bump => exact .inr (.inl ⟨rfl, .inr ⟨t, rfl⟩⟩)
  | wipeTable | wipeTableFails | wipeQueue => exact .inr (.inl ⟨rfl, .inl rfl⟩)
  | flushDiscard _ _ hkept => exact .inl (latest_discard hkept)
  | flushTake _ hlock => exact .inl (latest_take t (hfree hlock))
  | commit => exact .inl (latest_commit htable)
  | enqueue key' entry generation caller stored after _ _ hstored hafter =>
      have hqueued := queued_enqueue (enqueue_lookup hsheds)
      have hcommitted : committed key ((Effect.enqueue key' generation stored).apply s) =
          committed key s := rfl
      by_cases hkey : key = key'
      · subst hkey
        rw [if_pos rfl] at hqueued
        cases caller with
        | insert =>
            by_cases hcurrent : generation = s.clearGeneration
            · subst hcurrent
              refine .inr (.inr ⟨entry, rfl, ?_, ?_⟩)
              · rcases hafter with rfl | rfl <;> rfl
              · rw [latest, hqueued, if_pos rfl, hstored]
                rfl
            · rw [if_neg hcurrent] at hqueued
              left
              rw [latest, latest, hqueued, hcommitted, hsuperseded entry generation _ rfl hcurrent]
        | cap => exact absurd rfl hp.1
        | _ => cases hp
      · rw [if_neg hkey] at hqueued
        left
        rw [latest, latest, hqueued, hcommitted]
  | requeue | unqueue | untable => cases hp
  | mirror => cases hp
  | _ => exact .inl rfl

end

variable {c d : Config (Shared ν) (Position ν)} {t : Nat} {a : Action ν}

/-- The guard of a run in which the two copies stay together. -/
def MirrorGuard (key : Key) (c : Config (Shared ν) (Position ν)) (t : Nat) (a : Action ν) :
    Prop :=
  Spares key c t a ∧ Unraced key c t a

/-- How a guarded step changes the latest copy. -/
theorem latest_step (hguard : MirrorGuard key c t a) (h : c.step program t a = some d)
    (hc : Mirrored key c) :
    latest key d.shared = latest key c.shared ∨
    ((d.thread t).clearing = true ∧ ((c.thread t).wiping = true ∨
      d.shared.clearGeneration = c.shared.clearGeneration + 1)) ∨
    ∃ entry, c.thread t = .persist key entry c.shared.clearGeneration .insert ∧
      (d.thread t).landing = some (key, entry, c.shared.clearGeneration) ∧
      latest key d.shared = some entry.copy.measurement := by
  obtain ⟨effect, hnext, htaken, hshared, _⟩ := taken_of_step h
  have hsheds : effect.sheds key c.shared = false := by
    have := hguard.1.sheds
    simpa [hnext] using this
  rw [hshared]
  rcases taken_latest htaken (hc.sparing t) hc.online hc.sound.inFlight_of_free hsheds
    hguard.2.superseded with hsame | ⟨hclearing, hcase⟩ | hinsert
  · exact .inl hsame
  · refine .inr (.inl ⟨hclearing, ?_⟩)
    rcases hcase with hwiping | ⟨u, rfl⟩
    · exact .inl hwiping
    · exact .inr rfl
  · exact .inr (.inr hinsert)

/-- An insert that is landing under the current generation was landing before,
or has just been queued. -/
theorem landing_step (h : c.step program t a = some d) (hc : Mirrored key c) {u : Nat}
    {entry : Entry ν}
    (hu : (d.thread u).landing = some (key, entry, d.shared.clearGeneration)) :
    d.shared.clearGeneration = c.shared.clearGeneration ∧
      ((c.thread u).landing = some (key, entry, c.shared.clearGeneration) ∨
        u = t ∧ c.thread t = .persist key entry c.shared.clearGeneration .insert) := by
  obtain ⟨effect, _, htaken, hshared, hothers⟩ := taken_of_step h
  have hbefore : (c.thread u).landing = some (key, entry, d.shared.clearGeneration) ∨
      u = t ∧ c.thread t = .persist key entry d.shared.clearGeneration .insert := by
    by_cases hut : u = t
    · subst hut
      rcases taken_landing htaken (hc.sparing u) hc.online hu with hbefore | hqueued
      · exact .inl hbefore
      · exact .inr ⟨rfl, hqueued⟩
    · rw [hothers u hut] at hu
      exact .inl hu
  have hcaptured : (c.thread u).Captured d.shared.clearGeneration := by
    rcases hbefore with hbefore | ⟨rfl, hqueued⟩
    · exact .inl ⟨key, entry, Position.guarded_of_landing hbefore⟩
    · rw [hqueued]
      exact Position.captured_persist _ _ _ _
  have hgeneration : d.shared.clearGeneration = c.shared.clearGeneration := by
    have hle := hc.sound.captured u _ hcaptured
    have hmono := Effect.le_apply_clearGeneration c.shared effect
    rw [← hshared] at hmono
    omega
  rw [hgeneration] at hbefore
  exact ⟨hgeneration, hbefore⟩

theorem mirrored_landing (hguard : MirrorGuard key c t a) (h : c.step program t a = some d)
    (hc : Mirrored key c) {u : Nat} {entry : Entry ν}
    (hu : (d.thread u).landing = some (key, entry, d.shared.clearGeneration)) :
    latest key d.shared = some entry.copy.measurement := by
  obtain ⟨hgeneration, hbefore | ⟨rfl, hqueued⟩⟩ := landing_step h hc hu
  · rcases latest_step hguard h hc with hsame | ⟨_, hwiping | hbumped⟩ | ⟨other, hpersist, _, _⟩
    · rw [hsame]
      exact hc.landing u entry hbefore
    · exact absurd hbefore (hc.wiping t hwiping u entry)
    · omega
    · exact absurd hbefore ((hguard.2.current other _ hpersist).2 u entry)
  · obtain ⟨effect, hnext, htaken, hshared, _⟩ := taken_of_step h
    have hsheds : effect.sheds key c.shared = false := by simpa [hnext] using hguard.1.sheds
    rw [hqueued] at htaken
    rw [hshared] at hgeneration ⊢
    exact taken_queued htaken hc.online (hguard.2.encodes entry _ _ hqueued) hsheds
      hgeneration.symm

theorem taken_wiping {s : Shared ν} {effect : Effect ν} {p p' : Position ν}
    (h : Taken t a s p effect p') (hp : p'.wiping = true) :
    p.wiping = true ∨ (effect.apply s).clearGeneration = s.clearGeneration + 1 := by
  cases h with
  | bump => exact .inr rfl
  | wipeTable | wipeTableFails => exact .inl rfl
  | offline _ _ _ caller => cases caller <;> cases hp
  | encodeFails _ _ _ caller => cases caller <;> cases hp
  | enqueue _ _ _ caller _ _ _ _ _ hafter =>
      rcases hafter with rfl | rfl
      · cases caller <;> cases hp
      · cases hp
  | flushNothing after | flushDiscard after | commit after | requeue after =>
      cases after with
      | persisted _ _ _ caller => cases caller <;> cases hp
      | _ => cases hp
  | _ => cases hp

theorem mirrored_wiping (hguard : MirrorGuard key c t a) (h : c.step program t a = some d)
    (hc : Mirrored key c) {u : Nat} (hu : (d.thread u).wiping = true) (v : Nat) (entry : Entry ν) :
    (d.thread v).landing ≠ some (key, entry, d.shared.clearGeneration) := by
  intro hv
  obtain ⟨hgeneration, hbefore⟩ := landing_step h hc hv
  obtain ⟨effect, _, htaken, hshared, hothers⟩ := taken_of_step h
  have hwiping : (c.thread u).wiping = true := by
    by_cases hut : u = t
    · subst hut
      rcases taken_wiping htaken hu with hwiping | hbumped
      · exact hwiping
      · rw [← hshared] at hbumped
        omega
    · rwa [hothers u hut] at hu
  rcases hbefore with hbefore | ⟨rfl, hqueued⟩
  · exact hc.wiping u hwiping v entry hbefore
  · simp [(hguard.2.current entry _ hqueued).1 u] at hwiping

/-- An insert that is landing under the current generation goes on to memory. -/
theorem landing_taken {s : Shared ν} {effect : Effect ν} {p p' : Position ν} {entry : Entry ν}
    (h : Taken t a s p effect p') (hp : p.landing = some (key, entry, s.clearGeneration)) :
    p'.landing = some (key, entry, s.clearGeneration) ∨
      effect = .store key entry ∧ p = .store key entry s.clearGeneration := by
  cases h with
  | flushNothing after | flushDiscard after | commit after | requeue after =>
      cases after with
      | persisted _ _ _ caller =>
          cases caller with
          | insert => exact .inl hp
          | _ => cases hp
      | _ => cases hp
  | flushTake | flushFails | guardPasses => exact .inl hp
  | guardSkips _ _ _ hgeneration =>
      cases hp
      exact absurd rfl hgeneration
  | store _ _ generation =>
      cases hp
      exact .inr ⟨rfl, rfl⟩
  | _ => cases hp

/-- A thread that accounts for an entry still does after a step that leaves the
entry in memory. -/
theorem excuse_taken {s : Shared ν} {effect : Effect ν} {p p' : Position ν} {entry : Entry ν}
    (h : Taken t a s p effect p') (hbefore : s.memory.lookup key = some entry)
    (hafter : (effect.apply s).memory.lookup key = some entry)
    (hstore : ∀ generation, p ≠ .store key entry generation)
    (hp : Excuse key entry s.clearGeneration p) : Excuse key entry s.clearGeneration p' := by
  rcases hp with hclearing | ⟨other, hlanding⟩ | ⟨generation, hunchecked, hne⟩
  · cases h with
    | wipeTable | wipeTableFails | wipeQueue => exact .inl rfl
    | wipeMemory => simp [Effect.apply] at hafter
    | _ => cases hclearing
  · rcases landing_taken h hlanding with hlands | ⟨rfl, rfl⟩
    · exact .inr (.inl ⟨other, hlands⟩)
    · simp only [Effect.apply, AList.lookup_insert, Option.some.injEq] at hafter
      exact absurd (by rw [hafter]) (hstore s.clearGeneration)
  · cases h with
    | recheckFails => exact .inr (.inr ⟨generation, hunchecked, hne⟩)
    | recheckPasses _ _ _ hgeneration =>
        cases hunchecked
        exact absurd hgeneration.symm hne
    | rollback =>
        cases hunchecked
        simp [Effect.apply] at hafter
    | rollbackSkips _ _ _ hother =>
        cases hunchecked
        exact absurd rfl (hother entry hbefore)
    | _ => cases hunchecked

theorem mirrored_memory (hguard : MirrorGuard key c t a) (h : c.step program t a = some d)
    (hc : Mirrored key c) {entry : Entry ν} (hrow : d.shared.memory.lookup key = some entry) :
    latest key d.shared = some entry.copy.measurement ∨
      ∃ u, Excuse key entry d.shared.clearGeneration (d.thread u) := by
  obtain ⟨effect, _, htaken, hshared, hothers⟩ := taken_of_step h
  by_cases hstore : ∃ generation, c.thread t = .store key entry generation
  · -- the second copy of an insert
    obtain ⟨generation, hp⟩ := hstore
    have heffect : effect = .store key entry ∧ d.thread t = .recheck key entry generation := by
      rw [hp] at htaken
      generalize d.thread t = p' at htaken
      cases htaken
      exact ⟨rfl, rfl⟩
    obtain ⟨rfl, hp'⟩ := heffect
    have hgeneration : d.shared.clearGeneration = c.shared.clearGeneration := by rw [hshared]; rfl
    by_cases hcurrent : generation = c.shared.clearGeneration
    · left
      rw [hshared]
      exact hc.landing t entry (by rw [hp, hcurrent]; rfl)
    · refine .inr ⟨t, .inr (.inr ⟨generation, by rw [hp']; rfl, ?_⟩)⟩
      rwa [hgeneration]
  · have hafter := hrow
    rw [hshared] at hafter
    have hbefore : c.shared.memory.lookup key = some entry := by
      refine (Effect.apply_memory_cases hafter).resolve_left ?_
      rintro rfl
      obtain ⟨generation, hp, _⟩ := taken_store htaken
      exact hstore ⟨generation, hp⟩
    rcases Effect.apply_clearGeneration c.shared effect with ⟨⟨u, rfl⟩, _⟩ | hgeneration
    · exact .inr ⟨t, .inl (by rw [(taken_bump htaken).2.1]; rfl)⟩
    · rw [← hshared] at hgeneration
      rcases hc.memory entry hbefore with hlatest | ⟨u, hexcuse⟩
      · rcases latest_step hguard h hc with hsame | ⟨hclearing, _⟩ | ⟨other, _, hlanding, _⟩
        · exact .inl (hsame.trans hlatest)
        · exact .inr ⟨t, .inl hclearing⟩
        · exact .inr ⟨t, .inr (.inl ⟨other, by rw [hgeneration]; exact hlanding⟩)⟩
      · refine .inr ⟨u, ?_⟩
        rw [hgeneration]
        by_cases hut : u = t
        · subst hut
          exact excuse_taken htaken hbefore hafter (not_exists.mp hstore) hexcuse
        · rw [hothers u hut]
          exact hexcuse

theorem mirrored_step (hguard : MirrorGuard key c t a) (h : c.step program t a = some d)
    (hc : Mirrored key c) : Mirrored key d := by
  obtain ⟨effect, _, htaken, hshared, hothers⟩ := taken_of_step h
  refine ⟨sound_step h hc.sound, ?_, fun u => ?_, fun entry => mirrored_memory hguard h hc,
    fun u entry => mirrored_landing hguard h hc, fun u => mirrored_wiping hguard h hc⟩
  · rw [hshared]
    have honline := hc.online
    cases effect with
    | untable | commit | wipeTable => simpa [Effect.apply] using honline
    | _ => exact honline
  · by_cases hut : u = t
    · subst hut
      exact taken_sparing htaken (hc.sparing u) hguard.1.call hguard.1.flush hguard.1.victims
        hguard.2.encodes
    · rw [hothers u hut]
      exact hc.sparing u

theorem Initial.mirrors (h : Initial c) (hopen : c.shared.table ≠ none) (key : Key) :
    Mirrored key c where
  sound := h.sound
  online := hopen
  sparing u := by
    rw [h.idle u]
    trivial
  memory entry hrow := by
    obtain ⟨rows, stored, hrows, hlookup, hcopy⟩ := h.mirrored key entry hrow
    left
    simp [latest, queued, committed, h.queue, h.inFlight, hrows, hlookup, hcopy]
  landing u entry hu := by
    rw [h.idle u] at hu
    cases hu
  wiping u hu := by
    rw [h.idle u] at hu
    cases hu

/-- The bytes of `entry` are queued under the current generation, or committed. -/
def OnDisk (key : Key) (entry : Entry ν) (s : Shared ν) : Prop :=
  (∃ stored, s.queue.lookup key = some (s.clearGeneration, stored) ∧
    stored.copy.measurement = entry.copy.measurement) ∨
  ∃ rows stored, s.table = some rows ∧ rows.lookup key = some (some stored) ∧
    stored.copy.measurement = entry.copy.measurement

theorem onDisk_of_latest {s : Shared ν} {entry : Entry ν} (hflight : s.inFlight = ∅)
    (h : latest key s = some entry.copy.measurement) : OnDisk key entry s := by
  rw [latest] at h
  cases hqueued : queued key s with
  | some measurement =>
      rw [hqueued, Option.some_or] at h
      cases h
      obtain ⟨⟨tag, stored⟩, hrow, htag⟩ := Option.bind_eq_some_iff.mp hqueued
      split at htag
      · rename_i hcurrent
        simp only at hcurrent
        rw [hcurrent] at hrow
        exact .inl ⟨stored, hrow, Option.some.inj htag⟩
      · cases htag
  | none =>
      rw [hqueued, Option.none_or, committed, hflight] at h
      simp only [AList.lookup_empty] at h
      obtain ⟨row, hrow, hmeasurement⟩ := Option.bind_eq_some_iff.mp h
      obtain ⟨rows, hrows, hlookup⟩ := Option.bind_eq_some_iff.mp hrow
      obtain ⟨stored, rfl, hstored⟩ := Option.map_eq_some_iff.mp hmeasurement
      exact .inr ⟨rows, stored, hrows, hlookup, hstored⟩

/-- Whenever no insert and no clear is in progress, an entry of memory has its
bytes in the queue or in the table: in every run in which an insert of the key
encodes, is not queued under the new generation of a clear that has yet to wipe
the queue, does not overlap with another between its two copies, and does not
shadow a newer one after it was superseded. -/
theorem copies_together_when_unraced {c₀ : Config (Shared ν) (Position ν)}
    {acts : List (Nat × Action ν)} {entry : Entry ν} (hinitial : Initial c₀)
    (hopen : c₀.shared.table ≠ none) (hrun : Runs program (MirrorGuard key) c₀ acts d)
    (hquiet : ∀ u, d.thread u = .idle) (hrow : d.shared.memory.lookup key = some entry) :
    OnDisk key entry d.shared := by
  have hmirrored : Mirrored key d :=
    hrun.invariant (fun _ _ _ _ => mirrored_step) (hinitial.mirrors hopen key)
  have hflight : d.shared.inFlight = ∅ :=
    hmirrored.sound.batch fun u => by rw [hquiet u]; rfl
  apply onDisk_of_latest hflight
  rcases hmirrored.memory entry hrow with hlatest | ⟨u, hexcuse⟩
  · exact hlatest
  · rw [hquiet u] at hexcuse
    rcases hexcuse with h | ⟨_, h⟩ | ⟨_, h, _⟩ <;> cases h

/-! ## Runs on fixed schedules -/

def Position.queuesUnder : Position ν → Option Nat
  | persist _ _ generation _ => some generation
  | _ => none

/-- A step of thread 0 that queues under the current generation, if at all. -/
def Alone (key : Key) (c : Config (Shared ν) (Position ν)) (t : Nat) (a : Action ν) : Prop :=
  Spares key c t a ∧ t = 0 ∧ a.encodeFails = false ∧
    (c.thread t).queuesUnder.all (fun generation => decide (generation = c.shared.clearGeneration))

instance (key : Key) (c : Config (Shared ν) (Position ν)) (t : Nat) (a : Action ν) :
    Decidable (Alone key c t a) :=
  inferInstanceAs (Decidable (_ ∧ _ ∧ _ ∧ _))

theorem Alone.mirrorGuard (h : Alone key c t a) (hothers : ∀ u, u ≠ 0 → c.thread u = .idle) :
    MirrorGuard key c t a := by
  obtain ⟨hspares, rfl, hencodes, hunder⟩ := h
  have hcurrent : ∀ entry generation caller, c.thread 0 = .persist key entry generation caller →
      generation = c.shared.clearGeneration := by
    intro entry generation caller hp
    simpa [hp, Position.queuesUnder] using hunder
  refine ⟨hspares, ⟨fun _ _ _ _ => hencodes,
      fun entry caller hp => ⟨fun u => ?_, fun u other => ?_⟩,
    fun entry generation caller hp hne => absurd (hcurrent entry generation caller hp) hne⟩⟩
  · by_cases hu : u = 0
    · rw [hu, hp]
      rfl
    · rw [hothers u hu]
      rfl
  · by_cases hu : u = 0
    · rw [hu, hp]
      simp [Position.landing]
    · rw [hothers u hu]
      simp [Position.landing]

/-- An insert, a clear and another insert, one after the other. -/
theorem copies_together_after_clear :
    ∃ (acts : List (Nat × Action Nat)) (d : Config (Shared Nat) (Position Nat)) (entry : Entry Nat),
      Runs program (MirrorGuard "k") (opened Nat) acts d ∧ (∀ u, d.thread u = .idle) ∧
      d.shared.clearGeneration = 1 ∧ d.shared.memory.lookup "k" = some entry ∧
      OnDisk "k" entry d.shared := by
  have hrun : (((opened Nat).run program (Alone "k")
      [(0, { call := .insert "k" 1 }), (0, {}), (0, {}), (0, {}), (0, {}), (0, {}),
        (0, { call := .clear }), (0, {}), (0, {}), (0, {}), (0, {}),
        (0, { call := .insert "k" 2 }), (0, {}), (0, {}), (0, {}), (0, {}), (0, {})]).any fun d =>
      (d.thread 0).isIdle && decide (d.shared.clearGeneration = 1) &&
        (d.shared.memory.lookup "k").isSome) = true := by
    decide
  obtain ⟨d, halone, htest⟩ := Runs.of_run_any hrun
  obtain ⟨htests, hsome⟩ := Bool.and_eq_true_iff.mp htest
  obtain ⟨hidle, hgeneration⟩ := Bool.and_eq_true_iff.mp htests
  obtain ⟨entry, hentry⟩ := Option.isSome_iff_exists.mp hsome
  have hguarded := halone.with_invariant (I := fun c => ∀ u, u ≠ 0 → c.thread u = .idle)
    (fun c d t a hguard hstep hc u hu => by
      rw [Config.thread_of_step_ne hstep (by rw [hguard.2.1]; exact hu)]
      exact hc u hu)
    fun u _ => rfl
  have hruns := hguarded.mono fun _ _ _ h => h.1.mirrorGuard h.2
  have hquiet : ∀ u, d.thread u = .idle := by
    intro u
    by_cases hu : u = 0
    · rw [hu]
      exact Position.eq_idle hidle
    · exact (initial_opened Nat).idle_of_runs halone (by simp [hu])
  exact ⟨_, d, entry, hruns, hquiet, of_decide_eq_true hgeneration, hentry,
    copies_together_when_unraced (initial_opened Nat) (by simp [opened]) hruns hquiet hentry⟩

/-- A clear bumps the generation; an insert captures the new one and queues its
bytes; the clear wipes the queue and memory; the insert mirrors its entry. -/
theorem copies_apart_after_clear :
    ¬ ∀ (c₀ d : Config (Shared Nat) (Position Nat)) (key : Key)
      (acts : List (Nat × Action Nat)) (entry : Entry Nat),
      Initial c₀ → c₀.shared.table ≠ none → Runs program (Spares key) c₀ acts d →
      (∀ u, d.thread u = .idle) → d.shared.memory.lookup key = some entry →
      OnDisk key entry d.shared := by
  intro htogether
  have hrun : (((opened Nat).run program (Spares "k")
      [(1, { call := .clear }), (0, { call := .insert "k" 1 }), (0, {}),
        (1, {}), (1, {}), (1, {}), (1, {}), (0, {}), (0, {}), (0, {}), (0, {})]).any fun d =>
      ((d.thread 0).isIdle && (d.thread 1).isIdle) && (d.shared.memory.lookup "k").isSome &&
        ((d.shared.queue.lookup "k").isNone &&
          (d.shared.table.bind fun rows => rows.lookup "k").isNone)) = true := by
    decide
  obtain ⟨d, hruns, htest⟩ := Runs.of_run_any hrun
  obtain ⟨htests, hnones⟩ := Bool.and_eq_true_iff.mp htest
  obtain ⟨hidles, hsome⟩ := Bool.and_eq_true_iff.mp htests
  obtain ⟨hidle₀, hidle₁⟩ := Bool.and_eq_true_iff.mp hidles
  obtain ⟨hqueue, htable⟩ := Bool.and_eq_true_iff.mp hnones
  obtain ⟨entry, hentry⟩ := Option.isSome_iff_exists.mp hsome
  have hquiet : ∀ u, d.thread u = .idle := by
    intro u
    by_cases h₀ : u = 0
    · rw [h₀]
      exact Position.eq_idle hidle₀
    · by_cases h₁ : u = 1
      · rw [h₁]
        exact Position.eq_idle hidle₁
      · exact (initial_opened Nat).idle_of_runs hruns (by simp [h₀, h₁])
  rcases htogether _ d "k" _ entry (initial_opened Nat) (by simp [opened]) hruns hquiet hentry with
    ⟨stored, hrow, _⟩ | ⟨rows, stored, hrows, hrow, _⟩
  · simp [hrow] at hqueue
  · simp [hrows, hrow] at htable

end ImportLens.Cache.Concurrent
