import ImportLens.Cache.Concurrent.Mirror
import ImportLens.Cache.Concurrent.Removal

/-!
# Evictions against a newer insert

A read judges the entry it fetched, and evicts it if its files have changed.
In memory it removes the entry it judged and no other, by identity.  On disk it
removes the key.  An insert that queued its bytes after the fetch and has not
reached memory yet loses them to such a removal, and so does one that queues
them while the removal is under way.
-/

namespace ImportLens.Cache.Concurrent

open ImportLens.Support

variable {ν : Type}

/-! ## Identities and writers -/

def Caller.unstored (entry : Entry ν) : Caller ν → Option (Entry ν)
  | insert => some entry
  | _ => none

def Return.unstored : Return ν → Option (Entry ν)
  | persisted _ entry _ caller => caller.unstored entry
  | _ => none

def Position.unstored : Position ν → Option (Entry ν)
  | persist _ entry _ caller => caller.unstored entry
  | flush after | flushWrite after | flushRequeue after => after.unstored
  | markDirty _ entry _ | guard _ entry _ | store _ entry _
  | judgeFetched _ entry (.hydrate _ _) => some entry
  | _ => none

/-- Every copy is by an insert that has started, and no two entries share their
cell. -/
structure History (c : Config (Shared ν) (Position ν)) : Prop where
  memory : c.shared.memory.All fun _ entry =>
    entry.copy.writer < c.shared.nextWriter ∧ entry.cell < c.shared.heap.next
  queue : c.shared.queue.All fun _ tagged => tagged.2.copy.writer < c.shared.nextWriter
  inFlight : c.shared.inFlight.All fun _ stored => stored.copy.writer < c.shared.nextWriter
  table : c.shared.TableAll fun _ row =>
    ∀ stored, row = some stored → stored.copy.writer < c.shared.nextWriter
  unstored : ∀ t entry, (c.thread t).unstored = some entry →
    entry.copy.writer < c.shared.nextWriter ∧ entry.cell < c.shared.heap.next
  repersists : ∀ t generation entries, (c.thread t).repersists = some (generation, entries) →
    ∀ row ∈ entries, row.2.copy.writer < c.shared.nextWriter
  fresh : ∀ t entry, (c.thread t).unstored = some entry →
    c.shared.memory.All fun _ current => current.cell ≠ entry.cell
  distinct : ∀ t u entry other, t ≠ u → (c.thread t).unstored = some entry →
    (c.thread u).unstored = some other → entry.cell ≠ other.cell

section

variable {s : Shared ν} {effect : Effect ν} {t : Nat} {a : Action ν} {p p' : Position ν}

@[simp] theorem Caller.unstored_ok {key : Key} {entry : Entry ν} {generation : Nat}
    (caller : Caller ν) : (caller.ok key entry generation).unstored = caller.unstored entry := by
  cases caller <;> rfl

@[simp] theorem Caller.unstored_failed {key : Key} {entry : Entry ν} {generation : Nat}
    (caller : Caller ν) :
    (caller.failed key entry generation).unstored = caller.unstored entry := by
  cases caller <;> rfl

@[simp] theorem Return.unstored_position (after : Return ν) :
    after.position.unstored = after.unstored := by
  cases after with
  | persisted _ _ _ caller => exact caller.unstored_ok
  | _ => rfl

/-- A new entry gets the next cell. -/
theorem taken_unstored (h : Taken t a s p effect p') {entry : Entry ν}
    (hp : p'.unstored = some entry) :
    p.unstored = some entry ∨
    entry.cell = s.heap.next ∧ (effect.apply s).heap.next = s.heap.next + 1 ∧
      (entry.copy.writer = s.nextWriter ∧ (effect.apply s).nextWriter = s.nextWriter + 1 ∨
      ∃ key stored, entry.copy.writer = stored.copy.writer ∧
        (s.queue.lookup key = some (s.clearGeneration, stored) ∨
        ∃ rows, s.table = some rows ∧ rows.lookup key = some (some stored))) := by
  cases h with
  | insert key value _ entry' hentry =>
      cases hp
      exact .inr ⟨by rw [hentry], rfl, .inl ⟨by rw [hentry], rfl⟩⟩
  | fetchedQueue key reader stored hqueue =>
      cases reader with
      | peek => cases hp
      | hydrate generation mode =>
          cases hp
          exact .inr ⟨rfl, rfl, .inr ⟨key, stored, rfl, .inl hqueue⟩⟩
  | fetchedTable key reader stored rows hrows hrow =>
      cases reader with
      | peek => cases hp
      | hydrate generation mode =>
          cases hp
          exact .inr ⟨rfl, rfl, .inr ⟨key, stored, rfl, .inr ⟨rows, hrows, hrow⟩⟩⟩
  | enqueue _ _ _ caller _ _ _ _ _ hafter =>
      rcases hafter with rfl | rfl
      · exact .inl (by rwa [Caller.unstored_ok] at hp)
      · exact .inl hp
  | offline => exact .inl (by rwa [Caller.unstored_ok] at hp)
  | encodeFails => exact .inl (by rwa [Caller.unstored_failed] at hp)
  | flushNothing | flushDiscard | commit | requeue =>
      exact .inl (by rwa [Return.unstored_position] at hp)
  | flushTake | flushFails | markDirty | guardPasses | mirror => exact .inl hp
  | _ => cases hp

theorem Effect.le_apply_next (s : Shared ν) (effect : Effect ν) :
    s.heap.next ≤ (effect.apply s).heap.next ∧ s.nextWriter ≤ (effect.apply s).nextWriter := by
  cases effect with
  | born => exact ⟨Nat.le_succ _, Nat.le_succ _⟩
  | hydrate => exact ⟨Nat.le_succ _, le_rfl⟩
  | _ => exact ⟨le_rfl, le_rfl⟩

end

variable {c d : Config (Shared ν) (Position ν)} {t : Nat} {a : Action ν}

theorem Initial.hasHistory (h : Initial c) : History c where
  memory := by
    intro key entry hrow
    obtain ⟨rows, stored, hrows, hlookup, hcopy⟩ := h.mirrored key entry hrow
    refine ⟨?_, h.cells key entry hrow⟩
    rw [hcopy]
    exact (h.history rows hrows key _ hlookup stored rfl).1
  queue := by
    rw [h.queue]
    exact Keyed.all_empty _
  inFlight := by
    rw [h.inFlight]
    exact Keyed.all_empty _
  table rows hrows key row hrow stored hstored :=
    (h.history rows hrows key row hrow stored hstored).1
  unstored u entry hu := by
    rw [h.idle u] at hu
    cases hu
  repersists u generation entries hu := by
    rw [h.idle u] at hu
    cases hu
  fresh u entry hu := by
    rw [h.idle u] at hu
    cases hu
  distinct u v entry other _ hu := by
    rw [h.idle u] at hu
    cases hu

theorem History.enqueued (hc : History c) {key : Key} {entry : Entry ν} {generation : Nat}
    {caller : Caller ν} (hp : c.thread t = .persist key entry generation caller) :
    entry.copy.writer < c.shared.nextWriter := by
  have hremaining : ∀ entries, caller.remaining = some entries →
      entry.copy.writer < c.shared.nextWriter := by
    intro entries hentries
    refine hc.repersists t generation ((key, entry) :: entries) ?_ (key, entry) (by simp)
    simp [hp, Position.repersists, hentries]
  cases caller with
  | insert => exact (hc.unstored t entry (by rw [hp]; rfl)).1
  | cap => exact hremaining _ rfl
  | replay => exact hremaining _ rfl
  | sweep => exact hremaining _ rfl

theorem unstored_step (h : c.step program t a = some d) {u : Nat} {entry : Entry ν}
    (hu : (d.thread u).unstored = some entry) :
    (c.thread u).unstored = some entry ∨ u = t ∧ entry.cell = c.shared.heap.next := by
  obtain ⟨effect, _, htaken, _, hothers⟩ := taken_of_step h
  by_cases hut : u = t
  · subst hut
    rcases taken_unstored htaken hu with hbefore | ⟨hcell, _⟩
    · exact .inl hbefore
    · exact .inr ⟨rfl, hcell⟩
  · rw [hothers u hut] at hu
    exact .inl hu

theorem history_step (h : c.step program t a = some d) (hc : History c) : History d := by
  obtain ⟨effect, _, htaken, hshared, hothers⟩ := taken_of_step h
  obtain ⟨hnext, hwriter⟩ := Effect.le_apply_next c.shared effect
  rw [← hshared] at hnext hwriter
  constructor
  case memory =>
    rw [hshared] at hnext hwriter ⊢
    refine Effect.apply_memory_all ?_ ?_
    · intro key entry hrow
      obtain ⟨hw, hcell⟩ := hc.memory key entry hrow
      exact ⟨hw.trans_le hwriter, hcell.trans_le hnext⟩
    · rintro key entry rfl
      obtain ⟨generation, hp, _⟩ := taken_store htaken
      obtain ⟨hw, hcell⟩ := hc.unstored t entry (by rw [hp]; rfl)
      exact ⟨hw.trans_le hwriter, hcell.trans_le hnext⟩
  case queue =>
    rw [hshared] at hwriter ⊢
    refine Effect.apply_queue_all ?_ ?_ ?_
    · exact fun key tagged hrow => (hc.queue key tagged hrow).trans_le hwriter
    · rintro key generation stored rfl
      obtain ⟨entry, caller, hp, hstored⟩ := taken_enqueue htaken
      rw [hstored]
      exact (hc.enqueued hp).trans_le hwriter
    · exact fun _ key stored hrow => (hc.inFlight key stored hrow).trans_le hwriter
  case inFlight =>
    rw [hshared] at hwriter ⊢
    refine Effect.apply_inFlight_all ?_ ?_
    · exact fun key stored hrow => (hc.inFlight key stored hrow).trans_le hwriter
    · exact fun _ _ key tagged hrow _ => (hc.queue key tagged hrow).trans_le hwriter
  case table =>
    rw [hshared] at hwriter ⊢
    refine Effect.apply_tableAll ?_ ?_
    · exact fun rows hrows key row hrow stored hstored =>
        (hc.table rows hrows key row hrow stored hstored).trans_le hwriter
    · rintro _ key stored hrow _ ⟨⟩
      exact (hc.inFlight key stored hrow).trans_le hwriter
  case unstored =>
    intro u entry hu
    by_cases hut : u = t
    · subst hut
      rcases taken_unstored htaken hu with hbefore | ⟨hcell, hbumped, hcase⟩
      · obtain ⟨hw, hlt⟩ := hc.unstored u entry hbefore
        exact ⟨hw.trans_le hwriter, hlt.trans_le hnext⟩
      · rw [← hshared] at hbumped hcase
        refine ⟨?_, by omega⟩
        rcases hcase with ⟨hw, hborn⟩ | ⟨key, stored, hw, hqueue | ⟨rows, hrows, hrow⟩⟩
        · omega
        · rw [hw]
          exact (hc.queue key _ hqueue).trans_le hwriter
        · rw [hw]
          exact (hc.table rows hrows key _ hrow stored rfl).trans_le hwriter
    · rw [hothers u hut] at hu
      obtain ⟨hw, hlt⟩ := hc.unstored u entry hu
      exact ⟨hw.trans_le hwriter, hlt.trans_le hnext⟩
  case repersists =>
    intro u generation entries hu row hrow
    refine lt_of_lt_of_le ?_ hwriter
    by_cases hut : u = t
    · subst hut
      rcases taken_repersists htaken hu with ⟨carried, hcarried, hrows⟩ | ⟨_, rfl⟩
      · rcases hrows row hrow with hin | ⟨_, hlookup⟩
        · exact hc.repersists u generation carried hcarried row hin
        · exact (hc.memory row.1 row.2 hlookup).1
      · simp at hrow
    · rw [hothers u hut] at hu
      exact hc.repersists u generation entries hu row hrow
  case fresh =>
    intro u entry hu key current hrow
    rw [hshared] at hrow
    rcases Effect.apply_memory_cases hrow with rfl | hbefore
    · -- the stored entry was unstored before, and `u` carries another one
      obtain ⟨generation, hp, hp'⟩ := taken_store htaken
      have hut : u ≠ t := by
        rintro rfl
        rw [hp'] at hu
        cases hu
      rw [hothers u hut] at hu
      exact hc.distinct t u current entry (Ne.symm hut) (by rw [hp]; rfl) hu
    · rcases unstored_step h hu with hold | ⟨_, hcell⟩
      · exact hc.fresh u entry hold key current hbefore
      · have := (hc.memory key current hbefore).2
        omega
  case distinct =>
    intro u v entry other huv hu hv
    rcases unstored_step h hu with hu | ⟨rfl, hcell⟩
    · rcases unstored_step h hv with hv | ⟨rfl, hcell⟩
      · exact hc.distinct u v entry other huv hu hv
      · have := (hc.unstored u entry hu).2
        omega
    · rcases unstored_step h hv with hv | ⟨rfl, _⟩
      · have := (hc.unstored v other hv).2
        omega
      · exact absurd rfl huv

theorem history_of_runs {guard : Config (Shared ν) (Position ν) → Nat → Action ν → Prop}
    {acts : List (Nat × Action ν)} (h : Runs program guard c acts d) (hc : History c) : History d :=
  h.invariant (fun _ _ _ _ _ => history_step) hc

/-! ## Copies of newer inserts -/

/-- The disk layer holds no copy of `key` by insert `w` or a later one. -/
structure NoNewer (key : Key) (w : Nat) (s : Shared ν) : Prop where
  queue : s.queue.All fun key' tagged => key' = key → tagged.2.copy.writer < w
  inFlight : s.inFlight.All fun key' stored => key' = key → stored.copy.writer < w
  table : s.TableAll fun key' row => key' = key → ∀ stored, row = some stored →
    stored.copy.writer < w

theorem NoNewer.apply {key : Key} {w : Nat} {s : Shared ν} {effect : Effect ν}
    (h : NoNewer key w s)
    (henqueue : ∀ generation stored, effect = .enqueue key generation stored →
      stored.copy.writer < w) : NoNewer key w (effect.apply s) where
  queue := by
    refine Effect.apply_queue_all h.queue ?_ fun _ => h.inFlight
    rintro key' generation stored heffect rfl
    exact henqueue generation stored heffect
  inFlight := Effect.apply_inFlight_all h.inFlight fun _ _ key' tagged hrow _ =>
    h.queue key' tagged hrow
  table := by
    refine Effect.apply_tableAll h.table ?_
    rintro _ key' stored hrow hkey _ ⟨⟩
    exact h.inFlight key' stored hrow hkey

theorem History.noNewer (hc : History c) (key : Key) :
    NoNewer key c.shared.nextWriter c.shared where
  queue key' tagged hrow _ := hc.queue key' tagged hrow
  inFlight key' stored hrow _ := hc.inFlight key' stored hrow
  table rows hrows key' row hrow _ := hc.table rows hrows key' row hrow

/-- Memory holds another entry than the one with this cell, or none. -/
def Moved (key : Key) (cell : Nat) (s : Shared ν) : Prop :=
  ∀ entry, s.memory.lookup key = some entry → entry.cell ≠ cell

/-! ## The read -/

def Call.clears : Call ν → Bool
  | .clear => true
  | _ => false

namespace Position

def reading : Position ν → Bool
  | touch _ _ _ | judge _ _ _ | evict _ _ | judgeFetched _ _ _ | removeQueue _ | removeTable _ =>
      true
  | _ => false

/-- A read has fetched `key` from disk, or is removing it there. -/
def condemns (key : Key) : Position ν → Bool
  | judgeFetched key' _ _ => key' == key
  | removeQueue covers | removeTable covers => covers key
  | _ => false

def Judges (key : Key) (entry : Entry ν) : Position ν → Prop
  | touch key' entry' _ | judge key' entry' _ => key' = key ∧ entry' = entry
  | evict key' cell => key' = key ∧ cell = entry.cell
  | _ => False

end Position

/-- The section with which a read gets the entry it will judge. -/
inductive Fetched (key : Key) : Position ν → Position ν → Prop
  | memory (entry mode) : Fetched key .idle (.touch key entry mode)
  | queue (entry reader) : Fetched key (.fetchQueue key reader) (.judgeFetched key entry reader)
  | table (entry reader) : Fetched key (.fetchTable key reader) (.judgeFetched key entry reader)
  | refused (reader) :
      Fetched key (.fetchTable key reader) (.removeQueue fun key' => key' == key)

/-- Thread `r` is still reading, and no clear starts. -/
structure Reading (r : Nat) (c : Config (Shared ν) (Position ν)) (t : Nat) (a : Action ν) :
    Prop where
  reading : (c.thread r).reading = true
  noClear : (c.thread t).isIdle = true → a.call.clears = false

instance (r : Nat) (c : Config (Shared ν) (Position ν)) (t : Nat) (a : Action ν) :
    Decidable (Reading r c t a) :=
  decidable_of_iff
    ((c.thread r).reading = true ∧ ((c.thread t).isIdle = true → a.call.clears = false))
    ⟨fun h => ⟨h.1, h.2⟩, fun h => ⟨h.reading, h.noClear⟩⟩

/-- The eviction of `key` by `r` stays apart from the inserts of `key` from `w`
on: when it removes the entry from memory, none of them is between its two
copies; and none of them is queued while `r` is on the disk. -/
structure Apart (r : Nat) (key : Key) (w : Nat) (c : Config (Shared ν) (Position ν)) (t : Nat)
    (a : Action ν) : Prop where
  memory : t = r → ∀ cell current, c.thread r = .evict key cell →
    c.shared.memory.lookup key = some current → current.cell = cell →
    ∀ u entry generation, (c.thread u).landing = some (key, entry, generation) →
      entry.copy.writer < w
  disk : (c.thread r).condemns key = true → ∀ generation stored position,
    next t a c.shared (c.thread t) = some (.enqueue key generation stored, position) →
      stored.copy.writer < w

/-! ## The invariant -/

/-- While a read judges an entry of memory: a newer copy on disk means that
memory has moved on, or that its insert is about to move it. -/
structure Judging (key : Key) (w : Nat) (judged : Entry ν)
    (c : Config (Shared ν) (Position ν)) : Prop where
  cell : judged.cell < c.shared.heap.next
  unstored : ∀ u entry, (c.thread u).unstored = some entry → entry.cell ≠ judged.cell
  same : ∀ entry, c.shared.memory.lookup key = some entry → entry.cell = judged.cell →
    entry.copy.writer < w
  newer : NoNewer key w c.shared ∨ Moved key judged.cell c.shared ∨
    ∃ u entry, (c.thread u).landing = some (key, entry, c.shared.clearGeneration) ∧
      w ≤ entry.copy.writer
  repersists : ∀ u generation entries, (c.thread u).repersists = some (generation, entries) →
    ∀ row ∈ entries, row.1 = key → w ≤ row.2.copy.writer → Moved key judged.cell c.shared
  births : ∀ u key' entry generation, c.thread u = .persist key' entry generation .insert →
    w ≤ entry.copy.writer → generation = c.shared.clearGeneration

variable {key : Key} {w r : Nat} {judged : Entry ν}

theorem moved_step (h : c.step program t a = some d) (hc : Judging key w judged c)
    (hmoved : Moved key judged.cell c.shared) : Moved key judged.cell d.shared := by
  obtain ⟨effect, _, htaken, hshared, _⟩ := taken_of_step h
  intro entry hrow
  rw [hshared] at hrow
  rcases Effect.apply_memory_cases hrow with rfl | hbefore
  · obtain ⟨generation, hp, _⟩ := taken_store htaken
    exact hc.unstored t entry (by rw [hp]; rfl)
  · exact hmoved entry hbefore

theorem clearGeneration_of_reading (hguard : Reading r c t a) (h : c.step program t a = some d) :
    d.shared.clearGeneration = c.shared.clearGeneration := by
  obtain ⟨effect, _, htaken, hshared, _⟩ := taken_of_step h
  rw [hshared]
  rcases Effect.apply_clearGeneration c.shared effect with ⟨⟨u, rfl⟩, _⟩ | hsame
  · have hclears := hguard.noClear
    generalize c.thread t = p at htaken hclears
    generalize d.thread t = p' at htaken
    cases htaken with
    | bump hcall _ =>
        have := hclears rfl
        rw [hcall] at this
        cases this
    | mirror _ _ _ _ _ heffect => rcases heffect with heq | heq <;> cases heq
  · exact hsame

/-- A newer copy is queued by an insert that is then landing, or by a re-persist
of an entry that has replaced the judged one. -/
theorem newer_enqueued {effect : Effect ν} {p' : Position ν} {generation : Nat}
    {stored : Stored ν} (hc : Judging key w judged c)
    (htaken : Taken t a c.shared (c.thread t) effect p')
    (heffect : effect = .enqueue key generation stored) (hnewer : w ≤ stored.copy.writer) :
    Moved key judged.cell c.shared ∨
      ∃ entry, p'.landing = some (key, entry, c.shared.clearGeneration) ∧
        w ≤ entry.copy.writer := by
  have hbirths := hc.births t
  have hrepersists := hc.repersists t
  generalize c.thread t = p at htaken hbirths hrepersists
  cases htaken with
  | enqueue key' entry generation' caller stored' after _ _ hstored hafter =>
      cases heffect
      rw [hstored] at hnewer
      have hremaining : ∀ entries, caller.remaining = some entries →
          Moved key judged.cell c.shared := by
        intro entries hentries
        refine hrepersists generation ((key, entry) :: entries) ?_ (key, entry) (by simp) rfl hnewer
        simp [Position.repersists, hentries]
      cases caller with
      | insert =>
          have hcurrent := hbirths key entry generation rfl hnewer
          subst hcurrent
          right
          refine ⟨entry, ?_, hnewer⟩
          rcases hafter with rfl | rfl <;> rfl
      | cap => exact .inl (hremaining _ rfl)
      | replay => exact .inl (hremaining _ rfl)
      | sweep => exact .inl (hremaining _ rfl)
  | mirror _ _ _ _ _ heither =>
      rw [heffect] at heither
      rcases heither with heq | heq <;> cases heq
  | _ => cases heffect

theorem judging_newer (hguard : Reading r c t a) (h : c.step program t a = some d)
    (hc : Judging key w judged c) :
    NoNewer key w d.shared ∨ Moved key judged.cell d.shared ∨
      ∃ u entry, (d.thread u).landing = some (key, entry, d.shared.clearGeneration) ∧
        w ≤ entry.copy.writer := by
  have hgeneration := clearGeneration_of_reading hguard h
  obtain ⟨effect, _, htaken, hshared, hothers⟩ := taken_of_step h
  rcases hc.newer with hnone | hmoved | ⟨u, entry, hlanding, hw⟩
  · by_cases henqueue : ∃ generation stored, effect = .enqueue key generation stored ∧
        w ≤ stored.copy.writer
    · obtain ⟨generation, stored, heffect, hw⟩ := henqueue
      rcases newer_enqueued hc htaken heffect hw with hmoved | ⟨entry, hlanding, hentry⟩
      · exact .inr (.inl (moved_step h hc hmoved))
      · exact .inr (.inr ⟨t, entry, by rw [hgeneration]; exact hlanding, hentry⟩)
    · left
      rw [hshared]
      refine hnone.apply fun generation stored heffect => ?_
      by_contra hge
      exact henqueue ⟨generation, stored, heffect, by omega⟩
  · exact .inr (.inl (moved_step h hc hmoved))
  · by_cases hut : u = t
    · subst hut
      rcases landing_taken htaken hlanding with hlands | ⟨rfl, hp⟩
      · exact .inr (.inr ⟨u, entry, by rw [hgeneration]; exact hlands, hw⟩)
      · -- the insert reaches memory
        refine .inr (.inl ?_)
        intro current hrow
        rw [hshared] at hrow
        simp only [Effect.apply, AList.lookup_insert, Option.some.injEq] at hrow
        rw [← hrow]
        exact hc.unstored u entry (by rw [hp]; rfl)
    · exact .inr (.inr ⟨u, entry, by rw [hothers u hut, hgeneration]; exact hlanding, hw⟩)

theorem taken_birth {s : Shared ν} {effect : Effect ν} {p p' : Position ν} {key' : Key}
    {entry : Entry ν} {generation : Nat} (h : Taken t a s p effect p')
    (hp : p' = .persist key' entry generation .insert) : generation = s.clearGeneration := by
  cases h with
  | insert =>
      cases hp
      rfl
  | offline _ _ _ caller => cases caller <;> cases hp
  | encodeFails _ _ _ caller => cases caller <;> cases hp
  | enqueue _ _ _ caller _ _ _ _ _ hafter =>
      rcases hafter with rfl | rfl
      · cases caller <;> cases hp
      · cases hp
  | flushNothing after | flushDiscard after | commit after | requeue after =>
      cases after with
      | persisted _ _ _ caller => cases caller <;> cases hp
      | _ => cases hp
  | _ => cases hp

theorem judging_step (hguard : Reading r c t a) (h : c.step program t a = some d)
    (hc : Judging key w judged c) : Judging key w judged d := by
  have hgeneration := clearGeneration_of_reading hguard h
  obtain ⟨effect, _, htaken, hshared, hothers⟩ := taken_of_step h
  have hnext := (Effect.le_apply_next c.shared effect).1
  rw [← hshared] at hnext
  refine ⟨hc.cell.trans_le hnext, ?_, ?_, judging_newer hguard h hc, ?_, ?_⟩
  · intro u entry hu
    rcases unstored_step h hu with hbefore | ⟨_, hcell⟩
    · exact hc.unstored u entry hbefore
    · have := hc.cell
      omega
  · intro entry hrow hcell
    rw [hshared] at hrow
    rcases Effect.apply_memory_cases hrow with rfl | hbefore
    · obtain ⟨generation, hp, _⟩ := taken_store htaken
      exact absurd hcell (hc.unstored t entry (by rw [hp]; rfl))
    · exact hc.same entry hbefore hcell
  · intro u generation entries hu row hrow hkey hw
    apply moved_step h hc
    by_cases hut : u = t
    · subst hut
      rcases taken_repersists htaken hu with ⟨carried, hcarried, hrows⟩ | ⟨_, rfl⟩
      · rcases hrows row hrow with hin | ⟨_, hlookup⟩
        · exact hc.repersists u generation carried hcarried row hin hkey hw
        · -- memory held a newer entry, so the judged one has been replaced
          intro current hcurrent hcell
          rw [← hkey, hlookup] at hcurrent
          cases hcurrent
          have := hc.same row.2 (by rw [← hkey]; exact hlookup) hcell
          omega
      · simp at hrow
    · rw [hothers u hut] at hu
      exact hc.repersists u generation entries hu row hrow hkey hw
  · intro u key' entry generation hu hw
    rw [hgeneration]
    by_cases hut : u = t
    · subst hut
      exact taken_birth htaken hu
    · rw [hothers u hut] at hu
      exact hc.births u key' entry generation hu hw

/-- The read judges an entry of memory, or is on the disk and no newer copy is
there, or is over. -/
def Evicting (r : Nat) (key : Key) (w : Nat) (c : Config (Shared ν) (Position ν)) : Prop :=
  (∃ judged, Judging key w judged c ∧ (c.thread r).Judges key judged) ∨
    NoNewer key w c.shared ∧ (c.thread r).condemns key = true ∨ (c.thread r).reading = false

/-- The guard of a run in which an eviction spares newer inserts. -/
def EvictionGuard (r : Nat) (key : Key) (w : Nat) (c : Config (Shared ν) (Position ν)) (t : Nat)
    (a : Action ν) : Prop :=
  Reading r c t a ∧ Apart r key w c t a

/-- When a read removes the judged entry from memory, no newer copy is on disk. -/
theorem noNewer_of_evict (current : Entry ν) (hapart : Apart r key w c r a)
    (hc : Judging key w judged c) (hp : c.thread r = .evict key judged.cell)
    (hrow : c.shared.memory.lookup key = some current) (hcell : current.cell = judged.cell) :
    NoNewer key w c.shared := by
  rcases hc.newer with hnone | hmoved | ⟨u, entry, hlanding, hw⟩
  · exact hnone
  · exact absurd hcell (hmoved current hrow)
  · have := hapart.memory rfl _ current hp hrow hcell u entry _ hlanding
    omega

theorem evicting_step (hguard : EvictionGuard r key w c t a) (h : c.step program t a = some d)
    (hc : Evicting r key w c) : Evicting r key w d := by
  obtain ⟨hreading, hapart⟩ := hguard
  obtain ⟨effect, hnext, htaken, hshared, hothers⟩ := taken_of_step h
  rcases hc with ⟨judged, hjudging, hjudges⟩ | ⟨hnone, hcondemns⟩ | hover
  · by_cases htr : t = r
    · subst htr
      have hstep := judging_step hreading h hjudging
      have hevict := fun current => noNewer_of_evict current hapart hjudging
      generalize c.thread t = p at htaken hjudges hevict
      generalize hp' : d.thread t = p' at htaken
      cases htaken with
      | promote _ _ _ | keepRecency _ _ _ =>
          exact .inl ⟨judged, hstep, by rw [hp']; exact hjudges⟩
      | condemn _ entry _ =>
          obtain ⟨rfl, rfl⟩ := hjudges
          exact .inl ⟨entry, hstep, by rw [hp']; exact ⟨rfl, rfl⟩⟩
      | serve | evictSkips => exact .inr (.inr (by rw [hp']; rfl))
      | evict key' cell current hrow hcell =>
          obtain ⟨rfl, rfl⟩ := hjudges
          refine .inr (.inl ⟨?_, by rw [hp']; simp [Position.condemns]⟩)
          rw [hshared]
          refine (hevict current rfl hrow hcell).apply ?_
          rintro _ _ ⟨⟩
      | _ => cases hjudges
    · refine .inl ⟨judged, judging_step hreading h hjudging, ?_⟩
      rw [hothers r (Ne.symm htr)]
      exact hjudges
  · have hstill : NoNewer key w d.shared := by
      rw [hshared]
      refine hnone.apply ?_
      rintro generation stored rfl
      exact hapart.disk hcondemns generation stored _ hnext
    by_cases htr : t = r
    · subst htr
      generalize c.thread t = p at htaken hcondemns
      generalize hp' : d.thread t = p' at htaken
      cases htaken with
      | condemnFetched key' _ _ =>
          have hkey : key' = key := by simpa [Position.condemns] using hcondemns
          refine .inr (.inl ⟨hstill, ?_⟩)
          rw [hp', hkey]
          simp [Position.condemns]
      | unqueue covers => exact .inr (.inl ⟨hstill, by rw [hp']; exact hcondemns⟩)
      | serveFetched | mirror | untable | untableFails => exact .inr (.inr (by rw [hp']; rfl))
      | _ => cases hcondemns
    · refine .inr (.inl ⟨hstill, ?_⟩)
      rw [hothers r (Ne.symm htr)]
      exact hcondemns
  · have := hreading.reading
    simp [hover] at this

/-- What insert `w` and later ones have left of `key` survives from `s` to `s'`. -/
structure Spared (key : Key) (w : Nat) (s s' : Shared ν) : Prop where
  memory : ∀ entry, s.memory.lookup key = some entry → w ≤ entry.copy.writer →
    s'.memory.lookup key = some entry
  queue : ∀ tagged, s.queue.lookup key = some tagged → w ≤ tagged.2.copy.writer →
    s'.queue.lookup key = some tagged
  table : ∀ rows stored, s.table = some rows → rows.lookup key = some (some stored) →
    w ≤ stored.copy.writer → ∃ rows', s'.table = some rows' ∧ rows'.lookup key = some (some stored)

theorem Spared.of_eq {s s' : Shared ν} (hmemory : s'.memory = s.memory)
    (hqueue : s'.queue = s.queue)
    (htable : s'.table = s.table) : Spared key w s s' where
  memory entry hrow _ := by rw [hmemory, hrow]
  queue tagged hrow _ := by rw [hqueue, hrow]
  table rows stored hrows hrow _ := ⟨rows, by rw [htable, hrows], hrow⟩

theorem spared_of_evicting (hguard : EvictionGuard r key w c r a)
    (h : c.step program r a = some d) (hc : Evicting r key w c) :
    Spared key w c.shared d.shared := by
  obtain ⟨effect, _, htaken, hshared, _⟩ := taken_of_step h
  rw [hshared]
  rcases hc with ⟨judged, hjudging, hjudges⟩ | ⟨hnone, hcondemns⟩ | hover
  · generalize c.thread r = p at htaken hjudges
    generalize d.thread r = p' at htaken
    cases htaken with
    | evict key' cell current hrow hcell =>
        obtain ⟨rfl, rfl⟩ := hjudges
        refine ⟨?_, fun tagged hrow _ => hrow, fun rows stored hrows hrow _ => ⟨rows, hrows, hrow⟩⟩
        intro entry hentry hw
        rw [hrow] at hentry
        cases hentry
        have := hjudging.same current hrow hcell
        omega
    | promote | keepRecency | condemn | serve | evictSkips => exact Spared.of_eq rfl rfl rfl
    | _ => cases hjudges
  · generalize c.thread r = p at htaken hcondemns
    generalize d.thread r = p' at htaken
    cases htaken with
    | unqueue covers =>
        refine ⟨fun entry hrow _ => hrow, ?_, fun rows stored hrows hrow _ => ⟨rows, hrows, hrow⟩⟩
        intro tagged hrow hw
        have := hnone.queue key tagged hrow rfl
        omega
    | untable covers _ =>
        refine ⟨fun entry hrow _ => hrow, fun tagged hrow _ => hrow, ?_⟩
        intro rows stored hrows hrow hw
        have := hnone.table rows hrows key _ hrow rfl stored rfl
        omega
    | mirror _ _ _ _ _ heffect =>
        rcases heffect with rfl | rfl <;> exact Spared.of_eq rfl rfl rfl
    | untableFails | condemnFetched | serveFetched => exact Spared.of_eq rfl rfl rfl
    | _ => cases hcondemns
  · have := hguard.1.reading
    simp [hover] at this

theorem evicting_of_fetch (hc : History c) (h : c.step program r a = some d)
    (hfetched : Fetched key (c.thread r) (d.thread r)) :
    Evicting r key d.shared.nextWriter d := by
  have hd := history_step h hc
  obtain ⟨effect, _, htaken, hshared, _⟩ := taken_of_step h
  generalize c.thread r = p at htaken hfetched
  generalize hp' : d.thread r = p' at htaken hfetched
  cases hfetched with
  | memory entry mode =>
      refine .inl ⟨entry, ?_, by rw [hp']; exact ⟨rfl, rfl⟩⟩
      cases htaken with
      | hit _ _ _ _ hrow =>
          have hrow' : d.shared.memory.lookup key = some entry := by
            rw [hshared]
            exact hrow
          refine ⟨(hd.memory key entry hrow').2, ?_, ?_, .inl (hd.noNewer key), ?_, ?_⟩
          · intro u other hu
            exact Ne.symm (hd.fresh u other hu key entry hrow')
          · intro other hother _
            exact (hd.memory key other hother).1
          · intro u generation entries hu row hin _ hw
            have := hd.repersists u generation entries hu row hin
            omega
          · intro u key' other generation hu hw
            have := (hd.unstored u other (by rw [hu]; rfl)).1
            omega
  | queue | table | refused =>
      exact .inr (.inl ⟨hd.noNewer key, by rw [hp']; simp [Position.condemns]⟩)

/-- A read that evicts the entry it fetched removes no copy of an insert that
started after the fetch: in every run in which none of these inserts is between
its two copies when the read removes its entry from memory, and none is queued
while the read is on the disk. -/
theorem eviction_spares_newer_when_apart {c₀ c₁ d' : Config (Shared ν) (Position ν)}
    {before acts : List (Nat × Action ν)} {a' : Action ν} (hinitial : Initial c₀)
    (hbefore : Runs program (fun _ _ _ => True) c₀ before c)
    (hfetch : c.step program r a = some c₁) (hfetched : Fetched key (c.thread r) (c₁.thread r))
    (hrun : Runs program (EvictionGuard r key c₁.shared.nextWriter) c₁ acts d)
    (hguard : EvictionGuard r key c₁.shared.nextWriter d r a')
    (hstep : d.step program r a' = some d') :
    Spared key c₁.shared.nextWriter d.shared d'.shared := by
  have hhistory : History c := history_of_runs hbefore hinitial.hasHistory
  have hevicting : Evicting r key c₁.shared.nextWriter d :=
    hrun.invariant (fun _ _ _ _ => evicting_step) (evicting_of_fetch hhistory hfetch hfetched)
  exact spared_of_evicting hguard hstep hevicting

theorem apart_of_alone (hreading : (c.thread r).reading = true)
    (hothers : ∀ u, u ≠ r → c.thread u = .idle) : Apart r key w c r a where
  memory _ cell current hp _ _ u entry generation hlanding := by
    by_cases hu : u = r
    · rw [hu, hp] at hlanding
      cases hlanding
    · rw [hothers u hu] at hlanding
      cases hlanding
  disk _ generation stored position hnext := by
    obtain ⟨entry, caller, hp, _⟩ := taken_enqueue (taken_of_next hnext)
    rw [hp] at hreading
    cases hreading

/-- Whether a read has just found `key` in memory. -/
def Position.touches (key : Key) : Position ν → Bool
  | touch key' _ _ => key' == key
  | _ => false

theorem fetched_of_touches {p' : Position ν} (h : p'.touches key = true) :
    Fetched key .idle p' := by
  cases p' with
  | touch key' entry mode =>
      have hkey : key' = key := by simpa [Position.touches] using h
      rw [hkey]
      exact .memory entry mode
  | _ => cases h

/-- A stale entry is evicted, and nothing else happens meanwhile. -/
theorem eviction_alone_spares :
    ∃ c₁ d d' : Config (Shared Nat) (Position Nat),
      Runs program (EvictionGuard 2 "k" c₁.shared.nextWriter) c₁
        [(2, {}), (2, { verdict := .stale })] d ∧
      d.step program 2 {} = some d' ∧ (d.shared.memory.lookup "k").isSome ∧
      (d'.shared.memory.lookup "k").isNone ∧
      Spared "k" c₁.shared.nextWriter d.shared d'.shared := by
  have hrun : (((opened Nat).run program (fun _ _ _ => True)
      [(0, { call := .insert "k" 1 }), (0, {}), (0, {}), (0, {}), (0, {}), (0, {})]).any fun c =>
      ((c.thread 0).isIdle && (c.thread 2).isIdle) &&
        (c.step program 2 { call := .lookup "k" {} }).any fun c₁ =>
          (c₁.thread 2).touches "k" &&
            (c₁.run program (fun c t a => Reading 2 c t a ∧ t = 2)
              [(2, {}), (2, { verdict := .stale })]).any fun d =>
              (decide (Reading 2 d 2 {}) && (d.shared.memory.lookup "k").isSome) &&
                (d.step program 2 {}).any fun d' => (d'.shared.memory.lookup "k").isNone) =
      true := by
    decide
  obtain ⟨c, hbefore, htest⟩ := Runs.of_run_any hrun
  obtain ⟨hidles, hrest⟩ := Bool.and_eq_true_iff.mp htest
  obtain ⟨hidle₀, hidle₂⟩ := Bool.and_eq_true_iff.mp hidles
  obtain ⟨c₁, hfetch, htest₁⟩ := (Option.any_eq_true _ _).mp hrest
  obtain ⟨htouches, hrest₁⟩ := Bool.and_eq_true_iff.mp htest₁
  obtain ⟨d, hreads, htest₂⟩ := Runs.of_run_any hrest₁
  obtain ⟨htests, hrest₂⟩ := Bool.and_eq_true_iff.mp htest₂
  obtain ⟨hreading, hsome⟩ := Bool.and_eq_true_iff.mp htests
  obtain ⟨d', hstep, hnone⟩ := (Option.any_eq_true _ _).mp hrest₂
  have hothers : ∀ u, u ≠ 2 → c₁.thread u = .idle := by
    intro u hu
    rw [Config.thread_of_step_ne hfetch hu]
    by_cases h₀ : u = 0
    · rw [h₀]
      exact Position.eq_idle hidle₀
    · exact (initial_opened Nat).idle_of_runs hbefore (by simp [h₀])
  have hkeeps : ∀ ⦃c d : Config (Shared Nat) (Position Nat)⦄ ⦃t : Nat⦄ ⦃a : Action Nat⦄,
      Reading 2 c t a ∧ t = 2 → c.step program t a = some d →
      (∀ u, u ≠ 2 → c.thread u = .idle) → ∀ u, u ≠ 2 → d.thread u = .idle := by
    intro c d t a hguard hone hc u hu
    rw [Config.thread_of_step_ne hone (by rw [hguard.2]; exact hu)]
    exact hc u hu
  have hruns : Runs program (EvictionGuard 2 "k" c₁.shared.nextWriter) c₁
      [(2, {}), (2, { verdict := .stale })] d := by
    refine (hreads.with_invariant hkeeps hothers).mono ?_
    rintro c t a ⟨⟨hread, rfl⟩, hidle⟩
    exact ⟨hread, apart_of_alone hread.reading hidle⟩
  have hread := of_decide_eq_true hreading
  have hguard : EvictionGuard 2 "k" c₁.shared.nextWriter d 2 {} :=
    ⟨hread, apart_of_alone hread.reading (hreads.invariant hkeeps hothers)⟩
  have hfetched : Fetched "k" (c.thread 2) (c₁.thread 2) := by
    rw [Position.eq_idle hidle₂]
    exact fetched_of_touches htouches
  exact ⟨c₁, d, d', hruns, hstep, hsome, hnone,
    eviction_spares_newer_when_apart (initial_opened Nat) hbefore hfetch hfetched hruns hguard
      hstep⟩

/-- A read finds a stale entry in memory.  A recompute queues its bytes; the
read removes its entry from memory, where the recompute has not arrived, and
then the key from the queue. -/
theorem eviction_removes_newer_insert :
    ¬ ∀ (c₀ c c₁ d d' : Config (Shared Nat) (Position Nat)) (r : Nat) (key : Key)
      (a a' : Action Nat) (before acts : List (Nat × Action Nat)),
      Initial c₀ → Runs program (fun _ _ _ => True) c₀ before c →
      c.step program r a = some c₁ → Fetched key (c.thread r) (c₁.thread r) →
      Runs program (Reading r) c₁ acts d → Reading r d r a' →
      d.step program r a' = some d' →
      Spared key c₁.shared.nextWriter d.shared d'.shared := by
  intro hspares
  have hrun : (((opened Nat).run program (fun _ _ _ => True)
      [(0, { call := .insert "k" 1 }), (0, {}), (0, {}), (0, {}), (0, {}), (0, {})]).any fun c =>
      (c.thread 2).isIdle && (c.step program 2 { call := .lookup "k" {} }).any fun c₁ =>
        ((c₁.thread 2).touches "k" && decide (c₁.shared.nextWriter = 1)) &&
          (c₁.run program (Reading 2)
            [(2, {}), (2, { verdict := .stale }), (1, { call := .insert "k" 2 }), (1, {}),
              (2, {})]).any fun d =>
            decide (Reading 2 d 2 {}) &&
              ((d.shared.queue.lookup "k").any fun tagged =>
                decide (tagged.2.copy.writer = 1)) &&
              (d.step program 2 {}).any fun d' => (d'.shared.queue.lookup "k").isNone) =
      true := by
    decide +kernel
  obtain ⟨c, hbefore, htest⟩ := Runs.of_run_any hrun
  obtain ⟨hidle, hrest⟩ := Bool.and_eq_true_iff.mp htest
  obtain ⟨c₁, hfetch, htest₁⟩ := (Option.any_eq_true _ _).mp hrest
  obtain ⟨hstart, hrest₁⟩ := Bool.and_eq_true_iff.mp htest₁
  obtain ⟨htouches, hwriter⟩ := Bool.and_eq_true_iff.mp hstart
  obtain ⟨d, hruns, htest₂⟩ := Runs.of_run_any hrest₁
  obtain ⟨htests, hrest₂⟩ := Bool.and_eq_true_iff.mp htest₂
  obtain ⟨hreading, hqueue⟩ := Bool.and_eq_true_iff.mp htests
  obtain ⟨d', hstep, hnone⟩ := (Option.any_eq_true _ _).mp hrest₂
  obtain ⟨tagged, hrow, hnewer⟩ := (Option.any_eq_true _ _).mp hqueue
  have hfetched : Fetched "k" (c.thread 2) (c₁.thread 2) := by
    rw [Position.eq_idle hidle]
    exact fetched_of_touches htouches
  have hspared := hspares _ c c₁ d d' 2 "k" _ _ _ _ (initial_opened Nat) hbefore hfetch hfetched
    hruns (of_decide_eq_true hreading) hstep
  have hw : c₁.shared.nextWriter ≤ tagged.2.copy.writer := by
    rw [of_decide_eq_true hwriter, of_decide_eq_true hnewer]
  have hkept := hspared.queue tagged hrow hw
  simp [hkept] at hnone

end ImportLens.Cache.Concurrent
