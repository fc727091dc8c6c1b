import ImportLens.Cache.Concurrent.Captures

/-!
# Clears against superseded writers

A clear bumps the generation, wipes the table, the queue and memory, in four
steps.  Every copy remembers the oldest generation captured by an operation it
went through, so a copy with `oldest < generation` is one that an operation
from before the bump has made or passed on.

The generation checks keep such copies out when the operation that holds one
captured its generation before the bump.  They do not when an operation
captures the new generation and then reads a layer that the clear has yet to
wipe: a hydration that reads the table before the wipe, or a re-persist that
reads memory before the wipe, or before a superseded insert has rolled back.
`Settled` excludes these reads, and with it a clear is final.
-/

namespace ImportLens.Cache.Concurrent

open ImportLens.Support

variable {ν : Type}

/-! ## Conditions on a step -/

namespace Position

def wipesTable : Position ν → Bool
  | wipeTable => true
  | _ => false

def clearing : Position ν → Bool
  | wipeTable | wipeQueue | wipeMemory => true
  | _ => false

def unchecked : Position ν → Option (Key × Entry ν × Nat)
  | recheck key entry generation | rollback key entry generation => some (key, entry, generation)
  | _ => none

def readsTable : Position ν → Option Nat
  | fetchTable _ (.hydrate generation _) => some generation
  | _ => none

end Position

def Wipes (c : Config (Shared ν) (Position ν)) (t : Nat) (a : Action ν) : Prop :=
  (c.thread t).wipesTable = true → a.writeFails = false

instance (c : Config (Shared ν) (Position ν)) (t : Nat) (a : Action ν) : Decidable (Wipes c t a) :=
  inferInstanceAs (Decidable (_ → _))

/-- Nothing is read under the current generation from a layer that still has to
be cleared: a hydration does not read the table before a wipe in progress, and
a re-persist does not read memory before a wipe in progress or before the
rollback of a superseded insert. -/
structure Settled (c : Config (Shared ν) (Position ν)) (t : Nat) : Prop where
  table : (c.thread t).readsTable = some c.shared.clearGeneration →
    ∀ u, (c.thread u).wipesTable = false
  memory : (c.thread t).snapshots = true →
    ∀ entries, (c.thread t).repersists = some (c.shared.clearGeneration, entries) →
      (∀ u, (c.thread u).clearing = false) ∧
      ∀ u key entry generation, (c.thread u).unchecked = some (key, entry, generation) →
        generation = c.shared.clearGeneration

/-! ## The invariant of a clear -/

/-- What the bump to `g` establishes: no operation under the current generation
carries a copy from before it, and none is queued or in flight. -/
structure Superseded (g : Nat) (c : Config (Shared ν) (Position ν)) : Prop where
  current : g ≤ c.shared.clearGeneration
  queue : c.shared.queue.All fun _ tagged =>
    tagged.1 = c.shared.clearGeneration → g ≤ tagged.2.copy.oldest
  inFlight : c.shared.inFlight.All fun _ stored => g ≤ stored.copy.oldest
  guarded : ∀ t key entry generation, (c.thread t).guarded = some (key, entry, generation) →
    g ≤ generation → g ≤ entry.copy.oldest
  repersists : ∀ t entries, (c.thread t).repersists = some (c.shared.clearGeneration, entries) →
    ∀ row ∈ entries, g ≤ row.2.copy.oldest

/-- No row of the table is from before `g`. -/
def TableSettled (g : Nat) (s : Shared ν) : Prop :=
  s.TableAll fun _ row => ∀ stored, row = some stored → g ≤ stored.copy.oldest

/-- An entry of memory from before `g` is about to be rolled back. -/
def MemorySettled (g : Nat) (c : Config (Shared ν) (Position ν)) : Prop :=
  c.shared.memory.All fun key entry => entry.copy.oldest < g →
    ∃ u generation, (c.thread u).unchecked = some (key, entry, generation) ∧ generation < g

/-- The table is settled, or the clear by `r` that bumped to `g` has yet to wipe it. -/
def TableSettling (g r : Nat) (c : Config (Shared ν) (Position ν)) : Prop :=
  TableSettled g c.shared ∨ (c.thread r).wipesTable = true ∧ c.shared.clearGeneration = g

/-- Memory is settled, or the clear by `r` has yet to wipe it. -/
def MemorySettling (g r : Nat) (c : Config (Shared ν) (Position ν)) : Prop :=
  MemorySettled g c ∨ (c.thread r).clearing = true

variable {c d : Config (Shared ν) (Position ν)} {t r g : Nat} {a : Action ν}

theorem superseded_of_bump (hc : Sound c) (hidle : c.thread r = .idle) (hcall : a.call = .clear)
    (h : c.step program r a = some d) :
    Superseded d.shared.clearGeneration d ∧ (d.thread r).wipesTable = true ∧
      (d.thread r).clearing = true := by
  obtain ⟨effect, hnext, htaken, hshared, hothers⟩ := taken_of_step h
  rw [hidle] at htaken
  have hbump : effect = .bump r ∧ d.thread r = .wipeTable ∧ c.shared.clearLock = none := by
    generalize d.thread r = p' at htaken
    cases htaken with
    | bump _ hlock => exact ⟨rfl, rfl, hlock⟩
    | insert _ _ h | callFlush h | callRemove _ h | hit _ _ _ h | miss _ _ h | callPeek _ h
    | callFlushToDisk h => simp [hcall] at h
  obtain ⟨rfl, hposition, hfree⟩ := hbump
  have hgeneration : d.shared.clearGeneration = c.shared.clearGeneration + 1 := by rw [hshared]; rfl
  -- nobody has captured the new generation yet
  have hcaptured : ∀ u generation, (d.thread u).Captured generation →
      generation < d.shared.clearGeneration := by
    intro u generation hu
    by_cases hur : u = r
    · subst hur
      rw [hposition] at hu
      rcases hu with ⟨_, _, h⟩ | ⟨_, h⟩ | h <;> cases h
    · rw [hothers u hur] at hu
      have := hc.captured u generation hu
      omega
  refine ⟨⟨le_rfl, ?_, ?_, ?_, ?_⟩, by rw [hposition]; rfl, by rw [hposition]; rfl⟩
  · intro key tagged hrow htag
    have hle : tagged.1 ≤ c.shared.clearGeneration := hc.tags key tagged (by rwa [hshared] at hrow)
    omega
  · have hempty : d.shared.inFlight = ∅ := by
      rw [hshared]
      exact hc.inFlight_of_free hfree
    rw [hempty]
    exact Keyed.all_empty _
  · intro u key entry generation hu hle
    have := hcaptured u generation (.inl ⟨key, entry, hu⟩)
    omega
  · intro u entries hu
    have := hcaptured u _ (.inr (.inl ⟨entries, hu⟩))
    omega

/-! ## Steps -/

theorem Copy.le_oldest_through {copy : Copy ν} {generation : Nat} (hcopy : g ≤ copy.oldest)
    (hgeneration : g ≤ generation) : g ≤ (copy.through generation).oldest :=
  le_min hcopy hgeneration

theorem Superseded.enqueued (hs : Superseded g c) {key : Key} {entry : Entry ν} {caller : Caller ν}
    (hthread : c.thread t = .persist key entry c.shared.clearGeneration caller) :
    g ≤ (entry.copy.through c.shared.clearGeneration).oldest := by
  refine Copy.le_oldest_through ?_ hs.current
  have hremaining : ∀ entries, caller.remaining = some entries → g ≤ entry.copy.oldest := by
    intro entries hentries
    refine hs.repersists t ((key, entry) :: entries) ?_ (key, entry) (by simp)
    simp [hthread, Position.repersists, hentries]
  cases caller with
  | insert => exact hs.guarded t key entry _ (by rw [hthread]; rfl) hs.current
  | cap => exact hremaining _ rfl
  | replay => exact hremaining _ rfl
  | sweep => exact hremaining _ rfl

/-- A hydration that captured its generation after the bump reads a settled
table. -/
theorem TableSettling.read (hc : Sound c) (hsettled : Settled c t) (htable : TableSettling g r c)
    {generation : Nat} (hreads : (c.thread t).readsTable = some generation)
    (hcaptured : (c.thread t).Captured generation) (hle : g ≤ generation) :
    TableSettled g c.shared := by
  rcases htable with htable | ⟨hwipes, hcurrent⟩
  · exact htable
  · have hgeneration : generation = c.shared.clearGeneration := by
      have := hc.captured t generation hcaptured
      omega
    rw [hgeneration] at hreads
    simp [hsettled.table hreads r] at hwipes

/-- A re-persist under the current generation reads settled memory. -/
theorem MemorySettling.read (hs : Superseded g c) (hsettled : Settled c t)
    (hmemory : MemorySettling g r c) {entries : List (Key × Entry ν)}
    (hsnapshots : (c.thread t).snapshots = true)
    (hrepersists : (c.thread t).repersists = some (c.shared.clearGeneration, entries))
    {key : Key} {entry : Entry ν} (hrow : c.shared.memory.lookup key = some entry) :
    g ≤ entry.copy.oldest := by
  obtain ⟨hclearing, hunchecked⟩ := hsettled.memory hsnapshots entries hrepersists
  rcases hmemory with hmemory | hclear
  · by_contra hlt
    obtain ⟨u, generation, hu, hbefore⟩ := hmemory key entry hrow (by omega)
    have := hunchecked u key entry generation hu
    have := hs.current
    omega
  · simp [hclearing r] at hclear

theorem superseded_step (hc : Sound c) (hs : Superseded g c) (hsettled : Settled c t)
    (htable : TableSettling g r c) (hmemory : MemorySettling g r c)
    (h : c.step program t a = some d) : Superseded g d := by
  obtain ⟨effect, hnext, htaken, hshared, hothers⟩ := taken_of_step h
  have hgeneration := Effect.apply_clearGeneration c.shared effect
  have hle := Effect.le_apply_clearGeneration c.shared effect
  rw [← hshared] at hgeneration hle
  constructor
  case current => exact hs.current.trans hle
  case queue =>
    rcases hgeneration with ⟨⟨u, rfl⟩, hbumped⟩ | hsame
    · intro key tagged hrow htag
      have := hc.tags key tagged (by rwa [hshared] at hrow)
      omega
    · rw [hsame, hshared]
      refine Effect.apply_queue_all hs.queue ?_ fun _ key stored hrow _ =>
        hs.inFlight key stored hrow
      rintro key generation stored rfl hcurrent
      simp only at hcurrent
      obtain ⟨entry, caller, hp, hstored⟩ := taken_enqueue htaken
      rw [hstored, hcurrent]
      exact hs.enqueued (by rw [hp, hcurrent])
  case inFlight =>
    rw [hshared]
    refine Effect.apply_inFlight_all hs.inFlight fun u _ => ?_
    intro key tagged hrow htag
    exact hs.queue key tagged hrow htag
  case guarded =>
    intro u key entry generation hu hafter
    by_cases hut : u = t
    · subst hut
      rcases taken_guarded htaken hu with
        hbefore | ⟨_, _, _, value, rfl⟩ | ⟨stored, mode, _, rfl, hfetch⟩
      · exact hs.guarded u key entry generation hbefore hafter
      · exact hs.current
      · refine Copy.le_oldest_through ?_ hafter
        rcases hfetch with ⟨_, hqueue⟩ | ⟨hp, rows, hrows, hrow⟩
        · exact hs.queue key _ hqueue rfl
        · have hsettledTable := htable.read hc hsettled (by rw [hp]; rfl)
            (.inr (.inr (by rw [hp]; rfl))) hafter
          exact hsettledTable rows hrows key _ hrow stored rfl
    · rw [hothers u hut] at hu
      exact hs.guarded u key entry generation hu hafter
  case repersists =>
    intro u entries hu row hrow
    rcases hgeneration with ⟨⟨v, rfl⟩, hbumped⟩ | hsame
    · -- a re-persist that was running is superseded, and the bump starts none
      have hbefore : (c.thread u).Captured d.shared.clearGeneration ∨
          d.shared.clearGeneration = c.shared.clearGeneration := by
        by_cases hut : u = t
        · subst hut
          exact taken_captured htaken (.inr (.inl ⟨entries, hu⟩))
        · rw [hothers u hut] at hu
          exact .inl (.inr (.inl ⟨entries, hu⟩))
      rcases hbefore with hcaptured | hcurrent
      · have := hc.captured u _ hcaptured
        omega
      · omega
    · rw [hsame] at hu
      by_cases hut : u = t
      · subst hut
        rcases taken_repersists htaken hu with ⟨carried, hcarried, hrows⟩ | ⟨_, rfl⟩
        · rcases hrows row hrow with hin | ⟨hsnapshots, hlookup⟩
          · exact hs.repersists u carried hcarried row hin
          · exact hmemory.read hs hsettled hsnapshots hcarried hlookup
        · simp at hrow
      · rw [hothers u hut] at hu
        exact hs.repersists u entries hu row hrow

theorem tableSettled_step (hs : Superseded g c) (h : c.step program t a = some d)
    (htable : TableSettled g c.shared) : TableSettled g d.shared := by
  obtain ⟨effect, _, _, hshared, _⟩ := taken_of_step h
  rw [hshared]
  refine Effect.apply_tableAll htable fun _ => ?_
  intro key stored hrow _ heq
  cases heq
  exact hs.inFlight key stored hrow

theorem tableSettling_step (hc : Sound c) (hs : Superseded g c) (hwipes : Wipes c t a)
    (h : c.step program t a = some d) (htable : TableSettling g r c) : TableSettling g r d := by
  rcases htable with htable | ⟨hwipe, hcurrent⟩
  · exact .inl (tableSettled_step hs h htable)
  · obtain ⟨effect, _, htaken, hshared, hothers⟩ := taken_of_step h
    by_cases htr : t = r
    · subst htr
      have hcommits := hwipes hwipe
      refine .inl ?_
      rw [hshared]
      generalize c.thread t = p at htaken hwipe
      generalize d.thread t = p' at htaken
      cases htaken with
      | wipeTable =>
          intro rows hrows
          obtain ⟨_, _, rfl⟩ := Option.map_eq_some_iff.mp hrows
          exact Keyed.all_empty _
      | wipeTableFails hfails => simp [hcommits] at hfails
      | _ => cases hwipe
    · -- the clear holds the lock, so no other clear bumps the generation
      refine .inr ⟨by rw [hothers r (Ne.symm htr)]; exact hwipe, ?_⟩
      have hheld : c.shared.clearLock = some r := by
        refine (hc.lock r).mp ?_
        generalize c.thread r = p at hwipe
        cases p with
        | wipeTable => rfl
        | _ => cases hwipe
      rcases Effect.apply_clearGeneration c.shared effect with
        ⟨⟨u, rfl⟩, _⟩ | hsame
      · exact absurd (taken_bump htaken).2.2 (by simp [hheld])
      · rw [hshared, hsame]
        exact hcurrent

theorem memorySettled_step (hs : Superseded g c) (h : c.step program t a = some d)
    (hmemory : MemorySettled g c) : MemorySettled g d := by
  obtain ⟨effect, _, htaken, hshared, hothers⟩ := taken_of_step h
  intro key entry hrow hbefore
  by_cases hkept : c.shared.memory.lookup key = some entry
  · obtain ⟨u, generation, hu, hlt⟩ := hmemory key entry hkept hbefore
    by_cases hut : u = t
    · subst hut
      refine ⟨u, generation, ?_, hlt⟩
      rw [hshared] at hrow
      have hcurrent := hs.current
      generalize c.thread u = p at htaken hu
      generalize d.thread u = p' at htaken
      cases htaken with
      | recheckFails => exact hu
      | recheckPasses _ _ _ hgeneration =>
          cases hu
          omega
      | rollback _ _ _ current _ hcell =>
          cases hu
          simp [Effect.apply] at hrow
      | rollbackSkips _ _ _ hothers =>
          cases hu
          exact absurd rfl (hothers entry hkept)
      | _ => cases hu
    · exact ⟨u, generation, by rw [hothers u hut]; exact hu, hlt⟩
  · -- the entry has just been stored
    rw [hshared] at hrow
    obtain rfl := (Effect.apply_memory_cases hrow).resolve_right hkept
    obtain ⟨generation, hp, hp'⟩ := taken_store htaken
    refine ⟨t, generation, by rw [hp']; rfl, ?_⟩
    by_contra hge
    have := hs.guarded t key entry generation (by rw [hp]; rfl) (by omega)
    omega

theorem memorySettling_step (hs : Superseded g c) (h : c.step program t a = some d)
    (hmemory : MemorySettling g r c) : MemorySettling g r d := by
  rcases hmemory with hmemory | hclearing
  · exact .inl (memorySettled_step hs h hmemory)
  · obtain ⟨effect, _, htaken, hshared, hothers⟩ := taken_of_step h
    by_cases htr : t = r
    · subst htr
      generalize c.thread t = p at htaken hclearing
      generalize hp' : d.thread t = p' at htaken
      cases htaken with
      | wipeTable | wipeTableFails | wipeQueue => exact .inr (by rw [hp']; rfl)
      | wipeMemory =>
          refine .inl ?_
          rw [MemorySettled, hshared]
          exact Keyed.all_empty _
      | _ => cases hclearing
    · exact .inr (by rw [hothers r (Ne.symm htr)]; exact hclearing)

/-! ## Runs -/

/-- The guard of a run in which clears are final. -/
def ClearGuard (c : Config (Shared ν) (Position ν)) (t : Nat) (a : Action ν) : Prop :=
  Wipes c t a ∧ Settled c t

/-- From the bump on. -/
structure Clearing (g r : Nat) (c : Config (Shared ν) (Position ν)) : Prop where
  sound : Sound c
  superseded : Superseded g c
  table : TableSettling g r c
  memory : MemorySettling g r c

theorem clearing_step (hguard : ClearGuard c t a) (h : c.step program t a = some d)
    (hc : Clearing g r c) : Clearing g r d where
  sound := sound_step h hc.sound
  superseded := superseded_step hc.sound hc.superseded hguard.2 hc.table hc.memory h
  table := tableSettling_step hc.sound hc.superseded hguard.1 h hc.table
  memory := memorySettling_step hc.superseded h hc.memory

/-- From the return of the clear, and of all that captured its generation
before the bump. -/
structure Cleared (g : Nat) (c : Config (Shared ν) (Position ν)) : Prop where
  sound : Sound c
  superseded : Superseded g c
  table : TableSettled g c.shared
  memory : MemorySettled g c
  captured : ∀ t generation, (c.thread t).Captured generation → g ≤ generation

theorem cleared_step (hguard : ClearGuard c t a) (h : c.step program t a = some d)
    (hc : Cleared g c) : Cleared g d := by
  obtain ⟨effect, _, htaken, hshared, hothers⟩ := taken_of_step h
  refine ⟨sound_step h hc.sound,
    superseded_step hc.sound hc.superseded hguard.2 (r := t) (.inl hc.table) (.inl hc.memory) h,
    tableSettled_step hc.superseded h hc.table, memorySettled_step hc.superseded h hc.memory, ?_⟩
  intro u generation hu
  by_cases hut : u = t
  · subst hut
    rcases taken_captured htaken hu with hbefore | hcurrent
    · exact hc.captured u generation hbefore
    · rw [hcurrent]
      exact hc.superseded.current
  · rw [hothers u hut] at hu
    exact hc.captured u generation hu

def Position.read : Position ν → Option (Entry ν)
  | touch _ entry _ | judge _ entry _ | judgeFetched _ entry _ => some entry
  | _ => none

/-- What a read fetches from a cleared cache is not from before the bump. -/
theorem cleared_read (hc : Cleared g c) (hmemory : c.shared.memory.All fun _ entry =>
      g ≤ entry.copy.oldest) (h : c.step program t a = some d) {entry : Entry ν}
    (hread : (d.thread t).read = some entry) :
    (c.thread t).read = some entry ∨ g ≤ entry.copy.oldest := by
  obtain ⟨effect, _, htaken, _, _⟩ := taken_of_step h
  have hdecode : ∀ (reader : Reader) (copy : Copy ν), g ≤ copy.oldest →
      (∀ generation mode, reader = .hydrate generation mode →
        (c.thread t).hydrates = some generation) → g ≤ (reader.decode copy).oldest := by
    intro reader copy hcopy hreader
    cases reader with
    | peek => exact hcopy
    | hydrate generation mode =>
        have hhydrates := hreader generation mode rfl
        exact Copy.le_oldest_through hcopy (hc.captured t generation (.inr (.inr hhydrates)))
  generalize c.thread t = p at htaken hdecode
  generalize d.thread t = p' at htaken hread
  cases htaken with
  | hit key mode entry' _ hlookup =>
      cases hread
      exact .inr (hmemory key _ hlookup)
  | promote | keepRecency => exact .inl hread
  | fetchedQueue key reader stored hqueue =>
      cases hread
      refine .inr (hdecode reader _ (hc.superseded.queue key _ hqueue rfl) ?_)
      rintro generation mode rfl
      rfl
  | fetchedTable key reader stored rows hrows hrow =>
      cases hread
      refine .inr (hdecode reader _ (hc.table rows hrows key _ hrow stored rfl) ?_)
      rintro generation mode rfl
      rfl
  | offline _ _ _ caller => cases caller <;> cases hread
  | encodeFails _ _ _ caller => cases caller <;> cases hread
  | enqueue _ _ _ caller _ _ _ _ _ hafter =>
      rcases hafter with rfl | rfl
      · cases caller <;> cases hread
      · cases hread
  | flushNothing after | flushDiscard after | commit after | requeue after =>
      cases after with
      | persisted _ _ _ caller => cases caller <;> cases hread
      | _ => cases hread
  | _ => cases hread

/-- No copy from before `g` is left where a read or a flush would find it. -/
structure Forgotten (g : Nat) (s : Shared ν) : Prop where
  memory : s.memory.All fun _ entry => g ≤ entry.copy.oldest
  queue : s.queue.All fun _ tagged => tagged.1 = s.clearGeneration → g ≤ tagged.2.copy.oldest
  table : s.TableAll fun _ row => ∀ stored, row = some stored → g ≤ stored.copy.oldest

theorem Cleared.forgotten (hc : Cleared g c) : Forgotten g c.shared where
  memory := by
    intro key entry hrow
    by_contra hlt
    obtain ⟨u, generation, hu, hbefore⟩ := hc.memory key entry hrow (by omega)
    have hguarded : (c.thread u).guarded = some (key, entry, generation) := by
      generalize c.thread u = p at hu
      cases p with
      | recheck | rollback => exact hu
      | _ => cases hu
    have := hc.captured u generation (.inl ⟨key, entry, hguarded⟩)
    omega
  queue := hc.superseded.queue
  table := hc.table

/-- Once a clear has returned, and with it every operation that captured its
generation before the bump, no later state holds a copy of such an operation
and no later read fetches one: in every run in which nothing is read under the
current generation from a layer that a clear has yet to wipe. -/
theorem clear_final_of_settled_reads {c₀ c₁ c₂ : Config (Shared ν) (Position ν)}
    {before acts more : List (Nat × Action ν)} (hinitial : Initial c₀)
    (hbefore : Runs program (fun _ _ _ => True) c₀ before c)
    (hidle : c.thread r = .idle) (hcall : a.call = .clear) (hbump : c.step program r a = some c₁)
    (hclear : Runs program ClearGuard c₁ acts c₂) (hreturned : c₂.thread r = .idle)
    (hfinished : ∀ t generation, (c₂.thread t).Captured generation →
      c₁.shared.clearGeneration ≤ generation)
    (hlater : Runs program ClearGuard c₂ more d) :
    Forgotten c₁.shared.clearGeneration d.shared ∧
      ∀ t a e entry, d.step program t a = some e → (e.thread t).read = some entry →
        (d.thread t).read = some entry ∨ c₁.shared.clearGeneration ≤ entry.copy.oldest := by
  have hsound : Sound c := sound_of_runs hbefore hinitial.sound
  obtain ⟨hsuperseded, hwipes, hclearing⟩ := superseded_of_bump hsound hidle hcall hbump
  have hstart : Clearing c₁.shared.clearGeneration r c₁ :=
    ⟨sound_step hbump hsound, hsuperseded, .inr ⟨hwipes, rfl⟩, .inr hclearing⟩
  have hend : Clearing c₁.shared.clearGeneration r c₂ :=
    hclear.invariant (fun _ _ _ _ => clearing_step) hstart
  have hcleared : Cleared c₁.shared.clearGeneration c₂ := by
    refine ⟨hend.sound, hend.superseded, ?_, ?_, hfinished⟩
    · rcases hend.table with htable | ⟨hwipe, _⟩
      · exact htable
      · simp [hreturned, Position.wipesTable] at hwipe
    · rcases hend.memory with hmemory | hclear
      · exact hmemory
      · simp [hreturned, Position.clearing] at hclear
  have hfinal : Cleared c₁.shared.clearGeneration d :=
    hlater.invariant (fun _ _ _ _ => cleared_step) hcleared
  refine ⟨hfinal.forgotten, ?_⟩
  intro t a e entry hstep hread
  exact cleared_read hfinal hfinal.forgotten.memory hstep hread

/-- A step that reads nothing a clear has yet to wipe. -/
def ReadsNothing (c : Config (Shared ν) (Position ν)) (t : Nat) (a : Action ν) : Prop :=
  Wipes c t a ∧ (c.thread t).readsTable = none ∧ (c.thread t).snapshots = false

instance (c : Config (Shared ν) (Position ν)) (t : Nat) (a : Action ν) :
    Decidable (ReadsNothing c t a) :=
  inferInstanceAs (Decidable (_ ∧ _ ∧ _))

theorem ReadsNothing.clearGuard (h : ReadsNothing c t a) : ClearGuard c t a := by
  refine ⟨h.1, ⟨fun hreads => ?_, fun hsnapshots => ?_⟩⟩
  · simp [h.2.1] at hreads
  · simp [h.2.2] at hsnapshots

/-- An insert, then a clear that runs alone. -/
theorem clear_after_insert_final :
    ∃ c₁ c₂ : Config (Shared Nat) (Position Nat),
      c₁.shared.clearGeneration = 1 ∧ (c₁.shared.memory.lookup "k").isSome ∧
      Runs program ClearGuard c₁ [(1, {}), (1, {}), (1, {}), (1, {})] c₂ ∧
      c₂.thread 1 = .idle ∧ Forgotten 1 c₂.shared := by
  have hrun : (((opened Nat).run program (fun _ _ _ => True)
      [(0, { call := .insert "k" 1 }), (0, {}), (0, {}), (0, {}), (0, {}), (0, {})]).any fun c =>
      (c.thread 1).isIdle && (c.step program 1 { call := .clear }).any fun c₁ =>
        decide (c₁.shared.clearGeneration = 1) && (c₁.shared.memory.lookup "k").isSome &&
          (c₁.run program ReadsNothing [(1, {}), (1, {}), (1, {}), (1, {})]).any fun c₂ =>
            (c₂.thread 0).isIdle && (c₂.thread 1).isIdle) = true := by
    decide
  obtain ⟨c, hbefore, htest⟩ := Runs.of_run_any hrun
  obtain ⟨hidle, hrest⟩ := Bool.and_eq_true_iff.mp htest
  obtain ⟨c₁, hbump, htest₁⟩ := (Option.any_eq_true _ _).mp hrest
  obtain ⟨hsome, hrest₁⟩ := Bool.and_eq_true_iff.mp htest₁
  obtain ⟨hgeneration, hmemory⟩ := Bool.and_eq_true_iff.mp hsome
  obtain ⟨c₂, hquiet, htest₂⟩ := Runs.of_run_any hrest₁
  obtain ⟨hidle₀, hidle₁⟩ := Bool.and_eq_true_iff.mp htest₂
  have hclear := hquiet.mono fun _ _ _ h => h.clearGuard
  have hone := of_decide_eq_true hgeneration
  have hreturned := Position.eq_idle hidle₁
  have hfinished : ∀ t generation, (c₂.thread t).Captured generation →
      c₁.shared.clearGeneration ≤ generation := by
    intro t generation hcaptured
    suffices hthread : c₂.thread t = .idle by
      rw [hthread] at hcaptured
      exact absurd hcaptured (Position.not_captured_idle _)
    by_cases h₀ : t = 0
    · rw [h₀]
      exact Position.eq_idle hidle₀
    · by_cases h₁ : t = 1
      · rw [h₁]
        exact hreturned
      · have hbefore' := hquiet.thread_of_notMem (u := t) (by simp [h₁])
        rw [hbefore', Config.thread_of_step_ne hbump h₁]
        exact (initial_opened Nat).idle_of_runs hbefore (by simp [h₀])
  have hfinal := clear_final_of_settled_reads (initial_opened Nat) hbefore
    (Position.eq_idle hidle) rfl hbump hclear hreturned hfinished (.refl c₂)
  rw [hone] at hfinal
  exact ⟨c₁, c₂, hone, hmemory, hclear, hreturned, hfinal.1⟩

/-- A used entry is in memory.  A clear bumps the generation; `flush_to_disk`
captures the new one and reads the entry; the clear wipes every layer and
returns; the flush writes the entry to the table. -/
theorem clear_undone_by_flush_to_disk :
    ¬ ∀ (c₀ c c₁ c₂ d : Config (Shared Nat) (Position Nat)) (r : Nat) (a : Action Nat)
      (before acts more : List (Nat × Action Nat)),
      Initial c₀ → Runs program (fun _ _ _ => True) c₀ before c →
      c.thread r = .idle → a.call = .clear → c.step program r a = some c₁ →
      Runs program Wipes c₁ acts c₂ → c₂.thread r = .idle →
      (∀ t generation, (c₂.thread t).Captured generation →
        c₁.shared.clearGeneration ≤ generation) →
      Runs program Wipes c₂ more d →
      Forgotten c₁.shared.clearGeneration d.shared := by
  intro hforgets
  have hrun : (((opened Nat).run program (fun _ _ _ => True)
      [(0, { call := .insert "k" 1 }), (0, {}), (0, {}), (0, {}), (0, {}), (0, {}),
        (0, { call := .lookup "k" { promote := true } }), (0, {}), (0, {})]).any fun c =>
      (c.thread 1).isIdle && (c.step program 1 { call := .clear }).any fun c₁ =>
        decide (c₁.shared.clearGeneration = 1) &&
          (c₁.run program Wipes
            [(2, { call := .flushToDisk }), (2, {}), (2, {}), (2, {}), (2, {}),
              (1, {}), (1, {}), (1, {}), (1, {})]).any fun c₂ =>
            ((c₂.thread 0).isIdle && (c₂.thread 1).isIdle && (c₂.thread 2).capturedSince 1) &&
              (c₂.run program Wipes [(2, {}), (2, {}), (2, {}), (2, {}), (2, {}), (2, {})]).any
                fun d => d.shared.table.any fun rows =>
                  (rows.lookup "k").any fun row => row.any fun stored =>
                    decide (stored.copy.oldest = 0)) = true := by
    decide
  obtain ⟨c, hbefore, htest⟩ := Runs.of_run_any hrun
  obtain ⟨hidle, hrest⟩ := Bool.and_eq_true_iff.mp htest
  obtain ⟨c₁, hbump, htest₁⟩ := (Option.any_eq_true _ _).mp hrest
  obtain ⟨hgeneration, hrest₁⟩ := Bool.and_eq_true_iff.mp htest₁
  obtain ⟨c₂, hclear, htest₂⟩ := Runs.of_run_any hrest₁
  obtain ⟨hthreads, hrest₂⟩ := Bool.and_eq_true_iff.mp htest₂
  obtain ⟨hidles, hsince⟩ := Bool.and_eq_true_iff.mp hthreads
  obtain ⟨hidle₀, hidle₁⟩ := Bool.and_eq_true_iff.mp hidles
  obtain ⟨d, hmore, htable⟩ := Runs.of_run_any hrest₂
  have hone := of_decide_eq_true hgeneration
  have hfinished : ∀ t generation, (c₂.thread t).Captured generation →
      c₁.shared.clearGeneration ≤ generation := by
    intro t generation hcaptured
    by_cases h₂ : t = 2
    · rw [h₂] at hcaptured
      rw [hone]
      exact Position.le_of_capturedSince hsince hcaptured
    · suffices hthread : c₂.thread t = .idle by
        rw [hthread] at hcaptured
        exact absurd hcaptured (Position.not_captured_idle _)
      by_cases h₀ : t = 0
      · rw [h₀]
        exact Position.eq_idle hidle₀
      · by_cases h₁ : t = 1
        · rw [h₁]
          exact Position.eq_idle hidle₁
        · have hbefore' := hclear.thread_of_notMem (u := t) (by simp [h₁, h₂])
          rw [hbefore', Config.thread_of_step_ne hbump h₁]
          exact (initial_opened Nat).idle_of_runs hbefore (by simp [h₀])
  have hforgotten := hforgets _ c c₁ c₂ d 1 _ _ _ _ (initial_opened Nat) hbefore
    (Position.eq_idle hidle) rfl hbump hclear (Position.eq_idle hidle₁) hfinished hmore
  obtain ⟨rows, hrows, hlookup⟩ := (Option.any_eq_true _ _).mp htable
  obtain ⟨row, hrow, hstored⟩ := (Option.any_eq_true _ _).mp hlookup
  obtain ⟨stored, rfl, holdest⟩ := (Option.any_eq_true _ _).mp hstored
  have := hforgotten.table rows hrows "k" _ hrow stored rfl
  have := of_decide_eq_true holdest
  omega

end ImportLens.Cache.Concurrent
