import ImportLens.Cache.Memory
import ImportLens.Daemon.AnalysisFlight
import ImportLens.Support.Interleaving

/-!
# Verification stamps across invalidations

An invalidation bumps a global generation.  An entry of memory carries a stamp,
two atomics that say under which generation and when its files were last
confirmed, and a read inside the window skips the check when the stamp is of
the generation it has loaded.  Stamps come from analyses (of the leader of a
flight and of its followers), from hydrations and from reads that check; all of
them capture the generation first and observe the files afterwards.  One file is
read earlier: an analysis resolves its package first, and what it takes from the
manifest goes into the result, while the capture waits until the probe of the
cache has missed and the build has its permit.

Every load and store of a stamp is a step of its own.  Two fields are history,
which no step reads: `observed` is the generation in force when the build read
the files of the entry, or when the last check that found them fresh began, and
`resolved` the one in force when the manifest was read.
-/

namespace ImportLens.Cache.Stamping

open ImportLens.Daemon ImportLens.Support

/-! ## State -/

/-- `Verification`, shared by every clone of an entry. -/
structure Stamp where
  generation : Nat := 0
  /-- One more than the milliseconds; 0 means never verified. -/
  atMillis : Nat := 0
  observed : Nat := 0
  resolved : Nat := 0
  deriving DecidableEq, Repr

structure Entry where
  cell : Nat
  firstParty : Bool
  deriving DecidableEq, Repr

/-- What a flight computes, from the package its leader resolved. -/
structure ComputedAnalysis where
  cacheable : Bool
  observed : Nat
  resolved : Nat
  deriving DecidableEq, Repr

structure Shared where
  /-- `CACHE_GENERATION`. -/
  cacheGeneration : Nat
  /-- The monotonic clock. -/
  sinceEpoch : Nat
  memory : Keyed Key Entry
  stamps : Nat → Stamp
  nextCell : Nat
  flights : Flights ComputedAnalysis

namespace Shared

def alloc (s : Shared) (stamp : Stamp) : Shared :=
  { s with stamps := Function.update s.stamps s.nextCell stamp, nextCell := s.nextCell + 1 }

def restamp (s : Shared) (cell : Nat) (f : Stamp → Stamp) : Shared :=
  { s with stamps := Function.update s.stamps cell (f (s.stamps cell)) }

end Shared

/-! ## Positions -/

inductive Position
  | idle
  -- `resolve_package_entry` is done; the probe of the cache and the wait for a
  -- permit lie between here and the capture
  | resolve (key : Key) (resolved : Nat)
  -- `analyze_and_cache`: `run_or_join` under the captured generation
  | claim (key : Key) (generation resolved : Nat)
  | lead (key : Key) (generation flight resolved : Nat)
  | compute (key : Key) (generation flight resolved observed : Nat)
  | publish (key : Key) (generation flight : Nat) (analysis : ComputedAnalysis)
  | retire (key : Key) (generation flight : Nat) (analysis : ComputedAnalysis)
  | unwind (key : Key) (generation flight : Nat)
  | abandon (flight : Nat)
  | follow (key : Key) (generation flight resolved : Nat)
  -- `insert_with_fingerprints_at_generation`
  | insert (key : Key) (generation : Nat) (analysis : ComputedAnalysis)
  | store (key : Key) (entry : Entry)
  -- `lookup`, memory arm
  | loadGeneration (key : Key) (entry : Entry) (requireFresh : Bool) (stale : StalePolicy)
  | loadTime (key : Key) (entry : Entry) (generation : Nat) (stale : StalePolicy)
  | loadStamp (key : Key) (entry : Entry) (generation atMillis : Nat) (stale : StalePolicy)
  | loadClock (key : Key) (entry : Entry) (generation atMillis : Nat) (stale : StalePolicy)
  | serveFast (key : Key) (entry : Entry) (generation : Nat)
  | check (key : Key) (entry : Entry) (generation : Nat) (stale : StalePolicy)
  | judge (key : Key) (entry : Entry) (generation started : Nat) (stale : StalePolicy)
  | stampClock (entry : Entry) (generation : Nat)
  | stampGeneration (entry : Entry) (generation sinceEpoch : Nat)
  | stampTime (entry : Entry) (sinceEpoch : Nat)
  | evict (key : Key) (cell : Nat)
  -- `lookup`, disk arm
  | capture (key : Key) (requireFresh : Bool)
  | probe (key : Key) (generation : Nat) (requireFresh : Bool)
  | judgeProbed (key : Key) (generation started : Nat) (requireFresh : Bool)
  deriving DecidableEq

inductive Call
  | bump
  /-- Time passes. -/
  | tick (millis : Nat)
  /-- A key leaves memory: a cap pass, a clear or an invalidation. -/
  | forget (key : Key)
  | analyze (key : Key)
  | lookup (key : Key) (requireFresh : Bool) (stale : StalePolicy)

/-- What the environment chooses for one step. -/
structure Action where
  call : Call := .tick 0
  /-- The outcome of a check of files. -/
  verdict : Freshness := .fresh
  /-- Whether the disk has an entry for the key. -/
  onDisk : Bool := true
  panics : Bool := false
  /-- Whether the computed result may be cached. -/
  cacheable : Bool := true
  /-- Whether the caller still wants it stored, and no clear has intervened. -/
  stores : Bool := true

section

variable (firstParty : Key → Bool)

def begin (s : Shared) : Call → Shared × Position
  | .bump => ({ s with cacheGeneration := s.cacheGeneration + 1 }, .idle)
  | .tick millis => ({ s with sinceEpoch := s.sinceEpoch + millis }, .idle)
  | .forget key => ({ s with memory := s.memory.erase key }, .idle)
  | .analyze key => (s, .resolve key s.cacheGeneration)
  | .lookup key requireFresh stale =>
      match s.memory.lookup key with
      | some entry => (s, .loadGeneration key entry requireFresh stale)
      | none => (s, .capture key requireFresh)

def program : Program Shared Position Action := fun _ a s position =>
  match position with
  | .idle => some (begin s a.call)
  | .resolve key resolved => some (s, .claim key s.cacheGeneration resolved)
  | .claim key generation resolved =>
      match s.flights.claimFlight (key, generation) with
      | (.leader flight, flights) =>
          some ({ s with flights := flights }, .lead key generation flight resolved)
      | (.follower flight, flights) =>
          some ({ s with flights := flights }, .follow key generation flight resolved)
  | .lead key generation flight resolved =>
      some (s, .compute key generation flight resolved s.cacheGeneration)
  | .compute key generation flight resolved observed =>
      if a.panics then some (s, .unwind key generation flight)
      else some (s, .publish key generation flight ⟨a.cacheable, observed, resolved⟩)
  | .publish key generation flight analysis =>
      some ({ s with flights := s.flights.publish flight analysis },
        .retire key generation flight analysis)
  | .retire key generation flight analysis =>
      some ({ s with flights := s.flights.removeCurrentFlight (key, generation) flight },
        .insert key generation analysis)
  | .unwind key generation flight =>
      some ({ s with flights := s.flights.removeCurrentFlight (key, generation) flight },
        .abandon flight)
  | .abandon flight => some ({ s with flights := s.flights.closeWithoutResult flight }, .idle)
  | .follow key generation flight resolved =>
      if !(s.flights.flight flight).closed then none
      else
        match (s.flights.flight flight).result with
        | some analysis => some (s, .insert key generation analysis)
        | none => some (s, .claim key generation resolved)
  | .insert key generation analysis =>
      if analysis.cacheable && a.stores then
        some (s.alloc ⟨generation, s.sinceEpoch + 1, analysis.observed, analysis.resolved⟩,
          .store key ⟨s.nextCell, firstParty key⟩)
      else some (s, .idle)
  | .store key entry =>
      some (if a.stores then { s with memory := s.memory.insert key entry } else s, .idle)
  | .loadGeneration key entry requireFresh stale =>
      if requireFresh || entry.firstParty then some (s, .check key entry s.cacheGeneration stale)
      else some (s, .loadTime key entry s.cacheGeneration stale)
  | .loadTime key entry generation stale =>
      let atMillis := (s.stamps entry.cell).atMillis
      if atMillis = 0 then some (s, .check key entry generation stale)
      else some (s, .loadStamp key entry generation atMillis stale)
  | .loadStamp key entry generation atMillis stale =>
      if (s.stamps entry.cell).generation ≠ generation then
        some (s, .check key entry generation stale)
      else some (s, .loadClock key entry generation atMillis stale)
  | .loadClock key entry generation atMillis stale =>
      if s.sinceEpoch - (atMillis - 1) < reverifyTtlMillis then
        some (s, .serveFast key entry generation)
      else some (s, .check key entry generation stale)
  | .serveFast _ _ _ => some (s, .idle)
  | .check key entry generation stale =>
      some (s, .judge key entry generation s.cacheGeneration stale)
  | .judge key entry generation started stale =>
      match a.verdict with
      | .unknown => some (s, .idle)
      | .stale => some (s, if stale = .serve then .idle else .evict key entry.cell)
      | .gone => some (s, .evict key entry.cell)
      | .fresh =>
          let confirmed := s.restamp entry.cell fun stamp =>
            { stamp with observed := max stamp.observed started }
          some (confirmed, if entry.firstParty then .idle else .stampClock entry generation)
  | .stampClock entry generation => some (s, .stampGeneration entry generation s.sinceEpoch)
  | .stampGeneration entry generation sinceEpoch =>
      some (s.restamp entry.cell fun stamp => { stamp with generation := generation },
        .stampTime entry sinceEpoch)
  | .stampTime entry sinceEpoch =>
      some (s.restamp entry.cell fun stamp => { stamp with atMillis := sinceEpoch + 1 }, .idle)
  | .evict key cell =>
      match s.memory.lookup key with
      | some current =>
          some (if current.cell = cell then { s with memory := s.memory.erase key } else s, .idle)
      | none => some (s, .idle)
  | .capture key requireFresh => some (s, .probe key s.cacheGeneration requireFresh)
  | .probe key generation requireFresh =>
      if a.onDisk then some (s, .judgeProbed key generation s.cacheGeneration requireFresh)
      else some (s, .idle)
  | .judgeProbed key generation started requireFresh =>
      let entry : Entry := ⟨s.nextCell, firstParty key⟩
      match a.verdict with
      | .stale | .gone => some (s, .idle)
      | .fresh => some (s.alloc ⟨generation, s.sinceEpoch + 1, started, 0⟩, .store key entry)
      | .unknown =>
          if requireFresh then some (s, .idle) else some (s.alloc {}, .store key entry)

end

def started : Config Shared Position where
  shared :=
    { cacheGeneration := 1
      sinceEpoch := 0
      memory := ∅
      stamps := fun _ => {}
      nextCell := 0
      flights := Flights.empty }
  thread _ := .idle

/-! ## What a thread knows -/

/-- The flight was registered under this key and generation. -/
def OfFlight (s : Shared) (key : Key) (generation flight : Nat) : Prop :=
  flight < s.flights.next ∧ (s.flights.flight flight).key = (key, generation)

/-- The files of an entry were observed under `generation` or later. -/
def Observed (s : Shared) (entry : Entry) (generation : Nat) : Prop :=
  generation ≤ (s.stamps entry.cell).observed

/-- What holds of a thread at a position: it captured its generation before it
observes anything but the manifest, and stamps only what was observed since. -/
def Fits (s : Shared) : Position → Prop
  | .idle | .resolve _ _ | .abandon _ | .unwind _ _ _ | .evict _ _ | .capture _ _ => True
  | .claim _ generation _ | .probe _ generation _ => generation ≤ s.cacheGeneration
  | .lead key generation flight _ | .follow key generation flight _ =>
      generation ≤ s.cacheGeneration ∧ OfFlight s key generation flight
  | .compute key generation flight _ observed =>
      generation ≤ observed ∧ OfFlight s key generation flight
  | .publish key generation flight analysis =>
      generation ≤ analysis.observed ∧ OfFlight s key generation flight
  | .retire _ generation _ analysis | .insert _ generation analysis =>
      generation ≤ analysis.observed
  | .store _ entry | .loadGeneration _ entry _ _ | .stampTime entry _ => entry.cell < s.nextCell
  | .loadTime _ entry generation _ | .loadStamp _ entry generation _ _
  | .check _ entry generation _ => entry.cell < s.nextCell ∧ generation ≤ s.cacheGeneration
  | .loadClock _ entry generation _ _ =>
      entry.cell < s.nextCell ∧ generation ≤ s.cacheGeneration ∧ Observed s entry generation
  | .serveFast _ entry generation | .stampClock entry generation
  | .stampGeneration entry generation _ => entry.cell < s.nextCell ∧ Observed s entry generation
  | .judge _ entry generation started _ => entry.cell < s.nextCell ∧ generation ≤ started
  | .judgeProbed _ generation started _ => generation ≤ started

/-- What every step leaves in place: generations only grow, and so does what is
known of an entry or a flight. -/
structure Grows (s s' : Shared) : Prop where
  generation : s.cacheGeneration ≤ s'.cacheGeneration
  cells : s.nextCell ≤ s'.nextCell
  observed : ∀ cell, cell < s.nextCell → (s.stamps cell).observed ≤ (s'.stamps cell).observed
  flights : s.flights.next ≤ s'.flights.next
  keys : ∀ flight, flight < s.flights.next →
    (s'.flights.flight flight).key = (s.flights.flight flight).key

theorem Grows.refl (s : Shared) : Grows s s :=
  ⟨le_rfl, le_rfl, fun _ _ => le_rfl, le_rfl, fun _ _ => rfl⟩

theorem Grows.trans {s s' s'' : Shared} (h : Grows s s') (k : Grows s' s'') : Grows s s'' where
  generation := h.generation.trans k.generation
  cells := h.cells.trans k.cells
  observed cell hcell := (h.observed cell hcell).trans (k.observed cell (hcell.trans_le h.cells))
  flights := h.flights.trans k.flights
  keys flight hlt := (k.keys flight (hlt.trans_le h.flights)).trans (h.keys flight hlt)

theorem Grows.fits {s s' : Shared} (h : Grows s s') {p : Position} (hp : Fits s p) : Fits s' p := by
  have hflight : ∀ {key generation flight}, OfFlight s key generation flight →
      OfFlight s' key generation flight := by
    intro key generation flight hof
    refine ⟨hof.1.trans_le h.flights, ?_⟩
    rw [h.keys flight hof.1]
    exact hof.2
  have hobserved : ∀ {entry : Entry} {generation}, entry.cell < s.nextCell →
      Observed s entry generation → Observed s' entry generation :=
    fun hcell hobs => le_trans hobs (h.observed _ hcell)
  cases p with
  | idle | resolve | abandon | unwind | evict | capture => trivial
  | claim | probe => exact le_trans hp h.generation
  | lead | follow => exact ⟨hp.1.trans h.generation, hflight hp.2⟩
  | compute | publish => exact ⟨hp.1, hflight hp.2⟩
  | retire | insert | judgeProbed => exact hp
  | store | loadGeneration | stampTime => exact lt_of_lt_of_le hp h.cells
  | loadTime | loadStamp | check => exact ⟨hp.1.trans_le h.cells, hp.2.trans h.generation⟩
  | loadClock =>
      exact ⟨hp.1.trans_le h.cells, hp.2.1.trans h.generation, hobserved hp.1 hp.2.2⟩
  | serveFast | stampClock | stampGeneration =>
      exact ⟨hp.1.trans_le h.cells, hobserved hp.1 hp.2⟩
  | judge => exact ⟨hp.1.trans_le h.cells, hp.2⟩

/-- What holds of the shared state: a stamp never claims more than was observed,
and neither does the result of a flight. -/
structure Stamped (s : Shared) : Prop where
  stamps : ∀ cell, (s.stamps cell).generation ≤ (s.stamps cell).observed
  memory : s.memory.All fun _ entry => entry.cell < s.nextCell
  flights : s.flights.Keeps fun key analysis => key.2 ≤ analysis.observed

section

variable {s : Shared}

theorem grows_alloc (s : Shared) (stamp : Stamp) : Grows s (s.alloc stamp) where
  generation := le_rfl
  cells := Nat.le_succ _
  observed cell hcell := by simp [Shared.alloc, Function.update_of_ne hcell.ne]
  flights := le_rfl
  keys _ _ := rfl

theorem Stamped.alloc (h : Stamped s) {stamp : Stamp} (hstamp : stamp.generation ≤ stamp.observed) :
    Stamped (s.alloc stamp) where
  stamps cell := by
    by_cases hcell : cell = s.nextCell
    · subst hcell
      simpa [Shared.alloc] using hstamp
    · simpa [Shared.alloc, Function.update_of_ne hcell] using h.stamps cell
  memory key entry hrow := (h.memory key entry hrow).trans (Nat.lt_succ_self _)
  flights := h.flights

theorem grows_restamp (s : Shared) (cell : Nat) {f : Stamp → Stamp}
    (hf : (s.stamps cell).observed ≤ (f (s.stamps cell)).observed) :
    Grows s (s.restamp cell f) where
  generation := le_rfl
  cells := le_rfl
  observed other _ := by
    by_cases hother : other = cell
    · subst hother
      simpa [Shared.restamp] using hf
    · simp [Shared.restamp, Function.update_of_ne hother]
  flights := le_rfl
  keys _ _ := rfl

theorem Stamped.restamp (h : Stamped s) (cell : Nat) {f : Stamp → Stamp}
    (hf : (f (s.stamps cell)).generation ≤ (f (s.stamps cell)).observed) :
    Stamped (s.restamp cell f) where
  stamps other := by
    by_cases hother : other = cell
    · subst hother
      simpa [Shared.restamp] using hf
    · simpa [Shared.restamp, Function.update_of_ne hother] using h.stamps other
  memory := h.memory
  flights := h.flights

theorem grows_flights (s : Shared) {flights : Flights ComputedAnalysis}
    (hnext : s.flights.next ≤ flights.next)
    (hkeys : ∀ flight, flight < s.flights.next →
      (flights.flight flight).key = (s.flights.flight flight).key) :
    Grows s { s with flights := flights } where
  generation := le_rfl
  cells := le_rfl
  observed _ _ := le_rfl
  flights := hnext
  keys := hkeys

theorem Stamped.withFlights (h : Stamped s) {flights : Flights ComputedAnalysis}
    (hflights : flights.Keeps fun key analysis => key.2 ≤ analysis.observed) :
    Stamped { s with flights := flights } :=
  ⟨h.stamps, h.memory, hflights⟩

theorem grows_removeCurrentFlight (s : Shared) (key : FlightKey) (flight : Nat) :
    Grows s { s with flights := s.flights.removeCurrentFlight key flight } := by
  apply grows_flights
  · unfold Flights.removeCurrentFlight
    split <;> exact le_rfl
  · intro other _
    unfold Flights.removeCurrentFlight
    split <;> rfl

end

/-! ## Steps -/

variable {firstParty : Key → Bool}

theorem begin_sound {s : Shared} (hs : Stamped s) (call : Call) :
    Grows s (begin s call).1 ∧ Stamped (begin s call).1 ∧
      Fits (begin s call).1 (begin s call).2 := by
  cases call with
  | bump =>
      exact ⟨⟨Nat.le_succ _, le_rfl, fun _ _ => le_rfl, le_rfl, fun _ _ => rfl⟩,
        ⟨hs.stamps, hs.memory, hs.flights⟩, trivial⟩
  | tick millis =>
      exact ⟨⟨le_rfl, le_rfl, fun _ _ => le_rfl, le_rfl, fun _ _ => rfl⟩,
        ⟨hs.stamps, hs.memory, hs.flights⟩, trivial⟩
  | forget key =>
      exact ⟨⟨le_rfl, le_rfl, fun _ _ => le_rfl, le_rfl, fun _ _ => rfl⟩,
        ⟨hs.stamps, hs.memory.erase key, hs.flights⟩, trivial⟩
  | analyze key => exact ⟨.refl s, hs, trivial⟩
  | lookup key requireFresh stale =>
      simp only [begin]
      split
      · rename_i entry hrow
        exact ⟨.refl s, hs, hs.memory key entry hrow⟩
      · exact ⟨.refl s, hs, trivial⟩

section

variable {t : Nat} {a : Action} {s s' : Shared} {p' : Position}

/-- What a step from `s` to `s'` and `p'` is to keep. -/
def Sounds (s s' : Shared) (p' : Position) : Prop := Grows s s' ∧ Stamped s' ∧ Fits s' p'

theorem Sounds.still (hs : Stamped s) {p : Position} (hp : Fits s p) : Sounds s s p :=
  ⟨.refl s, hs, hp⟩

/-! ### Flights -/

theorem claim_sound {key : Key} {generation resolved : Nat} (hs : Stamped s)
    (hp : Fits s (.claim key generation resolved))
    (h : program firstParty t a s (.claim key generation resolved) = some (s', p')) :
    Sounds s s' p' := by
  unfold program at h
  dsimp only at h
  split at h
  · rename_i flight flights hclaimed
    cases h
    obtain ⟨hkeeps, hlt, hkey, hnext, hkeys⟩ := hs.flights.claimFlight (.inl rfl) hclaimed
    exact ⟨grows_flights s hnext hkeys, hs.withFlights hkeeps, hp, hlt, hkey⟩
  · rename_i flight flights hclaimed
    cases h
    obtain ⟨hkeeps, hlt, hkey, hnext, hkeys⟩ := hs.flights.claimFlight (.inr rfl) hclaimed
    exact ⟨grows_flights s hnext hkeys, hs.withFlights hkeeps, hp, hlt, hkey⟩

theorem compute_sound {key : Key} {generation flight resolved observed : Nat} (hs : Stamped s)
    (hp : Fits s (.compute key generation flight resolved observed))
    (h : program firstParty t a s (.compute key generation flight resolved observed) =
      some (s', p')) : Sounds s s' p' := by
  unfold program at h
  dsimp only at h
  split at h
  · cases h
    exact .still hs trivial
  · cases h
    exact .still hs hp

theorem publish_sound {key : Key} {generation flight : Nat} {analysis : ComputedAnalysis}
    (hs : Stamped s) (hp : Fits s (.publish key generation flight analysis)) :
    Sounds s { s with flights := s.flights.publish flight analysis }
      (.retire key generation flight analysis) := by
  have hkeeps := hs.flights.publish flight analysis (by rw [hp.2.2]; exact hp.1)
  refine ⟨grows_flights s le_rfl fun other _ => ?_, hs.withFlights hkeeps, hp.1⟩
  exact Flights.modify_key _ _ _ fun _ => rfl

theorem abandon_sound {flight : Nat} (hs : Stamped s) :
    Sounds s { s with flights := s.flights.closeWithoutResult flight } .idle := by
  refine ⟨grows_flights s le_rfl fun other _ => ?_,
    hs.withFlights (hs.flights.closeWithoutResult flight), trivial⟩
  exact Flights.modify_key _ _ _ fun _ => rfl

/-- A follower takes the result of a flight under its own capture. -/
theorem follow_sound {key : Key} {generation flight resolved : Nat} (hs : Stamped s)
    (hp : Fits s (.follow key generation flight resolved))
    (h : program firstParty t a s (.follow key generation flight resolved) = some (s', p')) :
    Sounds s s' p' := by
  unfold program at h
  dsimp only at h
  split at h
  · cases h
  · split at h
    · rename_i analysis hresult
      cases h
      have hobserved := hs.flights.result flight analysis hresult
      rw [hp.2.2] at hobserved
      exact .still hs hobserved
    · cases h
      exact .still hs hp.1

/-! ### Entries -/

theorem insert_sound {key : Key} {generation : Nat} {analysis : ComputedAnalysis}
    (hs : Stamped s) (hp : Fits s (.insert key generation analysis))
    (h : program firstParty t a s (.insert key generation analysis) = some (s', p')) :
    Sounds s s' p' := by
  unfold program at h
  dsimp only at h
  split at h
  · cases h
    exact ⟨grows_alloc s _, hs.alloc hp, Nat.lt_succ_self _⟩
  · cases h
    exact .still hs trivial

theorem grows_memory (s : Shared) (memory : Keyed Key Entry) :
    Grows s { s with memory := memory } :=
  ⟨le_rfl, le_rfl, fun _ _ => le_rfl, le_rfl, fun _ _ => rfl⟩

theorem store_sound {key : Key} {entry : Entry} (hs : Stamped s)
    (hp : Fits s (.store key entry))
    (h : program firstParty t a s (.store key entry) = some (s', p')) : Sounds s s' p' := by
  cases h
  split
  · exact ⟨grows_memory s _, ⟨hs.stamps, hs.memory.insert hp, hs.flights⟩, trivial⟩
  · exact .still hs trivial

theorem evict_sound {key : Key} {cell : Nat} (hs : Stamped s)
    (h : program firstParty t a s (.evict key cell) = some (s', p')) : Sounds s s' p' := by
  unfold program at h
  dsimp only at h
  split at h
  · split at h
    · cases h
      exact ⟨grows_memory s _, ⟨hs.stamps, hs.memory.erase key, hs.flights⟩, trivial⟩
    · cases h
      exact .still hs trivial
  · cases h
    exact .still hs trivial

/-! ### Lookups -/

theorem loadGeneration_sound {key : Key} {entry : Entry} {requireFresh : Bool}
    {stale : StalePolicy} (hs : Stamped s)
    (hp : Fits s (.loadGeneration key entry requireFresh stale))
    (h : program firstParty t a s (.loadGeneration key entry requireFresh stale) =
      some (s', p')) : Sounds s s' p' := by
  unfold program at h
  dsimp only at h
  split at h
  · cases h
    exact .still hs ⟨hp, le_rfl⟩
  · cases h
    exact .still hs ⟨hp, le_rfl⟩

theorem loadTime_sound {key : Key} {entry : Entry} {generation : Nat} {stale : StalePolicy}
    (hs : Stamped s) (hp : Fits s (.loadTime key entry generation stale))
    (h : program firstParty t a s (.loadTime key entry generation stale) = some (s', p')) :
    Sounds s s' p' := by
  unfold program at h
  dsimp only at h
  split at h
  · cases h
    exact .still hs hp
  · cases h
    exact .still hs hp

/-- A stamp of the loaded generation was observed since that generation. -/
theorem loadStamp_sound {key : Key} {entry : Entry} {generation atMillis : Nat}
    {stale : StalePolicy} (hs : Stamped s)
    (hp : Fits s (.loadStamp key entry generation atMillis stale))
    (h : program firstParty t a s (.loadStamp key entry generation atMillis stale) =
      some (s', p')) : Sounds s s' p' := by
  unfold program at h
  dsimp only at h
  split at h
  · cases h
    exact .still hs hp
  · rename_i hgeneration
    cases h
    refine .still hs ⟨hp.1, hp.2, ?_⟩
    rw [Observed, ← Decidable.not_not.mp hgeneration]
    exact hs.stamps entry.cell

theorem loadClock_sound {key : Key} {entry : Entry} {generation atMillis : Nat}
    {stale : StalePolicy} (hs : Stamped s)
    (hp : Fits s (.loadClock key entry generation atMillis stale))
    (h : program firstParty t a s (.loadClock key entry generation atMillis stale) =
      some (s', p')) : Sounds s s' p' := by
  unfold program at h
  dsimp only at h
  split at h
  · cases h
    exact .still hs ⟨hp.1, hp.2.2⟩
  · cases h
    exact .still hs ⟨hp.1, hp.2.1⟩

/-- A check that finds the files fresh has observed them since it began. -/
theorem judge_sound {key : Key} {entry : Entry} {generation started : Nat} {stale : StalePolicy}
    (hs : Stamped s) (hp : Fits s (.judge key entry generation started stale))
    (h : program firstParty t a s (.judge key entry generation started stale) = some (s', p')) :
    Sounds s s' p' := by
  unfold program at h
  dsimp only at h
  split at h
  · cases h
    exact .still hs trivial
  · cases h
    refine .still hs ?_
    split <;> trivial
  · cases h
    exact .still hs trivial
  · cases h
    refine ⟨grows_restamp s _ (le_max_left _ _),
      hs.restamp _ ((hs.stamps entry.cell).trans (le_max_left _ _)), ?_⟩
    split
    · trivial
    · refine ⟨hp.1, ?_⟩
      simpa [Observed, Shared.restamp] using .inr hp.2

theorem probe_sound {key : Key} {generation : Nat} {requireFresh : Bool} (hs : Stamped s)
    (hp : Fits s (.probe key generation requireFresh))
    (h : program firstParty t a s (.probe key generation requireFresh) = some (s', p')) :
    Sounds s s' p' := by
  unfold program at h
  dsimp only at h
  split at h
  · cases h
    exact .still hs hp
  · cases h
    exact .still hs trivial

theorem judgeProbed_sound {key : Key} {generation started : Nat} {requireFresh : Bool}
    (hs : Stamped s) (hp : Fits s (.judgeProbed key generation started requireFresh))
    (h : program firstParty t a s (.judgeProbed key generation started requireFresh) =
      some (s', p')) : Sounds s s' p' := by
  unfold program at h
  dsimp only at h
  split at h
  · cases h
    exact .still hs trivial
  · cases h
    exact .still hs trivial
  · cases h
    exact ⟨grows_alloc s _, hs.alloc hp, Nat.lt_succ_self _⟩
  · split at h
    · cases h
      exact .still hs trivial
    · cases h
      exact ⟨grows_alloc s _, hs.alloc le_rfl, Nat.lt_succ_self _⟩

theorem program_sound {p : Position} (hs : Stamped s) (hp : Fits s p)
    (h : program firstParty t a s p = some (s', p')) : Sounds s s' p' := by
  cases p with
  | idle =>
      simp only [program, Option.some.injEq] at h
      have hbegin := begin_sound hs a.call
      rw [h] at hbegin
      exact hbegin
  | resolve key resolved =>
      cases h
      exact .still hs le_rfl
  | claim => exact claim_sound hs hp h
  | lead key generation flight resolved =>
      cases h
      exact .still hs hp
  | compute => exact compute_sound hs hp h
  | publish =>
      cases h
      exact publish_sound hs hp
  | retire =>
      cases h
      exact ⟨grows_removeCurrentFlight s _ _,
        hs.withFlights (hs.flights.removeCurrentFlight _ _), hp⟩
  | unwind =>
      cases h
      exact ⟨grows_removeCurrentFlight s _ _,
        hs.withFlights (hs.flights.removeCurrentFlight _ _), trivial⟩
  | abandon =>
      cases h
      exact abandon_sound hs
  | follow => exact follow_sound hs hp h
  | insert => exact insert_sound hs hp h
  | store => exact store_sound hs hp h
  | loadGeneration => exact loadGeneration_sound hs hp h
  | loadTime => exact loadTime_sound hs hp h
  | loadStamp => exact loadStamp_sound hs hp h
  | loadClock => exact loadClock_sound hs hp h
  | serveFast =>
      cases h
      exact .still hs trivial
  | check =>
      cases h
      exact .still hs hp
  | judge => exact judge_sound hs hp h
  | stampClock =>
      cases h
      exact .still hs hp
  | stampGeneration =>
      cases h
      exact ⟨grows_restamp s _ le_rfl, hs.restamp _ hp.2, hp.1⟩
  | stampTime entry sinceEpoch =>
      cases h
      exact ⟨grows_restamp s _ le_rfl, hs.restamp _ (hs.stamps entry.cell), trivial⟩
  | evict => exact evict_sound hs h
  | capture =>
      cases h
      exact .still hs le_rfl
  | probe => exact probe_sound hs hp h
  | judgeProbed => exact judgeProbed_sound hs hp h

end

/-! ## Runs -/

/-- What holds in every configuration. -/
structure Sound (c : Config Shared Position) : Prop where
  stamped : Stamped c.shared
  fits : ∀ t, Fits c.shared (c.thread t)

theorem sound_started : Sound started where
  stamped := ⟨fun _ => le_rfl, Keyed.all_empty _, Flights.keeps_empty _⟩
  fits _ := trivial

variable {c d : Config Shared Position} {t u : Nat} {a : Action} {acts : List (Nat × Action)}

theorem Sound.step (hc : Sound c) (h : c.step (program firstParty) t a = some d) :
    Grows c.shared d.shared ∧ Sound d := by
  obtain ⟨shared, position, hprog, rfl⟩ := Config.step_eq_some h
  obtain ⟨hgrows, hstamped, hfits⟩ := program_sound hc.stamped (hc.fits t) hprog
  refine ⟨hgrows, hstamped, fun other => ?_⟩
  by_cases hother : other = t
  · subst hother
    simpa using hfits
  · simpa [Function.update_of_ne hother] using hgrows.fits (hc.fits other)

theorem Sound.runs {guard : Config Shared Position → Nat → Action → Prop} (hc : Sound c)
    (h : Runs (program firstParty) guard c acts d) : Grows c.shared d.shared ∧ Sound d := by
  induction h with
  | refl c => exact ⟨.refl _, hc⟩
  | cons _ hone _ ih =>
      obtain ⟨hgrows, hsound⟩ := hc.step hone
      obtain ⟨hrest, hlast⟩ := ih hsound
      exact ⟨hgrows.trans hrest, hlast⟩

/-! ## The first read after a bump -/

/-- A lookup on its way to check the fingerprints of an entry, having loaded
`generation` or a later one if it has loaded any. -/
def Position.OnTheWay (generation : Nat) (entry : Entry) : Position → Prop
  | .loadGeneration _ fetched _ _ => fetched = entry
  | .loadTime _ fetched loaded _ | .loadStamp _ fetched loaded _ _
  | .check _ fetched loaded _ => fetched = entry ∧ generation ≤ loaded
  | _ => False

def Position.loadsLeft : Position → Nat
  | .loadGeneration _ _ _ _ => 3
  | .loadTime _ _ _ _ => 2
  | .loadStamp _ _ _ _ _ => 1
  | _ => 0

def Position.isCheck : Position → Bool
  | .check _ _ _ _ => true
  | _ => false

/-- A lookup of an entry that was not observed since the bump gets no further
than the check: its stamp is of an older generation than the loaded one. -/
theorem onTheWay_step {generation : Nat} {entry : Entry} {s s' : Shared} {p p' : Position}
    (hs : Stamped s) (hgeneration : generation ≤ s.cacheGeneration)
    (hunobserved : ¬ Observed s entry generation) (hcheck : p.isCheck = false)
    (hp : p.OnTheWay generation entry) (h : program firstParty t a s p = some (s', p')) :
    p'.OnTheWay generation entry ∧ p'.loadsLeft + 1 ≤ p.loadsLeft := by
  cases p with
  | loadGeneration key fetched requireFresh stale =>
      unfold program at h
      dsimp only at h
      split at h
      · cases h
        exact ⟨⟨hp, hgeneration⟩, by simp [Position.loadsLeft]⟩
      · cases h
        exact ⟨⟨hp, hgeneration⟩, le_rfl⟩
  | loadTime key fetched loaded stale =>
      unfold program at h
      dsimp only at h
      split at h
      · cases h
        exact ⟨hp, by simp [Position.loadsLeft]⟩
      · cases h
        exact ⟨hp, le_rfl⟩
  | loadStamp key fetched loaded atMillis stale =>
      unfold program at h
      dsimp only at h
      split at h
      · cases h
        exact ⟨hp, le_rfl⟩
      · rename_i hstamp
        obtain ⟨rfl, hloaded⟩ := hp
        have hcurrent : (s.stamps fetched.cell).generation = loaded := Decidable.not_not.mp hstamp
        refine absurd ?_ hunobserved
        calc
          generation ≤ loaded := hloaded
          _ = (s.stamps fetched.cell).generation := hcurrent.symm
          _ ≤ (s.stamps fetched.cell).observed := hs.stamps fetched.cell
  | check key fetched loaded stale => simp [Position.isCheck] at hcheck
  | _ => exact absurd hp id

/-- Every step of thread `u` but the one that checks. -/
def BeforeCheck (u : Nat) (c : Config Shared Position) (t : Nat) (_ : Action) : Prop :=
  t = u → (c.thread u).isCheck = false

instance (u : Nat) (c : Config Shared Position) (t : Nat) (a : Action) :
    Decidable (BeforeCheck u c t a) :=
  inferInstanceAs (Decidable (_ → _))

theorem onTheWay_runs {generation : Nat} {entry : Entry} (hc : Sound c)
    (hgeneration : generation ≤ c.shared.cacheGeneration) (hcell : entry.cell < c.shared.nextCell)
    (hway : (c.thread u).OnTheWay generation entry)
    (h : Runs (program firstParty) (BeforeCheck u) c acts d)
    (hunobserved : ¬ Observed d.shared entry generation) :
    (d.thread u).OnTheWay generation entry ∧
      (acts.map Prod.fst).count u + (d.thread u).loadsLeft ≤ (c.thread u).loadsLeft := by
  induction h with
  | refl c => exact ⟨hway, by simp⟩
  | @cons c next e t a rest hguard hone hrest ih =>
      obtain ⟨hgrows, hsound⟩ := hc.step hone
      have hlater := (hsound.runs hrest).1
      have hcell' := hcell.trans_le hgrows.cells
      have hbefore : ¬ Observed c.shared entry generation := by
        intro hobserved
        refine hunobserved (le_trans hobserved ?_)
        exact (hgrows.observed _ hcell).trans (hlater.observed _ hcell')
      have hnext := ih hsound (hgeneration.trans hgrows.generation) hcell'
      by_cases htu : t = u
      · subst htu
        obtain ⟨shared, position, hprog, rfl⟩ := Config.step_eq_some hone
        obtain ⟨hway', hloads⟩ :=
          onTheWay_step hc.stamped hgeneration hbefore (hguard rfl) hway hprog
        obtain ⟨hlast, hcount⟩ := hnext (by simpa using hway') hunobserved
        refine ⟨hlast, ?_⟩
        simp only [Function.update_self] at hcount
        simp only [List.map_cons, List.count_cons_self]
        omega
      · have hthread := Config.thread_of_step_ne hone (Ne.symm htu)
        rw [hthread] at hnext
        obtain ⟨hlast, hcount⟩ := hnext hway hunobserved
        refine ⟨hlast, ?_⟩
        simpa [List.count_cons, htu] using hcount

/-! ## Invalidations -/

theorem bump_step (hidle : c.thread t = .idle) (hcall : a.call = .bump)
    (hbump : c.step (program firstParty) t a = some d) :
    d.shared.cacheGeneration = c.shared.cacheGeneration + 1 := by
  obtain ⟨shared, position, hprog, rfl⟩ := Config.step_eq_some hbump
  simp only [hidle, program, hcall, begin, Option.some.injEq, Prod.mk.injEq] at hprog
  rw [← hprog.1]

/-- After a bump, the fast path of a lookup that loads the generation after the
bump serves no entry that was last observed before it, and a lookup of such an
entry is on its way to the check after each of at most three loads. -/
theorem fast_path_respects_invalidations {c d e : Config Shared Position}
    {before after : List (Nat × Action)}
    (hbefore : Runs (program firstParty) (fun _ _ _ => True) started before c)
    (hidle : c.thread t = .idle) (hcall : a.call = .bump)
    (hbump : c.step (program firstParty) t a = some d)
    (hafter : Runs (program firstParty) (fun _ _ _ => True) d after e) :
    (∀ u key entry loaded, e.thread u = .serveFast key entry loaded →
      c.shared.cacheGeneration < loaded →
      c.shared.cacheGeneration < (e.shared.stamps entry.cell).observed) ∧
    ∀ u key entry requireFresh stale more f,
      e.thread u = .loadGeneration key entry requireFresh stale →
      Runs (program firstParty) (BeforeCheck u) e more f →
      (f.shared.stamps entry.cell).observed ≤ c.shared.cacheGeneration →
      (f.thread u).OnTheWay (c.shared.cacheGeneration + 1) entry ∧
        (more.map Prod.fst).count u + (f.thread u).loadsLeft ≤ 3 := by
  have hsoundC := (sound_started.runs hbefore).2
  have hsoundD := (hsoundC.step hbump).2
  obtain ⟨hgrows, hsoundE⟩ := hsoundD.runs hafter
  have hgeneration := hgrows.generation
  rw [bump_step hidle hcall hbump] at hgeneration
  constructor
  · intro u key entry loaded hserve hloaded
    have hfits := hsoundE.fits u
    rw [hserve] at hfits
    exact hloaded.trans_le hfits.2
  · intro u key entry requireFresh stale more f hload hmore hunobserved
    have hfits := hsoundE.fits u
    rw [hload] at hfits
    have hway : (e.thread u).OnTheWay (c.shared.cacheGeneration + 1) entry := by
      rw [hload]
      rfl
    have hlast := onTheWay_runs hsoundE hgeneration hfits hway hmore
      (Nat.not_le_of_lt (Nat.lt_succ_of_le hunobserved))
    rw [hload] at hlast
    exact hlast

def analyzed : List (Nat × Action) :=
  (0, { call := .analyze "k" }) :: List.replicate 8 (0, {})

/-- The entry of an analysis before a bump: the next lookup of it is at the
check after its three loads. -/
theorem fast_path_refused_after_bump :
    ∃ e f : Config Shared Position,
      e.thread 1 = .loadGeneration "k" ⟨0, false⟩ false .serve ∧
      Runs (program fun _ => false) (BeforeCheck 1) e [(1, {}), (1, {}), (1, {})] f ∧
      (f.thread 1).OnTheWay 2 ⟨0, false⟩ ∧ (f.thread 1).loadsLeft = 0 := by
  have hrun : ((started.run (program fun _ => false) (fun _ _ _ => True) analyzed).any fun c =>
      decide (c.thread 2 = .idle ∧ c.shared.cacheGeneration = 1) &&
        (c.step (program fun _ => false) 2 { call := .bump }).any fun d =>
          (d.run (program fun _ => false) (fun _ _ _ => True)
            [(1, { call := .lookup "k" false .serve })]).any fun e =>
            decide (e.thread 1 = .loadGeneration "k" ⟨0, false⟩ false .serve) &&
              (e.run (program fun _ => false) (BeforeCheck 1) [(1, {}), (1, {}), (1, {})]).any
                fun f => decide ((f.shared.stamps 0).observed ≤ 1)) = true := by
    decide
  obtain ⟨c, hbefore, htest⟩ := Runs.of_run_any hrun
  obtain ⟨hc, hrest⟩ := Bool.and_eq_true_iff.mp htest
  obtain ⟨d, hbump, htest₁⟩ := (Option.any_eq_true _ _).mp hrest
  obtain ⟨e, hafter, htest₂⟩ := Runs.of_run_any htest₁
  obtain ⟨hload, hrest₂⟩ := Bool.and_eq_true_iff.mp htest₂
  obtain ⟨f, hmore, hobserved⟩ := Runs.of_run_any hrest₂
  obtain ⟨hidle, hone⟩ := of_decide_eq_true hc
  have hthread := of_decide_eq_true hload
  obtain ⟨hway, hloads⟩ := (fast_path_respects_invalidations hbefore hidle rfl hbump hafter).2
    1 "k" ⟨0, false⟩ false .serve _ f hthread hmore
      (by rw [hone]; exact of_decide_eq_true hobserved)
  rw [hone] at hway
  exact ⟨e, f, hthread, hmore, hway, by simpa using hloads⟩

/-- A lookup loads the generation, a bump lands, and the lookup goes on to serve
the entry of an analysis before the bump without a check.  And an analysis that
resolves its package before a bump and captures the generation after it leaves an
entry that the fast path of a later lookup serves. -/
theorem fast_path_overtaken_by_bump :
    (¬ ∀ (firstParty : Key → Bool) (c d e : Config Shared Position)
      (before after : List (Nat × Action)) (t : Nat) (a : Action),
      Runs (program firstParty) (fun _ _ _ => True) started before c →
      c.thread t = .idle → a.call = .bump →
      c.step (program firstParty) t a = some d →
      Runs (program firstParty) (fun _ _ _ => True) d after e →
      ∀ u key entry loaded, e.thread u = .serveFast key entry loaded →
        c.shared.cacheGeneration < (e.shared.stamps entry.cell).observed) ∧
    ∃ (before after : List (Nat × Action)) (c d e : Config Shared Position),
      Runs (program fun _ => false) (fun _ _ _ => True) started before c ∧
      c.thread 2 = .idle ∧ c.step (program fun _ => false) 2 { call := .bump } = some d ∧
      Runs (program fun _ => false) (fun _ _ _ => True) d after e ∧
      e.thread 1 = .serveFast "k" ⟨0, false⟩ 2 ∧ (e.shared.stamps 0).resolved = 1 := by
  constructor
  · intro hserves
    have hrun : ((started.run (program fun _ => false) (fun _ _ _ => True)
        (analyzed.append [(1, { call := .lookup "k" false .serve }), (1, {})])).any fun c =>
        decide (c.thread 2 = .idle ∧ c.shared.cacheGeneration = 1) &&
          (c.step (program fun _ => false) 2 { call := .bump }).any fun d =>
            (d.run (program fun _ => false) (fun _ _ _ => True) [(1, {}), (1, {}), (1, {})]).any
              fun e => decide (e.thread 1 = .serveFast "k" ⟨0, false⟩ 1 ∧
                (e.shared.stamps 0).observed = 1)) = true := by
      decide
    obtain ⟨c, hbefore, htest⟩ := Runs.of_run_any hrun
    obtain ⟨hc, hrest⟩ := Bool.and_eq_true_iff.mp htest
    obtain ⟨d, hbump, htest₁⟩ := (Option.any_eq_true _ _).mp hrest
    obtain ⟨e, hafter, he⟩ := Runs.of_run_any htest₁
    obtain ⟨hidle, hone⟩ := of_decide_eq_true hc
    obtain ⟨hserve, hobserved⟩ := of_decide_eq_true he
    have hlater := hserves _ c d e _ _ 2 _ hbefore hidle rfl hbump hafter 1 _ _ _ hserve
    rw [hone, hobserved] at hlater
    exact absurd hlater (Nat.lt_irrefl 1)
  · have hrun : ((started.run (program fun _ => false) (fun _ _ _ => True)
        [(0, { call := .analyze "k" })]).any fun c =>
        decide (c.thread 2 = .idle) &&
          (c.step (program fun _ => false) 2 { call := .bump }).any fun d =>
            (d.run (program fun _ => false) (fun _ _ _ => True)
              (List.append (List.replicate 8 (0, {}))
                ((1, { call := .lookup "k" false .serve }) :: List.replicate 4 (1, {})))).any
              fun e => decide (e.thread 1 = .serveFast "k" ⟨0, false⟩ 2 ∧
                (e.shared.stamps 0).resolved = 1)) = true := by
      decide
    obtain ⟨c, hbefore, htest⟩ := Runs.of_run_any hrun
    obtain ⟨hc, hrest⟩ := Bool.and_eq_true_iff.mp htest
    obtain ⟨d, hbump, htest₁⟩ := (Option.any_eq_true _ _).mp hrest
    obtain ⟨e, hafter, he⟩ := Runs.of_run_any htest₁
    obtain ⟨hserve, hresolved⟩ := of_decide_eq_true he
    exact ⟨_, _, c, d, e, hbefore, of_decide_eq_true hc, hbump, hafter, hserve, hresolved⟩

end ImportLens.Cache.Stamping
