import ImportLens.Cache.Entry
import ImportLens.Cache.Key
import ImportLens.Support.Interleaving
import Mathlib.Data.List.MinMax

/-!
# The build memo

A memo for what is derived from an engine build, keyed by entry file and runtime.
A lookup takes the lock twice: to find the entry, and, after it has checked the
entry's files without the lock, to credit or to drop it.  A store draws its two
ticks before it takes the lock.  Invalidations bump the cache generation at any
moment, and time passes between any two steps.

Ticks, generations and milliseconds are natural numbers.
-/

namespace ImportLens.Pipeline.BuildMemo

open ImportLens.Daemon ImportLens.Cache ImportLens.Support

variable {V : Type}

def maxEntries : Nat := 256

abbrev Key : Type := String × ImportRuntime

structure Entry (V : Type) where
  value : V
  fingerprints : List FileFingerprint
  firstParty : List FileFingerprint
  /-- When every fingerprint was last confirmed current. -/
  verifiedAt : Option Nat
  generation : Nat
  stamp : Nat
  usedAt : Nat

/-! ## The sections -/

abbrev Entries (V : Type) : Type := Keyed Key (Entry V)

/-- What a lookup takes out of the first section. -/
structure Lookup (V : Type) where
  key : Key
  /-- The cache generation observed when the lookup began. -/
  generation : Nat
  entry : Entry V
  fingerprints : List FileFingerprint
  verifiedRecently : Bool
  /-- The time at which the entry was found. -/
  foundAt : Nat

/-- `elapsed() < REVERIFY_TTL` for a full check at `verifiedAt`. -/
def verifiedRecently (trustsInstalledWindow : Bool) (now : Nat) (entry : Entry V) : Bool :=
  trustsInstalledWindow && entry.verifiedAt.any fun verifiedAt =>
    decide (now - verifiedAt < reverifyTtlMillis)

/-- The first section of `get`. -/
def find (trustsInstalledWindow : Bool) (now : Nat) (key : Key) (generation : Nat)
    (entries : Entries V) : Option (Lookup V) × Entries V :=
  match entries.lookup key with
  | none => (none, entries)
  | some entry =>
      if entry.generation ≠ generation then (none, entries.erase key)
      else
        let recently := verifiedRecently trustsInstalledWindow now entry
        (some
          { key := key
            generation := generation
            entry := entry
            fingerprints := if recently then entry.firstParty else entry.fingerprints
            verifiedRecently := recently
            foundAt := now }, entries)

/-- The section of a lookup whose check found the entry unusable: what a
concurrent store put there since stays. -/
def drop (key : Key) (stamp : Nat) (entries : Entries V) : Entries V :=
  if (entries.lookup key).any fun entry => entry.stamp == stamp then entries.erase key
  else entries

def touch (lookup : Lookup V) (checkedAt tick : Nat) (entries : Entries V) : Entries V :=
  match entries.lookup lookup.key with
  | none => entries
  | some entry =>
      entries.insert lookup.key
        { entry with
          usedAt := tick
          verifiedAt :=
            if !lookup.verifiedRecently && entry.stamp == lookup.entry.stamp then some checkedAt
            else entry.verifiedAt }

def coldest (entries : Entries V) : Option Key :=
  (entries.rows.argmin fun row => row.2.usedAt).map Prod.fst

/-- Make room for `key`, if it is new and the map is full. -/
def evict (key : Key) (entries : Entries V) : Entries V :=
  if (entries.lookup key).isNone && decide (maxEntries ≤ entries.rows.length) then
    ((coldest entries).map entries.erase).getD entries
  else entries

/-- The section of `insert`. -/
def store (key : Key) (entry : Entry V) (entries : Entries V) : Entries V :=
  (evict key entries).insert key entry

/-! ## The machine -/

/-- One check of the files of an entry, by one call. -/
structure Check where
  caller : Nat
  stamp : Nat
  checkedAt : Nat
  fingerprints : List FileFingerprint
  fs : FileSystem

/-- What a lookup returns the value of. -/
structure Answer (V : Type) where
  lookup : Lookup V
  check : Check

/-- What a store has drawn the stamp for. -/
structure Origin (V : Type) where
  key : Key
  value : V
  fingerprints : List FileFingerprint
  generation : Nat

structure Shared (V : Type) where
  entries : Entries V := ∅
  tick : Nat := 0
  cacheGeneration : Nat
  clock : Nat
  /-- The store behind each stamp. -/
  origins : Keyed Nat (Origin V) := ∅
  /-- The stamp of the entry each tick was drawn for. -/
  uses : Keyed Nat Nat := ∅
  checks : List Check := []

inductive Position (V : Type)
  | idle
  | observed (key : Key) (generation : Nat)
  | checking (lookup : Lookup V)
  | probing (lookup : Lookup V) (checkedAt : Nat)
  | touching (lookup : Lookup V) (check : Check)
  | dropping (lookup : Lookup V)
  /-- The value of the lookup, with what it rests on. -/
  | answered (answer : Option (Answer V))
  | building (key : Key) (generation : Nat)
  | stamped (origin : Origin V) (stamp : Nat)
  | storing (key : Key) (entry : Entry V)
  | stored

inductive Call
  | get (key : Key)
  /-- The generation is observed, then the build runs, then `insert` is called. -/
  | insert (key : Key)
  | bump
  | elapse (millis : Nat)

/-- What the environment decides in one step. -/
structure Action (V : Type) where
  call : Call := .bump
  built : Option (V × List FileFingerprint) := none
  fs : FileSystem := ⟨fun _ => .error .other, fun _ => .error .other⟩

section

variable (trustsInstalledWindow : Bool) (contentHash : Bytes → Nat)

def Check.verdict (check : Check) : Freshness :=
  (checkFingerprintsStrict contentHash check.fs check.fingerprints).verdict

def Origin.entry (origin : Origin V) (stamp usedAt : Nat) : Entry V where
  value := origin.value
  fingerprints := origin.fingerprints
  firstParty := origin.fingerprints.filter fun fingerprint => !fingerprintIsInstalled fingerprint
  verifiedAt := none
  generation := origin.generation
  stamp := stamp
  usedAt := usedAt

def Shared.find (key : Key) (generation : Nat) (s : Shared V) : Shared V × Position V :=
  let (found, entries) :=
    BuildMemo.find trustsInstalledWindow s.clock key generation s.entries
  ({ s with entries := entries }, (found.map Position.checking).getD (.answered none))

def Shared.probe (caller : Nat) (fs : FileSystem) (lookup : Lookup V) (checkedAt : Nat)
    (s : Shared V) : Shared V × Position V :=
  let check : Check := ⟨caller, lookup.entry.stamp, checkedAt, lookup.fingerprints, fs⟩
  ({ s with checks := check :: s.checks },
    match check.verdict contentHash with
    | .fresh => .touching lookup check
    | .unknown => .answered none
    | .stale | .gone => .dropping lookup)

def Shared.touch (lookup : Lookup V) (check : Check) (s : Shared V) : Shared V × Position V :=
  (match s.entries.lookup lookup.key with
    | none => s
    | some entry =>
        { s with
          entries := BuildMemo.touch lookup check.checkedAt s.tick s.entries
          tick := s.tick + 1
          uses := s.uses.insert s.tick entry.stamp },
    .answered (some ⟨lookup, check⟩))

/-- `insert` up to its first tick. -/
def Shared.drawStamp (key : Key) (generation : Nat) (value : V)
    (fingerprints : List FileFingerprint) (s : Shared V) : Shared V × Position V :=
  if fingerprints.isEmpty || !fingerprintsAreReusable fingerprints then (s, .stored)
  else
    let origin : Origin V := ⟨key, value, fingerprints, generation⟩
    ({ s with tick := s.tick + 1, origins := s.origins.insert s.tick origin },
      .stamped origin s.tick)

def program : Program (Shared V) (Position V) (Action V) := fun t a s position =>
  match position with
  | .idle =>
      match a.call with
      | .get key => some (s, .observed key s.cacheGeneration)
      | .insert key => some (s, .building key s.cacheGeneration)
      | .bump => some ({ s with cacheGeneration := s.cacheGeneration + 1 }, .idle)
      | .elapse millis => some ({ s with clock := s.clock + millis }, .idle)
  | .observed key generation => some (s.find trustsInstalledWindow key generation)
  | .checking lookup => some (s, .probing lookup s.clock)
  | .probing lookup checkedAt => some (s.probe contentHash t a.fs lookup checkedAt)
  | .touching lookup check => some (s.touch lookup check)
  | .dropping lookup =>
      some ({ s with entries := drop lookup.key lookup.entry.stamp s.entries }, .answered none)
  | .building key generation =>
      match a.built with
      | none => some (s, .stored)
      | some (value, fingerprints) => some (s.drawStamp key generation value fingerprints)
  | .stamped origin stamp =>
      some ({ s with tick := s.tick + 1, uses := s.uses.insert s.tick stamp },
        .storing origin.key (origin.entry stamp s.tick))
  | .storing key entry => some ({ s with entries := store key entry s.entries }, .stored)
  | .answered _ | .stored => none

end

def started (cacheGeneration clock : Nat) : Config (Shared V) (Position V) where
  shared := { cacheGeneration := cacheGeneration, clock := clock }
  thread _ := .idle

/-! ## What a lookup may rely on -/

section

variable (trustsInstalledWindow : Bool) (contentHash : Bytes → Nat)

/-- The entry is what the store behind its stamp put there, under its key, and
its last full check succeeded. -/
structure Known (s : Shared V) (key : Key) (entry : Entry V) : Prop where
  origin : ∃ origin, s.origins.lookup entry.stamp = some origin ∧ origin.key = key ∧
    entry = { origin.entry entry.stamp entry.usedAt with verifiedAt := entry.verifiedAt }
  verified : ∀ verifiedAt, entry.verifiedAt = some verifiedAt → verifiedAt ≤ s.clock ∧
    ∃ check ∈ s.checks, check.stamp = entry.stamp ∧ check.checkedAt = verifiedAt ∧
      check.fingerprints = entry.fingerprints ∧ check.verdict contentHash = .fresh

/-- What the first section of a lookup has found. -/
structure Found (s : Shared V) (lookup : Lookup V) : Prop where
  known : Known contentHash s lookup.key lookup.entry
  generation : lookup.entry.generation = lookup.generation
  fingerprints : lookup.fingerprints =
    if lookup.verifiedRecently then lookup.entry.firstParty else lookup.entry.fingerprints
  recent : lookup.verifiedRecently = true → trustsInstalledWindow = true ∧
    ∃ verifiedAt, lookup.entry.verifiedAt = some verifiedAt ∧ verifiedAt ≤ lookup.foundAt ∧
      lookup.foundAt - verifiedAt < reverifyTtlMillis

/-- The check a lookup has made of the fingerprints it has to check. -/
def Checked (s : Shared V) (caller : Nat) (lookup : Lookup V) (check : Check) : Prop :=
  check ∈ s.checks ∧ check.caller = caller ∧ check.stamp = lookup.entry.stamp ∧
    check.fingerprints = lookup.fingerprints

def Holds (s : Shared V) (caller : Nat) : Position V → Prop
  | .checking lookup => Found trustsInstalledWindow contentHash s lookup
  | .probing lookup checkedAt =>
      Found trustsInstalledWindow contentHash s lookup ∧ checkedAt ≤ s.clock
  | .touching lookup check =>
      Found trustsInstalledWindow contentHash s lookup ∧ Checked s caller lookup check ∧
        check.verdict contentHash = .fresh ∧ check.checkedAt ≤ s.clock
  | .dropping lookup =>
      Found trustsInstalledWindow contentHash s lookup ∧
        ∃ check, Checked s caller lookup check ∧
          (check.verdict contentHash = .stale ∨ check.verdict contentHash = .gone)
  | .answered (some answer) =>
      Found trustsInstalledWindow contentHash s answer.lookup ∧
        Checked s caller answer.lookup answer.check ∧
        answer.check.verdict contentHash = .fresh
  | .stamped origin stamp => s.origins.lookup stamp = some origin
  | .storing key entry =>
      ∃ origin, s.origins.lookup entry.stamp = some origin ∧ origin.key = key ∧
        entry = origin.entry entry.stamp entry.usedAt
  | _ => True

/-- Every entry and every position rests on stores and checks that were made. -/
structure Provenance (s : Shared V) (thread : Nat → Position V) : Prop where
  origins : s.origins.All fun stamp _ => stamp < s.tick
  entries : s.entries.All (Known contentHash s)
  holds : ∀ t, Holds trustsInstalledWindow contentHash s t (thread t)

end

/-! ## What a step keeps -/

/-- Stores and checks are never forgotten, and time does not go back. -/
structure Grows (s s' : Shared V) : Prop where
  origins : ∀ stamp origin, s.origins.lookup stamp = some origin →
    s'.origins.lookup stamp = some origin
  checks : ∀ check ∈ s.checks, check ∈ s'.checks
  clock : s.clock ≤ s'.clock

section

variable {trustsInstalledWindow : Bool} {contentHash : Bytes → Nat}
variable {s s' : Shared V} {key : Key} {entry : Entry V} {lookup : Lookup V} {t : Nat}

theorem Known.mono (h : Known contentHash s key entry) (hgrows : Grows s s') :
    Known contentHash s' key entry where
  origin := by
    obtain ⟨origin, horigin, hrest⟩ := h.origin
    exact ⟨origin, hgrows.origins _ _ horigin, hrest⟩
  verified := by
    intro verifiedAt hverified
    obtain ⟨hle, check, hcheck, hrest⟩ := h.verified verifiedAt hverified
    exact ⟨hle.trans hgrows.clock, check, hgrows.checks check hcheck, hrest⟩

theorem Found.mono (h : Found trustsInstalledWindow contentHash s lookup)
    (hgrows : Grows s s') : Found trustsInstalledWindow contentHash s' lookup :=
  { h with known := h.known.mono hgrows }

theorem Checked.mono {check : Check} (h : Checked s t lookup check) (hgrows : Grows s s') :
    Checked s' t lookup check :=
  ⟨hgrows.checks check h.1, h.2⟩

theorem Holds.mono {p : Position V} (h : Holds trustsInstalledWindow contentHash s t p)
    (hgrows : Grows s s') : Holds trustsInstalledWindow contentHash s' t p := by
  cases p with
  | checking lookup => exact Found.mono h hgrows
  | probing lookup checkedAt => exact ⟨h.1.mono hgrows, h.2.trans hgrows.clock⟩
  | touching lookup check =>
      exact ⟨h.1.mono hgrows, h.2.1.mono hgrows, h.2.2.1, h.2.2.2.trans hgrows.clock⟩
  | dropping lookup =>
      obtain ⟨hfound, check, hchecked, hverdict⟩ := h
      exact ⟨hfound.mono hgrows, check, hchecked.mono hgrows, hverdict⟩
  | answered answer =>
      cases answer with
      | none => trivial
      | some answer => exact ⟨h.1.mono hgrows, h.2.1.mono hgrows, h.2.2⟩
  | stamped origin stamp => exact hgrows.origins _ _ h
  | storing key entry =>
      obtain ⟨origin, horigin, hrest⟩ := h
      exact ⟨origin, hgrows.origins _ _ horigin, hrest⟩
  | idle | observed | building | stored => trivial

/-- Entries with one stamp were put there by one store. -/
theorem Known.same_origin {key' : Key} {entry' : Entry V} (h : Known contentHash s key entry)
    (h' : Known contentHash s key' entry') (hstamp : entry.stamp = entry'.stamp) :
    key = key' ∧ entry.generation = entry'.generation ∧
      entry.fingerprints = entry'.fingerprints := by
  obtain ⟨origin, horigin, hkey, hentry⟩ := h.origin
  obtain ⟨origin', horigin', hkey', hentry'⟩ := h'.origin
  rw [hstamp, horigin'] at horigin
  cases horigin
  exact ⟨hkey.symm.trans hkey', by rw [hentry, hentry']; rfl, by rw [hentry, hentry']; rfl⟩

/-! ### The sections keep what the entries rest on -/

theorem all_evict {P : Key → Entry V → Prop} {entries : Entries V} (h : entries.All P)
    (key : Key) : (evict key entries).All P := by
  unfold evict
  split
  · cases coldest entries with
    | none => exact h
    | some cold => exact h.erase cold
  · exact h

theorem found_of_find {now generation : Nat} {entries : Entries V}
    (hentries : entries.All (Known contentHash s)) (hnow : s.clock = now)
    (hfind : (find trustsInstalledWindow now key generation entries).1 = some lookup) :
    Found trustsInstalledWindow contentHash s lookup := by
  unfold find at hfind
  split at hfind
  · cases hfind
  · rename_i entry hentry
    split at hfind
    · cases hfind
    · rename_i hgeneration
      cases hfind
      have hknown := hentries key entry hentry
      refine ⟨hknown, Classical.not_not.mp hgeneration, rfl, ?_⟩
      simp only [verifiedRecently, Bool.and_eq_true]
      rintro ⟨htrusts, hrecent⟩
      cases hverified : entry.verifiedAt with
      | none => simp [hverified] at hrecent
      | some verifiedAt =>
          rw [hverified] at hrecent
          exact ⟨htrusts, verifiedAt, rfl, hnow ▸ (hknown.verified verifiedAt hverified).1,
            of_decide_eq_true hrecent⟩

theorem holds_find {generation : Nat} (hentries : s.entries.All (Known contentHash s)) :
    Holds trustsInstalledWindow contentHash s t
      (((find trustsInstalledWindow s.clock key generation s.entries).1.map
        Position.checking).getD (.answered none)) := by
  cases hfind : (find trustsInstalledWindow s.clock key generation s.entries).1 with
  | none => trivial
  | some lookup => exact found_of_find hentries rfl hfind

theorem all_find {P : Key → Entry V → Prop} {now generation : Nat} {entries : Entries V}
    (h : entries.All P) : (find trustsInstalledWindow now key generation entries).2.All P := by
  unfold find
  split
  · exact h
  · split
    · exact h.erase key
    · exact h

theorem all_drop {P : Key → Entry V → Prop} {stamp : Nat} {entries : Entries V}
    (h : entries.All P) : (drop key stamp entries).All P := by
  unfold drop
  split
  · exact h.erase key
  · exact h

theorem known_touch {check : Check} {entries : Entries V}
    (hentries : entries.All (Known contentHash s))
    (hfound : Found trustsInstalledWindow contentHash s lookup)
    (hchecked : Checked s t lookup check) (hfresh : check.verdict contentHash = .fresh)
    (hclock : check.checkedAt ≤ s.clock) (tick : Nat) :
    (touch lookup check.checkedAt tick entries).All (Known contentHash s) := by
  unfold touch
  cases hentry : entries.lookup lookup.key with
  | none => exact hentries
  | some entry =>
      have hknown := hentries lookup.key entry hentry
      refine hentries.insert ⟨?_, ?_⟩
      · obtain ⟨origin, horigin, hkey, heq⟩ := hknown.origin
        refine ⟨origin, horigin, hkey, ?_⟩
        rw [heq]
        rfl
      · intro verifiedAt hverified
        dsimp only at hverified ⊢
        split at hverified
        · -- a full check of this very entry
          rename_i hfull
          simp only [Bool.and_eq_true, Bool.not_eq_true', beq_iff_eq] at hfull
          cases hverified
          obtain ⟨hmem, _, hstamp, hfingerprints⟩ := hchecked
          have hsame := hknown.same_origin hfound.known hfull.2
          refine ⟨hclock, check, hmem, hstamp.trans hfull.2.symm, rfl, ?_, hfresh⟩
          rw [hfingerprints, hfound.fingerprints, hfull.1, if_neg (by simp)]
          exact hsame.2.2.symm
        · exact hknown.verified verifiedAt hverified

theorem origins_insert (horigins : s.origins.All fun stamp _ => stamp < s.tick)
    (origin : Origin V) {stamp : Nat} {old : Origin V} (h : s.origins.lookup stamp = some old) :
    (s.origins.insert s.tick origin).lookup stamp = some old := by
  have hlt := horigins stamp old h
  rw [Keyed.lookup_insert_eq, if_neg (by omega)]
  exact h

/-- What a step of one call has to show. -/
structure Sourced (trustsInstalledWindow : Bool) (contentHash : Bytes → Nat) (s : Shared V)
    (t : Nat) (next : Shared V × Position V) : Prop where
  grows : Grows s next.1
  origins : next.1.origins.All fun stamp _ => stamp < next.1.tick
  entries : next.1.entries.All (Known contentHash next.1)
  holds : Holds trustsInstalledWindow contentHash next.1 t next.2

theorem Grows.refl (s : Shared V) : Grows s s := ⟨fun _ _ h => h, fun _ h => h, Nat.le_refl _⟩

/-- A step that touches the entries only. -/
theorem sourced_of_entries {entries : Entries V} {next : Position V}
    (horigins : s.origins.All fun stamp _ => stamp < s.tick)
    (hentries : entries.All (Known contentHash s))
    (hholds : Holds trustsInstalledWindow contentHash s t next) :
    Sourced trustsInstalledWindow contentHash s t ({ s with entries := entries }, next) := by
  have hgrows : Grows s { s with entries := entries } :=
    ⟨fun _ _ h => h, fun _ h => h, Nat.le_refl _⟩
  exact ⟨hgrows, horigins, hentries.imp fun _ _ h => h.mono hgrows, hholds.mono hgrows⟩

theorem sourced_probe {fs : FileSystem} {checkedAt : Nat}
    (horigins : s.origins.All fun stamp _ => stamp < s.tick)
    (hentries : s.entries.All (Known contentHash s))
    (hholds : Holds trustsInstalledWindow contentHash s t (.probing lookup checkedAt)) :
    Sourced trustsInstalledWindow contentHash s t (s.probe contentHash t fs lookup checkedAt) := by
  have hgrows : Grows s (s.probe contentHash t fs lookup checkedAt).1 :=
    ⟨fun _ _ h => h, fun _ h => List.mem_cons_of_mem _ h, Nat.le_refl _⟩
  refine ⟨hgrows, horigins, hentries.imp fun _ _ h => h.mono hgrows, ?_⟩
  obtain ⟨hfound, hclock⟩ := hholds
  have hchecked : Checked (s.probe contentHash t fs lookup checkedAt).1 t lookup
      ⟨t, lookup.entry.stamp, checkedAt, lookup.fingerprints, fs⟩ :=
    ⟨List.mem_cons_self, rfl, rfl, rfl⟩
  unfold Shared.probe at hgrows hchecked ⊢
  dsimp only at hgrows hchecked ⊢
  split
  · exact ⟨hfound.mono hgrows, hchecked, by assumption, hclock⟩
  · trivial
  · exact ⟨hfound.mono hgrows, _, hchecked, .inl (by assumption)⟩
  · exact ⟨hfound.mono hgrows, _, hchecked, .inr (by assumption)⟩

theorem sourced_touch {check : Check}
    (horigins : s.origins.All fun stamp _ => stamp < s.tick)
    (hentries : s.entries.All (Known contentHash s))
    (hholds : Holds trustsInstalledWindow contentHash s t (.touching lookup check)) :
    Sourced trustsInstalledWindow contentHash s t (s.touch lookup check) := by
  obtain ⟨hfound, hchecked, hfresh, hclock⟩ := hholds
  have htouched := known_touch hentries hfound hchecked hfresh hclock s.tick
  unfold Shared.touch
  cases hentry : s.entries.lookup lookup.key with
  | none => exact ⟨.refl s, horigins, hentries, hfound, hchecked, hfresh⟩
  | some entry =>
      dsimp only
      generalize touch lookup check.checkedAt s.tick s.entries = entries at htouched
      have hgrows : Grows s { s with
          entries := entries
          tick := s.tick + 1
          uses := s.uses.insert s.tick entry.stamp } :=
        ⟨fun _ _ h => h, fun _ h => h, Nat.le_refl _⟩
      exact ⟨hgrows, horigins.imp fun _ _ h => Nat.lt_succ_of_lt h,
        htouched.imp fun _ _ h => h.mono hgrows, hfound.mono hgrows, hchecked.mono hgrows, hfresh⟩

theorem sourced_drawStamp {generation : Nat} {value : V} {fingerprints : List FileFingerprint}
    (horigins : s.origins.All fun stamp _ => stamp < s.tick)
    (hentries : s.entries.All (Known contentHash s)) :
    Sourced trustsInstalledWindow contentHash s t
      (s.drawStamp key generation value fingerprints) := by
  unfold Shared.drawStamp
  split
  · exact ⟨.refl s, horigins, hentries, trivial⟩
  · dsimp only
    have hgrows : Grows s { s with
        tick := s.tick + 1
        origins := s.origins.insert s.tick ⟨key, value, fingerprints, generation⟩ } :=
      ⟨fun _ _ h => origins_insert horigins _ h, fun _ h => h, Nat.le_refl _⟩
    refine ⟨hgrows, ?_, hentries.imp fun _ _ h => h.mono hgrows, ?_⟩
    · exact Keyed.All.insert (horigins.imp fun _ _ h => Nat.lt_succ_of_lt h) (Nat.lt_succ_self _)
    · show (s.origins.insert _ _).lookup _ = _
      rw [Keyed.lookup_insert_eq, if_pos rfl]

theorem sourced_of_program {a : Action V} {p : Position V} {next : Shared V × Position V}
    (horigins : s.origins.All fun stamp _ => stamp < s.tick)
    (hentries : s.entries.All (Known contentHash s))
    (hholds : Holds trustsInstalledWindow contentHash s t p)
    (h : program trustsInstalledWindow contentHash t a s p = some next) :
    Sourced trustsInstalledWindow contentHash s t next := by
  cases p with
  | idle =>
      simp only [program] at h
      split at h
      · cases h
        exact ⟨.refl s, horigins, hentries, trivial⟩
      · cases h
        exact ⟨.refl s, horigins, hentries, trivial⟩
      · cases h
        have hgrows : Grows s { s with cacheGeneration := s.cacheGeneration + 1 } :=
          ⟨fun _ _ h => h, fun _ h => h, Nat.le_refl _⟩
        exact ⟨hgrows, horigins, hentries.imp fun _ _ h => h.mono hgrows, trivial⟩
      · rename_i millis _
        cases h
        have hgrows : Grows s { s with clock := s.clock + millis } :=
          ⟨fun _ _ h => h, fun _ h => h, Nat.le_add_right _ _⟩
        exact ⟨hgrows, horigins, hentries.imp fun _ _ h => h.mono hgrows, trivial⟩
  | observed key generation =>
      cases h
      exact sourced_of_entries horigins (all_find hentries) (holds_find hentries)
  | checking lookup =>
      cases h
      exact ⟨.refl s, horigins, hentries, hholds, Nat.le_refl _⟩
  | probing lookup checkedAt =>
      cases h
      exact sourced_probe horigins hentries hholds
  | touching lookup check =>
      cases h
      exact sourced_touch horigins hentries hholds
  | dropping lookup =>
      cases h
      exact sourced_of_entries horigins (all_drop hentries) trivial
  | building key generation =>
      simp only [program] at h
      split at h
      · cases h
        exact ⟨.refl s, horigins, hentries, trivial⟩
      · cases h
        exact sourced_drawStamp horigins hentries
  | stamped origin stamp =>
      cases h
      have hgrows : Grows s { s with
          tick := s.tick + 1
          uses := s.uses.insert s.tick stamp } :=
        ⟨fun _ _ h => h, fun _ h => h, Nat.le_refl _⟩
      exact ⟨hgrows, horigins.imp fun _ _ h => Nat.lt_succ_of_lt h,
        hentries.imp fun _ _ h => h.mono hgrows, origin, hholds, rfl, rfl⟩
  | storing key entry =>
      cases h
      obtain ⟨origin, horigin, hkey, hentry⟩ := hholds
      refine sourced_of_entries horigins ((all_evict hentries key).insert ⟨?_, ?_⟩) trivial
      · refine ⟨origin, horigin, hkey, ?_⟩
        rw [hentry]
        rfl
      · intro verifiedAt hverified
        rw [hentry] at hverified
        cases hverified
  | answered | stored => cases h

theorem Provenance.step {thread : Nat → Position V} {next : Shared V × Position V}
    (h : Provenance trustsInstalledWindow contentHash s thread)
    (hstep : Sourced trustsInstalledWindow contentHash s t next) :
    Provenance trustsInstalledWindow contentHash next.1 (Function.update thread t next.2) where
  origins := hstep.origins
  entries := hstep.entries
  holds := by
    intro u
    by_cases hut : u = t
    · subst hut
      rw [Function.update_self]
      exact hstep.holds
    · rw [Function.update_of_ne hut]
      exact (h.holds u).mono hstep.grows

end

/-! ## When an entry was used -/

def Position.pending : Position V → Option Nat
  | .stamped _ stamp => some stamp
  | .storing _ entry => some entry.stamp
  | _ => none

/-- `usedAt` is the last tick that was drawn for the entry of a stamp. -/
def LastUsed (uses : Keyed Nat Nat) (stamp usedAt : Nat) : Prop :=
  uses.lookup usedAt = some stamp ∧
    ∀ later, uses.lookup later = some stamp → later ≤ usedAt

/-- What a step does to the uses and to the stamps of the entries. -/
inductive Used (s : Shared V) (p : Position V) (next : Shared V × Position V) : Prop
  | frame (htick : next.1.tick = s.tick) (huses : next.1.uses = s.uses)
      (hentries : next.1.entries.All fun key entry => s.entries.lookup key = some entry)
      (hpending : next.2.pending = none)
  | credit (key : Key) (entry entry' : Entry V) (hentry : s.entries.lookup key = some entry)
      (htick : next.1.tick = s.tick + 1)
      (huses : next.1.uses = s.uses.insert s.tick entry.stamp)
      (hentries : next.1.entries = s.entries.insert key entry')
      (hstamp : entry'.stamp = entry.stamp) (husedAt : entry'.usedAt = s.tick)
      (hpending : next.2.pending = none)
  | stamp (origin : Origin V) (htick : next.1.tick = s.tick + 1)
      (huses : next.1.uses = s.uses) (hentries : next.1.entries = s.entries)
      (hposition : next.2 = .stamped origin s.tick)
  | use (origin : Origin V) (stamp : Nat) (hposition : p = .stamped origin stamp)
      (key : Key) (entry : Entry V) (htick : next.1.tick = s.tick + 1)
      (huses : next.1.uses = s.uses.insert s.tick stamp)
      (hentries : next.1.entries = s.entries) (hnext : next.2 = .storing key entry)
      (hstamp : entry.stamp = stamp) (husedAt : entry.usedAt = s.tick)
  | store (key : Key) (entry : Entry V) (hposition : p = .storing key entry)
      (htick : next.1.tick = s.tick) (huses : next.1.uses = s.uses)
      (hentries : next.1.entries = store key entry s.entries)
      (hpending : next.2.pending = none)

/-- Every stamp is one store's, and every entry carries the tick of its last use. -/
structure Recency (s : Shared V) (thread : Nat → Position V) : Prop where
  uses : s.uses.All fun tick _ => tick < s.tick
  entries : s.entries.All fun _ entry =>
    entry.stamp < s.tick ∧ LastUsed s.uses entry.stamp entry.usedAt
  storing : ∀ t key entry, thread t = .storing key entry →
    LastUsed s.uses entry.stamp entry.usedAt
  pending : ∀ t stamp, (thread t).pending = some stamp → stamp < s.tick
  apart : ∀ t u stamp, (thread t).pending = some stamp → (thread u).pending = some stamp → t = u
  stored : s.entries.All fun _ entry => ∀ t, (thread t).pending ≠ some entry.stamp

section

variable {trustsInstalledWindow : Bool} {contentHash : Bytes → Nat}
variable {s s' : Shared V} {key : Key} {entry : Entry V} {lookup : Lookup V} {t : Nat}

theorem LastUsed.tick {uses : Keyed Nat Nat} {tick : Nat} (h : uses.All fun u _ => u < tick)
    (stamp : Nat) : LastUsed (uses.insert tick stamp) stamp tick := by
  refine ⟨by rw [Keyed.lookup_insert_eq, if_pos rfl], fun later hlater => ?_⟩
  rw [Keyed.lookup_insert_eq] at hlater
  split at hlater
  · omega
  · exact Nat.le_of_lt (h later stamp hlater)

theorem LastUsed.other {uses : Keyed Nat Nat} {tick stamp other usedAt : Nat}
    (h : LastUsed uses stamp usedAt) (htick : uses.All fun u _ => u < tick)
    (hother : other ≠ stamp) : LastUsed (uses.insert tick other) stamp usedAt := by
  have hlt := htick usedAt stamp h.1
  refine ⟨?_, fun later hlater => ?_⟩
  · rw [Keyed.lookup_insert_eq, if_neg (by omega)]
    exact h.1
  · rw [Keyed.lookup_insert_eq] at hlater
    split at hlater
    · cases hlater
      exact absurd rfl hother
    · exact h.2 later hlater

theorem used_of_frame {p next : Position V} {entries : Entries V}
    (hentries : entries.All fun key entry => s.entries.lookup key = some entry)
    (hpending : next.pending = none) : Used s p ({ s with entries := entries }, next) :=
  .frame rfl rfl hentries hpending

theorem pending_find (found : Option (Lookup V)) :
    ((found.map Position.checking).getD (.answered none)).pending = none := by
  cases found <;> rfl

theorem used_of_program {a : Action V} {p : Position V} {next : Shared V × Position V}
    (h : program trustsInstalledWindow contentHash t a s p = some next) : Used s p next := by
  have hself : s.entries.All fun key entry => s.entries.lookup key = some entry :=
    fun _ _ h => h
  cases p with
  | idle =>
      simp only [program] at h
      split at h <;> cases h <;> exact .frame rfl rfl hself rfl
  | observed key generation =>
      cases h
      exact used_of_frame (all_find hself) (pending_find _)
  | checking lookup =>
      cases h
      exact .frame rfl rfl hself rfl
  | probing lookup checkedAt =>
      cases h
      refine .frame rfl rfl hself ?_
      unfold Shared.probe
      dsimp only
      split <;> rfl
  | touching lookup check =>
      cases h
      unfold Shared.touch touch
      cases hentry : s.entries.lookup lookup.key with
      | none => exact .frame rfl rfl hself rfl
      | some entry => exact .credit lookup.key entry _ hentry rfl rfl rfl rfl rfl rfl
  | dropping lookup =>
      cases h
      exact used_of_frame (all_drop hself) rfl
  | building key generation =>
      simp only [program] at h
      split at h
      · cases h
        exact .frame rfl rfl hself rfl
      · cases h
        unfold Shared.drawStamp
        split
        · exact .frame rfl rfl hself rfl
        · exact .stamp _ rfl rfl rfl rfl
  | stamped origin stamp =>
      cases h
      exact .use origin stamp rfl origin.key _ rfl rfl rfl rfl rfl rfl
  | storing key entry =>
      cases h
      exact .store key entry rfl rfl rfl rfl rfl
  | answered | stored => cases h

namespace Recency

variable {thread : Nat → Position V} {next : Shared V × Position V}

/-- The stamps of other threads stay apart, and the own one is kept or fresh. -/
theorem pending_update (h : Recency s thread) (t : Nat) (next : Shared V × Position V)
    (hnew : ∀ stamp, next.2.pending = some stamp →
      (thread t).pending = some stamp ∨ s.tick ≤ stamp)
    (hlt : ∀ stamp, next.2.pending = some stamp → stamp < next.1.tick)
    (htick : s.tick ≤ next.1.tick) :
    (∀ u stamp, (Function.update thread t next.2 u).pending = some stamp →
      stamp < next.1.tick) ∧
    ∀ u v stamp, (Function.update thread t next.2 u).pending = some stamp →
      (Function.update thread t next.2 v).pending = some stamp → u = v := by
  refine ⟨fun u stamp hu => ?_, Config.apart_of_update Position.pending h.pending hnew h.apart⟩
  rw [Function.update_apply] at hu
  split at hu
  · exact hlt stamp hu
  · exact (h.pending u stamp hu).trans_le htick

theorem stored_update {stamp : Nat} (h : ∀ u, (thread u).pending ≠ some stamp)
    (hnext : next.2.pending ≠ some stamp) (u : Nat) :
    (Function.update thread t next.2 u).pending ≠ some stamp := by
  rw [Function.update_apply]
  split
  · exact hnext
  · exact h u

theorem storing_update
    (hothers : ∀ u key entry, u ≠ t → thread u = .storing key entry →
      LastUsed next.1.uses entry.stamp entry.usedAt)
    (hnext : ∀ key entry, next.2 = .storing key entry →
      LastUsed next.1.uses entry.stamp entry.usedAt) (u : Nat) (key : Key) (entry : Entry V)
    (hu : Function.update thread t next.2 u = .storing key entry) :
    LastUsed next.1.uses entry.stamp entry.usedAt := by
  by_cases hut : u = t
  · subst hut
    rw [Function.update_self] at hu
    exact hnext key entry hu
  · rw [Function.update_of_ne hut] at hu
    exact hothers u key entry hut hu

theorem ne_storing (h : next.2.pending = none) (key : Key) (entry : Entry V) :
    next.2 ≠ .storing key entry := by
  intro heq
  rw [heq] at h
  cases h

theorem frame (h : Recency s thread) (htick : next.1.tick = s.tick)
    (huses : next.1.uses = s.uses)
    (hentries : next.1.entries.All fun key entry => s.entries.lookup key = some entry)
    (hpending : next.2.pending = none) :
    Recency next.1 (Function.update thread t next.2) := by
  obtain ⟨hbound, happart⟩ := h.pending_update t next
    (by simp [hpending]) (by simp [hpending]) (Nat.le_of_eq htick.symm)
  exact {
    uses := by
      rw [huses, htick]
      exact h.uses
    entries := by
      rw [huses, htick]
      exact hentries.imp fun _ _ hrow => h.entries _ _ hrow
    storing := by
      refine storing_update (fun u key entry _ hu => ?_)
        fun key entry hnext => absurd hnext (ne_storing hpending key entry)
      rw [huses]
      exact h.storing u key entry hu
    pending := hbound
    apart := happart
    stored := hentries.imp fun _ _ hrow =>
      stored_update (h.stored _ _ hrow) (by simp [hpending]) }

/-- A lookup credits an entry: the tick is the last of its stamp, and of no other. -/
theorem credit (h : Recency s thread) (hknown : s.entries.All (Known contentHash s))
    {entry' : Entry V} (hentry : s.entries.lookup key = some entry)
    (htick : next.1.tick = s.tick + 1) (huses : next.1.uses = s.uses.insert s.tick entry.stamp)
    (hentries : next.1.entries = s.entries.insert key entry')
    (hstamp : entry'.stamp = entry.stamp) (husedAt : entry'.usedAt = s.tick)
    (hpending : next.2.pending = none) :
    Recency next.1 (Function.update thread t next.2) := by
  obtain ⟨hbound, happart⟩ := h.pending_update t next
    (by simp [hpending]) (by simp [hpending]) (by omega)
  exact {
    uses := by
      rw [huses, htick]
      exact (h.uses.imp fun _ _ hlt => Nat.lt_succ_of_lt hlt).insert (Nat.lt_succ_self _)
    entries := by
      rw [hentries, huses, htick]
      intro key' other hother
      rw [Keyed.lookup_insert_eq] at hother
      split at hother
      · cases hother
        have hlt := (h.entries key entry hentry).1
        rw [hstamp, husedAt]
        exact ⟨by omega, .tick h.uses _⟩
      · rename_i hkey
        obtain ⟨hlt, hlast⟩ := h.entries key' other hother
        refine ⟨by omega, hlast.other h.uses fun hsame => hkey ?_⟩
        exact ((hknown _ _ hother).same_origin (hknown _ _ hentry) hsame.symm).1
    storing := by
      refine storing_update (fun u key' other _ hu => ?_)
        fun key' other hnext => absurd hnext (ne_storing hpending key' other)
      rw [huses]
      refine (h.storing u key' other hu).other h.uses fun hsame => ?_
      apply h.stored key entry hentry u
      rw [hu, hsame]
      rfl
    pending := hbound
    apart := happart
    stored := by
      rw [hentries]
      refine Keyed.All.insert ?_ ?_
      · exact h.stored.imp fun _ _ hrow => stored_update hrow (by simp [hpending])
      · rw [hstamp]
        exact stored_update (h.stored key entry hentry) (by simp [hpending]) }

theorem drawn (h : Recency s thread) {origin : Origin V} (htick : next.1.tick = s.tick + 1)
    (huses : next.1.uses = s.uses) (hentries : next.1.entries = s.entries)
    (hposition : next.2 = .stamped origin s.tick) :
    Recency next.1 (Function.update thread t next.2) := by
  have hpending : next.2.pending = some s.tick := by rw [hposition]; rfl
  obtain ⟨hbound, happart⟩ := h.pending_update t next
    (by simp [hpending]) (by simp [hpending, htick]) (by omega)
  exact {
    uses := by
      rw [huses, htick]
      exact h.uses.imp fun _ _ hlt => Nat.lt_succ_of_lt hlt
    entries := by
      rw [hentries, huses, htick]
      exact h.entries.imp fun _ _ hrow => ⟨Nat.lt_succ_of_lt hrow.1, hrow.2⟩
    storing := by
      refine storing_update (fun u key entry _ hu => ?_) (by simp [hposition])
      rw [huses]
      exact h.storing u key entry hu
    pending := hbound
    apart := happart
    stored := by
      rw [hentries]
      intro key entry hentry
      refine stored_update (h.stored key entry hentry) ?_
      have hlt := (h.entries key entry hentry).1
      rw [hpending, ne_eq, Option.some.injEq]
      omega }

theorem used (h : Recency s thread) {origin : Origin V} {stamp : Nat}
    (hposition : thread t = .stamped origin stamp) (htick : next.1.tick = s.tick + 1)
    (huses : next.1.uses = s.uses.insert s.tick stamp) (hentries : next.1.entries = s.entries)
    (hnext : next.2 = .storing key entry) (hstamp : entry.stamp = stamp)
    (husedAt : entry.usedAt = s.tick) :
    Recency next.1 (Function.update thread t next.2) := by
  have hheld : (thread t).pending = some stamp := by rw [hposition]; rfl
  have hpending : next.2.pending = some stamp := by rw [hnext, ← hstamp]; rfl
  have hlt := h.pending t stamp hheld
  obtain ⟨hbound, happart⟩ := h.pending_update t next
    (by simp [hpending, hheld]) (by simp [hpending]; omega) (by omega)
  exact {
    uses := by
      rw [huses, htick]
      exact (h.uses.imp fun _ _ hlt => Nat.lt_succ_of_lt hlt).insert (Nat.lt_succ_self _)
    entries := by
      rw [hentries, huses, htick]
      intro key' other hother
      obtain ⟨hbefore, hlast⟩ := h.entries key' other hother
      refine ⟨by omega, hlast.other h.uses fun hsame => ?_⟩
      apply h.stored key' other hother t
      rw [hheld, hsame]
    storing := by
      refine storing_update (fun u key' other hut hu => ?_) ?_
      · rw [huses]
        refine (h.storing u key' other hu).other h.uses fun hsame => hut ?_
        exact h.apart u t stamp (by rw [hu, hsame]; rfl) hheld
      · intro key' other hother
        rw [hnext] at hother
        cases hother
        rw [huses, hstamp, husedAt]
        exact .tick h.uses stamp
    pending := hbound
    apart := happart
    stored := by
      rw [hentries]
      intro key' other hother
      refine stored_update (h.stored key' other hother) ?_
      rw [hpending, ← hheld]
      exact h.stored key' other hother t }

theorem put (h : Recency s thread) (hposition : thread t = .storing key entry)
    (htick : next.1.tick = s.tick) (huses : next.1.uses = s.uses)
    (hentries : next.1.entries = store key entry s.entries) (hpending : next.2.pending = none) :
    Recency next.1 (Function.update thread t next.2) := by
  have hheld : (thread t).pending = some entry.stamp := by rw [hposition]; rfl
  obtain ⟨hbound, happart⟩ := h.pending_update t next
    (by simp [hpending]) (by simp [hpending]) (Nat.le_of_eq htick.symm)
  exact {
    uses := by
      rw [huses, htick]
      exact h.uses
    entries := by
      rw [hentries, huses, htick]
      exact (all_evict h.entries key).insert
        ⟨h.pending t _ hheld, h.storing t key entry hposition⟩
    storing := by
      refine storing_update (fun u key' other _ hu => ?_)
        fun key' other hnext => absurd hnext (ne_storing hpending key' other)
      rw [huses]
      exact h.storing u key' other hu
    pending := hbound
    apart := happart
    stored := by
      rw [hentries]
      refine (all_evict ?_ key).insert ?_
      · exact h.stored.imp fun _ _ hrow => stored_update hrow (by simp [hpending])
      · intro u hu
        by_cases hut : u = t
        · subst hut
          rw [Function.update_self, hpending] at hu
          cases hu
        · rw [Function.update_of_ne hut] at hu
          exact hut (h.apart u t _ hu hheld) }

theorem step (h : Recency s thread) (hknown : s.entries.All (Known contentHash s))
    (hused : Used s (thread t) next) :
    Recency next.1 (Function.update thread t next.2) := by
  cases hused with
  | frame htick huses hentries hpending =>
      exact h.frame htick huses hentries hpending
  | credit key entry entry' hentry htick huses hentries hstamp husedAt hpending =>
      exact h.credit hknown hentry htick huses hentries hstamp husedAt hpending
  | stamp origin htick huses hentries hposition =>
      exact h.drawn htick huses hentries hposition
  | use origin stamp hposition key entry htick huses hentries hnext hstamp husedAt =>
      exact h.used hposition htick huses hentries hnext hstamp husedAt
  | store key entry hposition htick huses hentries hpending =>
      exact h.put hposition htick huses hentries hpending

end Recency

end

/-! ## Room -/

section

variable {entries : Entries V} {key : Key} {entry : Entry V}

theorem coldest_eq_some {cold : Key} (h : coldest entries = some cold) :
    ∃ old, entries.lookup cold = some old ∧
      ∀ other e, entries.lookup other = some e → old.usedAt ≤ e.usedAt := by
  obtain ⟨⟨key, old⟩, hmin, rfl⟩ := Option.map_eq_some_iff.mp h
  refine ⟨old, Keyed.mem_rows.mp (List.argmin_mem hmin), fun other e he => ?_⟩
  exact List.le_of_mem_argmin (f := fun row => row.2.usedAt) (Keyed.mem_rows.mpr he) hmin

theorem coldest_isSome (h : 0 < entries.rows.length) : (coldest entries).isSome := by
  rw [coldest, Option.isSome_map]
  by_contra hnone
  have hempty : entries.rows = [] := by
    simpa using List.argmin_eq_none.mp (Option.not_isSome_iff_eq_none.mp hnone)
  rw [hempty] at h
  cases h

/-- A store of a new key into a full map takes the place of the coldest entry;
every other store leaves the rest of the map alone. -/
theorem store_cases (key : Key) (entry : Entry V) (entries : Entries V) :
    store key entry entries = entries.insert key entry ∧
      ((entries.lookup key).isSome ∨ entries.rows.length < maxEntries) ∨
    entries.lookup key = none ∧ maxEntries ≤ entries.rows.length ∧
      ∃ cold old, entries.lookup cold = some old ∧
        (∀ other e, entries.lookup other = some e → old.usedAt ≤ e.usedAt) ∧
        store key entry entries = (entries.erase cold).insert key entry := by
  unfold store evict
  by_cases hfull : (entries.lookup key).isNone = true ∧ maxEntries ≤ entries.rows.length
  · right
    rw [if_pos (by simpa using hfull)]
    have hpos : 0 < maxEntries := by decide
    obtain ⟨cold, hcold⟩ := Option.isSome_iff_exists.mp (coldest_isSome (hpos.trans_le hfull.2))
    obtain ⟨old, hold, hmin⟩ := coldest_eq_some hcold
    refine ⟨Option.isNone_iff_eq_none.mp hfull.1, hfull.2, cold, old, hold, hmin, ?_⟩
    rw [hcold]
    rfl
  · left
    rw [if_neg (by simpa using hfull)]
    refine ⟨rfl, ?_⟩
    cases hlookup : entries.lookup key with
    | some old => exact .inl rfl
    | none =>
        right
        rw [hlookup] at hfull
        simpa using hfull

theorem length_store_le (h : entries.rows.length ≤ maxEntries) :
    (store key entry entries).rows.length ≤ maxEntries := by
  obtain ⟨heq, hroom⟩ | ⟨_, _, cold, old, hold, _, heq⟩ := store_cases key entry entries
  · rw [heq]
    cases hlookup : entries.lookup key with
    | some old =>
        rw [Keyed.length_insert_of_some hlookup]
        exact h
    | none =>
        have hle := Keyed.length_insert_le entries key entry
        rw [hlookup] at hroom
        simp only [Option.isSome_none, Bool.false_eq_true, false_or] at hroom
        omega
  · rw [heq]
    have hle := Keyed.length_insert_le (entries.erase cold) key entry
    have herase := Keyed.length_erase_of_some hold
    omega

end

section

variable {trustsInstalledWindow : Bool} {contentHash : Bytes → Nat}
variable {s : Shared V} {p : Position V} {t : Nat}

theorem length_of_all {entries entries' : Entries V}
    (h : entries'.All fun key _ => (entries.lookup key).isSome) :
    entries'.rows.length ≤ entries.rows.length := by
  have hsub : entries'.rows.map Prod.fst ⊆ entries.rows.map Prod.fst := by
    intro key hkey
    obtain ⟨entry, hentry⟩ := Option.isSome_iff_exists.mp (Keyed.mem_rows_keys.mp hkey)
    exact Keyed.mem_rows_keys.mpr (h key entry hentry)
  have hle := (List.subperm_of_subset (Keyed.nodup_rows_keys entries') hsub).length_le
  simpa using hle

theorem room_of_used {next : Shared V × Position V} (h : Used s p next)
    (hroom : s.entries.rows.length ≤ maxEntries) :
    next.1.entries.rows.length ≤ maxEntries := by
  cases h with
  | frame _ _ hentries _ =>
      refine (length_of_all (hentries.imp fun _ _ hrow => ?_)).trans hroom
      rw [hrow]
      rfl
  | credit key entry entry' hentry _ _ hentries _ _ _ =>
      rw [hentries, Keyed.length_insert_of_some hentry]
      exact hroom
  | stamp origin _ _ hentries _ =>
      rw [hentries]
      exact hroom
  | use origin stamp _ key entry _ _ hentries _ _ _ =>
      rw [hentries]
      exact hroom
  | store key entry _ _ _ hentries _ =>
      rw [hentries]
      exact length_store_le hroom

end

/-! ## Runs -/

section

variable (trustsInstalledWindow : Bool) (contentHash : Bytes → Nat)

/-- What every reachable state of the memo satisfies. -/
structure Sound (c : Config (Shared V) (Position V)) : Prop where
  provenance : Provenance trustsInstalledWindow contentHash c.shared c.thread
  recency : Recency c.shared c.thread
  room : c.shared.entries.rows.length ≤ maxEntries
  unknown : ∀ check ∈ c.shared.checks, check.verdict contentHash = .unknown →
    c.thread check.caller = .answered none

/-- The value of a lookup: stored for its key under the generation it observed,
from files that its own check found fresh. -/
def Verified (s : Shared V) (caller : Nat) (answer : Answer V) : Prop :=
  ∃ origin, s.origins.lookup answer.check.stamp = some origin ∧
    origin.key = answer.lookup.key ∧ origin.value = answer.lookup.entry.value ∧
    origin.generation = answer.lookup.generation ∧
    answer.check.caller = caller ∧ answer.check.verdict contentHash = .fresh ∧
    (answer.check.fingerprints = origin.fingerprints ∨
      trustsInstalledWindow = true ∧
      answer.check.fingerprints =
        origin.fingerprints.filter (fun fingerprint => !fingerprintIsInstalled fingerprint) ∧
      ∃ full ∈ s.checks, full.stamp = answer.check.stamp ∧
        full.fingerprints = origin.fingerprints ∧ full.verdict contentHash = .fresh ∧
        full.checkedAt ≤ answer.lookup.foundAt ∧
        answer.lookup.foundAt - full.checkedAt < reverifyTtlMillis)

/-- The lookup at this position judged the entry unusable: it was stored under an
earlier generation than the lookup observed, or under that one and its files
are stale or gone. -/
inductive Judged (s : Shared V) (caller : Nat) : Position V → Key → Entry V → Prop
  | outdated {key : Key} {generation : Nat} {entry : Entry V}
      (hlt : entry.generation < generation) :
      Judged s caller (.observed key generation) key entry
  | unusable {lookup : Lookup V} {entry : Entry V} {check : Check} (hcheck : check ∈ s.checks)
      (hcaller : check.caller = caller) (hstamp : check.stamp = entry.stamp)
      (hfingerprints : check.fingerprints = lookup.fingerprints)
      (hverdict : check.verdict contentHash = .stale ∨ check.verdict contentHash = .gone)
      (hgeneration : entry.generation = lookup.generation) :
      Judged s caller (.dropping lookup) lookup.key entry

end

/-- The entry is in the first map and not in the second one. -/
def Removed (entries entries' : Entries V) (key : Key) (entry : Entry V) : Prop :=
  entries.lookup key = some entry ∧
    ∀ other, entries'.lookup key = some other → other.stamp ≠ entry.stamp

def observesCurrent (s : Shared V) : Position V → Bool
  | .observed key generation =>
      (s.entries.lookup key).all fun entry => decide (entry.generation ≤ generation)
  | _ => true

/-- A store of a new key into the full map takes the place of the entry whose
last use is the earliest; another store takes no other entry's place. -/
def Replaces (s : Shared V) (entries' : Entries V) (key : Key) (entry : Entry V) : Prop :=
  entries' = s.entries.insert key entry ∧
      ((s.entries.lookup key).isSome ∨ s.entries.rows.length < maxEntries) ∨
    s.entries.lookup key = none ∧ s.entries.rows.length = maxEntries ∧
      ∃ cold old, s.entries.lookup cold = some old ∧
        (∀ other e, s.entries.lookup other = some e → other ≠ cold →
          ∃ usedAt usedAt', LastUsed s.uses old.stamp usedAt ∧ LastUsed s.uses e.stamp usedAt' ∧
            usedAt < usedAt') ∧
        entries' = (s.entries.erase cold).insert key entry

section

variable {trustsInstalledWindow : Bool} {contentHash : Bytes → Nat}
variable {s : Shared V} {p : Position V} {t : Nat}
variable {c d : Config (Shared V) (Position V)}

/-- Only a check that was just made enters the list, and an unknown one ends its call. -/
theorem checks_of_program {a : Action V} {next : Shared V × Position V}
    (h : program trustsInstalledWindow contentHash t a s p = some next) :
    p ≠ .answered none ∧ ∀ check ∈ next.1.checks, check ∈ s.checks ∨
      check.caller = t ∧ (check.verdict contentHash = .unknown → next.2 = .answered none) := by
  cases p with
  | idle =>
      simp only [program] at h
      split at h <;> cases h <;> exact ⟨by simp, fun _ hmem => .inl hmem⟩
  | probing lookup checkedAt =>
      cases h
      refine ⟨by simp, fun check hcheck => ?_⟩
      obtain rfl | hold := List.mem_cons.mp hcheck
      · refine .inr ⟨rfl, fun hunknown => ?_⟩
        unfold Shared.probe
        dsimp only
        rw [hunknown]
      · exact .inl hold
  | touching lookup check =>
      cases h
      refine ⟨by simp, fun _ hmem => .inl ?_⟩
      unfold Shared.touch at hmem
      split at hmem <;> exact hmem
  | building key generation =>
      simp only [program] at h
      split at h
      · cases h
        exact ⟨by simp, fun _ hmem => .inl hmem⟩
      · cases h
        refine ⟨by simp, fun _ hmem => .inl ?_⟩
        unfold Shared.drawStamp at hmem
        split at hmem <;> exact hmem
  | observed | checking | dropping | stamped | storing =>
      cases h
      exact ⟨by simp, fun _ hmem => .inl hmem⟩
  | answered | stored => cases h

theorem Sound.step {a : Action V} (h : Sound trustsInstalledWindow contentHash c)
    (hstep : c.step (program trustsInstalledWindow contentHash) t a = some d) :
    Sound trustsInstalledWindow contentHash d := by
  obtain ⟨s', p', hprog, rfl⟩ := Config.step_eq_some hstep
  have hused := used_of_program hprog
  have hsourced := sourced_of_program h.provenance.origins h.provenance.entries
    (h.provenance.holds t) hprog
  obtain ⟨hmoves, hchecks⟩ := checks_of_program hprog
  refine ⟨h.provenance.step hsourced, h.recency.step h.provenance.entries hused,
    room_of_used hused h.room, fun check hcheck hunknown => ?_⟩
  by_cases hcaller : check.caller = t
  · obtain hold | ⟨_, hnew⟩ := hchecks check hcheck
    · exact absurd (hcaller ▸ h.unknown check hold hunknown) hmoves
    · simpa [hcaller] using hnew hunknown
  · obtain hold | ⟨hcaller', _⟩ := hchecks check hcheck
    · simpa [Function.update_of_ne hcaller] using h.unknown check hold hunknown
    · exact absurd hcaller' hcaller

theorem sound_of_runs {cacheGeneration clock : Nat} {acts : List (Nat × Action V)}
    (h : Runs (program trustsInstalledWindow contentHash) (fun _ _ _ => True)
      (started cacheGeneration clock) acts c) : Sound trustsInstalledWindow contentHash c := by
  refine h.invariant (I := Sound trustsInstalledWindow contentHash)
    (fun _ _ _ _ _ hstep hc => hc.step hstep) ?_
  exact {
    provenance := ⟨Keyed.all_empty _, Keyed.all_empty _, fun _ => trivial⟩
    recency := {
      uses := Keyed.all_empty _
      entries := Keyed.all_empty _
      storing := by simp [started]
      pending := by simp [started, Position.pending]
      apart := by simp [started, Position.pending]
      stored := Keyed.all_empty _ }
    room := Nat.zero_le _
    unknown := by simp [started] }

theorem Sound.verified {answer : Answer V} (h : Sound trustsInstalledWindow contentHash c)
    (ht : c.thread t = .answered (some answer)) :
    Verified trustsInstalledWindow contentHash c.shared t answer := by
  have hholds := h.provenance.holds t
  rw [ht] at hholds
  obtain ⟨hfound, ⟨_, hcaller, hstamp, hfingerprints⟩, hfresh⟩ := hholds
  obtain ⟨origin, horigin, hkey, hentry⟩ := hfound.known.origin
  have hgeneration : origin.generation = answer.lookup.generation := by
    rw [← hfound.generation, hentry]
    rfl
  refine ⟨origin, by rw [hstamp, horigin], hkey, by rw [hentry]; rfl, hgeneration, hcaller,
    hfresh, ?_⟩
  have hall : answer.lookup.entry.fingerprints = origin.fingerprints := by
    rw [hentry]
    rfl
  rw [hfingerprints, hfound.fingerprints]
  cases hrecent : answer.lookup.verifiedRecently with
  | false => exact .inl hall
  | true =>
      obtain ⟨htrusts, verifiedAt, hverified, hle, hlt⟩ := hfound.recent hrecent
      obtain ⟨_, full, hmem, hstamp', hat, hfull, hfullfresh⟩ :=
        hfound.known.verified verifiedAt hverified
      refine .inr ⟨htrusts, by rw [hentry]; rfl, full, hmem, ?_, hfull.trans hall, hfullfresh,
        hat ▸ hle, hat ▸ hlt⟩
      rw [hstamp', hstamp]

/-! ### What the sections remove -/

theorem not_removed_self {entries : Entries V} {key : Key} {entry : Entry V} :
    ¬ Removed entries entries key entry :=
  fun h => h.2 entry h.1 rfl

theorem removed_erase_iff {entries : Entries V} {key key' : Key} {entry : Entry V} :
    Removed entries (entries.erase key) key' entry ↔
      key' = key ∧ entries.lookup key = some entry := by
  constructor
  · rintro ⟨hentry, hgone⟩
    by_cases hkey : key' = key
    · exact ⟨hkey, hkey ▸ hentry⟩
    · refine absurd rfl (hgone entry ?_)
      rw [Keyed.lookup_erase_eq, if_neg hkey]
      exact hentry
  · rintro ⟨rfl, hentry⟩
    refine ⟨hentry, fun other hother => ?_⟩
    rw [Keyed.lookup_erase_eq, if_pos rfl] at hother
    cases hother

theorem removed_find_iff {entries : Entries V} {now generation : Nat} {key key' : Key}
    {entry : Entry V} :
    Removed entries (find trustsInstalledWindow now key generation entries).2 key' entry ↔
      key' = key ∧ entries.lookup key = some entry ∧ entry.generation ≠ generation := by
  unfold find
  cases hlookup : entries.lookup key with
  | none => simp [not_removed_self]
  | some found =>
      dsimp only
      split
      · rename_i hgeneration
        rw [removed_erase_iff, hlookup, Option.some.injEq]
        exact ⟨fun h => ⟨h.1, h.2, h.2 ▸ hgeneration⟩, fun h => ⟨h.1, h.2.1⟩⟩
      · rename_i hgeneration
        refine ⟨fun h => absurd h not_removed_self, ?_⟩
        rintro ⟨_, hfound, hne⟩
        cases hfound
        exact absurd hne hgeneration

theorem removed_drop {entries : Entries V} {stamp : Nat} {key key' : Key} {entry : Entry V}
    (h : Removed entries (drop key stamp entries) key' entry) :
    key' = key ∧ entries.lookup key = some entry ∧ entry.stamp = stamp := by
  unfold drop at h
  split at h
  · rename_i hstamp
    obtain ⟨hkey, hentry⟩ := removed_erase_iff.mp h
    exact ⟨hkey, hentry, by simpa [hentry] using hstamp⟩
  · exact absurd h not_removed_self

theorem not_removed_touch {entries : Entries V} {lookup : Lookup V} {checkedAt tick : Nat}
    {key : Key} {entry : Entry V} :
    ¬ Removed entries (touch lookup checkedAt tick entries) key entry := by
  rintro ⟨hentry, hgone⟩
  unfold touch at hgone
  cases hlookup : entries.lookup lookup.key with
  | none =>
      simp only [hlookup] at hgone
      exact hgone entry hentry rfl
  | some found =>
      simp only [hlookup] at hgone
      by_cases hkey : key = lookup.key
      · subst hkey
        rw [hlookup] at hentry
        cases hentry
        exact hgone _ (AList.lookup_insert _) rfl
      · refine hgone entry ?_ rfl
        rw [Keyed.lookup_insert_eq, if_neg hkey]
        exact hentry

/-- Besides a store, only the first section of a lookup and the one after a check
that failed take an entry out. -/
theorem removed_of_program {a : Action V} {next : Shared V × Position V} {key : Key}
    {entry : Entry V} (h : program trustsInstalledWindow contentHash t a s p = some next)
    (hstore : ∀ key entry, p ≠ .storing key entry)
    (hremoved : Removed s.entries next.1.entries key entry) :
    (∃ generation, p = .observed key generation ∧ entry.generation ≠ generation) ∨
      ∃ lookup, p = .dropping lookup ∧ key = lookup.key ∧ entry.stamp = lookup.entry.stamp := by
  cases p with
  | idle =>
      simp only [program] at h
      split at h <;> cases h <;> exact absurd hremoved not_removed_self
  | observed key' generation =>
      cases h
      obtain ⟨rfl, _, hne⟩ := removed_find_iff.mp hremoved
      exact .inl ⟨generation, rfl, hne⟩
  | touching lookup check =>
      cases h
      unfold Shared.touch at hremoved
      dsimp only at hremoved
      split at hremoved
      · exact absurd hremoved not_removed_self
      · exact absurd hremoved not_removed_touch
  | dropping lookup =>
      cases h
      obtain ⟨rfl, _, hstamp⟩ := removed_drop hremoved
      exact .inr ⟨lookup, rfl, rfl, hstamp⟩
  | building key' generation =>
      simp only [program] at h
      split at h
      · cases h
        exact absurd hremoved not_removed_self
      · cases h
        unfold Shared.drawStamp at hremoved
        split at hremoved <;> exact absurd hremoved not_removed_self
  | checking | probing | stamped =>
      cases h
      exact absurd hremoved not_removed_self
  | storing key' entry' => exact absurd rfl (hstore key' entry')
  | answered | stored => cases h

/-- A lookup removes only what it has judged, exactly when it finds no later
generation than it observed. -/
theorem Sound.judged_iff {a : Action V} (h : Sound trustsInstalledWindow contentHash c)
    (hstep : c.step (program trustsInstalledWindow contentHash) t a = some d)
    (hstore : ∀ key entry, c.thread t ≠ .storing key entry) :
    observesCurrent c.shared (c.thread t) = true ↔
      ∀ key entry, Removed c.shared.entries d.shared.entries key entry →
        Judged contentHash c.shared t (c.thread t) key entry := by
  obtain ⟨s', p', hprog, rfl⟩ := Config.step_eq_some hstep
  constructor
  · intro hcurrent key entry hremoved
    obtain ⟨generation, hposition, hne⟩ | ⟨lookup, hposition, rfl, hstamp⟩ :=
      removed_of_program hprog hstore hremoved
    · rw [hposition] at hcurrent ⊢
      have hle : entry.generation ≤ generation := by
        simpa [observesCurrent, hremoved.1] using hcurrent
      exact .outdated (by omega)
    · have hholds := h.provenance.holds t
      rw [hposition] at hholds ⊢
      obtain ⟨hfound, check, ⟨hmem, hcaller, hsame, hfingerprints⟩, hverdict⟩ := hholds
      have horigin :=
        (h.provenance.entries _ _ hremoved.1).same_origin hfound.known hstamp
      exact .unusable hmem hcaller (hsame.trans hstamp.symm) hfingerprints hverdict
        (horigin.2.1.trans hfound.generation)
  · intro hall
    by_contra hnot
    -- the lookup is about to find an entry of a later generation
    cases hposition : c.thread t with
    | observed key generation =>
        cases hlookup : c.shared.entries.lookup key with
        | none => simp [observesCurrent, hposition, hlookup] at hnot
        | some entry =>
            have hlt : generation < entry.generation := by
              simpa [observesCurrent, hposition, hlookup] using hnot
            rw [hposition] at hprog
            cases hprog
            have hjudged := hall key entry
              (removed_find_iff.mpr ⟨rfl, hlookup, by omega⟩)
            rw [hposition] at hjudged
            cases hjudged with
            | outdated hlt' => omega
    | _ => simp [observesCurrent, hposition] at hnot

theorem Sound.replaces {a : Action V} {key : Key} {entry : Entry V}
    (h : Sound trustsInstalledWindow contentHash c)
    (hstep : c.step (program trustsInstalledWindow contentHash) t a = some d)
    (ht : c.thread t = .storing key entry) :
    Replaces c.shared d.shared.entries key entry := by
  obtain ⟨s', p', hprog, rfl⟩ := Config.step_eq_some hstep
  rw [ht] at hprog
  cases hprog
  refine (store_cases key entry c.shared.entries).imp id ?_
  rintro ⟨hnew, hfull, cold, old, hold, hmin, heq⟩
  refine ⟨hnew, Nat.le_antisymm h.room hfull, cold, old, hold, fun other e he hne => ?_, heq⟩
  have hlast := (h.recency.entries cold old hold).2
  have hlast' := (h.recency.entries other e he).2
  refine ⟨old.usedAt, e.usedAt, hlast, hlast', lt_of_le_of_ne (hmin other e he) fun hsame => ?_⟩
  -- one tick is drawn for one stamp, and one stamp is under one key
  have hstamp : old.stamp = e.stamp := by
    have hboth := hlast.1.symm.trans (hsame ▸ hlast'.1)
    exact Option.some.inj hboth
  exact hne ((h.provenance.entries _ _ he).same_origin (h.provenance.entries _ _ hold)
    hstamp.symm).1

def Position.value : Position V → Option V
  | .answered answer => answer.map fun answer => answer.lookup.entry.value
  | _ => none

theorem answered_of_value {value : V} (h : p.value = some value) :
    ∃ answer, p = .answered (some answer) ∧ answer.lookup.entry.value = value := by
  cases p with
  | answered answer =>
      obtain ⟨answer, rfl, hvalue⟩ := Option.map_eq_some_iff.mp h
      exact ⟨answer, rfl, hvalue⟩
  | _ => cases h

/-! ## The memo of a daemon -/

/-- In every interleaving of lookups, stores and invalidations: the value of a
lookup was stored under the generation the lookup observed, and the fingerprints
it has to check were fresh; an unknown verdict ends its lookup; the map is never
larger than its bound, and a store of a new key at the bound evicts the entry
that was used first.  A lookup removes only what it judged unusable, and nothing
of a generation it has not observed, exactly when its first section does not
find an entry of a later generation. -/
theorem build_memo_safety {cacheGeneration clock : Nat} {acts : List (Nat × Action V)}
    (h : Runs (program trustsInstalledWindow contentHash) (fun _ _ _ => True)
      (started cacheGeneration clock) acts c) :
    (∀ t answer, c.thread t = .answered (some answer) →
      Verified trustsInstalledWindow contentHash c.shared t answer) ∧
    (∀ check ∈ c.shared.checks, check.verdict contentHash = .unknown →
      c.thread check.caller = .answered none) ∧
    c.shared.entries.rows.length ≤ maxEntries ∧
    ∀ t a d, c.step (program trustsInstalledWindow contentHash) t a = some d →
      (∀ key entry, c.thread t = .storing key entry →
        Replaces c.shared d.shared.entries key entry) ∧
      ((∀ key entry, c.thread t ≠ .storing key entry) →
        (observesCurrent c.shared (c.thread t) = true ↔
          ∀ key entry, Removed c.shared.entries d.shared.entries key entry →
            Judged contentHash c.shared t (c.thread t) key entry)) := by
  have hsound := sound_of_runs h
  exact ⟨fun t answer => hsound.verified, hsound.unknown, hsound.room, fun t a d hstep =>
    ⟨fun key entry => hsound.replaces hstep, hsound.judged_iff hstep⟩⟩

end

/-- A build of one file, stored and looked up. -/
theorem build_memo_safety_stored :
    ∃ (c : Config (Shared Nat) (Position Nat)) (answer : Answer Nat),
      c.thread 1 = .answered (some answer) ∧ answer.lookup.entry.value = 7 ∧
      Verified false List.length c.shared 1 answer := by
  let key : Key := ("/p/a.js", .client)
  have hrun : (((started 3 0).run (program false List.length) (fun _ _ _ => True)
      [(0, { call := .insert key }), (0, { built := some (7, [⟨"/p/a.js", 2, 5, some 2⟩]) }),
        (0, {}), (0, {}), (1, { call := .get key }), (1, {}), (1, {}),
        (1, { fs := ⟨fun _ => .ok ⟨2, 5⟩, fun _ => .ok [97, 98]⟩ }), (1, {})]).any
      fun c => (c.thread 1).value == some 7) = true := by
    decide
  obtain ⟨c, hc, htest⟩ := Runs.of_run_any hrun
  obtain ⟨answer, hposition, hvalue⟩ := answered_of_value (beq_iff_eq.mp htest)
  exact ⟨c, answer, hposition, hvalue, (build_memo_safety hc).1 1 answer hposition⟩

/-- A lookup observes its generation, an invalidation and a store under the next
generation follow, and the first section of the lookup takes the new entry out. -/
theorem later_generation_removed :
    ¬ ∀ (acts : List (Nat × Action Nat)) (c : Config (Shared Nat) (Position Nat)),
      Runs (program false List.length) (fun _ _ _ => True) (started 0 0) acts c →
      ∀ t a d, c.step (program false List.length) t a = some d →
        (∀ key entry, c.thread t ≠ .storing key entry) →
        ∀ key entry, Removed c.shared.entries d.shared.entries key entry →
          Judged List.length c.shared t (c.thread t) key entry := by
  intro hall
  let key : Key := ("/p/a.js", .client)
  have hrun : (((started 0 0).run (program false List.length) (fun _ _ _ => True)
      [(0, { call := .get key }), (1, { call := .bump }), (2, { call := .insert key }),
        (2, { built := some (7, [⟨"/p/a.js", 2, 5, some 2⟩]) }), (2, {}), (2, {})]).any
      fun c => !observesCurrent c.shared (c.thread 0) &&
        (c.step (program false List.length) 0 {}).isSome) = true := by
    decide
  obtain ⟨c, hc, htest⟩ := Runs.of_run_any hrun
  rw [Bool.and_eq_true, Bool.not_eq_true', Option.isSome_iff_exists] at htest
  obtain ⟨hlater, d, hstep⟩ := htest
  have hstore : ∀ key entry, c.thread 0 ≠ .storing key entry := by
    intro key entry hstoring
    rw [hstoring] at hlater
    cases hlater
  have hcurrent :=
    ((sound_of_runs hc).judged_iff hstep hstore).mpr (hall _ c hc 0 {} d hstep hstore)
  rw [hcurrent] at hlater
  cases hlater

end ImportLens.Pipeline.BuildMemo
