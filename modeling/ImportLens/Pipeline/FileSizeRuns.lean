import ImportLens.Pipeline.FileSizeCache
import Mathlib.Logic.Encodable.Basic
import Mathlib.Logic.Equiv.List

/-!
# Concurrent file sizes

Calls of `file_size_with_cache` run beside each other, beside clears of the cache and
beside bumps of the cache generation.  A call takes its signature first, looks the
document up, checks what it found against the disk, and otherwise computes and stores.
Only the single operations on the table, the clock and the generation are atomic.
-/

namespace ImportLens.Pipeline.FileSize

open ImportLens.Daemon ImportLens.Cache ImportLens.Support

/-- A call that has taken its signature. -/
structure Signed where
  path : String
  imports : List SizedImport
  tokens : List String
  /-- The cache generation it has observed. -/
  generation : Nat
  deriving DecidableEq, Repr

/-- What an insertion stored. -/
structure Origin where
  call : Signed
  computation : FileSizeComputation
  computedAtMillis : Nat
  deriving DecidableEq, Repr

/-- A served entry, with the time of the lookup and what the disk answered. -/
structure Hit where
  entry : CachedFileSize
  now : Nat
  fs : FileSystem

inductive Position
  | idle
  /-- The tokens are taken, the generation is not read yet. -/
  | tokenized (path : String) (imports : List SizedImport) (tokens : List String)
  | signed (call : Signed)
  /-- The entry of the document is pinned. -/
  | pinned (call : Signed) (entry : CachedFileSize)
  | checking (call : Signed) (entry : CachedFileSize) (now : Nat)
  | missed (call : Signed)
  | computed (call : Signed) (computation : FileSizeComputation)
  | storing (call : Signed) (computation : FileSizeComputation) (now : Nat)
  | evicting
  | answered (call : Signed) (hit : Hit)
  | done

inductive Request
  | fileSizeWithCache (path : String) (imports : List SizedImport)
  | clear
  | bump
  | elapse (millis : Nat)

/-- What a step may need of its environment. -/
structure Action where
  request : Request
  view : TokenView
  fs : FileSystem
  stages : Stages

structure Shared where
  cache : FileSizeCache := ∅
  cacheGeneration : Nat
  clock : Nat
  /-- The number of the next insertion. -/
  inserted : Nat := 0
  /-- What each insertion stored. -/
  origins : Keyed Nat Origin := ∅

section

variable (hash : Nat → List String → Nat) (contentHash : Bytes → Nat)

def Signed.signature (call : Signed) : Nat := fileSizeSignature hash call.generation call.tokens

def Origin.entry (origin : Origin) (id : Nat) : CachedFileSize where
  signature := origin.call.signature hash
  computation := origin.computation
  computedAtMillis := origin.computedAtMillis
  lastUsedMillis := origin.computedAtMillis
  id := id

/-- The store of `insert`. -/
def Shared.store (s : Shared) (origin : Origin) : Shared :=
  { s with
    cache := s.cache.insert origin.call.path (origin.entry hash s.inserted)
    inserted := s.inserted + 1
    origins := s.origins.insert s.inserted origin }

def program : Program Shared Position Action := fun _ a s position =>
  match position with
  | .idle =>
      match a.request with
      | .fileSizeWithCache path imports =>
          some (s, .tokenized path imports (importTokens a.view imports))
      | .clear => some ({ s with cache := ∅ }, .idle)
      | .bump => some ({ s with cacheGeneration := s.cacheGeneration + 1 }, .idle)
      | .elapse millis => some ({ s with clock := s.clock + millis }, .idle)
  | .tokenized path imports tokens =>
      some (s, .signed ⟨path, imports, tokens, s.cacheGeneration⟩)
  | .signed call =>
      match s.cache.lookup call.path with
      | none => some (s, .missed call)
      | some entry => some (s, .pinned call entry)
  | .pinned call entry =>
      if entry.answers (call.signature hash) s.clock then some (s, .checking call entry s.clock)
      else some (s, .missed call)
  | .checking call entry now =>
      if (checkFingerprintsStrict contentHash a.fs
          entry.computation.dependencyFingerprints).verdict =
          .fresh then
        some ({ s with cache := touch s.cache call.path entry.id now },
          .answered call ⟨entry, now, a.fs⟩)
      else some (s, .missed call)
  | .missed call => some (s, .computed call (computeFileSizeWith a.stages call.imports))
  | .computed call computation =>
      if computation.mayEnterAggregateCache then some (s, .storing call computation s.clock)
      else some (s, .done)
  | .storing call computation now => some (s.store hash ⟨call, computation, now⟩, .evicting)
  | .evicting => some ({ s with cache := evictOldest s.cache }, .done)
  | .answered _ _ | .done => none

end

def started (cacheGeneration clock : Nat) : Config Shared Position where
  shared := { cacheGeneration := cacheGeneration, clock := clock }
  thread _ := .idle

def Position.call : Position → Option Signed
  | .signed call | .pinned call _ | .checking call _ _ | .missed call | .computed call _
  | .storing call _ _ | .answered call _ => some call
  | .idle | .tokenized _ _ _ | .evicting | .done => none

/-! ## What an entry of the table is -/

section

variable (hash : Nat → List String → Nat) (contentHash : Bytes → Nat)

/-- An insertion that was made by a call of the generations so far. -/
structure OriginSound (s : Shared) (origin : Origin) : Prop where
  generation : origin.call.generation ≤ s.cacheGeneration
  computedAt : origin.computedAtMillis ≤ s.clock
  admitted : origin.computation.mayEnterAggregateCache = true
  computed : ∃ stages, origin.computation = computeFileSizeWith stages origin.call.imports

/-- The entry is what an insertion put under its path, but for its last use. -/
def Known (s : Shared) (path : String) (entry : CachedFileSize) : Prop :=
  ∃ origin, s.origins.lookup entry.id = some origin ∧ origin.call.path = path ∧
    entry.signature = origin.call.signature hash ∧ entry.computation = origin.computation ∧
    entry.computedAtMillis = origin.computedAtMillis

def Holds (s : Shared) : Position → Prop
  | .pinned call entry => Known hash s call.path entry
  | .checking call entry now =>
      Known hash s call.path entry ∧ now ≤ s.clock ∧ entry.answers (call.signature hash) now = true
  | .answered call hit =>
      Known hash s call.path hit.entry ∧ hit.entry.answers (call.signature hash) hit.now = true ∧
        (checkFingerprintsStrict contentHash hit.fs
          hit.entry.computation.dependencyFingerprints).verdict = .fresh
  | .computed call computation =>
      ∃ stages, computation = computeFileSizeWith stages call.imports
  | .storing call computation now =>
      now ≤ s.clock ∧ computation.mayEnterAggregateCache = true ∧
        ∃ stages, computation = computeFileSizeWith stages call.imports
  | _ => True

structure Inv (c : Config Shared Position) : Prop where
  fresh : ∀ id origin, c.shared.origins.lookup id = some origin → id < c.shared.inserted
  origins : c.shared.origins.All fun _ origin => OriginSound c.shared origin
  entries : c.shared.cache.All (Known hash c.shared)
  signed : ∀ t call, (c.thread t).call = some call → call.generation ≤ c.shared.cacheGeneration
  holds : ∀ t, Holds hash contentHash c.shared (c.thread t)

/-- A state that comes later: nothing that was stored is forgotten. -/
structure Later (s s' : Shared) : Prop where
  origins : ∀ id origin, s.origins.lookup id = some origin → s'.origins.lookup id = some origin
  generation : s.cacheGeneration ≤ s'.cacheGeneration
  clock : s.clock ≤ s'.clock

variable {hash contentHash}
variable {s s' : Shared} {c d : Config Shared Position} {path : String} {entry : CachedFileSize}
variable {origin : Origin} {position : Position} {t : Nat}

theorem OriginSound.later (h : OriginSound s origin) (hlater : Later s s') :
    OriginSound s' origin :=
  ⟨h.generation.trans hlater.generation, h.computedAt.trans hlater.clock, h.admitted, h.computed⟩

theorem Known.later (h : Known hash s path entry) (hlater : Later s s') :
    Known hash s' path entry := by
  obtain ⟨origin, horigin, hpath, hentry⟩ := h
  exact ⟨origin, hlater.origins _ _ horigin, hpath, hentry⟩

theorem holds_later (h : Holds hash contentHash s position) (hlater : Later s s') :
    Holds hash contentHash s' position := by
  cases position with
  | pinned call entry => exact Known.later h hlater
  | checking call entry now => exact ⟨h.1.later hlater, h.2.1.trans hlater.clock, h.2.2⟩
  | answered call hit => exact ⟨h.1.later hlater, h.2⟩
  | storing call computation now => exact ⟨h.1.trans hlater.clock, h.2⟩
  | computed call computation => exact h
  | idle => trivial
  | tokenized path imports tokens => trivial
  | signed call => trivial
  | missed call => trivial
  | evicting => trivial
  | done => trivial

/-- A step takes the generation no lower, and gives a thread no call but one signed at the
generation of the moment. -/
theorem program_generation {a : Action} {position' : Position}
    (h : program hash contentHash t a s position = some (s', position')) :
    s.cacheGeneration ≤ s'.cacheGeneration ∧
      ∀ call, position'.call = some call →
        position.call = some call ∨ call.generation = s.cacheGeneration := by
  cases position with
  | idle =>
    simp only [program] at h
    split at h
    · cases h
      exact ⟨Nat.le_refl _, fun _ hnone => by cases hnone⟩
    · cases h
      exact ⟨Nat.le_refl _, fun _ hnone => by cases hnone⟩
    · cases h
      exact ⟨Nat.le_succ _, fun _ hnone => by cases hnone⟩
    · cases h
      exact ⟨Nat.le_refl _, fun _ hnone => by cases hnone⟩
  | tokenized path imports tokens =>
    cases h
    refine ⟨Nat.le_refl _, fun call hcall => .inr ?_⟩
    cases hcall
    rfl
  | signed call =>
    simp only [program] at h
    split at h
    · cases h
      exact ⟨Nat.le_refl _, fun _ => .inl⟩
    · cases h
      exact ⟨Nat.le_refl _, fun _ => .inl⟩
  | pinned call entry =>
    simp only [program] at h
    split at h
    · cases h
      exact ⟨Nat.le_refl _, fun _ => .inl⟩
    · cases h
      exact ⟨Nat.le_refl _, fun _ => .inl⟩
  | checking call entry now =>
    simp only [program] at h
    split at h
    · cases h
      exact ⟨Nat.le_refl _, fun _ => .inl⟩
    · cases h
      exact ⟨Nat.le_refl _, fun _ => .inl⟩
  | missed call =>
    cases h
    exact ⟨Nat.le_refl _, fun _ => .inl⟩
  | computed call computation =>
    simp only [program] at h
    split at h
    · cases h
      exact ⟨Nat.le_refl _, fun _ => .inl⟩
    · cases h
      exact ⟨Nat.le_refl _, fun _ hnone => by cases hnone⟩
  | storing call computation now =>
    cases h
    exact ⟨Nat.le_refl _, fun _ hnone => by cases hnone⟩
  | evicting =>
    cases h
    exact ⟨Nat.le_refl _, fun _ hnone => by cases hnone⟩
  | answered call hit => cases h
  | done => cases h

/-- The rule for a step that leaves the insertions as they are. -/
theorem Inv.of_step (h : Inv hash contentHash c) (horigins : s'.origins = c.shared.origins)
    (hinserted : s'.inserted = c.shared.inserted)
    (hgeneration : c.shared.cacheGeneration ≤ s'.cacheGeneration)
    (hclock : c.shared.clock ≤ s'.clock)
    (hsigned : ∀ call, position.call = some call →
      (c.thread t).call = some call ∨ call.generation = c.shared.cacheGeneration)
    (hentries : s'.cache.All (Known hash c.shared)) (hholds : Holds hash contentHash s' position) :
    Inv hash contentHash ⟨s', Function.update c.thread t position⟩ := by
  have hlater : Later c.shared s' :=
    ⟨fun id origin horigin => by rw [horigins, horigin], hgeneration, hclock⟩
  constructor
  · intro id origin horigin
    dsimp only at horigin ⊢
    rw [horigins] at horigin
    rw [hinserted]
    exact h.fresh id origin horigin
  · dsimp only
    rw [horigins]
    exact h.origins.imp fun _ _ hsound => hsound.later hlater
  · exact hentries.imp fun _ _ hknown => hknown.later hlater
  · intro u call hcall
    dsimp only at hcall ⊢
    by_cases hu : u = t
    · subst hu
      rw [Function.update_self] at hcall
      rcases hsigned call hcall with hbefore | hnow
      · exact (h.signed u call hbefore).trans hgeneration
      · omega
    · rw [Function.update_of_ne hu] at hcall
      exact (h.signed u call hcall).trans hgeneration
  · intro u
    dsimp only
    by_cases hu : u = t
    · subst hu
      rw [Function.update_self]
      exact hholds
    · rw [Function.update_of_ne hu]
      exact holds_later (h.holds u) hlater

/-- A step of one call that changes nothing it shares. -/
theorem Inv.move (h : Inv hash contentHash c)
    (hsigned : ∀ call, position.call = some call →
      (c.thread t).call = some call ∨ call.generation = c.shared.cacheGeneration)
    (hholds : Holds hash contentHash c.shared position) :
    Inv hash contentHash ⟨c.shared, Function.update c.thread t position⟩ :=
  h.of_step rfl rfl (Nat.le_refl _) (Nat.le_refl _) hsigned h.entries hholds

theorem all_touch (h : s.cache.All (Known hash s)) (path : String) (id now : Nat) :
    (touch s.cache path id now).All (Known hash s) := by
  unfold touch
  cases hlookup : s.cache.lookup path with
  | none => exact h
  | some entry =>
    dsimp only
    split
    · apply h.insert
      exact h path entry hlookup
    · exact h

theorem all_evictOldest (h : s.cache.All (Known hash s)) :
    (evictOldest s.cache).All (Known hash s) := by
  unfold evictOldest
  split
  · split
    · exact h
    · exact h.erase _
  · exact h

theorem Inv.store (h : Inv hash contentHash c) {call : Signed} {computation : FileSizeComputation}
    {now : Nat} (hthread : c.thread t = .storing call computation now) :
    Inv hash contentHash
      ⟨c.shared.store hash ⟨call, computation, now⟩, Function.update c.thread t .evicting⟩ := by
  have hholds := h.holds t
  rw [hthread] at hholds
  obtain ⟨hnow, hadmitted, hcomputed⟩ := hholds
  have hgeneration := h.signed t call (by rw [hthread]; rfl)
  have hlater : Later c.shared (c.shared.store hash ⟨call, computation, now⟩) := by
    refine ⟨fun id origin horigin => ?_, Nat.le_refl _, Nat.le_refl _⟩
    have hlt := h.fresh id origin horigin
    have hne : id ≠ c.shared.inserted := by omega
    rw [Shared.store, Keyed.lookup_insert_eq, if_neg hne, horigin]
  constructor
  · intro id origin horigin
    dsimp only [Shared.store] at horigin ⊢
    rw [Keyed.lookup_insert_eq] at horigin
    split at horigin
    · omega
    · have := h.fresh id origin horigin
      omega
  · apply (h.origins.imp fun _ _ hsound => hsound.later hlater).insert
    exact ⟨hgeneration, hnow, hadmitted, hcomputed⟩
  · apply (h.entries.imp fun _ _ hknown => hknown.later hlater).insert
    exact ⟨⟨call, computation, now⟩, AList.lookup_insert _, rfl, rfl, rfl, rfl⟩
  · intro u call' hcall
    dsimp only at hcall
    by_cases hu : u = t
    · subst hu
      rw [Function.update_self] at hcall
      cases hcall
    · rw [Function.update_of_ne hu] at hcall
      exact h.signed u call' hcall
  · intro u
    dsimp only
    by_cases hu : u = t
    · subst hu
      rw [Function.update_self]
      trivial
    · rw [Function.update_of_ne hu]
      exact holds_later (h.holds u) hlater

theorem inv_started (cacheGeneration clock : Nat) :
    Inv hash contentHash (started cacheGeneration clock) where
  fresh _ _ hnone := by cases hnone
  origins := Keyed.all_empty _
  entries := Keyed.all_empty _
  signed _ _ hnone := by cases hnone
  holds _ := trivial

theorem Inv.step {a : Action} (h : Inv hash contentHash c)
    (hstep : c.step (program hash contentHash) t a = some d) : Inv hash contentHash d := by
  obtain ⟨s', position, hprogram, rfl⟩ := Config.step_eq_some hstep
  obtain ⟨hgeneration, hsigned⟩ := program_generation hprogram
  have hholds := h.holds t
  cases hthread : c.thread t with
  | idle =>
    rw [hthread] at hprogram
    simp only [program] at hprogram
    split at hprogram
    · cases hprogram
      exact h.move hsigned trivial
    · cases hprogram
      exact h.of_step rfl rfl hgeneration (Nat.le_refl _) hsigned (Keyed.all_empty _) trivial
    · cases hprogram
      exact h.of_step rfl rfl hgeneration (Nat.le_refl _) hsigned h.entries trivial
    · cases hprogram
      exact h.of_step rfl rfl hgeneration (Nat.le_add_right _ _) hsigned h.entries trivial
  | tokenized path imports tokens =>
    rw [hthread] at hprogram
    cases hprogram
    exact h.move hsigned trivial
  | signed call =>
    rw [hthread] at hprogram
    simp only [program] at hprogram
    split at hprogram
    · cases hprogram
      exact h.move hsigned trivial
    · rename_i entry hlookup
      cases hprogram
      exact h.move hsigned (h.entries call.path entry hlookup)
  | pinned call entry =>
    rw [hthread] at hprogram hholds
    simp only [program] at hprogram
    split at hprogram
    · rename_i hanswers
      cases hprogram
      exact h.move hsigned ⟨hholds, Nat.le_refl _, hanswers⟩
    · cases hprogram
      exact h.move hsigned trivial
  | checking call entry now =>
    rw [hthread] at hprogram hholds
    obtain ⟨hknown, _, hanswers⟩ := hholds
    simp only [program] at hprogram
    split at hprogram
    · rename_i hfresh
      cases hprogram
      exact h.of_step rfl rfl hgeneration (Nat.le_refl _) hsigned (all_touch h.entries _ _ _)
        ⟨hknown, hanswers, hfresh⟩
    · cases hprogram
      exact h.move hsigned trivial
  | missed call =>
    rw [hthread] at hprogram
    cases hprogram
    exact h.move hsigned ⟨a.stages, rfl⟩
  | computed call computation =>
    rw [hthread] at hprogram hholds
    simp only [program] at hprogram
    split at hprogram
    · rename_i hadmitted
      cases hprogram
      exact h.move hsigned ⟨Nat.le_refl _, hadmitted, hholds⟩
    · cases hprogram
      exact h.move hsigned trivial
  | storing call computation now =>
    rw [hthread] at hprogram
    cases hprogram
    exact h.store hthread
  | evicting =>
    rw [hthread] at hprogram
    cases hprogram
    exact h.of_step rfl rfl hgeneration (Nat.le_refl _) hsigned (all_evictOldest h.entries) trivial
  | answered call hit =>
    rw [hthread] at hprogram
    cases hprogram
  | done =>
    rw [hthread] at hprogram
    cases hprogram

/-! ## A hit -/

variable (contentHash) in
/-- What a served entry is: a total of the same document, stored by a call of the same
generation over the same tokens, young enough and with fresh inputs. -/
structure AsGood (d : Shared) (call : Signed) (hit : Hit) (origin : Origin) : Prop where
  stored : d.origins.lookup hit.entry.id = some origin
  served : hit.entry.computation = origin.computation
  path : origin.call.path = call.path
  generation : origin.call.generation = call.generation
  tokens : origin.call.tokens.Perm call.tokens
  young : hit.now ≤ origin.computedAtMillis + reverifyTtlMs
  fresh : ∀ fingerprint ∈ origin.computation.dependencyFingerprints,
    (checkRouted contentHash hit.fs fingerprint).verdict = .fresh
  computed : ∃ stages, origin.computation = computeFileSizeWith stages origin.call.imports

theorem Inv.asGood (h : Inv hash contentHash d)
    (hhash : ∀ g tokens g' tokens', hash g tokens = hash g' tokens' → g = g' ∧ tokens = tokens')
    {call : Signed} {hit : Hit} (hthread : d.thread t = .answered call hit) :
    ∃ origin, AsGood contentHash d.shared call hit origin := by
  have hholds := h.holds t
  rw [hthread] at hholds
  obtain ⟨⟨origin, horigin, hpath, hsignature, hcomputation, hcomputedAt⟩, hanswers, hverdict⟩ :=
    hholds
  simp only [CachedFileSize.answers, withinTtl, Bool.and_eq_true, decide_eq_true_eq] at hanswers
  obtain ⟨hsame, hyoung⟩ := hanswers
  rw [hsignature] at hsame
  obtain ⟨hgeneration, htokens⟩ := fileSizeSignature_inj hhash hsame
  refine ⟨origin, horigin, hcomputation, hpath, hgeneration, htokens, ?_, ?_, ?_⟩
  · rw [hcomputedAt] at hyoung
    omega
  · rw [← hcomputation]
    exact checkFingerprintsStrict_fresh_iff.mp hverdict
  · exact (h.origins _ _ horigin).computed

theorem signed_since {acts : List (Nat × Action)}
    (hrun : Runs (program hash contentHash) (fun _ _ _ => True) c acts d)
    (hunsigned : (c.thread t).call = none) :
    ∀ call, (d.thread t).call = some call → c.shared.cacheGeneration ≤ call.generation := by
  have hinv : c.shared.cacheGeneration ≤ d.shared.cacheGeneration ∧
      ∀ call, (d.thread t).call = some call → c.shared.cacheGeneration ≤ call.generation := by
    refine hrun.invariant
      (I := fun e => c.shared.cacheGeneration ≤ e.shared.cacheGeneration ∧
        ∀ call, (e.thread t).call = some call → c.shared.cacheGeneration ≤ call.generation)
      (fun e e' u a _ hstep he => ?_) ⟨Nat.le_refl _, fun call hcall => ?_⟩
    · obtain ⟨hgeneration, hsigned⟩ := he
      obtain ⟨s', position, hprogram, rfl⟩ := Config.step_eq_some hstep
      obtain ⟨hrises, hcalls⟩ := program_generation hprogram
      refine ⟨hgeneration.trans hrises, fun call hcall => ?_⟩
      dsimp only at hcall
      by_cases ht : t = u
      · subst ht
        rw [Function.update_self] at hcall
        rcases hcalls call hcall with hbefore | hnow
        · exact hsigned call hbefore
        · omega
      · rw [Function.update_of_ne ht] at hcall
        exact hsigned call hcall
    · rw [hunsigned] at hcall
      cases hcall
  exact hinv.2

theorem Inv.before (h : Inv hash contentHash c) :
    (∀ id origin, c.shared.origins.lookup id = some origin →
      origin.call.generation ≤ c.shared.cacheGeneration) ∧
    ∀ u call, (c.thread u).call = some call → call.generation ≤ c.shared.cacheGeneration :=
  ⟨fun id origin horigin => (h.origins id origin horigin).generation, h.signed⟩

/-- A hit is as good as a computation: what it serves was stored for the document by a call of
the generation and the tokens it observed, half a minute ago at most, with inputs that were
found fresh; nothing signed before a bump is served to a call signed after it; and what may be
stored does not depend on what the signature leaves out. -/
theorem hit_as_good
    (hhash : ∀ g tokens g' tokens', hash g tokens = hash g' tokens' → g = g' ∧ tokens = tokens')
    {generation clock : Nat} {acts : List (Nat × Action)}
    (hrun : Runs (program hash contentHash) (fun _ _ _ => True) (started generation clock) acts d) :
    (∀ t call hit, d.thread t = .answered call hit →
      ∃ origin, AsGood contentHash d.shared call hit origin) ∧
    (∀ before after m m' bumper bump,
      Runs (program hash contentHash) (fun _ _ _ => True) (started generation clock) before m →
      m.step (program hash contentHash) bumper bump = some m' →
      m.thread bumper = .idle → bump.request = .bump →
      Runs (program hash contentHash) (fun _ _ _ => True) m' after d →
      ∀ t call hit origin, d.thread t = .answered call hit → (m'.thread t).call = none →
        AsGood contentHash d.shared call hit origin →
        (∀ u signed, (m.thread u).call = some signed → origin.call ≠ signed) ∧
        ∀ id, m.shared.origins.lookup id ≠ some origin) ∧
    ∀ stages imports imports', List.Forall₂ (Remeasured stages) imports imports' →
      (computeFileSizeWith stages imports).mayEnterAggregateCache = true →
      computeFileSizeWith stages imports' = computeFileSizeWith stages imports := by
  have hd : Inv hash contentHash d :=
    hrun.invariant (fun _ _ _ _ _ hstep hinv => hinv.step hstep) (inv_started _ _)
  refine ⟨fun t call hit => hd.asGood hhash, ?_,
    fun stages imports imports' => computeFileSizeWith_remeasured⟩
  intro before after m m' bumper bump hbefore hbump hidle hrequest hafter t call hit origin hthread
    hunsigned hgood
  have hm : Inv hash contentHash m :=
    hbefore.invariant (fun _ _ _ _ _ hstep hinv => hinv.step hstep) (inv_started _ _)
  have hrisen : m'.shared.cacheGeneration = m.shared.cacheGeneration + 1 := by
    obtain ⟨s', position, hprogram, rfl⟩ := Config.step_eq_some hbump
    simp only [program, hidle, hrequest, Option.some.injEq, Prod.mk.injEq] at hprogram
    obtain ⟨rfl, rfl⟩ := hprogram
    rfl
  have hlater : m'.shared.cacheGeneration ≤ call.generation :=
    signed_since hafter hunsigned call (by rw [hthread]; rfl)
  have horigin := hgood.generation
  obtain ⟨hstored, hsigned⟩ := hm.before
  constructor
  · rintro u signed hcall rfl
    have := hsigned u _ hcall
    omega
  · intro id hlookup
    have := hstored id origin hlookup
    omega

end

def codeHash (generation : Nat) (tokens : List String) : Nat :=
  Encodable.encode (generation, tokens.map fun token => token.toList.map Char.toNat)

theorem codeHash_inj (g : Nat) (tokens : List String) (g' : Nat) (tokens' : List String)
    (h : codeHash g tokens = codeHash g' tokens') : g = g' ∧ tokens = tokens' := by
  have hpair := Encodable.encode_injective h
  rw [Prod.mk.injEq] at hpair
  obtain ⟨hg, htokens⟩ := hpair
  have hcode : Function.Injective fun token : String => token.toList.map Char.toNat := by
    intro token token' hsame
    have hlist := List.map_injective_iff.mpr (fun c c' hc => Char.toNat_inj.mp hc) hsame
    exact String.toList_inj.mp hlist
  exact ⟨hg, List.map_injective_iff.mpr hcode htokens⟩

def emptyDisk : Action where
  request := .fileSizeWithCache "/app/main.ts" [⟨.pathAlias, "@/app", none⟩]
  view :=
    { resolvePackageEntry := fun _ => .error "not found"
      cacheKeyForResolvedImport := fun _ _ => ""
      statToken := fun _ => "absent"
      cachedLoadedPaths := fun _ _ => none }
  fs := ⟨fun _ => .error .notFound, fun _ => .error .notFound⟩
  stages :=
    { resolvePackageEntry := fun _ => .error "not found"
      bundleSync := fun _ => .error ⟨"engine", "not found", []⟩
      minify := fun _ code => .ok code
      compress := fun _ code => .ok ⟨code.utf8ByteSize, code.utf8ByteSize, code.utf8ByteSize⟩
      executeAssets := fun _ _ _ _ => .ok {}
      firstPartyManifests := fun _ => []
      fileFingerprintReadingHash := fun _ => none
      normalizeIdentityPath := id }

/-- Thread `0` stores the total of a document, and thread `1` is served it ten seconds later. -/
def servedAct : List (Nat × Action) :=
  (2, { emptyDisk with request := .bump }) :: List.replicate 7 (0, emptyDisk) ++
    (2, { emptyDisk with request := .elapse 10000 }) :: List.replicate 5 (1, emptyDisk)

def Position.isAnswered : Position → Bool
  | .answered _ _ => true
  | _ => false

theorem hit_as_good_served :
    ∃ (d : Config Shared Position) (t : Nat) (call : Signed) (hit : Hit) (origin : Origin),
      d.thread t = .answered call hit ∧ AsGood List.length d.shared call hit origin := by
  have hrun : (((started 3 0).run (program codeHash List.length) (fun _ _ _ => True) servedAct).any
      fun d => (d.thread 1).isAnswered) = true := by
    decide +kernel
  obtain ⟨d, hd, htest⟩ := Runs.of_run_any hrun
  cases hthread : d.thread 1 with
  | answered call hit =>
    obtain ⟨origin, hgood⟩ := (hit_as_good codeHash_inj hd).1 1 call hit hthread
    exact ⟨d, 1, call, hit, origin, hthread, hgood⟩
  | _ => simp [hthread, Position.isAnswered] at htest

end ImportLens.Pipeline.FileSize
