import ImportLens.Daemon.Protocol
import ImportLens.Support.Interleaving
import ImportLens.Support.LeastRecentlyUsed
import ImportLens.Support.SortedDedup
import Mathlib.Data.List.Infix

/-!
# The paths that builds loaded

The index holds the sorted paths of the last builds, by the entry that was built and its
runtime.  A lookup stamps the set it reads under the shared lock, so several lookups may be
under way at once; a build draws its stamp before it has the exclusive lock.  A set survives
as long as fewer sets than the index has room for were used after it.
-/

namespace ImportLens.Engine.DependencyPaths

open ImportLens.Support ImportLens.Daemon

variable {Path : Type} [LinearOrder Path]

abbrev DependencyKey (Path : Type) : Type := Path × ImportRuntime

/-- The index under its lock, which so many lookups hold. -/
structure DependencyPathIndex (Path : Type) where
  sets : Keyed (DependencyKey Path) (Stamped (List Path)) := ∅
  clock : Nat := 0
  readers : Nat := 0

inductive Position (Path : Type)
  | idle
  /-- `record` has its stamp and awaits the exclusive lock. -/
  | recording (key : DependencyKey Path) (paths : List Path) (lastUsed : Nat)
  /-- `get` holds the shared lock and has found its set. -/
  | reading (key : DependencyKey Path)
  | stamping (key : DependencyKey Path) (lastUsed : Nat)

/-- What a thread does next.  `gone` is what the file system says of the entries. -/
inductive Action (Path : Type)
  | record (key : DependencyKey Path) (loadedPaths : List Path)
  | commit
  | get (key : DependencyKey Path)
  | tick
  | store
  | clear
  | invalidatePackage (packageName : String)
  | purgeMissing (gone : Path → Bool)

def ofPackage (text : Path → List Char) (packageName : String) (entryPath : Path) : Bool :=
  decide (("node_modules/" ++ packageName ++ "/").toList <:+:
    (text entryPath).map fun c => if c = '\\' then '/' else c)

def program (text : Path → List Char) (capacity : Nat) :
    Program (DependencyPathIndex Path) (Position Path) (Action Path)
  | _, .record key loadedPaths, s, .idle =>
      some ({ s with clock := s.clock + 1 }, .recording key (sortDedup loadedPaths) s.clock)
  | _, .commit, s, .recording key paths lastUsed =>
      if s.readers = 0 then
        some ({ s with sets := LeastRecentlyUsed.record capacity key paths lastUsed s.sets }, .idle)
      else none
  | _, .get key, s, .idle =>
      if (s.sets.lookup key).isNone then some (s, .idle)
      else some ({ s with readers := s.readers + 1 }, .reading key)
  | _, .tick, s, .reading key =>
      some ({ s with clock := s.clock + 1 }, .stamping key s.clock)
  | _, .store, s, .stamping key lastUsed =>
      some ({ s with
        sets := LeastRecentlyUsed.touch key lastUsed s.sets
        readers := s.readers - 1 }, .idle)
  | _, .clear, s, .idle =>
      if s.readers = 0 then some ({ s with sets := ∅ }, .idle) else none
  | _, .invalidatePackage packageName, s, .idle =>
      if s.readers = 0 then
        some ({ s with
          sets := s.sets.retain fun key => !ofPackage text packageName key.1 }, .idle)
      else none
  | _, .purgeMissing gone, s, .idle =>
      if s.readers = 0 then
        some ({ s with sets := s.sets.retain fun key => !gone key.1 }, .idle)
      else none
  | _, _, _, _ => none

def start : Config (DependencyPathIndex Path) (Position Path) := ⟨{}, fun _ => .idle⟩

/-! ## What a thread has begun -/

namespace Position

def key : Position Path → Option (DependencyKey Path)
  | .idle => none
  | .recording key _ _ | .reading key | .stamping key _ => some key

def stamp : Position Path → Option (DependencyKey Path × Nat)
  | .recording key _ lastUsed | .stamping key lastUsed => some (key, lastUsed)
  | _ => none

def reads : Position Path → Bool
  | .reading _ | .stamping _ _ => true
  | _ => false

end Position

/-- What a step does to the index, by the position of its thread before and after. -/
inductive Steps (text : Path → List Char) (capacity : Nat) :
    Action Path → DependencyPathIndex Path → Position Path → DependencyPathIndex Path →
      Position Path → Prop
  | record (key : DependencyKey Path) (loadedPaths : List Path) (s : DependencyPathIndex Path) :
      Steps text capacity (.record key loadedPaths) s .idle { s with clock := s.clock + 1 }
        (.recording key (sortDedup loadedPaths) s.clock)
  | commit (key : DependencyKey Path) (paths : List Path) (lastUsed : Nat)
      (s : DependencyPathIndex Path) (hfree : s.readers = 0) :
      Steps text capacity .commit s (.recording key paths lastUsed)
        { s with sets := LeastRecentlyUsed.record capacity key paths lastUsed s.sets } .idle
  | miss (key : DependencyKey Path) (s : DependencyPathIndex Path) :
      Steps text capacity (.get key) s .idle s .idle
  | hit (key : DependencyKey Path) (s : DependencyPathIndex Path)
      (hset : (s.sets.lookup key).isSome) :
      Steps text capacity (.get key) s .idle { s with readers := s.readers + 1 } (.reading key)
  | tick (key : DependencyKey Path) (s : DependencyPathIndex Path) :
      Steps text capacity .tick s (.reading key) { s with clock := s.clock + 1 }
        (.stamping key s.clock)
  | store (key : DependencyKey Path) (lastUsed : Nat) (s : DependencyPathIndex Path) :
      Steps text capacity .store s (.stamping key lastUsed)
        { s with
          sets := LeastRecentlyUsed.touch key lastUsed s.sets
          readers := s.readers - 1 } .idle
  | remove (action : Action Path) (s : DependencyPathIndex Path) (hfree : s.readers = 0)
      (kept : DependencyKey Path → Bool)
      (haction : ∀ key, kept key = false → match action with
        | .clear => True
        | .invalidatePackage packageName => ofPackage text packageName key.1 = true
        | .purgeMissing gone => gone key.1 = true
        | _ => False) :
      Steps text capacity action s .idle { s with sets := s.sets.retain kept } .idle

variable {text : Path → List Char} {capacity : Nat}
  {c d : Config (DependencyPathIndex Path) (Position Path)}
  {s s' : DependencyPathIndex Path} {position position' : Position Path} {action : Action Path}
  {key : DependencyKey Path}

omit [LinearOrder Path] in
theorem retain_none (sets : Keyed (DependencyKey Path) (Stamped (List Path))) :
    sets.retain (fun _ => false) = ∅ := by
  apply AList.ext
  simp [Keyed.retain]

theorem steps_of_program {t : Nat}
    (h : program text capacity t action s position = some (s', position')) :
    Steps text capacity action s position s' position' := by
  unfold program at h
  split at h
  · cases h
    exact .record _ _ _
  · split at h
    · rename_i hfree
      cases h
      exact .commit _ _ _ _ hfree
    · cases h
  · split at h
    · cases h
      exact .miss _ _
    · rename_i hsome
      cases h
      exact .hit _ _ (Option.isSome_iff_ne_none.2 fun hnone => hsome (by rw [hnone]; rfl))
  · cases h
    exact .tick _ _
  · cases h
    exact .store _ _ _
  · split at h
    · rename_i hfree
      cases h
      rw [← retain_none s.sets]
      exact .remove _ _ hfree _ fun _ _ => trivial
    · cases h
  · split at h
    · rename_i hfree
      cases h
      refine .remove _ _ hfree _ fun key hkey => ?_
      simpa using hkey
    · cases h
  · split at h
    · rename_i hfree
      cases h
      refine .remove _ _ hfree _ fun key hkey => ?_
      simpa using hkey
    · cases h
  · cases h

theorem steps_of_step {t : Nat} (h : c.step (program text capacity) t action = some d) :
    ∃ position, Steps text capacity action c.shared (c.thread t) d.shared position ∧
      d.thread = Function.update c.thread t position := by
  obtain ⟨shared, position, hprogram, rfl⟩ := Config.step_eq_some h
  exact ⟨position, steps_of_program hprogram, rfl⟩

/-! ## Stamps -/

/-- No stamp is had twice, by sets or by threads. -/
structure Apart (c : Config (DependencyPathIndex Path) (Position Path)) : Prop where
  set_lt : ∀ key set, c.shared.sets.lookup key = some set → set.lastUsed < c.shared.clock
  thread_lt : ∀ t key lastUsed, (c.thread t).stamp = some (key, lastUsed) →
    lastUsed < c.shared.clock
  sets_apart : ∀ key key' set set', c.shared.sets.lookup key = some set →
    c.shared.sets.lookup key' = some set' → set.lastUsed = set'.lastUsed → key = key'
  set_thread : ∀ key set t key' lastUsed, c.shared.sets.lookup key = some set →
    (c.thread t).stamp = some (key', lastUsed) → set.lastUsed ≠ lastUsed
  threads_apart : ∀ t t' key key' lastUsed, (c.thread t).stamp = some (key, lastUsed) →
    (c.thread t').stamp = some (key', lastUsed) → t = t'

omit [LinearOrder Path] in
theorem stamp_update {thread : Nat → Position Path} {t u : Nat} {lastUsed : Nat}
    (h : (Function.update thread t position u).stamp = some (key, lastUsed)) :
    (u = t ∧ position.stamp = some (key, lastUsed)) ∨
      (u ≠ t ∧ (thread u).stamp = some (key, lastUsed)) := by
  rw [Function.update_apply] at h
  split at h
  · exact .inl ⟨‹_›, h⟩
  · exact .inr ⟨‹_›, h⟩

theorem Apart.draw (h : Apart c) {t : Nat} (hdrawn : position.stamp = some (key, c.shared.clock)) :
    Apart ⟨{ c.shared with clock := c.shared.clock + 1 },
      Function.update c.thread t position⟩ := by
  constructor
  · intro k set hset
    exact Nat.lt_succ_of_lt (h.set_lt k set hset)
  · intro u k lastUsed hu
    rcases stamp_update hu with ⟨-, hmine⟩ | ⟨-, htheirs⟩
    · cases hdrawn.symm.trans hmine
      exact Nat.lt_succ_self _
    · exact Nat.lt_succ_of_lt (h.thread_lt u k lastUsed htheirs)
  · exact h.sets_apart
  · intro k set u k' lastUsed hset hu
    rcases stamp_update hu with ⟨-, hmine⟩ | ⟨-, htheirs⟩
    · cases hdrawn.symm.trans hmine
      exact Nat.ne_of_lt (h.set_lt k set hset)
    · exact h.set_thread k set u k' lastUsed hset htheirs
  · intro u u' k k' lastUsed hu hu'
    rcases stamp_update hu with ⟨heq, hmine⟩ | ⟨-, htheirs⟩ <;>
      rcases stamp_update hu' with ⟨heq', hmine'⟩ | ⟨-, htheirs'⟩
    · exact heq.trans heq'.symm
    · cases hdrawn.symm.trans hmine
      exact absurd (h.thread_lt u' k' _ htheirs') (Nat.lt_irrefl _)
    · cases hdrawn.symm.trans hmine'
      exact absurd (h.thread_lt u k _ htheirs) (Nat.lt_irrefl _)
    · exact h.threads_apart u u' k k' lastUsed htheirs htheirs'

/-- A thread puts its stamp on the set of its key; other sets may go. -/
theorem Apart.put (h : Apart c) {t lastUsed : Nat}
    (hdrawn : (c.thread t).stamp = some (key, lastUsed)) (hdone : position.stamp = none)
    (hclock : s.clock = c.shared.clock)
    (hsets : ∀ k set, s.sets.lookup k = some set →
      (k = key ∧ set.lastUsed = lastUsed) ∨ (k ≠ key ∧ c.shared.sets.lookup k = some set)) :
    Apart ⟨s, Function.update c.thread t position⟩ := by
  have hothers : ∀ u k used, (Function.update c.thread t position u).stamp = some (k, used) →
      u ≠ t ∧ (c.thread u).stamp = some (k, used) := by
    intro u k used hu
    rcases stamp_update hu with ⟨-, hmine⟩ | htheirs
    · cases hdone.symm.trans hmine
    · exact htheirs
  constructor
  · intro k set hset
    change set.lastUsed < s.clock
    rw [hclock]
    rcases hsets k set hset with ⟨-, hstamp⟩ | ⟨-, hbefore⟩
    · exact hstamp ▸ h.thread_lt t key lastUsed hdrawn
    · exact h.set_lt k set hbefore
  · intro u k used hu
    change used < s.clock
    rw [hclock]
    exact h.thread_lt u k used (hothers u k used hu).2
  · intro k k' set set' hset hset' hsame
    rcases hsets k set hset with ⟨hk, hstamp⟩ | ⟨-, hbefore⟩ <;>
      rcases hsets k' set' hset' with ⟨hk', hstamp'⟩ | ⟨-, hbefore'⟩
    · exact hk.trans hk'.symm
    · exact absurd (hsame.symm.trans hstamp) (h.set_thread k' set' t key _ hbefore' hdrawn)
    · exact absurd (hsame.trans hstamp') (h.set_thread k set t key _ hbefore hdrawn)
    · exact h.sets_apart k k' set set' hbefore hbefore' hsame
  · intro k set u k' used hset hu
    obtain ⟨hne, htheirs⟩ := hothers u k' used hu
    rcases hsets k set hset with ⟨-, hstamp⟩ | ⟨-, hbefore⟩
    · rintro hsame
      rw [← hsame, hstamp] at htheirs
      exact hne (h.threads_apart u t k' key lastUsed htheirs hdrawn)
    · exact h.set_thread k set u k' used hbefore htheirs
  · intro u u' k k' used hu hu'
    exact h.threads_apart u u' k k' used (hothers u k used hu).2 (hothers u' k' used hu').2

/-- The stamps stay where they are; sets may go. -/
theorem Apart.keep (h : Apart c) {t : Nat} (hsame : position.stamp = (c.thread t).stamp)
    (hclock : s.clock = c.shared.clock)
    (hsets : ∀ k set, s.sets.lookup k = some set → c.shared.sets.lookup k = some set) :
    Apart ⟨s, Function.update c.thread t position⟩ := by
  have hothers : ∀ u k used, (Function.update c.thread t position u).stamp = some (k, used) →
      (c.thread u).stamp = some (k, used) := by
    intro u k used hu
    rcases stamp_update hu with ⟨heq, hmine⟩ | ⟨-, htheirs⟩
    · rw [heq, ← hsame]
      exact hmine
    · exact htheirs
  constructor
  · intro k set hset
    exact (h.set_lt k set (hsets k set hset)).trans_eq hclock.symm
  · intro u k used hu
    exact (h.thread_lt u k used (hothers u k used hu)).trans_eq hclock.symm
  · intro k k' set set' hset hset'
    exact h.sets_apart k k' set set' (hsets k set hset) (hsets k' set' hset')
  · intro k set u k' used hset hu
    exact h.set_thread k set u k' used (hsets k set hset) (hothers u k' used hu)
  · intro u u' k k' used hu hu'
    exact h.threads_apart u u' k k' used (hothers u k used hu) (hothers u' k' used hu')

theorem lookup_committed {paths : List Path} {lastUsed : Nat} {k : DependencyKey Path}
    {set : Stamped (List Path)}
    (h : (LeastRecentlyUsed.record capacity key paths lastUsed s.sets).lookup k = some set) :
    (k = key ∧ set = ⟨paths, lastUsed⟩) ∨ (k ≠ key ∧ s.sets.lookup k = some set) := by
  rw [LeastRecentlyUsed.lookup_record] at h
  split at h
  · cases h
    exact .inl ⟨‹_›, rfl⟩
  · exact .inr ⟨‹_›, LeastRecentlyUsed.lookup_of_makeRoom h⟩

theorem lookup_stored {lastUsed : Nat} {k : DependencyKey Path} {set : Stamped (List Path)}
    (h : (LeastRecentlyUsed.touch key lastUsed s.sets).lookup k = some set) :
    (k = key ∧ ∃ before, s.sets.lookup key = some before ∧ set = { before with lastUsed }) ∨
      (k ≠ key ∧ s.sets.lookup k = some set) := by
  rw [LeastRecentlyUsed.lookup_touch] at h
  split at h
  · obtain ⟨before, hbefore, rfl⟩ := Option.map_eq_some_iff.1 h
    exact .inl ⟨‹_›, before, hbefore, rfl⟩
  · exact .inr ⟨‹_›, h⟩

theorem lookup_retained {kept : DependencyKey Path → Bool} {k : DependencyKey Path}
    {set : Stamped (List Path)} (h : (s.sets.retain kept).lookup k = some set) :
    s.sets.lookup k = some set := by
  rw [Keyed.lookup_retain] at h
  split at h
  · exact h
  · cases h

theorem Apart.step (h : Apart c) {t : Nat}
    (hstep : c.step (program text capacity) t action = some d) : Apart d := by
  obtain ⟨position, hsteps, hthread⟩ := steps_of_step hstep
  obtain ⟨index, threads⟩ := c
  obtain ⟨shared, thread⟩ := d
  obtain rfl : thread = Function.update threads t position := hthread
  generalize hbefore : (Config.mk index threads).thread t = before at hsteps
  dsimp only at hsteps
  cases hsteps with
  | record key loadedPaths s =>
    exact h.draw rfl
  | commit key paths lastUsed s hfree =>
    refine h.put (by rw [hbefore]; rfl) rfl rfl ?_
    intro k set hset
    rcases lookup_committed hset with ⟨hk, rfl⟩ | hother
    · exact .inl ⟨hk, rfl⟩
    · exact .inr hother
  | miss key s =>
    exact h.keep (by rw [hbefore]) rfl fun _ _ hset => hset
  | hit key s hset =>
    exact h.keep (by rw [hbefore]; rfl) rfl fun _ _ hset => hset
  | tick key s =>
    exact h.draw rfl
  | store key lastUsed s =>
    refine h.put (by rw [hbefore]; rfl) rfl rfl ?_
    intro k set hset
    rcases lookup_stored hset with ⟨hk, before, -, rfl⟩ | hother
    · exact .inl ⟨hk, rfl⟩
    · exact .inr hother
  | remove action s hfree kept haction =>
    exact h.keep (by rw [hbefore]) rfl fun _ _ hset => lookup_retained hset

theorem apart_start : Apart (start : Config (DependencyPathIndex Path) (Position Path)) := by
  constructor <;> simp [start, Position.stamp]

/-! ## Sets in use -/

/-- Only the set itself and the counted ones are used, and it is not removed. -/
def Spares (text : Path → List Char) (key : DependencyKey Path)
    (others : Finset (DependencyKey Path)) (s : DependencyPathIndex Path) : Action Path → Prop
  | .record other _ => other = key ∨ other ∈ others
  | .get other => (s.sets.lookup other).isSome → other = key ∨ other ∈ others
  | .clear => False
  | .invalidatePackage packageName => ofPackage text packageName key.1 = false
  | .purgeMissing gone => gone key.1 = false
  | .commit | .tick | .store => True

/-- A set was used at a stamp, and the keys that were used after it, or are in use, are
counted. -/
structure InUse (key : DependencyKey Path) (stamp : Nat) (others : Finset (DependencyKey Path))
    (c : Config (DependencyPathIndex Path) (Position Path)) : Prop where
  held : ∃ set, c.shared.sets.lookup key = some set ∧ stamp ≤ set.lastUsed
  pending : ∀ t lastUsed, (c.thread t).stamp = some (key, lastUsed) → stamp ≤ lastUsed
  newer : ∀ other set, other ≠ key → c.shared.sets.lookup other = some set →
    stamp < set.lastUsed → other ∈ others
  busy : ∀ t other, (c.thread t).key = some other → other ≠ key → other ∈ others
  drawn : stamp < c.shared.clock

omit [LinearOrder Path] in
theorem key_update {thread : Nat → Position Path} {t u : Nat}
    (h : (Function.update thread t position u).key = some key) :
    position.key = some key ∨ (thread u).key = some key := by
  rw [Function.update_apply] at h
  split at h
  · exact .inl h
  · exact .inr h

variable {stamp : Nat} {others : Finset (DependencyKey Path)}

/-- A set with a later stamp than the one in use was used after it. -/
theorem InUse.counted (h : InUse key stamp others c) (hapart : Apart c)
    {set set' : Stamped (List Path)} {other : DependencyKey Path} (hne : other ≠ key)
    (hset : c.shared.sets.lookup key = some set) (hstamp : stamp ≤ set.lastUsed)
    (hother : c.shared.sets.lookup other = some set') (hle : set.lastUsed ≤ set'.lastUsed) :
    other ∈ others := by
  apply h.newer other set' hne hother
  have hapart : set'.lastUsed ≠ set.lastUsed := fun hsame =>
    hne (hapart.sets_apart other key set' set hother hset hsame)
  omega

/-- The set survives a commit: were it the victim, every set left and the one that is
committed would be counted. -/
theorem InUse.survives (h : InUse key stamp others c) (hapart : Apart c)
    (hfew : others.card < capacity) {other : DependencyKey Path}
    (hcounted : other ∈ others) {set : Stamped (List Path)}
    (hset : c.shared.sets.lookup key = some set) (hstamp : stamp ≤ set.lastUsed) :
    (LeastRecentlyUsed.makeRoom capacity other c.shared.sets).lookup key = some set := by
  rcases LeastRecentlyUsed.eq_or_evicted capacity other hset with hkept | ⟨hfull, habsent, hlowest⟩
  · exact hkept
  · exfalso
    have hcard := LeastRecentlyUsed.length_le_card hset habsent hcounted fun k row' hne hk =>
      h.counted hapart hne hset hstamp hk (hlowest k row' hk)
    omega

/-- A thread goes on; what it does to the sets keeps the one in use. -/
theorem InUse.goes_on (h : InUse key stamp others c) {t : Nat}
    (hheld : ∃ set, s.sets.lookup key = some set ∧ stamp ≤ set.lastUsed)
    (hpending : ∀ lastUsed, position.stamp = some (key, lastUsed) → stamp ≤ lastUsed)
    (hnewer : ∀ other set, other ≠ key → s.sets.lookup other = some set →
      stamp < set.lastUsed → other ∈ others)
    (hbusy : ∀ other, position.key = some other → other ≠ key → other ∈ others)
    (hclock : c.shared.clock ≤ s.clock) :
    InUse key stamp others ⟨s, Function.update c.thread t position⟩ := by
  refine ⟨hheld, ?_, hnewer, ?_, Nat.lt_of_lt_of_le h.drawn hclock⟩
  · intro u lastUsed hu
    rcases stamp_update hu with ⟨-, hmine⟩ | ⟨-, htheirs⟩
    · exact hpending lastUsed hmine
    · exact h.pending u lastUsed htheirs
  · intro u other hu hne
    rcases key_update hu with hmine | htheirs
    · exact hbusy other hmine hne
    · exact h.busy u other htheirs hne

theorem InUse.step (h : InUse key stamp others c) (hapart : Apart c)
    (hfew : others.card < capacity) {t : Nat} (hspares : Spares text key others c.shared action)
    (hstep : c.step (program text capacity) t action = some d) : InUse key stamp others d := by
  obtain ⟨position, hsteps, hthread⟩ := steps_of_step hstep
  obtain ⟨index, threads⟩ := c
  obtain ⟨shared, thread⟩ := d
  obtain rfl : thread = Function.update threads t position := hthread
  obtain ⟨set, hset, hstamp⟩ := h.held
  have hclock := Nat.le_refl index.clock
  generalize hbefore : (Config.mk index threads).thread t = before at hsteps
  dsimp only at hsteps
  cases hsteps with
  | record other loadedPaths s =>
    refine h.goes_on h.held ?_ h.newer ?_ (Nat.le_succ _)
    · rintro lastUsed ⟨⟩
      exact Nat.le_of_lt h.drawn
    · rintro k ⟨⟩ hne
      exact hspares.resolve_left hne
  | commit other paths lastUsed s hfree =>
    have hkey : ((Config.mk index threads).thread t).key = some other := by rw [hbefore]; rfl
    refine h.goes_on ?_ nofun ?_ nofun hclock
    · by_cases hother : key = other
      · refine ⟨⟨paths, lastUsed⟩, ?_, ?_⟩
        · exact (LeastRecentlyUsed.lookup_record _ _ _ _ _ _).trans (if_pos hother)
        · exact h.pending t lastUsed (by rw [hbefore, hother]; rfl)
      · refine ⟨set, ?_, hstamp⟩
        have hne : other ≠ key := fun heq => hother heq.symm
        exact (LeastRecentlyUsed.lookup_record _ _ _ _ _ _).trans ((if_neg hother).trans
          (h.survives hapart hfew (h.busy t other hkey hne) hset hstamp))
    · intro k row hne hrow hlater
      rcases lookup_committed hrow with ⟨rfl, -⟩ | ⟨-, hold⟩
      · exact h.busy t k hkey hne
      · exact h.newer k row hne hold hlater
  | miss other s =>
    exact h.goes_on h.held nofun h.newer nofun hclock
  | hit other s hfound =>
    refine h.goes_on h.held nofun h.newer ?_ hclock
    rintro k ⟨⟩ hne
    exact (hspares hfound).resolve_left hne
  | tick other s =>
    have hkey : ((Config.mk index threads).thread t).key = some other := by rw [hbefore]; rfl
    refine h.goes_on h.held ?_ h.newer ?_ (Nat.le_succ _)
    · rintro lastUsed ⟨⟩
      exact Nat.le_of_lt h.drawn
    · rintro k ⟨⟩ hne
      exact h.busy t other hkey hne
  | store other lastUsed s =>
    have hkey : ((Config.mk index threads).thread t).key = some other := by rw [hbefore]; rfl
    refine h.goes_on ?_ nofun ?_ nofun hclock
    · by_cases hother : key = other
      · subst hother
        refine ⟨{ set with lastUsed }, ?_, h.pending t lastUsed (by rw [hbefore]; rfl)⟩
        exact (LeastRecentlyUsed.lookup_touch _ _ _ _).trans
          ((if_pos rfl).trans (by rw [hset]; rfl))
      · exact ⟨set, (LeastRecentlyUsed.lookup_touch _ _ _ _).trans ((if_neg hother).trans hset),
          hstamp⟩
    · intro k row hne hrow hlater
      rcases lookup_stored hrow with ⟨rfl, -⟩ | ⟨-, hold⟩
      · exact h.busy t k hkey hne
      · exact h.newer k row hne hold hlater
  | remove action s hfree kept haction =>
    refine h.goes_on ⟨set, ?_, hstamp⟩ nofun ?_ nofun hclock
    · refine (Keyed.lookup_retain _ _ _).trans ((if_pos ?_).trans hset)
      by_contra hgone
      have hremoved := haction key (Bool.not_eq_true _ ▸ hgone)
      cases action <;> simp_all [Spares]
    · intro k row hne hrow hlater
      exact h.newer k row hne (lookup_retained hrow) hlater

/-- A set that was used last at some stamp, with no older use of it under way, survives as long
as fewer other keys are used after it than the index has room for, whatever the threads do. -/
theorem sets_in_use_survive (text : Path → List Char) (capacity : Nat)
    {before acts : List (Nat × Action Path)}
    (hbefore : Runs (program text capacity) (fun _ _ _ => True) start before c)
    {key : DependencyKey Path} {set : Stamped (List Path)}
    (hset : c.shared.sets.lookup key = some set)
    (hpending : ∀ t lastUsed, (c.thread t).stamp = some (key, lastUsed) → set.lastUsed ≤ lastUsed)
    (others : Finset (DependencyKey Path)) (hfew : others.card < capacity)
    (hnewer : ∀ other set', other ≠ key → c.shared.sets.lookup other = some set' →
      set.lastUsed < set'.lastUsed → other ∈ others)
    (hbusy : ∀ t other, (c.thread t).key = some other → other ≠ key → other ∈ others)
    (hrun : Runs (program text capacity)
      (fun c _ action => Spares text key others c.shared action) c acts d) :
    ∃ set', d.shared.sets.lookup key = some set' ∧ set.lastUsed ≤ set'.lastUsed := by
  have hapart : Apart c := hbefore.invariant (fun _ _ _ _ _ hstep h => h.step hstep) apart_start
  have hinuse : InUse key set.lastUsed others c :=
    ⟨⟨set, hset, Nat.le_refl _⟩, hpending, hnewer, hbusy, hapart.set_lt key set hset⟩
  have hend : Apart d ∧ InUse key set.lastUsed others d :=
    hrun.invariant (I := fun c => Apart c ∧ InUse key set.lastUsed others c)
      (fun _ _ _ _ hspares hstep h => ⟨h.1.step hstep, h.2.step h.1 hfew hspares hstep⟩)
      ⟨hapart, hinuse⟩
  exact hend.2.held

def twoBuilds : List (Nat × Action Nat) :=
  [(0, .record (1, .client) []), (0, .commit), (0, .record (2, .client) []), (0, .commit),
    (0, .get (1, .client)), (0, .tick), (0, .store)]

def full : Config (DependencyPathIndex Nat) (Position Nat) :=
  (start.run (program (fun _ => []) 2) (fun _ _ _ => True) twoBuilds).getD start

/-- The set that was used again stays when the full index takes in another one. -/
theorem hot_set_survives : ∃ d set',
    Runs (program (fun _ => []) 2)
      (fun c _ action => Spares (fun _ => []) (1, .client) {(3, .client)} c.shared action) full
      [(0, .get (4, .client)), (0, .record (3, .client) []), (0, .commit)] d ∧
      d.shared.sets.lookup (2, .client) = none ∧
      d.shared.sets.lookup (1, .client) = some set' ∧ 2 ≤ set'.lastUsed := by
  have hbefore : Runs (program (fun _ => []) 2) (fun _ _ _ => True) start twoBuilds full :=
    Runs.of_run rfl
  have hrun : Runs (program (fun _ => []) 2)
      (fun c _ action => Spares (fun _ => []) (1, .client) {(3, .client)} c.shared action) full
      [(0, .get (4, .client)), (0, .record (3, .client) []), (0, .commit)] _ :=
    .cons (fun hfound => (nomatch hfound)) rfl
      (.cons (.inr (Finset.mem_singleton_self _)) rfl (.cons trivial rfl (.refl _)))
  have hidle : ∀ t, full.thread t = .idle := by
    intro t
    by_cases ht : t = 0
    · rw [ht]
      rfl
    · exact (hbefore.thread_of_notMem (by simp [twoBuilds, ht])).trans rfl
  have hset : full.shared.sets.lookup (1, .client) = some ⟨sortDedup [], 2⟩ := rfl
  have hapart : Apart full :=
    hbefore.invariant (fun _ _ _ _ _ hstep h => h.step hstep) apart_start
  have hnewer : ∀ other set', other ≠ (1, .client) → full.shared.sets.lookup other = some set' →
      2 < set'.lastUsed → other ∈ ({(3, .client)} : Finset (DependencyKey Nat)) := by
    intro other set' _ hother hlater
    have hlt : set'.lastUsed < 3 := hapart.set_lt other set' hother
    omega
  obtain ⟨set', hset', hle⟩ := sets_in_use_survive (fun _ => []) 2 hbefore hset
    (fun t lastUsed ht => by rw [hidle t] at ht; cases ht) {(3, .client)} (by decide) hnewer
    (fun t other ht => by rw [hidle t] at ht; cases ht) hrun
  exact ⟨_, set', hrun, rfl, hset', hle⟩

/-! ## What a lookup answers -/

def Found (sets : Keyed (DependencyKey Path) (Stamped (List Path))) : Position Path → Prop
  | .reading key | .stamping key _ => (sets.lookup key).isSome
  | .idle | .recording _ _ _ => True

def Pending (recorded : DependencyKey Path → List Path → Prop) : Position Path → Prop
  | .recording key paths _ => recorded key paths
  | .idle | .reading _ | .stamping _ _ => True

/-- The lock is held by the threads that read, whose sets stay, and every set holds the paths of
a build. -/
structure Locked (recorded : DependencyKey Path → List Path → Prop) (capacity : Nat)
    (c : Config (DependencyPathIndex Path) (Position Path)) : Prop where
  readers : Counts (fun position : Position Path => position.reads = true) c.thread
    c.shared.readers
  found : ∀ t, Found c.shared.sets (c.thread t)
  pending : ∀ t, Pending recorded (c.thread t)
  sets : ∀ key set, c.shared.sets.lookup key = some set → recorded key set.value
  bounded : c.shared.sets.rows.length ≤ capacity

variable {recorded : DependencyKey Path → List Path → Prop}

theorem Found.of_not_reads (sets : Keyed (DependencyKey Path) (Stamped (List Path)))
    (h : position.reads = false) : Found sets position := by
  cases position with
  | idle => trivial
  | recording key paths lastUsed => trivial
  | reading key => cases h
  | stamping key lastUsed => cases h

theorem Found.touch {sets : Keyed (DependencyKey Path) (Stamped (List Path))}
    (h : Found sets position) (key : DependencyKey Path) (lastUsed : Nat) :
    Found (LeastRecentlyUsed.touch key lastUsed sets) position := by
  have hkept : ∀ k, (sets.lookup k).isSome →
      ((LeastRecentlyUsed.touch key lastUsed sets).lookup k).isSome := by
    intro k hk
    rw [LeastRecentlyUsed.lookup_touch]
    split
    · rename_i heq
      rw [Option.isSome_map, ← heq]
      exact hk
    · exact hk
  cases position with
  | idle => trivial
  | recording k paths used => trivial
  | reading k => exact hkept k h
  | stamping k used => exact hkept k h

omit [LinearOrder Path] in
theorem everywhere_update {P : Position Path → Prop} {thread : Nat → Position Path}
    (hthread : ∀ u, P (thread u)) (t : Nat) (hposition : P position) (u : Nat) :
    P (Function.update thread t position u) := by
  rw [Function.update_apply]
  split
  · exact hposition
  · exact hthread u

omit [LinearOrder Path] in
theorem not_reads {readers : Nat} {thread : Nat → Position Path}
    (h : Counts (fun position : Position Path => position.reads = true) thread readers)
    (hfree : readers = 0) (t : Nat) : (thread t).reads = false := by
  by_contra hreads
  have hpos := h.pos (Bool.not_eq_false _ ▸ hreads)
  omega

omit [LinearOrder Path] in
theorem retain_length_le [DecidableEq Path] (kept : DependencyKey Path → Bool)
    (sets : Keyed (DependencyKey Path) (Stamped (List Path))) :
    (sets.retain kept).rows.length ≤ sets.rows.length := by
  simp only [Keyed.rows, Keyed.retain, List.length_map]
  exact List.length_filter_le _ _

theorem Locked.step (h : Locked recorded capacity c) (hcapacity : 0 < capacity) {t : Nat}
    (hrecords : ∀ key loadedPaths, action = .record key loadedPaths →
      recorded key (sortDedup loadedPaths))
    (hstep : c.step (program text capacity) t action = some d) :
    Locked recorded capacity d := by
  obtain ⟨position, hsteps, hthread⟩ := steps_of_step hstep
  obtain ⟨index, threads⟩ := c
  obtain ⟨shared, thread⟩ := d
  obtain rfl : thread = Function.update threads t position := hthread
  have hfound := h.found t
  have hpending := h.pending t
  generalize hbefore : (Config.mk index threads).thread t = before at hsteps hfound hpending
  dsimp only at hsteps
  cases hsteps with
  | record key loadedPaths s =>
    exact ⟨h.readers.stay (by rw [hbefore]; rfl), everywhere_update h.found t trivial,
      everywhere_update h.pending t (hrecords key loadedPaths rfl), h.sets, h.bounded⟩
  | commit key paths lastUsed s hfree =>
    refine ⟨h.readers.stay (by rw [hbefore]; rfl), ?_, everywhere_update h.pending t trivial, ?_,
      LeastRecentlyUsed.length_record_le hcapacity h.bounded⟩
    · exact everywhere_update (fun u => Found.of_not_reads _ (not_reads h.readers hfree u)) t
        trivial
    · intro k set hset
      rcases lookup_committed hset with ⟨rfl, rfl⟩ | ⟨-, hold⟩
      · exact hpending
      · exact h.sets k set hold
  | miss key s =>
    exact ⟨h.readers.stay (by rw [hbefore]), everywhere_update h.found t trivial,
      everywhere_update h.pending t trivial, h.sets, h.bounded⟩
  | hit key s hset =>
    exact ⟨h.readers.enter (by rw [hbefore]; exact Bool.false_ne_true) rfl,
      everywhere_update h.found t hset, everywhere_update h.pending t trivial, h.sets, h.bounded⟩
  | tick key s =>
    exact ⟨h.readers.stay (by rw [hbefore]; rfl), everywhere_update h.found t hfound,
      everywhere_update h.pending t trivial, h.sets, h.bounded⟩
  | store key lastUsed s =>
    obtain ⟨m, hm, hleft⟩ : ∃ m, index.readers = m + 1 ∧
        Counts (fun position : Position Path => position.reads = true)
          (Function.update threads t .idle) m :=
      h.readers.leave (by rw [hbefore]; rfl) Bool.false_ne_true
    refine ⟨?_, ?_, everywhere_update h.pending t trivial, ?_,
      Nat.le_trans (Nat.le_of_eq LeastRecentlyUsed.length_touch) h.bounded⟩
    · change Counts _ _ (index.readers - 1)
      rw [hm, Nat.add_sub_cancel]
      exact hleft
    · exact everywhere_update (fun u => (h.found u).touch key lastUsed) t trivial
    · intro k set hset
      rcases lookup_stored hset with ⟨rfl, before, hold, rfl⟩ | ⟨-, hold⟩
      · exact h.sets k before hold
      · exact h.sets k set hold
  | remove action s hfree kept haction =>
    refine ⟨h.readers.stay (by rw [hbefore]), ?_, everywhere_update h.pending t trivial, ?_,
      Nat.le_trans (retain_length_le _ _) h.bounded⟩
    · exact everywhere_update (fun u => Found.of_not_reads _ (not_reads h.readers hfree u)) t
        trivial
    · intro k set hset
      exact h.sets k set (lookup_retained hset)

theorem locked_start (capacity : Nat) (recorded : DependencyKey Path → List Path → Prop) :
    Locked recorded capacity (start : Config (DependencyPathIndex Path) (Position Path)) :=
  ⟨Counts.none_at fun _ => Bool.false_ne_true, fun _ => trivial, fun _ => trivial,
    (fun _ _ hset => nomatch hset), Nat.zero_le _⟩

/-- Whatever the threads do, the index stays bounded, a lookup that has found its set still has
it when it stores its stamp, and every set is the sorted paths of a build of its key. -/
theorem lookups_answer_builds (text : Path → List Char) (capacity : Nat) (hcapacity : 0 < capacity)
    {acts : List (Nat × Action Path)}
    (hrun : Runs (program text capacity) (fun _ _ _ => True) start acts d) :
    d.shared.sets.rows.length ≤ capacity ∧
      (∀ t key, (d.thread t).reads = true → (d.thread t).key = some key →
        (d.shared.sets.lookup key).isSome) ∧
      ∀ key set, d.shared.sets.lookup key = some set → set.value.Pairwise (· < ·) ∧
        ∃ t loadedPaths, (t, .record key loadedPaths) ∈ acts ∧
          ∀ path, path ∈ set.value ↔ path ∈ loadedPaths := by
  have hrecords := hrun.of_actions (Q := fun action => ∀ key loadedPaths,
    action = .record key loadedPaths → ∃ t loaded, (t, Action.record key loaded) ∈ acts ∧
      sortDedup loadedPaths = sortDedup loaded)
    fun act hact key loadedPaths haction => ⟨act.1, loadedPaths, haction ▸ hact, rfl⟩
  have hlocked := hrecords.invariant (fun _ _ _ _ hrecord hstep h =>
    h.step hcapacity hrecord hstep) (locked_start capacity fun key paths =>
      ∃ t loaded, (t, Action.record key loaded) ∈ acts ∧ paths = sortDedup loaded)
  refine ⟨hlocked.bounded, ?_, ?_⟩
  · intro t key hreads hkey
    have hfound := hlocked.found t
    cases hposition : d.thread t with
    | idle =>
      rw [hposition] at hreads
      cases hreads
    | recording k paths lastUsed =>
      rw [hposition] at hreads
      cases hreads
    | reading k =>
      rw [hposition] at hkey hfound
      cases hkey
      exact hfound
    | stamping k lastUsed =>
      rw [hposition] at hkey hfound
      cases hkey
      exact hfound
  · intro key set hset
    obtain ⟨t, loaded, hacts, hpaths⟩ := hlocked.sets key set hset
    rw [hpaths]
    exact ⟨sortDedup_pairwise loaded, t, loaded, hacts, fun path => mem_sortDedup⟩

/-- A build, while another thread reads its paths. -/
theorem one_build_is_answered :
    ∃ d : Config (DependencyPathIndex Nat) (Position Nat),
      Runs (program (fun _ => []) 2) (fun _ _ _ => True) start
        [(0, .record (1, .client) [3, 1, 3]), (0, .commit), (1, .get (1, .client)), (1, .tick)] d ∧
      d.shared.sets.rows.length ≤ 2 ∧ (d.shared.sets.lookup (1, .client)).isSome := by
  have hrun : Runs (program (fun _ => []) 2) (fun _ _ _ => True)
      (start : Config (DependencyPathIndex Nat) (Position Nat))
      [(0, .record (1, .client) [3, 1, 3]), (0, .commit), (1, .get (1, .client)), (1, .tick)] _ :=
    .cons trivial rfl (.cons trivial rfl (.cons trivial rfl (.cons trivial rfl (.refl _))))
  have hanswers := lookups_answer_builds (fun _ => []) 2 (by decide) hrun
  exact ⟨_, hrun, hanswers.1, hanswers.2.1 1 (1, .client) rfl rfl⟩

end ImportLens.Engine.DependencyPaths
