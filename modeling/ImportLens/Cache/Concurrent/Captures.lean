import ImportLens.Cache.Concurrent.Sections

/-!
# Captured generations and the clear lock

What a thread carries from one section to the next: the entry it is about to
mirror into memory, or the entries it persists again, with the clear generation
it captured before it read them.  No thread is ahead of the current generation,
no queued value is, and one thread at most holds `clear_lock`, with the batch
of its flush.
-/

namespace ImportLens.Cache.Concurrent

open ImportLens.Support

variable {ν : Type}

/-! ## What a thread carries -/

def Caller.guarded (key : Key) (entry : Entry ν) (generation : Nat) :
    Caller ν → Option (Key × Entry ν × Nat)
  | insert => some (key, entry, generation)
  | _ => none

def Caller.remaining : Caller ν → Option (List (Key × Entry ν))
  | insert => none
  | cap _ _ => some []
  | replay entries _ | sweep _ entries _ => some entries

def Return.guarded : Return ν → Option (Key × Entry ν × Nat)
  | persisted key entry generation caller => caller.guarded key entry generation
  | _ => none

def Return.repersists : Return ν → Option (Nat × List (Key × Entry ν))
  | persisted _ _ generation caller => caller.remaining.map fun entries => (generation, entries)
  | _ => none

namespace Position

/-- The entry on its way into the memory map, with the generation captured
before it was built or read. -/
def guarded : Position ν → Option (Key × Entry ν × Nat)
  | persist key entry generation caller => caller.guarded key entry generation
  | flush after | flushWrite after | flushRequeue after => after.guarded
  | markDirty key entry generation | guard key entry generation | store key entry generation
  | recheck key entry generation | rollback key entry generation
  | judgeFetched key entry (.hydrate generation _) => some (key, entry, generation)
  | _ => none

/-- The entries a re-persist has read from memory, with the generation it
captured before. -/
def repersists : Position ν → Option (Nat × List (Key × Entry ν))
  | persist key entry generation caller =>
      caller.remaining.map fun entries => (generation, (key, entry) :: entries)
  | flush after | flushWrite after | flushRequeue after => after.repersists
  | capSnapshot generation | capLoop generation _ | capMark generation _ _ _ _
  | capRemove generation _ _ | takeDirty generation | snapshotDirty generation _
  | snapshotPromoted generation _ => some (generation, [])
  | replay generation entries _ | sweep generation entries _
  | sweepMark generation _ _ entries _ => some (generation, entries)
  | _ => none

def hydrates : Position ν → Option Nat
  | fetchQueue _ (.hydrate generation _) | fetchTable _ (.hydrate generation _) => some generation
  | _ => none

def snapshots : Position ν → Bool
  | capLoop _ (_ :: _) | snapshotDirty _ _ | snapshotPromoted _ _ => true
  | _ => false

/-- The clear generation a thread has captured. -/
def Captured (generation : Nat) (p : Position ν) : Prop :=
  (∃ key entry, p.guarded = some (key, entry, generation)) ∨
    (∃ entries, p.repersists = some (generation, entries)) ∨ p.hydrates = some generation

/-- Whether a thread holds `clear_lock`. -/
def holdsLock : Position ν → Bool
  | flushWrite _ | flushRequeue _ | wipeTable | wipeQueue => true
  | _ => false

end Position

section

variable {s : Shared ν} {effect : Effect ν} {t : Nat} {a : Action ν} {p p' : Position ν}
variable {key : Key} {entry : Entry ν} {generation : Nat}

@[simp] theorem Caller.guarded_ok (caller : Caller ν) :
    (caller.ok key entry generation).guarded = caller.guarded key entry generation := by
  cases caller <;> rfl

@[simp] theorem Caller.guarded_failed (caller : Caller ν) :
    (caller.failed key entry generation).guarded = caller.guarded key entry generation := by
  cases caller <;> rfl

@[simp] theorem Caller.repersists_ok (caller : Caller ν) :
    (caller.ok key entry generation).repersists =
      caller.remaining.map fun entries =>
        (generation, entries) := by
  cases caller <;> rfl

@[simp] theorem Caller.repersists_failed (caller : Caller ν) :
    (caller.failed key entry generation).repersists =
      caller.remaining.map fun entries => (generation, entries) := by
  cases caller <;> rfl

@[simp] theorem Caller.hydrates_ok (caller : Caller ν) :
    (caller.ok key entry generation).hydrates = none := by
  cases caller <;> rfl

@[simp] theorem Caller.hydrates_failed (caller : Caller ν) :
    (caller.failed key entry generation).hydrates = none := by
  cases caller <;> rfl

@[simp] theorem Caller.holdsLock_ok (caller : Caller ν) :
    (caller.ok key entry generation).holdsLock = false := by
  cases caller <;> rfl

@[simp] theorem Caller.holdsLock_failed (caller : Caller ν) :
    (caller.failed key entry generation).holdsLock = false := by
  cases caller <;> rfl

@[simp] theorem Return.guarded_position (after : Return ν) :
    after.position.guarded = after.guarded := by
  cases after with
  | persisted _ _ _ caller => exact caller.guarded_ok
  | _ => rfl

@[simp] theorem Return.repersists_position (after : Return ν) :
    after.position.repersists = after.repersists := by
  cases after with
  | persisted _ _ _ caller => exact caller.repersists_ok
  | _ => rfl

@[simp] theorem Return.hydrates_position (after : Return ν) : after.position.hydrates = none := by
  cases after with
  | persisted _ _ _ caller => exact caller.hydrates_ok
  | _ => rfl

@[simp] theorem Return.holdsLock_position (after : Return ν) :
    after.position.holdsLock = false := by
  cases after with
  | persisted _ _ _ caller => exact caller.holdsLock_ok
  | _ => rfl

/-- An entry starts on its way into memory when an insert builds it or a
hydration reads it. -/
theorem taken_guarded (h : Taken t a s p effect p')
    (hp : p'.guarded = some (key, entry, generation)) :
    p.guarded = some (key, entry, generation) ∨
    (p = .idle ∧ effect = .born ∧ generation = s.clearGeneration ∧
      ∃ value, entry = ⟨⟨value, s.nextWriter, s.clearGeneration⟩, s.heap.next⟩) ∨
    (∃ stored mode, effect = .hydrate stored.seq ∧
      entry = ⟨stored.copy.through generation, s.heap.next⟩ ∧
      (p = .fetchQueue key (.hydrate generation mode) ∧
          s.queue.lookup key = some (s.clearGeneration, stored) ∨
        p = .fetchTable key (.hydrate generation mode) ∧
          ∃ rows, s.table = some rows ∧ rows.lookup key = some (some stored))) := by
  cases h with
  | insert key' value _ entry' hentry =>
      simp only [Position.guarded, Caller.guarded, Option.some.injEq, Prod.mk.injEq] at hp
      obtain ⟨rfl, rfl, rfl⟩ := hp
      exact .inr (.inl ⟨rfl, rfl, rfl, value, hentry⟩)
  | fetchedQueue key' reader stored hqueue =>
      cases reader with
      | peek => cases hp
      | hydrate generation' mode =>
          simp only [Position.guarded, Reader.decode, Option.some.injEq, Prod.mk.injEq] at hp
          obtain ⟨rfl, rfl, rfl⟩ := hp
          exact .inr (.inr ⟨stored, mode, rfl, rfl, .inl ⟨rfl, hqueue⟩⟩)
  | fetchedTable key' reader stored rows htable hrow =>
      cases reader with
      | peek => cases hp
      | hydrate generation' mode =>
          simp only [Position.guarded, Reader.decode, Option.some.injEq, Prod.mk.injEq] at hp
          obtain ⟨rfl, rfl, rfl⟩ := hp
          exact .inr (.inr ⟨stored, mode, rfl, rfl, .inr ⟨rfl, rows, htable, hrow⟩⟩)
  | enqueue key' entry' generation' caller stored after _ _ _ hafter =>
      rcases hafter with rfl | rfl
      · exact .inl (by rwa [Caller.guarded_ok] at hp)
      · exact .inl hp
  | offline => exact .inl (by rwa [Caller.guarded_ok] at hp)
  | encodeFails => exact .inl (by rwa [Caller.guarded_failed] at hp)
  | flushNothing | flushDiscard | commit | requeue =>
      exact .inl (by rwa [Return.guarded_position] at hp)
  | flushTake | flushFails | markDirty | guardPasses | store | recheckFails | mirror =>
      exact .inl hp
  | _ => cases hp

/-- What is left to write is part of what was carried. -/
theorem repersists_of_remaining {caller : Caller ν} {entries : List (Key × Entry ν)}
    {generation' : Nat}
    (h : (caller.remaining.map fun entries => (generation', entries)) =
      some (generation, entries)) :
    ∃ carried,
      (Position.persist key entry generation' caller).repersists = some (generation, carried) ∧
      ∀ row ∈ entries, row ∈ carried ∨
        (Position.persist key entry generation' caller).snapshots ∧
          s.memory.lookup row.1 = some row.2 := by
  obtain ⟨_, hremaining, heq⟩ := Option.map_eq_some_iff.mp h
  cases heq
  exact ⟨(key, entry) :: entries, by simp [Position.repersists, hremaining],
    fun row hrow => .inl (List.mem_cons_of_mem _ hrow)⟩

/-- A re-persist keeps the generation it starts with, and carries what it reads
from memory. -/
theorem taken_repersists (h : Taken t a s p effect p') {entries : List (Key × Entry ν)}
    (hp : p'.repersists = some (generation, entries)) :
    (∃ carried, p.repersists = some (generation, carried) ∧
      ∀ row ∈ entries, row ∈ carried ∨ p.snapshots ∧ s.memory.lookup row.1 = some row.2) ∨
    generation = s.clearGeneration ∧ entries = [] := by
  cases h with
  | callFlushToDisk | capOver =>
      cases hp
      exact .inr ⟨rfl, rfl⟩
  | enqueue key' entry' generation' caller stored after _ _ _ hafter =>
      have hremaining :
          (caller.remaining.map fun entries => (generation', entries)) =
            some (generation, entries) := by
        rcases hafter with rfl | rfl
        · rwa [Caller.repersists_ok] at hp
        · exact hp
      exact .inl (repersists_of_remaining hremaining)
  | offline =>
      rw [Caller.repersists_ok] at hp
      exact .inl (repersists_of_remaining hp)
  | encodeFails =>
      rw [Caller.repersists_failed] at hp
      exact .inl (repersists_of_remaining hp)
  | flushNothing | flushDiscard | commit | requeue =>
      rw [Return.repersists_position] at hp
      exact .inl ⟨entries, hp, fun row hrow => .inl hrow⟩
  | flushTake | flushFails | sweepMark =>
      exact .inl ⟨entries, hp, fun row hrow => .inl hrow⟩
  | capPersists _ key' _ entry' _ hmemory =>
      cases hp
      refine .inl ⟨[], rfl, fun row hrow => .inr ⟨rfl, ?_⟩⟩
      rw [List.mem_singleton.mp hrow]
      exact hmemory
  | snapshotDirty _ _ _ hentries | snapshotPromoted _ _ _ hentries =>
      cases hp
      exact .inl ⟨[], rfl, fun row hrow => .inr ⟨rfl, hentries row hrow⟩⟩
  | capSnapshot | capEvicts | capMark | capRemove | takeDirty | replayed | replay | sweep =>
      cases hp
      exact .inl ⟨_, rfl, fun row hrow => .inl hrow⟩
  | _ => cases hp

theorem taken_captured (h : Taken t a s p effect p') (hp : p'.Captured generation) :
    p.Captured generation ∨ generation = s.clearGeneration := by
  rcases hp with ⟨key, entry, hguarded⟩ | ⟨entries, hrepersists⟩ | hhydrates
  · rcases taken_guarded h hguarded with hsame | ⟨_, _, hgeneration, _⟩ | ⟨_, _, _, _, hfetch⟩
    · exact .inl (.inl ⟨key, entry, hsame⟩)
    · exact .inr hgeneration
    · refine .inl (.inr (.inr ?_))
      rcases hfetch with ⟨rfl, _⟩ | ⟨rfl, _⟩ <;> rfl
  · rcases taken_repersists h hrepersists with ⟨carried, hsame, _⟩ | ⟨hgeneration, _⟩
    · exact .inl (.inr (.inl ⟨carried, hsame⟩))
    · exact .inr hgeneration
  · cases h with
    | capture =>
        cases hhydrates
        exact .inr rfl
    | missedQueue key' reader =>
        cases reader with
        | peek => cases hhydrates
        | hydrate generation' mode => exact .inl (.inr (.inr hhydrates))
    | enqueue _ _ _ caller _ _ _ _ _ hafter =>
        rcases hafter with rfl | rfl
        · simp at hhydrates
        · cases hhydrates
    | offline | encodeFails | flushNothing | flushDiscard | commit | requeue => simp at hhydrates
    | _ => cases hhydrates

theorem taken_lock (h : Taken t a s p effect p')
    (hlock : p.holdsLock = true ↔ s.clearLock = some t) :
    (p'.holdsLock = true ↔ (effect.apply s).clearLock = some t) ∧
      ∀ u, u ≠ t → ((effect.apply s).clearLock = some u ↔ s.clearLock = some u) := by
  cases h with
  | bump _ hfree | flushTake _ hfree =>
      refine ⟨by simp [Position.holdsLock, Effect.apply], fun u hu => ?_⟩
      simp [Effect.apply, hfree, Ne.symm hu]
  | commit | requeue =>
      have hheld : s.clearLock = some t := hlock.mp rfl
      refine ⟨by rw [Return.holdsLock_position]; simp [Effect.apply], fun u hu => ?_⟩
      simp [Effect.apply, hheld, Ne.symm hu]
  | wipeQueue =>
      have hheld : s.clearLock = some t := hlock.mp rfl
      refine ⟨by simp [Position.holdsLock, Effect.apply], fun u hu => ?_⟩
      simp [Effect.apply, hheld, Ne.symm hu]
  | flushFails | wipeTableFails | wipeTable => exact ⟨hlock, fun u _ => Iff.rfl⟩
  | offline => exact ⟨by rw [Caller.holdsLock_ok]; exact hlock, fun u _ => Iff.rfl⟩
  | encodeFails => exact ⟨by rw [Caller.holdsLock_failed]; exact hlock, fun u _ => Iff.rfl⟩
  | flushNothing | flushDiscard =>
      exact ⟨by rw [Return.holdsLock_position]; exact hlock, fun u _ => Iff.rfl⟩
  | enqueue _ _ _ caller _ _ _ _ _ hafter =>
      refine ⟨?_, fun u _ => Iff.rfl⟩
      rcases hafter with rfl | rfl
      · rw [Caller.holdsLock_ok]
        exact hlock
      · exact hlock
  | mirror _ _ _ _ _ heffect =>
      rcases heffect with rfl | rfl <;> exact ⟨hlock, fun u _ => Iff.rfl⟩
  | _ => exact ⟨hlock, fun u _ => Iff.rfl⟩

end

/-! ## The invariant -/

def Position.flushes : Position ν → Bool
  | flushWrite _ | flushRequeue _ => true
  | _ => false

/-- What holds in every reachable state. -/
structure Sound (c : Config (Shared ν) (Position ν)) : Prop where
  lock : ∀ t, (c.thread t).holdsLock = true ↔ c.shared.clearLock = some t
  batch : (∀ t, (c.thread t).flushes = false) → c.shared.inFlight = ∅
  captured : ∀ t generation, (c.thread t).Captured generation →
    generation ≤ c.shared.clearGeneration
  tags : c.shared.queue.All fun _ tagged => tagged.1 ≤ c.shared.clearGeneration

variable {c d : Config (Shared ν) (Position ν)} {t : Nat} {a : Action ν}

theorem Position.not_captured_idle (generation : Nat) :
    ¬ (idle : Position ν).Captured generation := by
  rintro (⟨_, _, h⟩ | ⟨_, h⟩ | h) <;> cases h

/-- The captured generation of a thread is at least `g`, as a test. -/
def Position.capturedSince (g : Nat) (p : Position ν) : Bool :=
  (p.guarded.all fun carried => decide (g ≤ carried.2.2)) &&
    (p.repersists.all fun carried => decide (g ≤ carried.1)) &&
    p.hydrates.all fun generation => decide (g ≤ generation)

theorem Position.le_of_capturedSince {g generation : Nat} {p : Position ν}
    (h : p.capturedSince g = true) (hp : p.Captured generation) : g ≤ generation := by
  simp only [capturedSince, Bool.and_eq_true] at h
  rcases hp with ⟨key, entry, hguarded⟩ | ⟨entries, hrepersists⟩ | hhydrates
  · simpa [hguarded] using h.1.1
  · simpa [hrepersists] using h.1.2
  · simpa [hhydrates] using h.2

theorem Initial.sound (h : Initial c) : Sound c where
  lock t := by simp [h.idle t, h.clearLock, Position.holdsLock]
  batch _ := h.inFlight
  captured t generation hcaptured := by
    rw [h.idle t] at hcaptured
    exact absurd hcaptured (Position.not_captured_idle _)
  tags := by
    rw [h.queue]
    exact Keyed.all_empty _

theorem Position.flushes_holdsLock {p : Position ν} (h : p.flushes = true) :
    p.holdsLock = true := by
  cases p with
  | flushWrite | flushRequeue => rfl
  | _ => cases h

theorem taken_batch {s : Shared ν} {effect : Effect ν} {p p' : Position ν}
    (h : Taken t a s p effect p') (hp : p'.flushes = false) :
    (effect.apply s).inFlight = ∅ ∨
      (effect.apply s).inFlight = s.inFlight ∧ p.flushes = false := by
  cases h with
  | flushTake | flushFails => cases hp
  | commit | requeue => exact .inl rfl
  | mirror _ _ _ _ _ heffect => rcases heffect with rfl | rfl <;> exact .inr ⟨rfl, rfl⟩
  | _ => exact .inr ⟨rfl, rfl⟩

theorem Position.captured_persist (key : Key) (entry : Entry ν) (generation : Nat)
    (caller : Caller ν) : (persist key entry generation caller).Captured generation := by
  cases caller with
  | insert => exact .inl ⟨key, entry, rfl⟩
  | _ => exact .inr (.inl ⟨_, rfl⟩)

theorem taken_tags {s : Shared ν} {effect : Effect ν} {p p' : Position ν}
    (h : Taken t a s p effect p')
    (hcaptured : ∀ generation, p.Captured generation → generation ≤ s.clearGeneration)
    (htags : s.queue.All fun _ tagged => tagged.1 ≤ s.clearGeneration) :
    (effect.apply s).queue.All fun _ tagged => tagged.1 ≤ (effect.apply s).clearGeneration := by
  have hle := Effect.le_apply_clearGeneration s effect
  refine Effect.apply_queue_all ?_ ?_ ?_
  · intro key tagged hrow
    exact (htags key tagged hrow).trans hle
  · rintro key generation stored rfl
    obtain ⟨entry, caller, rfl, _⟩ := taken_enqueue h
    exact hcaptured generation (Position.captured_persist _ _ _ _)
  · intro _ key stored _
    exact hle

theorem sound_step (h : c.step program t a = some d) (hc : Sound c) : Sound d := by
  obtain ⟨effect, _, htaken, hshared, hothers⟩ := taken_of_step h
  constructor
  case lock =>
    intro u
    obtain ⟨hself, hlock⟩ := taken_lock htaken (hc.lock t)
    rw [hshared]
    by_cases hu : u = t
    · subst hu
      exact hself
    · rw [hothers u hu, hlock u hu]
      exact hc.lock u
  case batch =>
    intro hflushes
    rw [hshared]
    rcases taken_batch htaken (hflushes t) with hempty | ⟨hsame, hself⟩
    · exact hempty
    · refine hsame.trans (hc.batch fun u => ?_)
      by_cases hu : u = t
      · subst hu
        exact hself
      · rw [← hothers u hu]
        exact hflushes u
  case captured =>
    intro u generation hcaptured
    rw [hshared]
    refine le_trans ?_ (Effect.le_apply_clearGeneration _ _)
    by_cases hu : u = t
    · subst hu
      rcases taken_captured htaken hcaptured with hbefore | hcurrent
      · exact hc.captured u generation hbefore
      · exact hcurrent.le
    · rw [hothers u hu] at hcaptured
      exact hc.captured u generation hcaptured
  case tags =>
    rw [hshared]
    exact taken_tags htaken (hc.captured t) hc.tags

theorem sound_of_runs {guard : Config (Shared ν) (Position ν) → Nat → Action ν → Prop}
    {acts : List (Nat × Action ν)} (h : Runs program guard c acts d) (hc : Sound c) : Sound d :=
  h.invariant (fun _ _ _ _ _ => sound_step) hc

theorem Sound.inFlight_of_free (hc : Sound c) (hfree : c.shared.clearLock = none) :
    c.shared.inFlight = ∅ := by
  refine hc.batch fun u => ?_
  cases hu : (c.thread u).flushes with
  | false => rfl
  | true =>
      have hheld := (hc.lock u).mp (Position.flushes_holdsLock hu)
      simp [hfree] at hheld

end ImportLens.Cache.Concurrent
