import ImportLens.Support.Interleaving

/-!
# Asset admission

Asset jobs are admitted by a counter under a mutex with a condition variable.
A caller that finds no permit sleeps until it is notified, its time is up or it
wakes for no reason; a released permit notifies one sleeper, and a caller whose
deadline has passed passes the notification on.

A thread of the model is one call of `submit` with its job: once the job is on
the pool the caller only waits for the reply, and a caller that gives up goes on
as another thread.  Locking, every section of `acquire` and `release` under the
lock and every wake are steps of their own.
-/

namespace ImportLens.Pipeline.AssetBoundary

open ImportLens.Support

def assetProcessingPermits : Nat := 2

structure Shared where
  available : Nat
  /-- The holder of the mutex. -/
  lock : Option Nat
  /-- The threads in `wait_timeout`, and those of them that were notified. -/
  sleepers : List Nat
  notified : List Nat
  now : Nat

inductive Position
  | idle
  -- `Admission::acquire`
  | lockAcquire (deadline : Nat)
  | check (deadline : Nat)
  | expired (deadline : Nat)
  | take (deadline : Nat)
  | asleep (deadline : Nat)
  | relock (deadline : Nat)
  -- `AssetExecutor::submit`; `waits` says whether the caller waits for the reply
  | admitted (deadline : Nat)
  | queued (deadline : Nat) (waits : Bool)
  | running (deadline : Nat) (waits : Bool)
  -- `Admission::release`
  | lockRelease
  | release
  | notify
  deriving DecidableEq

inductive Event
  /-- The next step of the code. -/
  | proceed
  /-- A sleeper wakes without being notified: its time is up, or spuriously. -/
  | wake
  /-- The caller gives up waiting for the reply. -/
  | giveUp
  /-- Time passes. -/
  | tick
  deriving DecidableEq

structure Action where
  event : Event := .proceed
  /-- The duration of a call's limit, or of a tick. -/
  millis : Nat := 0
  /-- The sleeper a notification chooses. -/
  chosen : Nat := 0

/-- `Condvar::notify_one`: any sleeper may be chosen. -/
def notifyOne (s : Shared) (chosen : Nat) : Option Shared :=
  if s.sleepers = [] then some s
  else if chosen ∈ s.sleepers then
    some { s with sleepers := s.sleepers.erase chosen, notified := chosen :: s.notified }
  else none

def program : Program Shared Position Action := fun t a s position =>
  match position with
  | .idle =>
      if a.event = .tick then some ({ s with now := s.now + a.millis }, .idle)
      else some (s, .lockAcquire (s.now + a.millis))
  | .lockAcquire deadline | .relock deadline =>
      if s.lock = none then some ({ s with lock := some t }, .check deadline) else none
  | .check deadline =>
      if deadline ≤ s.now then some (s, .expired deadline) else some (s, .take deadline)
  | .expired _ =>
      -- pass on a wake this caller cannot use
      (if 0 < s.available then notifyOne s a.chosen else some s).map fun next =>
        ({ next with lock := none }, .idle)
  | .take deadline =>
      if 0 < s.available then
        some ({ s with available := s.available - 1, lock := none }, .admitted deadline)
      else some ({ s with sleepers := t :: s.sleepers, lock := none }, .asleep deadline)
  | .asleep deadline =>
      if t ∈ s.notified then
        if s.lock = none then
          some ({ s with notified := s.notified.erase t, lock := some t }, .check deadline)
        else none
      else if a.event = .wake then
        some ({ s with sleepers := s.sleepers.erase t }, .relock deadline)
      else none
  | .admitted deadline =>
      if deadline ≤ s.now then some (s, .lockRelease) else some (s, .queued deadline true)
  | .queued deadline waits =>
      match a.event with
      | .giveUp => if deadline ≤ s.now then some (s, .queued deadline false) else none
      | _ => some (s, .running deadline waits)
  | .running deadline _ =>
      match a.event with
      | .giveUp => if deadline ≤ s.now then some (s, .running deadline false) else none
      -- the closure returns, and its permit is dropped
      | _ => some (s, .lockRelease)
  | .lockRelease => if s.lock = none then some ({ s with lock := some t }, .release) else none
  | .release => some ({ s with available := s.available + 1 }, .notify)
  | .notify => (notifyOne s a.chosen).map fun next => ({ next with lock := none }, .idle)

def started : Config Shared Position where
  shared :=
    { available := assetProcessingPermits, lock := none, sleepers := [], notified := [], now := 0 }
  thread _ := .idle

/-! ## What a position holds -/

namespace Position

def holdsLock : Position → Bool
  | .check _ | .expired _ | .take _ | .release | .notify => true
  | _ => false

def isAsleep : Position → Bool
  | .asleep _ => true
  | _ => false

/-- The thread has a `Permit` that was not dropped. -/
def holdsPermit : Position → Prop
  | .admitted _ | .queued _ _ | .running _ _ | .lockRelease | .release => True
  | _ => False

def isSubmitted : Position → Bool
  | .queued _ _ | .running _ _ => true
  | _ => false

/-- A thread that will take a permit or wake a sleeper before it unlocks, if it
finds a permit. -/
def carries : Position → Bool
  | .check _ | .expired _ | .take _ | .notify => true
  | _ => false

end Position

def carried (lock : Option Nat) (thread : Nat → Position) : Nat :=
  match lock with
  | some t => if (thread t).carries then 1 else 0
  | none => 0

/-- What holds in every configuration. -/
structure Sound (c : Config Shared Position) : Prop where
  permits : ∃ n, Counts Position.holdsPermit c.thread n ∧
    c.shared.available + n = assetProcessingPermits
  lock : ∀ t, c.shared.lock = some t ↔ (c.thread t).holdsLock = true
  asleep : ∀ t, (t ∈ c.shared.sleepers ∨ t ∈ c.shared.notified) ↔ (c.thread t).isAsleep = true
  apart : (c.shared.sleepers ++ c.shared.notified).Nodup
  -- no permit is free for a sleeper unless a notification for it is on its way
  hope : c.shared.sleepers ≠ [] →
    c.shared.available ≤ c.shared.notified.length + carried c.shared.lock c.thread

theorem sound_started : Sound started where
  permits := ⟨0, .none_at fun _ h => h, rfl⟩
  lock t := by simp [started, Position.holdsLock]
  asleep t := by simp [started, Position.isAsleep]
  apart := List.nodup_nil
  hope h := absurd rfl h

/-! ## The lock and the sleepers after a step of one thread -/

variable {c d : Config Shared Position} {t : Nat} {a : Action} {s' : Shared} {p p' : Position}

theorem Sound.lock_kept (hc : Sound c) (hlock : s'.lock = c.shared.lock)
    (hsame : p'.holdsLock = (c.thread t).holdsLock) (u : Nat) :
    s'.lock = some u ↔ (Function.update c.thread t p' u).holdsLock = true := by
  rw [hlock, hc.lock u]
  by_cases hu : u = t
  · subst hu
    rw [Function.update_self, hsame]
  · rw [Function.update_of_ne hu]

theorem Sound.lock_taken (hc : Sound c) (hfree : c.shared.lock = none) (hlock : s'.lock = some t)
    (hholds : p'.holdsLock = true) (u : Nat) :
    s'.lock = some u ↔ (Function.update c.thread t p' u).holdsLock = true := by
  rw [hlock]
  by_cases hu : u = t
  · subst hu
    simp [hholds]
  · rw [Function.update_of_ne hu, ← hc.lock u, hfree]
    simp [Ne.symm hu]

theorem Sound.lock_dropped (hc : Sound c) (hheld : (c.thread t).holdsLock = true)
    (hlock : s'.lock = none) (hholds : p'.holdsLock = false) (u : Nat) :
    s'.lock = some u ↔ (Function.update c.thread t p' u).holdsLock = true := by
  have hself := (hc.lock t).mpr hheld
  rw [hlock]
  by_cases hu : u = t
  · subst hu
    simp [hholds]
  · rw [Function.update_of_ne hu, ← hc.lock u, hself]
    simp [Ne.symm hu]

/-- A step that wakes nobody and after which the thread is as awake as before. -/
theorem Sound.asleep_kept (hc : Sound c) (hsleepers : s'.sleepers = c.shared.sleepers)
    (hnotified : s'.notified = c.shared.notified)
    (hsame : p'.isAsleep = (c.thread t).isAsleep) (u : Nat) :
    (u ∈ s'.sleepers ∨ u ∈ s'.notified) ↔ (Function.update c.thread t p' u).isAsleep = true := by
  rw [hsleepers, hnotified, hc.asleep u]
  by_cases hu : u = t
  · subst hu
    rw [Function.update_self, hsame]
  · rw [Function.update_of_ne hu]

/-- The thread of the step alone joins or leaves those in `wait_timeout`. -/
theorem Sound.asleep_moved (hc : Sound c)
    (hother : ∀ u, u ≠ t → ((u ∈ s'.sleepers ∨ u ∈ s'.notified) ↔
      (u ∈ c.shared.sleepers ∨ u ∈ c.shared.notified)))
    (hself : (t ∈ s'.sleepers ∨ t ∈ s'.notified) ↔ p'.isAsleep = true) (u : Nat) :
    (u ∈ s'.sleepers ∨ u ∈ s'.notified) ↔ (Function.update c.thread t p' u).isAsleep = true := by
  by_cases hu : u = t
  · subst hu
    rw [Function.update_self, hself]
  · rw [Function.update_of_ne hu, hother u hu, hc.asleep u]

theorem carried_kept {lock : Option Nat} {thread : Nat → Position} (hother : lock ≠ some t) :
    carried lock (Function.update thread t p') = carried lock thread := by
  cases lock with
  | none => rfl
  | some u =>
      have hu : u ≠ t := by
        rintro rfl
        exact hother rfl
      simp only [carried, Function.update_of_ne hu]

theorem carried_self (thread : Nat → Position) :
    carried (some t) (Function.update thread t p') = if p'.carries then 1 else 0 := by
  simp [carried]

theorem Sound.carried_holder (hc : Sound c) (hheld : (c.thread t).holdsLock = true) :
    carried c.shared.lock c.thread = if (c.thread t).carries then 1 else 0 := by
  simp [carried, (hc.lock t).mpr hheld]

theorem Sound.not_holder (hc : Sound c) (hheld : (c.thread t).holdsLock = false) :
    c.shared.lock ≠ some t := by
  intro hlock
  rw [hc.lock t, hheld] at hlock
  cases hlock

/-- A notification reaches a sleeper, if there is one. -/
theorem notifyOne_eq_some {s next : Shared} {chosen : Nat} (h : notifyOne s chosen = some next) :
    next.available = s.available ∧
      ((s.sleepers = [] ∧ next = s) ∨
        (chosen ∈ s.sleepers ∧ next.sleepers = s.sleepers.erase chosen ∧
          next.notified = chosen :: s.notified)) := by
  unfold notifyOne at h
  split at h
  · rename_i hnone
    cases h
    exact ⟨rfl, .inl ⟨hnone, rfl⟩⟩
  · split at h
    · rename_i hmem
      cases h
      exact ⟨rfl, .inr ⟨hmem, rfl, rfl⟩⟩
    · cases h

/-! ## Steps -/

/-- A step of a thread that neither holds the lock nor takes it. -/
theorem Sound.local_step (hc : Sound c) (hthread : c.thread t = p) (hheld : p.holdsLock = false)
    (hholds : p'.holdsLock = false) (hasleep : p'.isAsleep = p.isAsleep)
    (hpermit : p'.holdsPermit ↔ p.holdsPermit) :
    Sound ⟨c.shared, Function.update c.thread t p'⟩ := by
  subst hthread
  obtain ⟨n, hcount, htotal⟩ := hc.permits
  refine ⟨⟨n, hcount.stay hpermit, htotal⟩, hc.lock_kept rfl (by rw [hheld, hholds]),
    hc.asleep_kept rfl rfl hasleep, hc.apart, fun hne => ?_⟩
  rw [carried_kept (hc.not_holder hheld)]
  exact hc.hope hne

theorem Sound.ticks (hc : Sound c) (now : Nat) : Sound ⟨{ c.shared with now := now }, c.thread⟩ :=
  ⟨hc.permits, hc.lock, hc.asleep, hc.apart, hc.hope⟩

/-- A thread that is not asleep takes the lock. -/
theorem Sound.locks (hc : Sound c) (hthread : c.thread t = p) (hfree : c.shared.lock = none)
    (hasleep : p.isAsleep = false) (hasleep' : p'.isAsleep = false)
    (hholds : p'.holdsLock = true) (hpermit : p'.holdsPermit ↔ p.holdsPermit) :
    Sound ⟨{ c.shared with lock := some t }, Function.update c.thread t p'⟩ := by
  subst hthread
  obtain ⟨n, hcount, htotal⟩ := hc.permits
  refine ⟨⟨n, hcount.stay hpermit, htotal⟩, hc.lock_taken hfree rfl hholds,
    hc.asleep_kept rfl rfl (by rw [hasleep, hasleep']), hc.apart, fun hne => ?_⟩
  have hhope := hc.hope hne
  rw [hfree] at hhope
  exact hhope.trans (Nat.le_add_right _ _)

theorem Sound.resumes (hc : Sound c) {deadline : Nat} (hfree : c.shared.lock = none)
    (hthread : c.thread t = .asleep deadline) (hnotified : t ∈ c.shared.notified) :
    Sound ⟨{ c.shared with notified := c.shared.notified.erase t, lock := some t },
      Function.update c.thread t (.check deadline)⟩ := by
  obtain ⟨n, hcount, htotal⟩ := hc.permits
  have hapart := List.nodup_append.mp hc.apart
  have hnot : t ∉ c.shared.sleepers := fun ht => hapart.2.2 t ht t hnotified rfl
  refine ⟨⟨n, hcount.stay (by simp [hthread, Position.holdsPermit]), htotal⟩,
    hc.lock_taken hfree rfl rfl, hc.asleep_moved ?_ ?_, ?_, fun hne => ?_⟩
  · intro u hu
    rw [List.mem_erase_of_ne hu]
  · simp [hnot, hapart.2.1.not_mem_erase, Position.isAsleep]
  · exact hc.apart.sublist (List.erase_sublist.append_left _)
  · have hhope := hc.hope hne
    have hlength := List.length_erase_of_mem hnotified
    have hpos := List.length_pos_of_mem hnotified
    rw [hfree] at hhope
    dsimp only [carried] at hhope ⊢
    simp only [Function.update_self, Position.carries, if_true]
    omega

theorem Sound.wakes (hc : Sound c) {deadline : Nat} (hthread : c.thread t = .asleep deadline)
    (hnotified : t ∉ c.shared.notified) :
    Sound ⟨{ c.shared with sleepers := c.shared.sleepers.erase t },
      Function.update c.thread t (.relock deadline)⟩ := by
  obtain ⟨n, hcount, htotal⟩ := hc.permits
  have hnodup := (List.nodup_append.mp hc.apart).1
  have hheld : (c.thread t).holdsLock = false := by rw [hthread]; rfl
  refine ⟨⟨n, hcount.stay (by simp [hthread, Position.holdsPermit]), htotal⟩,
    hc.lock_kept rfl (by rw [hheld]; rfl), hc.asleep_moved ?_ ?_, ?_, fun hne => ?_⟩
  · intro u hu
    rw [List.mem_erase_of_ne hu]
  · simp [hnotified, hnodup.not_mem_erase, Position.isAsleep]
  · exact hc.apart.sublist (List.erase_sublist.append_right _)
  · dsimp only
    rw [carried_kept (hc.not_holder hheld)]
    refine hc.hope fun hnone => hne ?_
    simp [hnone]

/-- The holder of the lock goes on to another section under it. -/
theorem Sound.keeps_lock (hc : Sound c) (hthread : c.thread t = p) (hheld : p.holdsLock = true)
    (hholds : p'.holdsLock = true) (hcarries : p'.carries = p.carries)
    (hasleep : p'.isAsleep = p.isAsleep) (hpermit : p'.holdsPermit ↔ p.holdsPermit) :
    Sound ⟨c.shared, Function.update c.thread t p'⟩ := by
  subst hthread
  obtain ⟨n, hcount, htotal⟩ := hc.permits
  refine ⟨⟨n, hcount.stay hpermit, htotal⟩, hc.lock_kept rfl (by rw [hheld, hholds]),
    hc.asleep_kept rfl rfl hasleep, hc.apart, fun hne => ?_⟩
  have hhope := hc.hope hne
  rw [hc.carried_holder hheld, ← hcarries] at hhope
  rw [(hc.lock t).mpr hheld, carried_self]
  exact hhope

theorem mem_erase_or_mem_cons {sleepers notified : List Nat} {chosen u : Nat}
    (hmem : chosen ∈ sleepers) :
    (u ∈ sleepers.erase chosen ∨ u ∈ chosen :: notified) ↔ (u ∈ sleepers ∨ u ∈ notified) := by
  rw [(List.perm_cons_erase hmem).mem_iff, List.mem_cons, List.mem_cons, or_left_comm, or_assoc]

/-- A thread that carries a notification hands it on and unlocks. -/
theorem Sound.passes_on (hc : Sound c) {chosen : Nat} {next : Shared}
    (hthread : c.thread t = p) (hheld : p.holdsLock = true) (hcarries : p.carries = true)
    (hasleep : p.isAsleep = false) (hpermit : ¬ p.holdsPermit)
    (h : notifyOne c.shared chosen = some next) :
    Sound ⟨{ next with lock := none }, Function.update c.thread t .idle⟩ := by
  subst hthread
  obtain ⟨n, hcount, htotal⟩ := hc.permits
  have hcarried := hc.carried_holder hheld
  rw [hcarries, if_pos rfl] at hcarried
  have hidle : Position.idle.holdsPermit ↔ (c.thread t).holdsPermit :=
    iff_of_false id hpermit
  obtain ⟨havailable, ⟨hnone, rfl⟩ | ⟨hmem, hsleepers, hnotified⟩⟩ := notifyOne_eq_some h
  · exact ⟨⟨n, hcount.stay hidle, htotal⟩, hc.lock_dropped hheld rfl rfl,
      hc.asleep_kept rfl rfl hasleep.symm, hc.apart, fun hne => absurd hnone hne⟩
  · have hperm : (chosen :: (c.shared.sleepers.erase chosen ++ c.shared.notified)).Perm
        (c.shared.sleepers ++ c.shared.notified) :=
      ((List.perm_cons_erase hmem).symm.append_right _)
    have hmembers : ∀ u, (u ∈ next.sleepers ∨ u ∈ next.notified) ↔
        (u ∈ c.shared.sleepers ∨ u ∈ c.shared.notified) := by
      intro u
      rw [hsleepers, hnotified]
      exact mem_erase_or_mem_cons hmem
    refine ⟨⟨n, hcount.stay hidle, ?_⟩, hc.lock_dropped hheld rfl rfl,
      hc.asleep_moved (fun u _ => hmembers u) ?_, ?_, fun _ => ?_⟩
    · rw [← htotal, ← havailable]
    · rw [hmembers t, hc.asleep t, hasleep]
      rfl
    · dsimp only
      rw [hsleepers, hnotified]
      exact List.nodup_middle.mpr (hperm.nodup_iff.mpr hc.apart)
    · have hhope := hc.hope (List.ne_nil_of_mem hmem)
      dsimp only [carried]
      rw [hcarried] at hhope
      rw [havailable, hnotified, List.length_cons]
      exact hhope

theorem Sound.takes (hc : Sound c) {deadline : Nat} (hthread : c.thread t = .take deadline)
    (hfree : 0 < c.shared.available) :
    Sound ⟨{ c.shared with available := c.shared.available - 1, lock := none },
      Function.update c.thread t (.admitted deadline)⟩ := by
  obtain ⟨n, hcount, htotal⟩ := hc.permits
  have hheld : (c.thread t).holdsLock = true := by rw [hthread]; rfl
  have hout : ¬ (c.thread t).holdsPermit := by simp [hthread, Position.holdsPermit]
  refine ⟨⟨n + 1, hcount.enter hout trivial, ?_⟩, hc.lock_dropped hheld rfl rfl,
    hc.asleep_kept rfl rfl (by rw [hthread]; rfl), hc.apart, fun hne => ?_⟩
  · dsimp only
    omega
  · have hhope := hc.hope hne
    rw [hc.carried_holder hheld, hthread] at hhope
    simp only [Position.carries, if_true] at hhope
    dsimp only [carried]
    omega

theorem Sound.sleeps (hc : Sound c) {deadline : Nat} (hthread : c.thread t = .take deadline)
    (hnone : c.shared.available = 0) :
    Sound ⟨{ c.shared with sleepers := t :: c.shared.sleepers, lock := none },
      Function.update c.thread t (.asleep deadline)⟩ := by
  obtain ⟨n, hcount, htotal⟩ := hc.permits
  have hheld : (c.thread t).holdsLock = true := by rw [hthread]; rfl
  have hawake : ¬ (t ∈ c.shared.sleepers ∨ t ∈ c.shared.notified) := by
    rw [hc.asleep t, hthread]
    simp [Position.isAsleep]
  refine ⟨⟨n, hcount.stay (by simp [hthread, Position.holdsPermit]), htotal⟩,
    hc.lock_dropped hheld rfl rfl, hc.asleep_moved ?_ ?_, ?_, fun _ => ?_⟩
  · intro u hu
    simp [hu]
  · simp [Position.isAsleep]
  · rw [List.cons_append, List.nodup_cons, List.mem_append]
    exact ⟨hawake, hc.apart⟩
  · dsimp only
    omega

theorem Sound.releases (hc : Sound c) (hthread : c.thread t = .release) :
    Sound ⟨{ c.shared with available := c.shared.available + 1 },
      Function.update c.thread t .notify⟩ := by
  obtain ⟨n, hcount, htotal⟩ := hc.permits
  have hheld : (c.thread t).holdsLock = true := by rw [hthread]; rfl
  have hin : (c.thread t).holdsPermit := by simp [hthread, Position.holdsPermit]
  have hnot : ¬ Position.notify.holdsPermit := id
  obtain ⟨m, rfl, hleft⟩ := hcount.leave hin hnot
  refine ⟨⟨m, hleft, ?_⟩, hc.lock_kept rfl (by rw [hheld]; rfl),
    hc.asleep_kept rfl rfl (by rw [hthread]; rfl), hc.apart, fun hne => ?_⟩
  · dsimp only
    omega
  · have hhope := hc.hope hne
    rw [hc.carried_holder hheld, hthread] at hhope
    simp only [Position.carries, Bool.false_eq_true, if_false] at hhope
    dsimp only
    rw [(hc.lock t).mpr hheld, carried_self]
    simp only [Position.carries, if_true]
    omega

theorem Sound.expires (hc : Sound c) {deadline : Nat} (hthread : c.thread t = .expired deadline)
    (hnone : c.shared.available = 0) :
    Sound ⟨{ c.shared with lock := none }, Function.update c.thread t .idle⟩ := by
  obtain ⟨n, hcount, htotal⟩ := hc.permits
  have hheld : (c.thread t).holdsLock = true := by rw [hthread]; rfl
  refine ⟨⟨n, hcount.stay (by simp [hthread, Position.holdsPermit]), htotal⟩,
    hc.lock_dropped hheld rfl rfl, hc.asleep_kept rfl rfl (by rw [hthread]; rfl), hc.apart,
    fun _ => ?_⟩
  dsimp only
  omega

theorem sound_step (hc : Sound c) (h : c.step program t a = some d) : Sound d := by
  obtain ⟨shared, position, hprog, rfl⟩ := Config.step_eq_some h
  cases hthread : c.thread t with
  | idle =>
      simp only [hthread, program] at hprog
      split at hprog
      · cases hprog
        have hticked := hc.ticks (c.shared.now + a.millis)
        rwa [← Function.update_eq_self t c.thread, hthread] at hticked
      · cases hprog
        exact hc.local_step hthread rfl rfl rfl .rfl
  | lockAcquire deadline | relock deadline =>
      simp only [hthread, program] at hprog
      split at hprog
      · rename_i hfree
        cases hprog
        exact hc.locks hthread hfree rfl rfl rfl .rfl
      · cases hprog
  | check deadline =>
      simp only [hthread, program] at hprog
      split at hprog <;>
      · cases hprog
        exact hc.keeps_lock hthread rfl rfl rfl rfl .rfl
  | expired deadline =>
      simp only [hthread, program] at hprog
      obtain ⟨next, hnotify, heq⟩ := Option.map_eq_some_iff.mp hprog
      cases heq
      split at hnotify
      · exact hc.passes_on hthread rfl rfl rfl id hnotify
      · cases hnotify
        exact hc.expires hthread (by omega)
  | take deadline =>
      simp only [hthread, program] at hprog
      split at hprog
      · rename_i hfree
        cases hprog
        exact hc.takes hthread hfree
      · rename_i hnone
        cases hprog
        exact hc.sleeps hthread (by omega)
  | asleep deadline =>
      simp only [hthread, program] at hprog
      split at hprog
      · rename_i hnotified
        split at hprog
        · rename_i hfree
          cases hprog
          exact hc.resumes hfree hthread hnotified
        · cases hprog
      · rename_i hnotified
        split at hprog
        · cases hprog
          exact hc.wakes hthread hnotified
        · cases hprog
  | admitted deadline =>
      simp only [hthread, program] at hprog
      split at hprog <;>
      · cases hprog
        exact hc.local_step hthread rfl rfl rfl .rfl
  | queued deadline waits | running deadline waits =>
      simp only [hthread, program] at hprog
      split at hprog
      · split at hprog
        · cases hprog
          exact hc.local_step hthread rfl rfl rfl .rfl
        · cases hprog
      · cases hprog
        exact hc.local_step hthread rfl rfl rfl .rfl
  | lockRelease =>
      simp only [hthread, program] at hprog
      split at hprog
      · rename_i hfree
        cases hprog
        exact hc.locks hthread hfree rfl rfl rfl .rfl
      · cases hprog
  | release =>
      simp only [hthread, program] at hprog
      cases hprog
      exact hc.releases hthread
  | notify =>
      simp only [hthread, program] at hprog
      obtain ⟨next, hnotify, heq⟩ := Option.map_eq_some_iff.mp hprog
      cases heq
      exact hc.passes_on hthread rfl rfl rfl id hnotify

theorem sound_of_runs {acts : List (Nat × Action)}
    (h : Runs program (fun _ _ _ => True) started acts c) : Sound c :=
  h.invariant (fun _ _ _ _ _ hstep hsound => sound_step hsound hstep) sound_started

/-! ## Admission -/

/-- Every step but the next one of thread `t`: its caller may give up. -/
def BeforeReturn (t : Nat) (_ : Config Shared Position) (u : Nat) (a : Action) : Prop :=
  u = t → a.event = .giveUp

instance (t : Nat) (c : Config Shared Position) (u : Nat) (a : Action) :
    Decidable (BeforeReturn t c u a) :=
  inferInstanceAs (Decidable (_ → _))

theorem submitted_step {u : Nat} (hguard : BeforeReturn t c u a)
    (h : c.step program u a = some d) (ht : (c.thread t).isSubmitted = true) :
    (d.thread t).isSubmitted = true := by
  by_cases hu : u = t
  · subst hu
    obtain ⟨shared, position, hprog, rfl⟩ := Config.step_eq_some h
    have hevent := hguard rfl
    simp only [Function.update_self]
    cases hthread : c.thread u with
    | queued deadline waits | running deadline waits =>
        simp only [hthread, program, hevent] at hprog
        split at hprog
        · cases hprog
          rfl
        · cases hprog
    | _ => simp [hthread, Position.isSubmitted] at ht
  · rw [Config.thread_of_step_ne h (Ne.symm hu)]
    exact ht

/-- Every interleaving of callers, jobs, notifications, timeouts and spurious
wakes: no permit is lost, a job keeps its permit until its closure returns even
when its caller has given up, and no permit is free while a caller sleeps unless
a notification for it is on its way. -/
theorem asset_admission {acts : List (Nat × Action)}
    (h : Runs program (fun _ _ _ => True) started acts c) :
    (∃ n, Counts Position.holdsPermit c.thread n ∧
      c.shared.available + n = assetProcessingPermits) ∧
    (∀ t more d, (c.thread t).isSubmitted = true → Runs program (BeforeReturn t) c more d →
      (d.thread t).holdsPermit) ∧
    (∀ t, 0 < c.shared.available → t ∈ c.shared.sleepers →
      ∃ u, u ∈ c.shared.notified ∨ (c.thread u).carries = true) := by
  have hc := sound_of_runs h
  refine ⟨hc.permits, ?_, ?_⟩
  · intro t more d ht hmore
    have hlast : (d.thread t).isSubmitted = true :=
      hmore.invariant (fun _ _ _ _ hguard hstep => submitted_step hguard hstep) ht
    generalize d.thread t = p at hlast
    cases p with
    | queued | running => trivial
    | _ => cases hlast
  · intro t hfree hsleeps
    have hhope := hc.hope (List.ne_nil_of_mem hsleeps)
    by_cases hnotified : c.shared.notified = []
    · simp only [hnotified, List.length_nil, carried] at hhope
      split at hhope
      · rename_i u _
        by_cases hcarries : (c.thread u).carries = true
        · exact ⟨u, .inr hcarries⟩
        · rw [if_neg hcarries] at hhope
          omega
      · omega
    · obtain ⟨u, hu⟩ := List.exists_mem_of_ne_nil _ hnotified
      exact ⟨u, .inl hu⟩

/-- Threads 0 and 1 have the permits, thread 2 sleeps; thread 0 returns and
notifies thread 2, which has yet to run. -/
theorem asset_admission_notified :
    ∃ c : Config Shared Position, c.thread 2 = .asleep 9 ∧ c.shared.available = 1 ∧
      c.shared.notified = [2] ∧ ∃ n, Counts Position.holdsPermit c.thread n ∧
        c.shared.available + n = assetProcessingPermits := by
  have hrun : ((started.run program (fun _ _ _ => True)
      [(0, { millis := 9 }), (0, {}), (0, {}), (0, {}), (1, { millis := 9 }), (1, {}), (1, {}),
        (1, {}), (2, { millis := 9 }), (2, {}), (2, {}), (2, {}), (0, {}), (0, {}),
        (0, {}), (0, {}),
        (0, {}), (0, { chosen := 2 })]).any fun c =>
      decide (c.thread 2 = .asleep 9 ∧ c.shared.available = 1 ∧ c.shared.notified = [2])) =
        true := by
    decide
  obtain ⟨c, hc, htest⟩ := Runs.of_run_any hrun
  obtain ⟨hthread, havailable, hnotified⟩ := of_decide_eq_true htest
  exact ⟨c, hthread, havailable, hnotified, (asset_admission hc).1⟩

end ImportLens.Pipeline.AssetBoundary
