import ImportLens.Support.Interleaving
import ImportLens.Support.Windows

/-!
# The registry rate limit

One limiter serves every worker that fetches from the registry.  A call reserves a
slot under the lock and sleeps outside it, so the slots of a full window are
followed by slots of windows that have not opened yet.  Two budgets share the
windows and their count, and a `429` installs a floor for all later calls.

Instants and durations are in nanoseconds.
-/

namespace ImportLens.Registry.RateLimit

open ImportLens.Support

def fromMillis (millis : Nat) : Nat := millis * 1000000

def registryRateLimitRequests : Nat := 20

def registryManualRateLimitRequests : Nat := 5

def registryRateLimitWindowMs : Nat := 1000

def registryMaxBackoffMs : Nat := 5 * 60 * 1000

def window : Nat := fromMillis registryRateLimitWindowMs

structure RegistryRateLimiter where
  windowOpensAt : Nat
  requestCount : Nat
  /-- No reservation proceeds before this instant. -/
  backoffUntil : Nat
  deriving DecidableEq, Repr

/-- The limiter after a call is counted, and how long until its window is open. -/
structure Entered where
  windowWait : Nat
  limiter : RegistryRateLimiter
  deriving DecidableEq, Repr

namespace RegistryRateLimiter

def new (now : Nat) : RegistryRateLimiter := ⟨now, 0, now⟩

def applyRetryAfter (limiter : RegistryRateLimiter) (now delay : Nat) : RegistryRateLimiter :=
  let floor := now + min delay (fromMillis registryMaxBackoffMs)
  if limiter.backoffUntil < floor then { limiter with backoffUntil := floor } else limiter

def enterWindow (limiter : RegistryRateLimiter) (now requestLimit : Nat) : Entered :=
  if limiter.windowOpensAt + window ≤ now then
    -- the window reserved last has elapsed
    ⟨0, { limiter with windowOpensAt := now, requestCount := 1 }⟩
  else if limiter.requestCount < requestLimit then
    ⟨limiter.windowOpensAt - now, { limiter with requestCount := limiter.requestCount + 1 }⟩
  else
    -- full for this budget, though perhaps not for the other one
    ⟨limiter.windowOpensAt + window - now,
      { limiter with windowOpensAt := limiter.windowOpensAt + window, requestCount := 1 }⟩

def reserveSlot (limiter : RegistryRateLimiter) (now requestLimit : Nat) :
    Option Nat × RegistryRateLimiter :=
  let entered := limiter.enterWindow now requestLimit
  let wait := max entered.windowWait (limiter.backoffUntil - now)
  (if wait = 0 then none else some wait, entered.limiter)

/-- The end of the window in which a call at `now` is counted. -/
def windowEnd (limiter : RegistryRateLimiter) (now requestLimit : Nat) : Nat :=
  if limiter.windowOpensAt + window ≤ now then now + window
  else if limiter.requestCount < requestLimit then limiter.windowOpensAt + window
  else limiter.windowOpensAt + window + window

variable {limiter : RegistryRateLimiter} {now requestLimit : Nat}

theorem backoffUntil_enterWindow :
    (limiter.enterWindow now requestLimit).limiter.backoffUntil = limiter.backoffUntil := by
  unfold enterWindow
  split
  · rfl
  · split <;> rfl

theorem backoffUntil_applyRetryAfter (delay : Nat) :
    (limiter.applyRetryAfter now delay).backoffUntil =
      max limiter.backoffUntil (now + min delay (fromMillis registryMaxBackoffMs)) := by
  unfold applyRetryAfter
  generalize now + min delay (fromMillis registryMaxBackoffMs) = floor
  dsimp only
  split
  · rename_i hlater
    exact (Nat.max_eq_right (Nat.le_of_lt hlater)).symm
  · rename_i hearlier
    exact (Nat.max_eq_left (Nat.le_of_not_lt hearlier)).symm

theorem limiter_reserveSlot :
    (limiter.reserveSlot now requestLimit).2 = (limiter.enterWindow now requestLimit).limiter := by
  unfold reserveSlot
  cases limiter.enterWindow now requestLimit with
  | mk windowWait entered => rfl

theorem windowWait_enterWindow :
    (limiter.enterWindow now requestLimit).windowWait =
      (limiter.enterWindow now requestLimit).limiter.windowOpensAt - now := by
  unfold enterWindow
  split
  · exact (Nat.sub_self now).symm
  · split <;> rfl

theorem release_reserveSlot :
    now + (limiter.reserveSlot now requestLimit).1.getD 0 =
      max (max now (limiter.enterWindow now requestLimit).limiter.windowOpensAt)
        limiter.backoffUntil := by
  have hwait : (limiter.reserveSlot now requestLimit).1.getD 0 =
      max (limiter.enterWindow now requestLimit).windowWait (limiter.backoffUntil - now) := by
    unfold reserveSlot
    cases limiter.enterWindow now requestLimit with
    | mk windowWait entered =>
        dsimp only
        split
        · rename_i hzero
          exact hzero.symm
        · rfl
  rw [hwait, windowWait_enterWindow]
  omega

end RegistryRateLimiter

/-! ## The calls of all workers -/

/-- A reserved slot: its window, its release and the floor in force. -/
structure Slot where
  windowOpensAt : Nat
  releasedAt : Nat
  floor : Nat
  deriving DecidableEq, Repr

structure Shared where
  limiter : RegistryRateLimiter
  now : Nat
  /-- Newest first. -/
  slots : List Slot
  deriving DecidableEq, Repr

inductive Op
  | elapse (nanos : Nat)
  | waitForRateLimitSlot (manual : Bool)
  | applyGlobalBackoff (delay : Nat)
  deriving DecidableEq, Repr

def requestLimit (manual : Bool) : Nat :=
  if manual then registryManualRateLimitRequests else registryRateLimitRequests

def Shared.reserve (s : Shared) (result : Option Nat × RegistryRateLimiter) : Shared where
  limiter := result.2
  now := s.now
  slots := ⟨result.2.windowOpensAt, s.now + result.1.getD 0, s.limiter.backoffUntil⟩ :: s.slots

theorem Shared.limiter_reserve (s : Shared) (result : Option Nat × RegistryRateLimiter) :
    (s.reserve result).limiter = result.2 := rfl

def Shared.call (s : Shared) : Op → Shared
  | .elapse nanos => { s with now := s.now + nanos }
  | .waitForRateLimitSlot manual => s.reserve (s.limiter.reserveSlot s.now (requestLimit manual))
  | .applyGlobalBackoff delay => { s with limiter := s.limiter.applyRetryAfter s.now delay }

def program : Program Shared Unit Op := fun _ op s _ => some (s.call op, ())

def started (now : Nat) : Config Shared Unit where
  shared := { limiter := .new now, now := now, slots := [] }
  thread _ := ()

def releasedIn (slots : List Slot) (start : Nat) : Nat :=
  slots.countP fun slot => start ≤ slot.releasedAt ∧ slot.releasedAt ≤ start + window

def withinWindow (c : Config Shared Unit) : Op → Bool
  | .waitForRateLimitSlot manual =>
      decide (c.shared.limiter.backoffUntil <
        c.shared.limiter.windowEnd c.shared.now (requestLimit manual))
  | _ => true

variable {c d e : Config Shared Unit} {t : Nat} {op : Op}

theorem shared_of_step (h : c.step program t op = some d) : d.shared = c.shared.call op := by
  obtain ⟨shared, position, hprog, rfl⟩ := Config.step_eq_some h
  unfold program at hprog
  simp only [Option.some.injEq, Prod.mk.injEq] at hprog
  exact hprog.1.symm

/-! ## The floor -/

theorem floor_le_of_call (s : Shared) (op : Op) :
    s.limiter.backoffUntil ≤ (s.call op).limiter.backoffUntil := by
  cases op with
  | elapse nanos => exact Nat.le_refl _
  | waitForRateLimitSlot manual =>
      rw [Shared.call, Shared.limiter_reserve, RegistryRateLimiter.limiter_reserveSlot,
        RegistryRateLimiter.backoffUntil_enterWindow]
  | applyGlobalBackoff delay =>
      rw [Shared.call, RegistryRateLimiter.backoffUntil_applyRetryAfter]
      exact Nat.le_max_left _ _

section

variable {guard : Config Shared Unit → Nat → Op → Prop} {acts : List (Nat × Op)}

theorem floor_le_of_runs (h : Runs program guard c acts d) :
    c.shared.limiter.backoffUntil ≤ d.shared.limiter.backoffUntil := by
  refine h.invariant
    (I := fun e => c.shared.limiter.backoffUntil ≤ e.shared.limiter.backoffUntil) ?_ (Nat.le_refl _)
  intro e f t op _ hstep hle
  rw [shared_of_step hstep]
  exact hle.trans (floor_le_of_call e.shared op)

theorem floor_le_releasedAt {now : Nat} (h : Runs program guard (started now) acts d) :
    ∀ slot ∈ d.shared.slots, slot.floor ≤ slot.releasedAt := by
  refine h.invariant (I := fun e => ∀ slot ∈ e.shared.slots, slot.floor ≤ slot.releasedAt) ?_
    (by simp [started])
  intro e f t op _ hstep hall
  rw [shared_of_step hstep]
  cases op with
  | elapse nanos => exact hall
  | waitForRateLimitSlot manual =>
      intro slot hslot
      rcases List.mem_cons.mp hslot with heq | hmem
      · rw [heq]
        simp only
        rw [RegistryRateLimiter.release_reserveSlot]
        exact Nat.le_max_right _ _
      · exact hall slot hmem
  | applyGlobalBackoff delay => exact hall

end

/-! ## The windows -/

theorem requestLimit_le (manual : Bool) : requestLimit manual ≤ registryRateLimitRequests := by
  cases manual <;> decide

theorem window_pos : 0 < window := by decide

/-- The slots are counted in windows. -/
structure Counted (s : Shared) : Prop where
  count : s.limiter.requestCount ≤ registryRateLimitRequests
  windowed : Windowed window registryRateLimitRequests Slot.windowOpensAt Slot.releasedAt
    s.limiter.windowOpensAt s.limiter.requestCount s.slots

theorem Counted.reserve {s : Shared} (h : Counted s) (manual : Bool)
    (hfloor : s.limiter.backoffUntil < s.limiter.windowEnd s.now (requestLimit manual)) :
    Counted (s.reserve (s.limiter.reserveSlot s.now (requestLimit manual))) := by
  have hpos := window_pos
  have hone : 1 ≤ registryRateLimitRequests := by decide
  have hrelease : s.now + (s.limiter.reserveSlot s.now (requestLimit manual)).1.getD 0 =
      max (max s.now (s.limiter.enterWindow s.now (requestLimit manual)).limiter.windowOpensAt)
        s.limiter.backoffUntil := RegistryRateLimiter.release_reserveSlot
  have hlimit := requestLimit_le manual
  unfold RegistryRateLimiter.windowEnd at hfloor
  unfold Shared.reserve
  rw [RegistryRateLimiter.limiter_reserveSlot]
  unfold RegistryRateLimiter.enterWindow at hrelease ⊢
  split at hfloor
  · rename_i helapsed
    rw [if_pos helapsed] at hrelease ⊢
    simp only at hrelease
    exact ⟨hone, h.windowed.open_later hpos hone helapsed rfl (by simp only; omega)⟩
  · rename_i hreserved
    rw [if_neg hreserved] at hrelease ⊢
    split at hfloor
    · rename_i hroom
      rw [if_pos hroom] at hrelease ⊢
      simp only at hrelease
      exact ⟨by simp only; omega, h.windowed.join (by omega) rfl (by simp only; omega)⟩
    · rename_i hfull
      rw [if_neg hfull] at hrelease ⊢
      simp only at hrelease
      exact ⟨hone,
        h.windowed.open_later hpos hone (Nat.le_refl _) rfl (by simp only; omega)⟩

theorem Counted.call {s : Shared} (h : Counted s) (op : Op)
    (hguard : ∀ manual, op = .waitForRateLimitSlot manual →
      s.limiter.backoffUntil < s.limiter.windowEnd s.now (requestLimit manual)) :
    Counted (s.call op) := by
  cases op with
  | elapse nanos => exact ⟨h.count, h.windowed⟩
  | waitForRateLimitSlot manual => exact h.reserve manual (hguard manual rfl)
  | applyGlobalBackoff delay =>
      unfold Shared.call RegistryRateLimiter.applyRetryAfter
      dsimp only
      split <;> exact ⟨h.count, h.windowed⟩

/-- Where no floor reaches past the window of a call, an interval as long as a
window holds the releases of two windows at most. -/
theorem releases_bounded {now : Nat} {acts : List (Nat × Op)}
    (h : Runs program (fun c _ op => withinWindow c op = true) (started now) acts d) :
    (∀ start, releasedIn d.shared.slots start ≤ 2 * registryRateLimitRequests) ∧
    (∀ slot ∈ d.shared.slots, slot.floor ≤ slot.releasedAt) ∧
    ∀ more e, Runs program (fun c _ op => withinWindow c op = true) d more e →
      d.shared.limiter.backoffUntil ≤ e.shared.limiter.backoffUntil := by
  refine ⟨fun start => ?_, floor_le_releasedAt h, fun more e hmore => floor_le_of_runs hmore⟩
  have hcounted : Counted d.shared := by
    refine h.invariant (I := fun e => Counted e.shared) ?_ ⟨Nat.zero_le _, .nil⟩
    intro e f t op hguard hstep hcounted
    rw [shared_of_step hstep]
    refine hcounted.call op fun manual hop => ?_
    rw [hop] at hguard
    exact of_decide_eq_true hguard
  exact hcounted.windowed.countP_interval_le start

/-- Both budgets share the windows, and a floor of half a second lies within the
first of them. -/
theorem releases_bounded_shared :
    ∃ d : Config Shared Unit,
      d.shared.slots.length = 24 ∧ releasedIn d.shared.slots (fromMillis 500) ≤ 40 := by
  have hrun : (((started 0).run program (fun c _ op => withinWindow c op = true)
      ((0, .applyGlobalBackoff (fromMillis 500)) ::
        List.replicate 20 (1, .waitForRateLimitSlot false) ++
        [(2, .waitForRateLimitSlot true), (0, .elapse (fromMillis 2100)),
          (1, .waitForRateLimitSlot false), (2, .waitForRateLimitSlot true),
          (1, .waitForRateLimitSlot true)])).any
      fun c => decide (c.shared.slots.length = 24)) = true := by
    decide
  obtain ⟨d, hd, htest⟩ := Runs.of_run_any hrun
  exact ⟨d, of_decide_eq_true htest, (releases_bounded hd).1 (fromMillis 500)⟩

/-- Three windows are reserved before the floor of one `429`, and all of their
calls are released at it. -/
theorem floor_releases_burst :
    ¬ ∀ (now : Nat) (acts : List (Nat × Op)) (d : Config Shared Unit),
      Runs program (fun _ _ _ => True) (started now) acts d →
        ∀ start, releasedIn d.shared.slots start ≤ 2 * registryRateLimitRequests := by
  intro hbounded
  have hrun : (((started 0).run program (fun _ _ _ => True)
      ((0, .applyGlobalBackoff (fromMillis 3000)) ::
        List.replicate 41 (1, .waitForRateLimitSlot false))).any
      fun c => decide (releasedIn c.shared.slots (fromMillis 3000) = 41)) = true := by
    decide +kernel
  obtain ⟨d, hd, htest⟩ := Runs.of_run_any hrun
  have hbound := hbounded 0 _ d hd (fromMillis 3000)
  rw [of_decide_eq_true htest] at hbound
  exact absurd hbound (by decide)

end ImportLens.Registry.RateLimit
