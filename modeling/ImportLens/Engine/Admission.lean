import ImportLens.Support.Interleaving
import ImportLens.Support.Semaphore

/-!
# Engine admission

At most `enginePermits` builds run at once.  A background build holds a permit
of a second, smaller semaphore while it queues for an engine permit and while it
runs; an interactive build takes the engine permit only.  A build ends by value,
by a panic or by its timeout, and its guards are then dropped in the reverse
order of their acquisition.
-/

namespace ImportLens.Engine.Admission

open ImportLens.Support ImportLens.Support.Semaphore

def enginePermits : Nat := 2

/-- The width of `BACKGROUND_PERMITS`. -/
def backgroundPermits : Nat := enginePermits - 1

structure Shared where
  engine : Semaphore
  background : Semaphore

/-- How the work inside `with_permit` ends. -/
inductive Ending
  | value
  | panicked
  | timedOut
  deriving DecidableEq

/-- Where a thread is in `with_permit`. -/
inductive Position
  | idle
  | acquireBackground
  | waitBackground
  | acquireEngine (background : Bool)
  | waitEngine (background : Bool)
  | inFlight (background : Bool)
  -- the guards are dropped: `_permit`, then `_background`
  | releaseEngine (background : Bool) (ending : Ending)
  | releaseBackground (ending : Ending)
  | returned (ending : Ending)
  deriving DecidableEq

structure Action where
  /-- Whether the next build is a background one. -/
  background : Bool := false
  ending : Ending := .value

def program : Program Shared Position Action := fun t a s position =>
  match position with
  | .idle => some (s, if a.background then .acquireBackground else .acquireEngine false)
  | .acquireBackground =>
      some ({ s with background := s.background.acquire t }, .waitBackground)
  | .waitBackground => if t ∈ s.background.holders then some (s, .acquireEngine true) else none
  | .acquireEngine background =>
      some ({ s with engine := s.engine.acquire t }, .waitEngine background)
  | .waitEngine background =>
      if t ∈ s.engine.holders then some (s, .inFlight background) else none
  | .inFlight background => some (s, .releaseEngine background a.ending)
  | .releaseEngine background ending =>
      some ({ s with engine := s.engine.release t },
        if background then .releaseBackground ending else .returned ending)
  | .releaseBackground ending =>
      some ({ s with background := s.background.release t }, .returned ending)
  | .returned _ => some (s, .idle)

def started : Config Shared Position where
  shared := { engine := .new enginePermits, background := .new backgroundPermits }
  thread _ := .idle

/-! ## Stages -/

namespace Position

def engineStage : Position → Stage
  | .waitEngine _ => .waiting
  | .inFlight _ | .releaseEngine _ _ => .holding
  | _ => .outside

def backgroundStage : Position → Stage
  | .waitBackground => .waiting
  | .acquireEngine true | .waitEngine true | .inFlight true | .releaseEngine true _
  | .releaseBackground _ => .holding
  | _ => .outside

def inProgress : Position → Bool
  | .idle | .returned _ => false
  | _ => true

def isInFlight : Position → Bool
  | .inFlight _ => true
  | _ => false

def isBackground : Position → Bool
  | .acquireBackground | .waitBackground | .acquireEngine true | .waitEngine true
  | .inFlight true | .releaseEngine true _ | .releaseBackground _ => true
  | _ => false

theorem backgroundStage_eq {p : Position} (hengine : p.engineStage ≠ .outside)
    (hbackground : p.isBackground = true) : p.backgroundStage = .holding := by
  cases p with
  | waitEngine background | inFlight background | releaseEngine background _ =>
      cases background with
      | true => rfl
      | false => cases hbackground
  | _ => exact absurd rfl hengine

end Position

/-- What holds in every configuration. -/
structure Sound (c : Config Shared Position) : Prop where
  engine : Fair enginePermits c.shared.engine
  background : Fair backgroundPermits c.shared.background
  atEngine : ∀ t, c.shared.engine.Fits t (c.thread t).engineStage
  atBackground : ∀ t, c.shared.background.Fits t (c.thread t).backgroundStage

theorem sound_started : Sound started where
  engine := fair_new _
  background := fair_new _
  atEngine t := fits_new _ t
  atBackground t := fits_new _ t

variable {c d : Config Shared Position} {t : Nat} {a : Action}

/-- What the two semaphores know of every thread after a step of one of them. -/
theorem Sound.update {shared : Shared} {position : Position}
    (hengine : Fair enginePermits shared.engine)
    (hbackground : Fair backgroundPermits shared.background)
    (hother : ∀ u, u ≠ t → shared.engine.Fits u (c.thread u).engineStage ∧
      shared.background.Fits u (c.thread u).backgroundStage)
    (hself : shared.engine.Fits t position.engineStage ∧
      shared.background.Fits t position.backgroundStage) :
    Sound ⟨shared, Function.update c.thread t position⟩ := by
  refine ⟨hengine, hbackground, fun u => ?_, fun u => ?_⟩ <;>
  · by_cases hu : u = t
    · subst hu
      simp [hself]
    · simp [Function.update_of_ne hu, hother u hu]

theorem sound_step (hc : Sound c) (h : c.step program t a = some d) : Sound d := by
  obtain ⟨shared, position, hprog, rfl⟩ := Config.step_eq_some h
  have hengine := hc.atEngine t
  have hbackground := hc.atBackground t
  have hsame : ∀ u, u ≠ t → c.shared.engine.Fits u (c.thread u).engineStage ∧
      c.shared.background.Fits u (c.thread u).backgroundStage :=
    fun u _ => ⟨hc.atEngine u, hc.atBackground u⟩
  cases hthread : c.thread t with
  | idle =>
      rw [hthread] at hprog hengine hbackground
      cases hprog
      refine .update hc.engine hc.background hsame ?_
      split <;> exact ⟨hengine, hbackground⟩
  | acquireBackground =>
      rw [hthread] at hprog hengine hbackground
      cases hprog
      exact .update hc.engine (hc.background.acquire hbackground)
        (fun u hu => ⟨hc.atEngine u, (hc.atBackground u).acquire hu⟩)
        ⟨hengine, acquire_self _ _⟩
  | waitBackground =>
      rw [hthread] at hprog hengine
      simp only [program] at hprog
      split at hprog
      · rename_i hholds
        cases hprog
        exact .update hc.engine hc.background hsame ⟨hengine, hholds⟩
      · cases hprog
  | acquireEngine background =>
      rw [hthread] at hprog hengine hbackground
      cases hprog
      refine .update (hc.engine.acquire hengine) hc.background
        (fun u hu => ⟨(hc.atEngine u).acquire hu, hc.atBackground u⟩) ⟨acquire_self _ _, ?_⟩
      cases background <;> exact hbackground
  | waitEngine background =>
      rw [hthread] at hprog hbackground
      simp only [program] at hprog
      split at hprog
      · rename_i hholds
        cases hprog
        refine .update hc.engine hc.background hsame ⟨hholds, ?_⟩
        cases background <;> exact hbackground
      · cases hprog
  | inFlight background =>
      rw [hthread] at hprog hengine hbackground
      cases hprog
      refine .update hc.engine hc.background hsame ⟨hengine, ?_⟩
      cases background <;> exact hbackground
  | releaseEngine background ending =>
      rw [hthread] at hprog hengine hbackground
      cases hprog
      refine .update (hc.engine.release hengine) hc.background
        (fun u hu => ⟨(hc.atEngine u).release hu, hc.atBackground u⟩) ?_
      cases background <;> exact ⟨hc.engine.release_self hengine, hbackground⟩
  | releaseBackground ending =>
      rw [hthread] at hprog hengine hbackground
      cases hprog
      exact .update hc.engine (hc.background.release hbackground)
        (fun u hu => ⟨hc.atEngine u, (hc.atBackground u).release hu⟩)
        ⟨hengine, hc.background.release_self hbackground⟩
  | returned ending =>
      rw [hthread] at hprog hengine hbackground
      cases hprog
      exact .update hc.engine hc.background hsame ⟨hengine, hbackground⟩

theorem sound_of_runs {acts : List (Nat × Action)}
    (h : Runs program (fun _ _ _ => True) started acts c) : Sound c :=
  h.invariant (fun _ _ _ _ _ hstep hsound => sound_step hsound hstep) sound_started

/-! ## Progress -/

/-- The thread can take its next step, whatever the environment chooses. -/
def CanStep (c : Config Shared Position) (t : Nat) : Prop := ∀ a, (c.step program t a).isSome

theorem canStep_iff : CanStep c t ↔ ∀ a, (program t a c.shared (c.thread t)).isSome := by
  simp [CanStep, Config.step]

theorem Sound.engine_holder_steps (hc : Sound c) (hholds : t ∈ c.shared.engine.holders) :
    (c.thread t).inProgress = true ∧ CanStep c t := by
  have hfits := hc.atEngine t
  rw [canStep_iff]
  cases hthread : c.thread t with
  | waitEngine background => exact ⟨rfl, fun a => by simp [program, hholds]⟩
  | inFlight | releaseEngine => exact ⟨rfl, fun _ => rfl⟩
  | _ =>
      rw [hthread] at hfits
      exact absurd hholds hfits.1

theorem Sound.progress_at_engine (hc : Sound c) (hwaits : t ∈ c.shared.engine.waiters) :
    ∃ u, (c.thread u).inProgress = true ∧ CanStep c u := by
  have hlength := hc.engine.length_of_waits hwaits
  obtain ⟨u, hu⟩ := List.exists_mem_of_length_pos (l := c.shared.engine.holders)
    (by simp [hlength, enginePermits])
  exact ⟨u, hc.engine_holder_steps hu⟩

theorem Sound.progress_in_engine (hc : Sound c) {background : Bool}
    (hthread : c.thread t = .waitEngine background) :
    ∃ u, (c.thread u).inProgress = true ∧ CanStep c u := by
  have hfits := hc.atEngine t
  rw [hthread] at hfits
  rcases hfits with hholds | hwaits
  · exact ⟨t, hc.engine_holder_steps hholds⟩
  · exact hc.progress_at_engine hwaits

theorem Sound.progress (hc : Sound c) (hprogress : (c.thread t).inProgress = true) :
    ∃ u, (c.thread u).inProgress = true ∧ CanStep c u := by
  have hfree : ∀ u, (c.thread u).inProgress = true →
      (∀ a, (program u a c.shared (c.thread u)).isSome) →
      ∃ u, (c.thread u).inProgress = true ∧ CanStep c u :=
    fun u hu hsteps => ⟨u, hu, canStep_iff.mpr hsteps⟩
  have hholder : ∀ u, u ∈ c.shared.background.holders →
      ∃ v, (c.thread v).inProgress = true ∧ CanStep c v := by
    intro u hholds
    have hfits := hc.atBackground u
    cases hthread : c.thread u with
    | waitBackground =>
        exact hfree u (by rw [hthread]; rfl) (by simp [hthread, program, hholds])
    | waitEngine background => exact hc.progress_in_engine hthread
    | acquireEngine | inFlight | releaseEngine | releaseBackground =>
        exact hfree u (by rw [hthread]; rfl) (by simp [hthread, program])
    | _ =>
        rw [hthread] at hfits
        exact absurd hholds hfits.1
  cases hthread : c.thread t with
  | idle | returned => simp [hthread, Position.inProgress] at hprogress
  | waitBackground =>
      have hfits := hc.atBackground t
      rw [hthread] at hfits
      rcases hfits with hholds | hwaits
      · exact hholder t hholds
      · have hlength := hc.background.length_of_waits hwaits
        obtain ⟨u, hu⟩ := List.exists_mem_of_length_pos (l := c.shared.background.holders)
          (by simp [hlength, backgroundPermits, enginePermits])
        exact hholder u hu
  | waitEngine background => exact hc.progress_in_engine hthread
  | _ => exact hfree t hprogress (by simp [hthread, program])

/-! ## Admission -/

theorem Sound.interactive_holder (hc : Sound c) (hthread : c.thread t = .waitEngine false) :
    ∃ u, u ∈ c.shared.engine.holders ∧ (c.thread u).isBackground = false := by
  by_contra hnone
  simp only [not_exists, not_and, Bool.not_eq_false] at hnone
  have hfits := hc.atEngine t
  rw [hthread] at hfits
  have hwaits : t ∈ c.shared.engine.waiters := by
    rcases hfits with hholds | hwaits
    · have := hnone t hholds
      simp [hthread, Position.isBackground] at this
    · exact hwaits
  have hmembers : ∀ u ∈ c.shared.engine.holders.toFinset, u ∈ c.shared.background.holders := by
    intro u hu
    have hholds := List.mem_toFinset.mp hu
    have hstage : (c.thread u).engineStage ≠ .outside := by
      intro hout
      have hout' := hc.atEngine u
      rw [hout] at hout'
      exact hout'.1 hholds
    have hbackground := hc.atBackground u
    rw [Position.backgroundStage_eq hstage (hnone u hholds)] at hbackground
    exact hbackground
  have hcard := hc.background.card_le hmembers
  rw [List.toFinset_card_of_nodup hc.engine.holders_nodup,
    hc.engine.length_of_waits hwaits] at hcard
  exact absurd hcard (by decide)

/-- Every mix of interactive and background builds: the permits bound the builds
in flight and the background ones among them, no state is deadlocked, a build
that has ended holds nothing, and the engine permits are never all held by
background builds while an interactive one waits. -/
theorem engine_admission {acts : List (Nat × Action)}
    (h : Runs program (fun _ _ _ => True) started acts c) :
    (∀ builds : Finset Nat, (∀ t ∈ builds, (c.thread t).isInFlight = true) →
      builds.card ≤ enginePermits) ∧
    (∀ builds : Finset Nat, (∀ t ∈ builds, (c.thread t).isInFlight = true ∧
      (c.thread t).isBackground = true) → builds.card ≤ enginePermits - 1) ∧
    (∀ t, (c.thread t).inProgress = true →
      ∃ u, (c.thread u).inProgress = true ∧ CanStep c u) ∧
    (∀ t ending, c.thread t = .returned ending →
      t ∉ c.shared.engine.holders ∧ t ∉ c.shared.background.holders) ∧
    (∀ t, c.thread t = .waitEngine false →
      ∃ u, u ∈ c.shared.engine.holders ∧ (c.thread u).isBackground = false) := by
  have hc := sound_of_runs h
  have hengine : ∀ t, (c.thread t).isInFlight = true → (c.thread t).engineStage = .holding := by
    intro t ht
    generalize c.thread t = p at ht
    cases p with
    | inFlight => rfl
    | _ => cases ht
  refine ⟨?_, ?_, fun t => hc.progress, ?_, fun t => hc.interactive_holder⟩
  · intro builds hbuilds
    refine hc.engine.card_le fun t ht => ?_
    have hfits := hc.atEngine t
    rw [hengine t (hbuilds t ht)] at hfits
    exact hfits
  · intro builds hbuilds
    refine hc.background.card_le fun t ht => ?_
    have hstage : (c.thread t).engineStage ≠ .outside := by
      rw [hengine t (hbuilds t ht).1]
      decide
    have hfits := hc.atBackground t
    rw [Position.backgroundStage_eq hstage (hbuilds t ht).2] at hfits
    exact hfits
  · intro t ending hthread
    have hengine' := hc.atEngine t
    have hbackground := hc.atBackground t
    rw [hthread] at hengine' hbackground
    exact ⟨hengine'.1, hbackground.1⟩

/-- One background and one interactive build in flight, a second interactive one
waiting. -/
theorem engine_admission_full :
    ∃ c : Config Shared Position, c.thread 0 = .inFlight true ∧ c.thread 1 = .inFlight false ∧
      c.thread 2 = .waitEngine false ∧ c.shared.engine.waiters = [2] ∧
      ∃ u, u ∈ c.shared.engine.holders ∧ (c.thread u).isBackground = false := by
  have hrun : ((started.run program (fun _ _ _ => True)
      [(0, { background := true }), (0, {}), (0, {}), (0, {}), (0, {}), (1, {}), (1, {}), (1, {}),
        (2, {}), (2, {})]).any fun c =>
      decide (c.thread 0 = .inFlight true ∧ c.thread 1 = .inFlight false ∧
        c.thread 2 = .waitEngine false ∧ c.shared.engine.waiters = [2])) = true := by
    decide
  obtain ⟨c, hc, htest⟩ := Runs.of_run_any hrun
  obtain ⟨hfirst, hsecond, hthird, hwaiters⟩ := of_decide_eq_true htest
  exact ⟨c, hfirst, hsecond, hthird, hwaiters, (engine_admission hc).2.2.2.2 2 hthird⟩

end ImportLens.Engine.Admission
