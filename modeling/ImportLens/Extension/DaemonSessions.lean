import ImportLens.Extension.DaemonTransport
import ImportLens.Support.Supervisor

/-!
# One daemon at a time

What the fields of the transport say about its starts and its processes, in every state it
can reach.  With that the transport is a supervisor of one worker: each event is a few
moves of one, and `shutdown` is its reset.
-/

namespace ImportLens.Extension.DaemonTransport

open ImportLens.Support

namespace Transport

variable {s t : Transport} {attempt child : Nat}

def charged (s : Transport) : List Nat := s.crashes.filterMap Crash.subject

/-- No start of this generation is still to spawn. -/
def Vacant (s : Transport) : Prop :=
  ∀ a workspaceRoot, s.attempts a ≠ .preparing workspaceRoot s.startGeneration

structure Owned (s : Transport) : Prop where
  fresh : ∀ a, s.nextAttempt ≤ a → s.attempts a = .idle
  idle : ∀ a, s.attempts a = .idle → s.children a = .unborn ∧ a ∉ s.charged
  preparing : ∀ a workspaceRoot generation, s.attempts a = .preparing workspaceRoot generation →
    s.children a = .unborn ∧ a ∉ s.charged ∧ generation ≤ s.startGeneration
  connecting : ∀ a workspaceRoot generation, s.attempts a = .connecting workspaceRoot generation →
    generation ≤ s.startGeneration ∧ s.children a ≠ .unborn
  /-- A start that is still to spawn is the one callers join, and nothing is owned. -/
  current : ∀ a workspaceRoot, s.attempts a = .preparing workspaceRoot s.startGeneration →
    s.startPromise = some a ∧ s.process = none ∧ s.degraded = false ∧ s.isDisposed = false
  running : ∀ c, s.children c = .running → s.process = some c
  process : ∀ c, s.process = some c →
    s.children c ≠ .unborn ∧ c ∉ s.charged ∧ s.isDisposed = false
  client : ∀ c, s.client = some c → s.process = some c ∧ s.attempts c = .returned
  ready : s.state = .ready → s.client ≠ none
  promise : ∀ a, s.startPromise = some a → s.attempts a ≠ .idle ∧
    ∀ workspaceRoot generation, s.attempts a = .preparing workspaceRoot generation →
      generation = s.startGeneration
  charged : ∀ a ∈ s.charged, s.attempts a ≠ .idle
  disconnect : ∀ id due, s.timers id = some ⟨due, .disconnect⟩ →
    s.disconnectTimer = some id ∧ s.client ≠ none

theorem of_cancel {timers : Nat → Option Timer} {timer : Option Nat} {id : Nat} {running : Timer}
    (h : cancel timers timer id = some running) : timer ≠ some id ∧ timers id = some running := by
  rw [cancel_apply] at h
  split at h
  · cases h
  · rename_i hother
    exact ⟨hother, h⟩

theorem of_arm {timers : Nat → Option Timer} {armed running : Timer} {id id' : Nat}
    (hne : armed.callback ≠ running.callback) (h : arm timers id armed id' = some running) :
    timers id' = some running := by
  rw [arm_apply] at h
  split at h
  · exact absurd (congrArg Timer.callback (Option.some.inj h)) hne
  · exact h

theorem of_enter {attempts : Nat → Phase} {phase phase' : Phase} {a : Nat} (hne : phase ≠ phase')
    (h : enter attempts attempt phase a = phase') : a ≠ attempt ∧ attempts a = phase' := by
  rw [enter_apply] at h
  split at h
  · exact absurd h hne
  · rename_i hother
    exact ⟨hother, h⟩

theorem of_stop {children : Nat → Life} {child : Option Nat} {c : Nat}
    (h : stop children child c = .running) : child ≠ some c ∧ children c = .running := by
  rw [stop_apply] at h
  split at h
  · cases h
  · rename_i hnot
    exact ⟨fun hchild => hnot ⟨hchild, h⟩, h⟩

theorem stop_eq_unborn {children : Nat → Life} {child : Option Nat} {c : Nat} :
    stop children child c = .unborn ↔ children c = .unborn := by
  rw [stop_apply]
  split
  · rename_i hstopped
    rw [hstopped.2]
    exact iff_of_false Life.noConfusion Life.noConfusion
  · rfl

namespace Owned

theorem initial : Owned {} := by
  constructor <;> grind [Transport.charged]

theorem settled_of_over (h : Owned s)
    (hover : s.attempts attempt = .returned ∨ s.children attempt ≠ .unborn) :
    s.attempts attempt ≠ .idle ∧
      ∀ root generation, s.attempts attempt ≠ .preparing root generation := by
  rcases hover with hreturned | hborn
  · rw [hreturned]
    exact ⟨Phase.noConfusion, fun _ _ => Phase.noConfusion⟩
  · exact ⟨fun hidle => hborn (h.idle attempt hidle).1,
      fun root generation hphase => hborn (h.preparing attempt root generation hphase).1⟩

theorem clearDisconnectTimer (h : Owned s) : Owned s.clearDisconnectTimer :=
  { h with
    disconnect := by
      intro id due htimer
      obtain ⟨hother, htimer⟩ := of_cancel htimer
      exact absurd (h.disconnect id due htimer).1 hother }

theorem scheduleRestart (h : Owned s) (delay : Nat) : Owned (s.scheduleRestart delay) :=
  { h with
    ready := nofun
    disconnect := by
      intro id due htimer
      refine h.disconnect id due (of_arm ?_ htimer)
      exact Callback.noConfusion }

theorem armStabilityReset (h : Owned s) : Owned s.armStabilityReset :=
  { h with
    disconnect := by
      intro id due htimer
      refine h.disconnect id due (of_cancel (of_arm ?_ htimer)).2
      exact Callback.noConfusion }

theorem armCleanRecycleReset (h : Owned s) : Owned s.armCleanRecycleReset :=
  { h with
    disconnect := by
      intro id due htimer
      refine h.disconnect id due (of_cancel (of_arm ?_ htimer)).2
      exact Callback.noConfusion }

theorem setUnavailable (h : Owned s) : Owned { s with state := .unavailable } :=
  { h with ready := nofun }

/-- Children end; none is born. -/
theorem withChildren (h : Owned s) {children : Nat → Life}
    (hborn : ∀ c, children c = .unborn ↔ s.children c = .unborn)
    (hrunning : ∀ c, children c = .running → s.children c = .running) :
    Owned { s with children := children } :=
  { h with
    idle := fun a ha => ⟨(hborn a).mpr (h.idle a ha).1, (h.idle a ha).2⟩
    preparing := fun a root generation ha =>
      ⟨(hborn a).mpr (h.preparing a root generation ha).1, (h.preparing a root generation ha).2⟩
    connecting := fun a root generation ha =>
      ⟨(h.connecting a root generation ha).1, mt (hborn a).mp (h.connecting a root generation ha).2⟩
    running := fun c hc => h.running c (hrunning c hc)
    process := fun c hc => ⟨mt (hborn c).mp (h.process c hc).1, (h.process c hc).2⟩ }

theorem kill (h : Owned s) (child : Option Nat) :
    Owned { s with children := stop s.children child } :=
  h.withChildren (fun _ => stop_eq_unborn) fun _ hc => (of_stop hc).2

theorem cleanup (h : Owned s) (killProcess : Bool)
    (hlife : killProcess = true ∨ ∀ c, s.process = some c → s.children c ≠ .running) :
    Owned (s.cleanup killProcess) := by
  have hkilled : Owned { s with
      children := if killProcess then stop s.children s.process else s.children } := by
    cases killProcess
    · exact h
    · exact h.kill s.process
  have hquiet : ∀ c, s.process = some c → (s.cleanup killProcess).children c ≠ .running := by
    intro c hc hrunning
    cases killProcess with
    | false => exact hlife.elim Bool.noConfusion fun hquiet => hquiet c hc hrunning
    | true => exact (of_stop hrunning).1 hc
  exact
    { hkilled with
      current := fun a root ha => ⟨(h.current a root ha).1, rfl, (h.current a root ha).2.2⟩
      running := fun c hc => absurd hc (hquiet c (hkilled.running c hc))
      process := nofun
      client := nofun
      ready := nofun
      disconnect := by
        intro id due htimer
        obtain ⟨-, htimer⟩ := of_cancel htimer
        obtain ⟨-, htimer⟩ := of_cancel htimer
        obtain ⟨hother, htimer⟩ := of_cancel htimer
        exact absurd (h.disconnect id due htimer).1 hother }

theorem latch (h : Owned s) (hvacant : s.Vacant) :
    Owned { s with degraded := true, state := .unavailable } :=
  { h with
    current := fun a root ha => absurd ha (hvacant a root)
    ready := nofun }

/-- A start that is over is counted as a crash. -/
theorem charge (h : Owned s) (hprocess : s.process = none)
    (hover : s.attempts attempt = .returned ∨ s.children attempt ≠ .unborn)
    {crash : Crash} (hsubject : crash.subject = some attempt) :
    Owned { s with crashes := s.crashes ++ [crash] } := by
  obtain ⟨hbegun, hspawned⟩ := h.settled_of_over hover
  have hcharged : ∀ {a}, a ∈ ({ s with crashes := s.crashes ++ [crash] } : Transport).charged →
      a ∈ s.charged ∨ a = attempt := by
    intro a ha
    rw [Transport.charged, List.filterMap_append] at ha
    simpa [Transport.charged, hsubject] using ha
  exact
    { h with
      idle := by
        refine fun a ha => ⟨(h.idle a ha).1, fun hmem => ?_⟩
        rcases hcharged hmem with hmem | rfl
        · exact (h.idle a ha).2 hmem
        · exact hbegun ha
      preparing := by
        intro a root generation ha
        obtain ⟨hborn, hnot, hle⟩ := h.preparing a root generation ha
        refine ⟨hborn, fun hmem => ?_, hle⟩
        rcases hcharged hmem with hmem | rfl
        · exact hnot hmem
        · exact hspawned root generation ha
      process := by
        intro c hc
        rw [hprocess] at hc
        cases hc
      charged := by
        intro a hmem
        rcases hcharged hmem with hmem | rfl
        · exact h.charged a hmem
        · exact hbegun }

theorem handleCrash (h : Owned s) (hvacant : s.Vacant) (hprocess : s.process = none)
    (hover : s.attempts attempt = .returned ∨ s.children attempt ≠ .unborn) :
    Owned (s.handleCrash (some attempt)) := by
  have hcounted : Owned { s with
      crashTimes := recentCrashTimes (s.crashTimes ++ [s.now]) s.now
      crashes := s.crashes ++ [⟨s.now, some attempt, s.startGeneration⟩] } :=
    { h.charge hprocess hover rfl with }
  simp only [Transport.handleCrash]
  split
  · exact hcounted.latch hvacant
  · have hretried : Owned { s with
        crashTimes := recentCrashTimes (s.crashTimes ++ [s.now]) s.now
        crashes := s.crashes ++ [⟨s.now, some attempt, s.startGeneration⟩]
        restartAttempt := s.restartAttempt + 1 } := { hcounted with }
    exact hretried.scheduleRestart _

theorem vacate (h : Owned s) : Owned s.vacate := by
  unfold Transport.vacate
  split
  · exact h.cleanup _ (.inl rfl)
  · exact h

theorem client_none (h : Owned s) (hprocess : s.process = none) : s.client = none := by
  rw [Option.eq_none_iff_forall_ne_some]
  intro c hc
  rw [(h.client c hc).1] at hprocess
  cases hprocess

theorem enlist (h : Owned s) (hprocess : s.process = none) (hpromise : s.startPromise = none)
    (hopen : s.degraded = false) (hdisposed : s.isDisposed = false) {phase : Phase}
    (hphase : phase = .returned ∨ ∃ root, phase = .preparing root s.startGeneration) :
    Owned (s.enlist phase) := by
  have hbegun : phase ≠ .idle := by
    rcases hphase with rfl | ⟨root, rfl⟩ <;> exact Phase.noConfusion
  have hgeneration : ∀ {root generation}, phase = .preparing root generation →
      generation = s.startGeneration := by
    rintro root generation rfl
    rcases hphase with hphase | ⟨_, hphase⟩ <;> cases hphase
    rfl
  have hconnecting : ∀ {root generation}, phase ≠ .connecting root generation := by
    rcases hphase with rfl | ⟨root, rfl⟩ <;> exact Phase.noConfusion
  have hself : (s.enlist phase).attempts s.nextAttempt = phase := if_pos rfl
  have hother : ∀ {a}, a ≠ s.nextAttempt → (s.enlist phase).attempts a = s.attempts a :=
    fun hnew => if_neg hnew
  exact
    { h with
      fresh := fun a ha =>
        (hother (Nat.lt_of_succ_le ha).ne').trans (h.fresh a (Nat.le_of_succ_le ha))
      idle := fun a ha => h.idle a (of_enter hbegun ha).2
      preparing := by
        intro a root generation ha
        by_cases hnew : a = s.nextAttempt
        · subst hnew
          obtain ⟨hborn, hnot⟩ := h.idle _ (h.fresh s.nextAttempt le_rfl)
          exact ⟨hborn, hnot, (hgeneration (hself.symm.trans ha)).le⟩
        · exact h.preparing a root generation ((hother hnew).symm.trans ha)
      connecting := fun a root generation ha =>
        h.connecting a root generation (of_enter hconnecting ha).2
      current := by
        intro a root ha
        by_cases hnew : a = s.nextAttempt
        · exact ⟨congrArg some hnew.symm, hprocess, hopen, hdisposed⟩
        · have hjoined := (h.current a root ((hother hnew).symm.trans ha)).1
          rw [hpromise] at hjoined
          cases hjoined
      client := fun c hc =>
        absurd ((h.client_none hprocess).symm.trans hc) (Option.some_ne_none c).symm
      promise := by
        rintro a ⟨⟩
        exact ⟨fun hidle => hbegun (hself.symm.trans hidle),
          fun root generation ha => hgeneration (hself.symm.trans ha)⟩
      charged := fun a ha hidle => h.charged a ha (of_enter hbegun hidle).2 }

theorem process_vacate (s : Transport) : s.vacate.process = none := by
  unfold Transport.vacate
  split
  · rfl
  · rename_i hnone
    rw [Bool.or_eq_true, not_or] at hnone
    exact Option.not_isSome_iff_eq_none.mp hnone.1

theorem startDaemon (h : Owned s) (hpromise : s.startPromise = none) (hopen : s.degraded = false)
    (hdisposed : s.isDisposed = false) (analysisRoot workspaceFallbackRoot : Option String) :
    Owned (s.startDaemon analysisRoot workspaceFallbackRoot) := by
  have hvacant := h.clearDisconnectTimer.vacate
  have hprocess := process_vacate s.clearDisconnectTimer
  have hsame : s.clearDisconnectTimer.vacate.startPromise = s.startPromise ∧
      s.clearDisconnectTimer.vacate.degraded = s.degraded ∧
      s.clearDisconnectTimer.vacate.isDisposed = s.isDisposed ∧
      s.clearDisconnectTimer.vacate.startGeneration = s.startGeneration := by
    unfold Transport.vacate
    split <;> exact ⟨rfl, rfl, rfl, rfl⟩
  obtain ⟨hp, ho, hd, hg⟩ := hsame
  rw [← hp] at hpromise
  rw [← ho] at hopen
  rw [← hd] at hdisposed
  unfold Transport.startDaemon
  split
  · exact hvacant.setUnavailable.enlist hprocess hpromise hopen hdisposed (.inl rfl)
  · rename_i root _
    split
    · exact hvacant.setUnavailable.enlist hprocess hpromise hopen hdisposed (.inl rfl)
    · exact hvacant.enlist hprocess hpromise hopen hdisposed (.inr ⟨root, by rw [hg]⟩)

theorem start (h : Owned s) (analysisRoot workspaceFallbackRoot : Option String) :
    Owned (s.start analysisRoot workspaceFallbackRoot) := by
  have hwanted : Owned { s with isDisposed := false } :=
    { h with
      current := fun a root ha =>
        ⟨(h.current a root ha).1, (h.current a root ha).2.1, (h.current a root ha).2.2.1, rfl⟩
      process := fun c hc => ⟨(h.process c hc).1, (h.process c hc).2.1, rfl⟩ }
  simp only [Transport.start]
  split
  · exact hwanted
  split
  · exact hwanted
  rename_i hopen
  split
  · exact hwanted
  split
  · exact hwanted
  rename_i hpromise
  exact hwanted.startDaemon (Option.not_isSome_iff_eq_none.mp hpromise)
    (Bool.eq_false_iff.mpr hopen) rfl analysisRoot workspaceFallbackRoot

theorem client_none_of_connecting (h : Owned s) (hprocess : s.process = some attempt)
    {workspaceRoot : String} {generation : Nat}
    (hphase : s.attempts attempt = .connecting workspaceRoot generation) : s.client = none := by
  rw [Option.eq_none_iff_forall_ne_some]
  intro c hc
  obtain ⟨howned, hreturned⟩ := h.client c hc
  rw [hprocess, Option.some.injEq] at howned
  rw [← howned, hphase] at hreturned
  cases hreturned

theorem vacant_endStart (h : Owned s) {workspaceRoot : String}
    (hphase : s.attempts attempt = .preparing workspaceRoot s.startGeneration) :
    (s.endStart attempt).Vacant := by
  intro a root ha
  simp only [Transport.endStart, enter_apply] at ha
  split at ha
  · cases ha
  · rename_i hne
    have hjoined := (h.current attempt workspaceRoot hphase).1
    rw [(h.current a root ha).1, Option.some.injEq] at hjoined
    exact hne hjoined

theorem vacant_of_process (h : Owned s) (hprocess : s.process = some child) : s.Vacant := by
  intro a root ha
  rw [(h.current a root ha).2.1] at hprocess
  cases hprocess

theorem endStart (h : Owned s) (attempt : Nat) (hbegun : s.attempts attempt ≠ .idle) :
    Owned (s.endStart attempt) :=
  { h with
    fresh := by
      intro a ha
      have hidle := h.fresh a ha
      have hother : a ≠ attempt := by
        rintro rfl
        exact hbegun hidle
      exact (if_neg hother).trans hidle
    idle := fun a ha => h.idle a (of_enter Phase.noConfusion ha).2
    preparing := fun a root generation ha =>
      h.preparing a root generation (of_enter Phase.noConfusion ha).2
    connecting := fun a root generation ha =>
      h.connecting a root generation (of_enter Phase.noConfusion ha).2
    current := fun a root ha => h.current a root (of_enter Phase.noConfusion ha).2
    client := by
      intro c hc
      obtain ⟨hprocess, hreturned⟩ := h.client c hc
      refine ⟨hprocess, (enter_apply s.attempts attempt .returned c).trans ?_⟩
      split
      · rfl
      · exact hreturned
    promise := by
      intro a ha
      obtain ⟨hbegun, hgeneration⟩ := h.promise a ha
      exact ⟨fun hidle => hbegun (of_enter Phase.noConfusion hidle).2,
        fun root generation hphase =>
          hgeneration root generation (of_enter Phase.noConfusion hphase).2⟩
    charged := fun a ha hidle => h.charged a ha (of_enter Phase.noConfusion hidle).2 }

theorem spawned (h : Owned s) {workspaceRoot : String}
    (hphase : s.attempts attempt = .preparing workspaceRoot s.startGeneration) :
    Owned { s with
      process := some attempt
      children := live s.children attempt .running
      attempts := enter s.attempts attempt (.connecting workspaceRoot s.startGeneration) } := by
  obtain ⟨hjoined, hprocess, -, hdisposed⟩ := h.current attempt workspaceRoot hphase
  have hself : live s.children attempt .running attempt = .running := if_pos rfl
  exact
    { h with
      fresh := by
        intro a ha
        have hidle := h.fresh a ha
        have hother : a ≠ attempt := by
          rintro rfl
          cases hphase.symm.trans hidle
        exact (if_neg hother).trans hidle
      idle := by
        intro a ha
        obtain ⟨hother, ha⟩ := of_enter Phase.noConfusion ha
        exact ⟨(if_neg hother).trans (h.idle a ha).1, (h.idle a ha).2⟩
      preparing := by
        intro a root generation ha
        obtain ⟨hother, ha⟩ := of_enter Phase.noConfusion ha
        obtain ⟨hborn, hrest⟩ := h.preparing a root generation ha
        exact ⟨(if_neg hother).trans hborn, hrest⟩
      connecting := by
        intro a root generation ha
        by_cases hother : a = attempt
        · subst hother
          cases (if_pos rfl).symm.trans ha
          exact ⟨le_rfl, fun hborn => Life.noConfusion (hself.symm.trans hborn)⟩
        · obtain ⟨hle, hborn⟩ := h.connecting a root generation ((if_neg hother).symm.trans ha)
          exact ⟨hle, fun hunborn => hborn ((if_neg hother).symm.trans hunborn)⟩
      current := by
        intro a root ha
        obtain ⟨hother, ha⟩ := of_enter Phase.noConfusion ha
        exact absurd (Option.some.inj ((h.current a root ha).1.symm.trans hjoined)) hother
      running := by
        intro c hc
        by_cases hother : c = attempt
        · exact congrArg some hother.symm
        · have howned := h.running c ((if_neg hother).symm.trans hc)
          rw [hprocess] at howned
          cases howned
      process := by
        rintro c ⟨⟩
        exact ⟨fun hborn => Life.noConfusion (hself.symm.trans hborn),
          (h.preparing attempt _ _ hphase).2.1, hdisposed⟩
      client := fun c hc =>
        absurd ((h.client_none hprocess).symm.trans hc) (Option.some_ne_none c).symm
      promise := by
        intro a ha
        obtain ⟨hbegun, hgeneration⟩ := h.promise a ha
        exact ⟨fun hidle => hbegun (of_enter Phase.noConfusion hidle).2,
          fun root generation hentered =>
            hgeneration root generation (of_enter Phase.noConfusion hentered).2⟩
      charged := fun a ha hidle => h.charged a ha (of_enter Phase.noConfusion hidle).2 }

theorem prepared (h : Owned s) {outcome : Prepared} (hstep : s.prepared attempt outcome = some t) :
    Owned t := by
  unfold Transport.prepared at hstep
  split at hstep
  · rename_i root generation hphase
    have hended := h.endStart attempt (by rw [hphase]; exact Phase.noConfusion)
    split at hstep
    · cases hstep
      exact { hended with }
    · rename_i hcurrent
      have hgeneration : generation = s.startGeneration := by tauto
      subst hgeneration
      have hprocess := (h.current attempt root hphase).2.1
      have hnone : s.process.isSome = false := by rw [hprocess, Option.isSome_none]
      have hvacant := h.vacant_endStart hphase
      simp only [hnone, Bool.false_eq_true, if_false] at hstep
      cases outcome with
      | threw =>
        cases hstep
        exact hended
      | refused =>
        cases hstep
        exact hended.latch hvacant
      | spawnThrew =>
        cases hstep
        exact hended.handleCrash hvacant hprocess (.inl (if_pos rfl))
      | spawned =>
        cases hstep
        exact h.spawned hphase
  · cases hstep

theorem stopChild (h : Owned s) (child : Nat) : Owned (s.stopChild child) := h.kill (some child)

theorem letGo (h : Owned s) (hstate : s.client = none)
    (hprocess : s.process = some child) :
    Owned { s.stopChild child with client := none, process := none } :=
  { h.stopChild child with
    current := fun a root ha => absurd ha (h.vacant_of_process hprocess a root)
    running := by
      intro c hc
      obtain ⟨hother, hrunning⟩ := of_stop hc
      exact absurd (hprocess.symm.trans (h.running c hrunning)) hother
    process := nofun
    client := nofun
    ready := fun hready => absurd hstate (h.ready hready)
    disconnect := fun id due htimer => absurd hstate (h.disconnect id due htimer).2 }

theorem connect (h : Owned s) (hprocess : s.process = some attempt)
    (hphase : s.attempts attempt = .returned) (workspaceRoot : String) :
    Owned { s with
      client := some attempt
      lastAnalysisRoot := some workspaceRoot
      state := .ready } :=
  { h with
    client := by
      rintro c ⟨⟩
      exact ⟨hprocess, hphase⟩
    ready := fun _ => Option.some_ne_none attempt
    disconnect := fun id due htimer =>
      ⟨(h.disconnect id due htimer).1, Option.some_ne_none attempt⟩ }

theorem connected (h : Owned s) {outcome : Connected}
    (hstep : s.connected attempt outcome = some t) : Owned t := by
  unfold Transport.connected at hstep
  split at hstep
  · rename_i root generation hphase
    have hended := h.endStart attempt (by rw [hphase]; exact Phase.noConfusion)
    split at hstep
    · cases hstep
      exact hended.stopChild attempt
    · rename_i hcurrent
      have hprocess : s.process = some attempt := by tauto
      have hvacant := hended.vacant_of_process hprocess
      have hclient := h.client_none_of_connecting hprocess hphase
      have hcrash : Owned (Transport.handleCrash _ (some attempt)) :=
        (hended.letGo hclient hprocess).handleCrash hvacant rfl (.inl (if_pos rfl))
      cases outcome with
      | sentHello =>
        cases hstep
        exact ((hended.connect hprocess (if_pos rfl) root).armStabilityReset).armCleanRecycleReset
      | failed =>
        cases hstep
        exact hcrash
      | helloThrew =>
        cases hstep
        exact hcrash
  · cases hstep

theorem dropPromise (h : Owned s) (hvacant : s.Vacant) : Owned { s with startPromise := none } :=
  { h with
    current := fun a root ha => absurd ha (hvacant a root)
    promise := nofun }

theorem settled (h : Owned s) (hstep : s.settled attempt = some t) : Owned t := by
  unfold Transport.settled at hstep
  split at hstep
  · rename_i hphase
    cases hstep
    split
    · rename_i hjoined
      have hvacant : s.Vacant := by
        intro a root ha
        obtain rfl := Option.some.inj ((h.current a root ha).1.symm.trans hjoined)
        cases hphase.symm.trans ha
      exact { h.dropPromise hvacant with }
    · exact h
  · cases hstep

theorem childError (h : Owned s) (hstep : s.childError child = some t) : Owned t := by
  unfold Transport.childError at hstep
  split at hstep
  · cases hstep
  · rename_i hborn
    split at hstep
    · cases hstep
      exact h
    · rename_i hprocess
      rw [not_not] at hprocess
      cases hstep
      have hvacant := h.vacant_of_process hprocess
      apply ((h.dropPromise hvacant).cleanup _ (.inl rfl)).handleCrash hvacant rfl
      right
      simp only [Transport.cleanup, if_true, stop_apply]
      split
      · exact Life.noConfusion
      · exact hborn

theorem markExited (h : Owned s) (hborn : s.children child ≠ .unborn) :
    Owned (s.markExited child) := by
  have hself : live s.children child .exited child = .exited := if_pos rfl
  refine h.withChildren (fun c => ?_) fun c hc => ?_
  · by_cases hother : c = child
    · subst hother
      rw [hself]
      exact iff_of_false Life.noConfusion hborn
    · rw [live_apply, if_neg hother]
  · by_cases hother : c = child
    · subst hother
      cases hself.symm.trans hc
    · exact (if_neg hother).symm.trans hc

theorem setRecording (h : Owned s) (recording : Nat) : Owned { s with recording := recording } := by
  exact { h with }

theorem childExit (h : Owned s) {graceful : Bool}
    (hstep : s.childExit child graceful = some t) : Owned t := by
  unfold Transport.childExit at hstep
  split at hstep
  · rename_i hlife
    have hborn : s.children child ≠ .unborn := by
      rcases hlife with hlife | hlife <;> rw [hlife] <;> exact Life.noConfusion
    have hexit := h.markExited hborn
    simp only at hstep
    split at hstep
    · cases hstep
      exact hexit
    · rename_i hprocess
      rw [not_not] at hprocess
      cases hstep
      have hvacant := h.vacant_of_process hprocess
      have hdropped := hexit.dropPromise hvacant
      have hunborn : live s.children child .exited child ≠ .unborn := by
        rw [live_apply, if_pos rfl]
        exact Life.noConfusion
      simp only [handleProcessExit]
      split
      · exact hdropped
      · have hclean := hdropped.clearDisconnectTimer.cleanup false <| .inr <| by
          intro c hc
          obtain rfl : c = child := Option.some.inj (hc.symm.trans hprocess)
          change live s.children c .exited c ≠ .running
          rw [live_apply, if_pos rfl]
          exact Life.noConfusion
        split
        · exact hclean.setRecording _
        · exact hclean.handleCrash hvacant rfl (.inr hunborn)
  · cases hstep

theorem recycleRecorded (h : Owned s) (hstep : s.recycleRecorded = some t) : Owned t := by
  unfold Transport.recycleRecorded at hstep
  split at hstep
  · cases hstep
  · cases hstep
    exact (h.setRecording _).scheduleRestart 1000

theorem disconnected (h : Owned s) (client : Nat) : Owned (s.disconnected client) := by
  unfold Transport.disconnected
  split
  · exact h
  split
  · exact h
  rename_i hclient hquiet
  rw [not_not] at hclient
  simp only [Bool.or_eq_true, not_or] at hquiet
  exact
    { h with
      disconnect := by
        intro id due htimer
        refine ⟨?_, by rw [hclient]; exact Option.some_ne_none client⟩
        by_cases hself : id = s.nextTimer
        · exact congrArg some hself.symm
        · have harmed := (h.disconnect id due ((if_neg hself).symm.trans htimer)).1
          exact absurd (by rw [harmed]; rfl) hquiet.2 }

theorem fire (h : Owned s) {timer : Nat} {workspaceFallbackRoot : Option String}
    (hstep : s.fire timer workspaceFallbackRoot = some t) : Owned t := by
  unfold Transport.fire at hstep
  split at hstep
  · cases hstep
  rename_i due callback htimer
  split at hstep
  · cases hstep
  have hfired : Owned { s with timers := cancel s.timers (some timer) } :=
    { h with disconnect := fun id due htimer => h.disconnect id due (of_cancel htimer).2 }
  cases callback with
  | restart =>
    have hcleared :
        Owned { s with timers := cancel s.timers (some timer), restartTimer := none } := by
      exact { hfired with }
    simp only at hstep
    split at hstep
    · cases hstep
      exact hcleared
    · cases hstep
      exact { hcleared.start s.lastAnalysisRoot workspaceFallbackRoot with }
  | stability =>
    cases hstep
    exact { hfired with }
  | cleanRecycle =>
    cases hstep
    exact hfired
  | disconnect =>
    obtain ⟨hfield, hconnected⟩ := h.disconnect timer due htimer
    obtain ⟨c, hc⟩ := Option.ne_none_iff_exists'.mp hconnected
    have hprocess := (h.client c hc).1
    have hcleared : Owned { s with
        timers := cancel s.timers (some timer)
        disconnectTimer := none } :=
      { h with
        disconnect := by
          intro id due htimer
          obtain ⟨hother, htimer⟩ := of_cancel htimer
          exact absurd (hfield.symm.trans (h.disconnect id due htimer).1) hother }
    simp only at hstep
    split at hstep
    · cases hstep
      exact hcleared
    · cases hstep
      have hunborn : Transport.stop s.children s.process c ≠ .unborn := by
        rw [stop_apply]
        split
        · exact Life.noConfusion
        · exact (h.process c hprocess).1
      have hcrash := (hcleared.cleanup true (.inl rfl)).handleCrash
        (h.vacant_of_process hprocess) rfl (.inr hunborn)
      rwa [← hprocess] at hcrash

theorem restartFailed (h : Owned s) (hstep : s.restartFailed attempt = some t) : Owned t := by
  unfold Transport.restartFailed at hstep
  split at hstep
  · cases hstep
    exact { h.setUnavailable with }
  · cases hstep

theorem shutdown (h : Owned s) : Owned s.shutdown := by
  have hkilled := h.kill s.process
  exact
    { hkilled with
      preparing := by
        intro a root generation ha
        obtain ⟨hborn, hnot, hle⟩ := hkilled.preparing a root generation ha
        exact ⟨hborn, hnot, hle.trans (Nat.le_succ _)⟩
      connecting := by
        intro a root generation ha
        obtain ⟨hle, hborn⟩ := hkilled.connecting a root generation ha
        exact ⟨hle.trans (Nat.le_succ _), hborn⟩
      current := fun a root ha => absurd (h.preparing a root _ ha).2.2 (Nat.not_succ_le_self _)
      running := fun c hc => absurd (hkilled.running c hc) (of_stop hc).1
      process := nofun
      client := nofun
      ready := nofun
      promise := nofun
      disconnect := by
        intro id due htimer
        obtain ⟨hother, htimer⟩ := of_cancel htimer
        obtain ⟨-, htimer⟩ := of_cancel htimer
        obtain ⟨-, htimer⟩ := of_cancel htimer
        obtain ⟨-, htimer⟩ := of_cancel htimer
        exact absurd (h.disconnect id due htimer).1 hother }

theorem step (h : Owned s) {event : Event} (hstep : s.step event = some t) : Owned t := by
  cases event with
  | elapsed millis =>
    cases hstep
    exact { h with }
  | start analysisRoot workspaceFallbackRoot =>
    cases hstep
    exact h.start analysisRoot workspaceFallbackRoot
  | prepared attempt outcome => exact h.prepared hstep
  | connected attempt outcome => exact h.connected hstep
  | settled attempt => exact h.settled hstep
  | childError child => exact h.childError hstep
  | childExit child graceful => exact h.childExit hstep
  | recycleRecorded => exact h.recycleRecorded hstep
  | disconnected client =>
    cases hstep
    exact h.disconnected client
  | fire timer workspaceFallbackRoot => exact h.fire hstep
  | restartFailed attempt => exact h.restartFailed hstep
  | shutdown =>
    cases hstep
    exact h.shutdown

end Owned

/-! ## The transport as a supervisor -/

def supervisor (s : Transport) : Supervisor Nat where
  owner := s.process
  latched := s.degraded
  launched := {a | s.children a ≠ .unborn}
  live := {c | s.children c = .running}
  charged := s.charged

@[simp] theorem process_handleCrash (s : Transport) (subject : Option Nat) :
    (s.handleCrash subject).process = s.process := by
  simp only [handleCrash]
  split <;> rfl

@[simp] theorem children_handleCrash (s : Transport) (subject : Option Nat) :
    (s.handleCrash subject).children = s.children := by
  simp only [handleCrash]
  split <;> rfl

@[simp] theorem charged_handleCrash (s : Transport) (subject : Option Nat) :
    (s.handleCrash subject).charged = s.charged ++ subject.toList := by
  have hone : ∀ crash : Crash, crash.subject = subject →
      [crash].filterMap Crash.subject = subject.toList := by
    rintro crash rfl
    cases h : crash.subject <;> simp [h]
  simp only [handleCrash]
  split <;> simp only [charged, scheduleRestart, List.filterMap_append, hone]

theorem degraded_handleCrash (s : Transport) (subject : Option Nat) :
    (s.handleCrash subject).degraded = true ∨ (s.handleCrash subject).degraded = s.degraded := by
  simp only [handleCrash]
  split
  · exact .inl rfl
  · exact .inr rfl

theorem supervisor_cleanup (s : Transport) (killProcess : Bool)
    (hlife : killProcess = true ∨ ∀ c, s.process = some c → s.children c ≠ .running) :
    (s.cleanup killProcess).supervisor = s.supervisor.letGo := by
  apply Supervisor.ext
  · rfl
  · rfl
  · cases killProcess
    · rfl
    · ext c
      change stop s.children s.process c ≠ .unborn ↔ s.children c ≠ .unborn
      grind
  · ext c
    change (s.cleanup killProcess).children c = .running ↔
      s.children c = .running ∧ ¬ s.process = some c
    simp only [Transport.cleanup]
    grind
  · rfl

theorem moves_handleCrash {u : Supervisor Nat} (hmove : Supervisor.Move u
    { s.supervisor with charged := s.supervisor.charged ++ [attempt] }) :
    Supervisor.Moves u (s.handleCrash (some attempt)).supervisor := by
  have hcounted : (s.handleCrash (some attempt)).supervisor =
      { s.supervisor with
        latched := (s.handleCrash (some attempt)).degraded
        charged := s.supervisor.charged ++ [attempt] } := by
    apply Supervisor.ext
    · exact process_handleCrash s _
    · rfl
    · simp only [supervisor, children_handleCrash]
    · simp only [supervisor, children_handleCrash]
    · exact charged_handleCrash s _
  rw [hcounted]
  apply Relation.ReflTransGen.trans (.single hmove)
  rcases degraded_handleCrash s (some attempt) with hlatch | hlatch
  · rw [hlatch]
    exact .single (.latch _)
  · rw [hlatch]
    exact .refl

theorem moves_fail {u : Supervisor Nat} (hgone : s.supervisor = u.letGo)
    (howner : u.owner = some attempt) :
    Supervisor.Moves u (s.handleCrash (some attempt)).supervisor := by
  apply moves_handleCrash
  rw [hgone]
  exact .fail u attempt howner

/-! ## Every event is a few moves -/

theorem supervisor_vacate (s : Transport) : Supervisor.Moves s.supervisor s.vacate.supervisor := by
  unfold vacate
  split
  · rw [s.supervisor_cleanup _ (.inl rfl)]
    exact .single (.release _)
  · exact .refl

theorem supervisor_startDaemon (s : Transport)
    (analysisRoot workspaceFallbackRoot : Option String) :
    Supervisor.Moves s.supervisor
      (s.startDaemon analysisRoot workspaceFallbackRoot).supervisor := by
  have hvacate := supervisor_vacate s.clearDisconnectTimer
  unfold startDaemon
  split
  · exact hvacate
  · split <;> exact hvacate

theorem supervisor_start (s : Transport) (analysisRoot workspaceFallbackRoot : Option String) :
    Supervisor.Moves s.supervisor (s.start analysisRoot workspaceFallbackRoot).supervisor := by
  simp only [start]
  split
  · exact .refl
  split
  · exact .refl
  split
  · exact .refl
  split
  · exact .refl
  exact supervisor_startDaemon { s with isDisposed := false } analysisRoot workspaceFallbackRoot

theorem Owned.prepared_moves (h : Owned s) {outcome : Prepared}
    (hstep : s.prepared attempt outcome = some t) :
    Supervisor.Moves s.supervisor t.supervisor := by
  unfold Transport.prepared at hstep
  split at hstep
  · rename_i root generation hphase
    obtain ⟨hunborn, huncharged, -⟩ := h.preparing attempt root generation hphase
    split at hstep
    · cases hstep
      exact .refl
    · rename_i hcurrent
      have hgeneration : generation = s.startGeneration := by tauto
      subst hgeneration
      obtain ⟨-, hprocess, hopen, -⟩ := h.current attempt root hphase
      have hnone : s.process.isSome = false := by rw [hprocess, Option.isSome_none]
      simp only [hnone, Bool.false_eq_true, if_false] at hstep
      cases outcome with
      | threw =>
        cases hstep
        exact .refl
      | refused =>
        cases hstep
        exact .single (.latch _)
      | spawnThrew =>
        cases hstep
        exact moves_handleCrash (s := s.endStart attempt) 
          (.misfire _ attempt huncharged hprocess hopen)
      | spawned =>
        cases hstep
        apply Relation.ReflTransGen.single
        have hfresh : attempt ∉ s.supervisor.launched := fun hborn => hborn hunborn
        convert Supervisor.Move.launch _ attempt hfresh huncharged hprocess hopen using 1
        apply Supervisor.ext
        · rfl
        · rfl
        · ext a
          change live s.children attempt .running a ≠ .unborn ↔
            a = attempt ∨ s.children a ≠ .unborn
          grind
        · ext a
          change live s.children attempt .running a = .running ↔
            a = attempt ∨ s.children a = .running
          grind
        · rfl
  · cases hstep

theorem supervisor_stopChild (s : Transport) (child : Nat) :
    (s.stopChild child).supervisor =
      { s.supervisor with live := s.supervisor.live \ {child} } := by
  apply Supervisor.ext
  · rfl
  · rfl
  · ext c
    change stop s.children (some child) c ≠ .unborn ↔ s.children c ≠ .unborn
    grind
  · ext c
    change stop s.children (some child) c = .running ↔ s.children c = .running ∧ ¬ c = child
    grind
  · rfl

theorem supervisor_markExited (s : Transport) (hborn : s.children child ≠ .unborn) :
    (s.markExited child).supervisor =
      { s.supervisor with live := s.supervisor.live \ {child} } := by
  apply Supervisor.ext
  · rfl
  · rfl
  · ext c
    change live s.children child .exited c ≠ .unborn ↔ s.children c ≠ .unborn
    grind
  · ext c
    change live s.children child .exited c = .running ↔ s.children c = .running ∧ ¬ c = child
    grind
  · rfl

theorem supervisor_lose (s : Transport) (hprocess : s.process = some child) :
    { s.stopChild child with client := none, process := none }.supervisor = s.supervisor.letGo := by
  have hcleanup := s.supervisor_cleanup true (.inl rfl)
  unfold cleanup at hcleanup
  rw [hprocess] at hcleanup
  exact hcleanup

theorem connected_moves {outcome : Connected}
    (hstep : s.connected attempt outcome = some t) :
    Supervisor.Moves s.supervisor t.supervisor := by
  unfold Transport.connected at hstep
  split at hstep
  · rename_i root generation hphase
    split at hstep
    · cases hstep
      rw [supervisor_stopChild]
      exact .single (.die _ attempt)
    · rename_i hcurrent
      have hprocess : s.process = some attempt := by tauto
      have hgone : { (s.endStart attempt).stopChild attempt with
          client := none
          process := none }.supervisor = s.supervisor.letGo := by
        exact supervisor_lose (s.endStart attempt) hprocess
      have hcrash := moves_fail hgone hprocess
      cases outcome with
      | sentHello =>
        cases hstep
        exact .refl
      | failed =>
        cases hstep
        exact hcrash
      | helloThrew =>
        cases hstep
        exact hcrash
  · cases hstep

theorem childError_moves (hstep : s.childError child = some t) :
    Supervisor.Moves s.supervisor t.supervisor := by
  unfold Transport.childError at hstep
  split at hstep
  · cases hstep
  split at hstep
  · cases hstep
    exact .refl
  rename_i hprocess
  rw [not_not] at hprocess
  cases hstep
  exact moves_fail (supervisor_cleanup { s with startPromise := none } _ (.inl rfl)) hprocess

theorem childExit_moves {graceful : Bool}
    (hstep : s.childExit child graceful = some t) :
    Supervisor.Moves s.supervisor t.supervisor := by
  unfold Transport.childExit at hstep
  split at hstep
  · rename_i hlife
    have hborn : s.children child ≠ .unborn := by
      rcases hlife with hlife | hlife <;> rw [hlife] <;> exact Life.noConfusion
    have hdie : Supervisor.Moves s.supervisor
        (s.markExited child).supervisor := by
      rw [supervisor_markExited s hborn]
      exact .single (.die _ child)
    simp only at hstep
    split at hstep
    · cases hstep
      exact hdie
    · rename_i hprocess
      rw [not_not] at hprocess
      cases hstep
      apply hdie.trans
      have hgone := supervisor_cleanup ({ s.markExited child with
          startPromise := none }.clearDisconnectTimer) false <| .inr <| by
        intro c hc
        obtain rfl : c = child := Option.some.inj (hc.symm.trans hprocess)
        change live s.children c .exited c ≠ .running
        rw [live_apply, if_pos rfl]
        exact Life.noConfusion
      simp only [handleProcessExit]
      split
      · exact .refl
      split
      · have hrelease := Supervisor.Move.release (s.markExited child).supervisor
        exact .single (hgone ▸ hrelease)
      · exact moves_fail hgone hprocess
  · cases hstep

theorem Owned.fire_moves (h : Owned s) {timer : Nat} {workspaceFallbackRoot : Option String}
    (hstep : s.fire timer workspaceFallbackRoot = some t) :
    Supervisor.Moves s.supervisor t.supervisor := by
  unfold Transport.fire at hstep
  split at hstep
  · cases hstep
  rename_i due callback htimer
  split at hstep
  · cases hstep
  cases callback with
  | restart =>
    simp only at hstep
    split at hstep
    · cases hstep
      exact .refl
    · cases hstep
      have hstart := supervisor_start { s with
        timers := cancel s.timers (some timer)
        restartTimer := none } s.lastAnalysisRoot workspaceFallbackRoot
      exact hstart
  | stability =>
    cases hstep
    exact .refl
  | cleanRecycle =>
    cases hstep
    exact .refl
  | disconnect =>
    simp only at hstep
    split at hstep
    · cases hstep
      exact .refl
    · cases hstep
      obtain ⟨c, hc⟩ := Option.ne_none_iff_exists'.mp (h.disconnect timer due htimer).2
      have hprocess := (h.client c hc).1
      have hcrash := moves_fail (supervisor_cleanup { s with
          timers := cancel s.timers (some timer)
          disconnectTimer := none } true (.inl rfl)) hprocess
      rwa [← hprocess] at hcrash

theorem supervisor_disconnected (s : Transport) (client : Nat) :
    (s.disconnected client).supervisor = s.supervisor := by
  unfold disconnected
  split
  · rfl
  split <;> rfl

theorem Owned.step_moves (h : Owned s) {event : Event} (hstep : s.step event = some t)
    (hevent : event ≠ .shutdown) : Supervisor.Moves s.supervisor t.supervisor := by
  cases event with
  | elapsed millis =>
    cases hstep
    exact .refl
  | start analysisRoot workspaceFallbackRoot =>
    cases hstep
    exact supervisor_start s analysisRoot workspaceFallbackRoot
  | prepared attempt outcome => exact h.prepared_moves hstep
  | connected attempt outcome => exact connected_moves hstep
  | settled attempt =>
    simp only [Transport.step, Transport.settled] at hstep
    split at hstep
    · cases hstep
      split <;> exact .refl
    · cases hstep
  | childError child => exact childError_moves hstep
  | childExit child graceful => exact childExit_moves hstep
  | recycleRecorded =>
    simp only [Transport.step, Transport.recycleRecorded] at hstep
    split at hstep
    · cases hstep
    · cases hstep
      exact .refl
  | disconnected client =>
    cases hstep
    rw [supervisor_disconnected]
  | fire timer workspaceFallbackRoot => exact h.fire_moves hstep
  | restartFailed attempt =>
    simp only [Transport.step, Transport.restartFailed] at hstep
    split at hstep
    · cases hstep
      exact .refl
    · cases hstep
  | shutdown => exact absurd rfl hevent

theorem supervisor_shutdown (s : Transport) : s.shutdown.supervisor = s.supervisor.reset := by
  have hgone := s.supervisor_cleanup true (.inl rfl)
  apply Supervisor.ext
  · rfl
  · rfl
  · have hlaunched := congrArg Supervisor.launched hgone
    exact hlaunched
  · have hlive := congrArg Supervisor.live hgone
    exact hlive
  · rfl

/-! ## Runs -/

theorem run_cons {event : Event} {rest : List Event} (h : s.run (event :: rest) = some t) :
    ∃ next, s.step event = some next ∧ next.run rest = some t := Option.bind_eq_some_iff.mp h

theorem Owned.run (h : Owned s) {events : List Event} (hrun : s.run events = some t) : Owned t := by
  induction events generalizing s with
  | nil =>
    cases hrun
    exact h
  | cons event rest ih =>
    obtain ⟨next, hstep, hrest⟩ := run_cons hrun
    exact ih (h.step hstep) hrest

theorem Owned.run_sound (h : Owned s) (hsound : s.supervisor.Sound) {events : List Event}
    (hrun : s.run events = some t) : t.supervisor.Sound := by
  induction events generalizing s with
  | nil =>
    cases hrun
    exact hsound
  | cons event rest ih =>
    obtain ⟨next, hstep, hrest⟩ := run_cons hrun
    refine ih (h.step hstep) ?_ hrest
    by_cases hevent : event = .shutdown
    · subst hevent
      cases hstep
      rw [supervisor_shutdown]
      exact hsound.reset
    · exact (h.step_moves hstep hevent).sound hsound

theorem Owned.run_moves (h : Owned s) {events : List Event} (hrun : s.run events = some t)
    (hevents : .shutdown ∉ events) : Supervisor.Moves s.supervisor t.supervisor := by
  induction events generalizing s with
  | nil =>
    cases hrun
    exact .refl
  | cons event rest ih =>
    obtain ⟨next, hstep, hrest⟩ := run_cons hrun
    rw [List.mem_cons, not_or] at hevents
    exact (h.step_moves hstep fun heq => hevents.1 heq.symm).trans
      (ih (h.step hstep) hrest hevents.2)

theorem initial_sound : (supervisor {}).Sound := by
  constructor <;> simp [supervisor, charged]

def crashAndRestart : List Event :=
  [.start (some "/w") none, .prepared 0 .spawned, .connected 0 .sentHello, .settled 0,
    .childExit 0 false, .elapsed 1000, .fire 2 none, .prepared 1 .spawned]

/-- Once degraded, the transport stays degraded and spawns nothing, whatever happens, until a
shutdown. -/
theorem degraded_spawns_nothing (events later : List Event)
    (hrun : Transport.run {} events = some s) (hdegraded : s.degraded = true)
    (hlater : s.run later = some t) (hshutdown : .shutdown ∉ later) :
    t.degraded = true ∧ ∀ c, t.children c ≠ .unborn → s.children c ≠ .unborn := by
  obtain ⟨hlatched, hlaunched⟩ :=
    ((Owned.initial.run hrun).run_moves hlater hshutdown).of_latched hdegraded
  exact ⟨hlatched, fun c hborn => hlaunched.subset hborn⟩

theorem refused_launch_stays_degraded :
    ∃ t, Transport.run {} [.start (some "/w") none, .prepared 0 .refused, .settled 0,
      .start (some "/w") none] = some t ∧ t.degraded = true :=
  ⟨_, rfl, (degraded_spawns_nothing [.start (some "/w") none, .prepared 0 .refused]
    [.settled 0, .start (some "/w") none] rfl rfl rfl (by decide)).1⟩

end Transport
end ImportLens.Extension.DaemonTransport
