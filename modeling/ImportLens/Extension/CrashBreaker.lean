import ImportLens.Extension.DaemonSessions
import ImportLens.Support.Bursts

/-!
# The crash breaker of the transport

The transport forgets crashes in two ways: it drops those that left the window, and it
drops all of them once a session was stable for as long as the window.  Neither lets a
third crash within a window pass.
-/

namespace ImportLens.Extension.DaemonTransport

open ImportLens.Support

namespace Transport

variable {s t : Transport} {attempt child : Nat}

def sessionCrashes (s : Transport) : List Nat :=
  (s.crashes.filter fun crash => crash.generation = s.startGeneration).map Crash.instant

structure Watched (s : Transport) : Prop where
  past : ∀ crash ∈ s.crashes, crash.instant ≤ s.now ∧ crash.generation ≤ s.startGeneration
  kept : (recent crashWindowMs s.now s.sessionCrashes).Sublist s.crashTimes
  calm : s.degraded = false → Calm crashWindowMs maxCrashesInWindow s.sessionCrashes
  /-- A stable session is as long as the window, and no crash is younger than it. -/
  stability : ∀ id due, s.timers id = some ⟨due, .stability⟩ →
    s.stabilityTimer = some id ∧ s.client ≠ none ∧ ∀ t ∈ s.sessionCrashes, t + crashWindowMs ≤ due

/-- Nothing was counted between the two, and nothing forgotten. -/
structure SameCount (s t : Transport) : Prop where
  crashes : t.crashes = s.crashes
  generation : t.startGeneration = s.startGeneration
  now : t.now = s.now
  crashTimes : t.crashTimes = s.crashTimes
  degraded : t.degraded = false → s.degraded = false

namespace Watched

theorem initial : Watched {} := by
  constructor
  · intro crash hcrash
    cases hcrash
  · exact .slnil
  · exact fun _ => .nil (by decide)
  · intro id due htimer
    cases htimer

theorem of_same (h : Watched s) (hsame : SameCount s t)
    (hstability : ∀ id due, t.timers id = some ⟨due, .stability⟩ →
      s.timers id = some ⟨due, .stability⟩ ∧ t.stabilityTimer = some id ∧ t.client ≠ none) :
    Watched t := by
  have hsession : t.sessionCrashes = s.sessionCrashes := by
    rw [sessionCrashes, sessionCrashes, hsame.crashes, hsame.generation]
  constructor
  · rw [hsame.crashes, hsame.now, hsame.generation]
    exact h.past
  · rw [hsession, hsame.now, hsame.crashTimes]
    exact h.kept
  · rw [hsession]
    exact fun ht => h.calm (hsame.degraded ht)
  · intro id due htimer
    obtain ⟨hold, hfield, hclient⟩ := hstability id due htimer
    rw [hsession]
    exact ⟨hfield, hclient, (h.stability id due hold).2.2⟩

theorem past_session (h : Watched s) : ∀ t ∈ s.sessionCrashes, t ≤ s.now := by
  intro t ht
  obtain ⟨crash, hcrash, rfl⟩ := List.mem_map.mp ht
  exact (h.past crash (List.mem_of_mem_filter hcrash)).1

theorem recent_sublist_recentCrashTimes {log kept : List Nat} {now : Nat}
    (h : (recent crashWindowMs now log).Sublist kept) :
    (recent crashWindowMs now log).Sublist (recentCrashTimes kept now) := by
  have hself : recentCrashTimes (recent crashWindowMs now log) now =
      recent crashWindowMs now log := by
    apply List.filter_eq_self.mpr
    intro t ht
    have hrecent := List.of_mem_filter ht
    simp only [decide_eq_true_eq] at hrecent ⊢
    omega
  rw [← hself]
  exact h.filter _

theorem sessionCrashes_append (s : Transport) (crash : Crash)
    (hgeneration : crash.generation = s.startGeneration) :
    { s with crashes := s.crashes ++ [crash] }.sessionCrashes =
      s.sessionCrashes ++ [crash.instant] := by
  simp only [sessionCrashes, List.filter_append, List.map_append, List.filter_singleton,
    hgeneration, decide_true, cond_true, List.map_cons, List.map_nil]

@[simp] theorem sessionCrashes_handleCrash (s : Transport) (subject : Option Nat) :
    (s.handleCrash subject).sessionCrashes = s.sessionCrashes ++ [s.now] := by
  have hcounted := sessionCrashes_append s ⟨s.now, subject, s.startGeneration⟩ rfl
  simp only [Transport.handleCrash]
  split <;> exact hcounted

theorem handleCrash (h : Watched s) (hclient : s.client = none) (subject : Option Nat) :
    Watched (s.handleCrash subject) := by
  have hsession := sessionCrashes_handleCrash s subject
  have hpast : ∀ crash ∈ s.crashes ++ [⟨s.now, subject, s.startGeneration⟩],
      crash.instant ≤ s.now ∧ crash.generation ≤ s.startGeneration := by
    intro crash hcrash
    rcases List.mem_append.mp hcrash with hold | hnew
    · exact h.past crash hold
    · rw [List.mem_singleton.mp hnew]
      exact ⟨le_refl _, le_refl _⟩
  have hkept : (recent crashWindowMs s.now (s.sessionCrashes ++ [s.now])).Sublist
      (recentCrashTimes (s.crashTimes ++ [s.now]) s.now) := by
    apply recent_sublist_recentCrashTimes
    rw [recent_append (by decide)]
    exact h.kept.append_right [s.now]
  have hstability : ∀ id due, s.timers id ≠ some ⟨due, .stability⟩ := by
    intro id due htimer
    exact (h.stability id due htimer).2.1 hclient
  simp only [Transport.handleCrash] at hsession ⊢
  split
  · rename_i htrips
    rw [if_pos htrips] at hsession
    constructor
    · exact hpast
    · rw [hsession]
      exact hkept
    · intro hdegraded
      cases hdegraded
    · intro id due htimer
      exact absurd htimer (hstability id due)
  · rename_i hfew
    rw [if_neg hfew] at hsession
    constructor
    · exact hpast
    · rw [hsession]
      exact hkept
    · intro hdegraded
      rw [hsession]
      apply (h.calm hdegraded).record h.past_session
      have hlength := (recent_sublist_recentCrashTimes hkept).length_le
      simp only [shouldEnterCrashDegradedMode, decide_eq_true_eq, not_le] at hfew
      exact Nat.lt_of_le_of_lt hlength hfew
    · intro id due htimer
      simp only [Transport.scheduleRestart, arm_apply] at htimer
      split at htimer
      · cases htimer
      · exact absurd htimer (hstability id due)

theorem cleanup (h : Watched s) (killProcess : Bool) : Watched (s.cleanup killProcess) := by
  refine h.of_same ⟨rfl, rfl, rfl, rfl, id⟩ fun id due htimer => ?_
  simp only [Transport.cleanup] at htimer
  grind [h.stability id due]

theorem scheduleRestart (h : Watched s) (delay : Nat) : Watched (s.scheduleRestart delay) := by
  refine h.of_same ⟨rfl, rfl, rfl, rfl, id⟩ fun id due htimer => ?_
  simp only [Transport.scheduleRestart] at htimer ⊢
  grind [h.stability id due]

theorem clearDisconnectTimer (h : Watched s) : Watched s.clearDisconnectTimer := by
  refine h.of_same ⟨rfl, rfl, rfl, rfl, id⟩ fun id due htimer => ?_
  simp only [Transport.clearDisconnectTimer] at htimer ⊢
  grind [h.stability id due]

theorem of_same_timers (h : Watched s) (hsame : SameCount s t) (htimers : t.timers = s.timers)
    (hfield : t.stabilityTimer = s.stabilityTimer) (hclient : t.client = s.client) : Watched t := by
  refine h.of_same hsame fun id due htimer => ?_
  rw [htimers] at htimer
  obtain ⟨hfield', hclient', -⟩ := h.stability id due htimer
  rw [hfield, hclient]
  exact ⟨htimer, hfield', hclient'⟩

theorem vacate (h : Watched s) : Watched s.vacate := by
  unfold Transport.vacate
  split
  · exact h.cleanup true
  · exact h

theorem startDaemon (h : Watched s) (analysisRoot workspaceFallbackRoot : Option String) :
    Watched (s.startDaemon analysisRoot workspaceFallbackRoot) := by
  have hvacant := h.clearDisconnectTimer.vacate
  unfold Transport.startDaemon
  split
  · exact hvacant.of_same_timers ⟨rfl, rfl, rfl, rfl, id⟩ rfl rfl rfl
  · split <;> exact hvacant.of_same_timers ⟨rfl, rfl, rfl, rfl, id⟩ rfl rfl rfl

theorem start (h : Watched s) (analysisRoot workspaceFallbackRoot : Option String) :
    Watched (s.start analysisRoot workspaceFallbackRoot) := by
  have hwanted : Watched { s with isDisposed := false } :=
    h.of_same_timers ⟨rfl, rfl, rfl, rfl, id⟩ rfl rfl rfl
  simp only [Transport.start]
  split
  · exact hwanted
  split
  · exact hwanted
  split
  · exact hwanted
  split
  · exact hwanted
  exact hwanted.startDaemon analysisRoot workspaceFallbackRoot

theorem prepared (h : Watched s) (howned : Owned s) {outcome : Prepared}
    (hstep : s.prepared attempt outcome = some t) : Watched t := by
  unfold Transport.prepared at hstep
  split at hstep
  · rename_i root generation hphase
    have hended : Watched (s.endStart attempt) :=
      h.of_same_timers ⟨rfl, rfl, rfl, rfl, id⟩ rfl rfl rfl
    split at hstep
    · cases hstep
      exact { hended with }
    · rename_i hcurrent
      have hgeneration : generation = s.startGeneration := by tauto
      subst hgeneration
      obtain ⟨-, hprocess, hopen, -⟩ := howned.current attempt root hphase
      have hnone : s.process.isSome = false := by rw [hprocess, Option.isSome_none]
      have hclient := howned.client_none hprocess
      simp only [hnone, Bool.false_eq_true, if_false] at hstep
      cases outcome with
      | threw =>
        cases hstep
        exact hended
      | refused =>
        cases hstep
        exact hended.of_same_timers ⟨rfl, rfl, rfl, rfl, fun _ => hopen⟩ rfl rfl rfl
      | spawnThrew =>
        cases hstep
        exact hended.handleCrash hclient _
      | spawned =>
        cases hstep
        exact h.of_same_timers ⟨rfl, rfl, rfl, rfl, id⟩ rfl rfl rfl
  · cases hstep

theorem armStabilityReset (h : Watched s) (hclient : s.client ≠ none) :
    Watched s.armStabilityReset := by
  refine { h with stability := ?_ }
  intro id due htimer
  simp only [Transport.armStabilityReset, arm_apply] at htimer ⊢
  split at htimer
  · rename_i hid
    cases htimer
    refine ⟨congrArg some hid.symm, hclient, fun t ht => ?_⟩
    exact Nat.add_le_add_right (h.past_session t ht) _
  · grind [h.stability id due]

theorem armCleanRecycleReset (h : Watched s) : Watched s.armCleanRecycleReset := by
  refine h.of_same ⟨rfl, rfl, rfl, rfl, id⟩ fun id due htimer => ?_
  simp only [Transport.armCleanRecycleReset] at htimer ⊢
  grind [h.stability id due]

theorem connected (h : Watched s) (howned : Owned s) {outcome : Connected}
    (hstep : s.connected attempt outcome = some t) : Watched t := by
  unfold Transport.connected at hstep
  split at hstep
  · rename_i root generation hphase
    have hfailed : Watched ((s.endStart attempt).stopChild attempt) :=
      h.of_same_timers ⟨rfl, rfl, rfl, rfl, id⟩ rfl rfl rfl
    split at hstep
    · cases hstep
      exact hfailed
    · rename_i hcurrent
      have hprocess : s.process = some attempt := by tauto
      have hclient := howned.client_none_of_connecting hprocess hphase
      have hquiet : ∀ id due, s.timers id ≠ some ⟨due, .stability⟩ := by
        intro id due htimer
        exact (h.stability id due htimer).2.1 hclient
      have hlost : Watched { (s.endStart attempt).stopChild attempt with
          client := none
          process := none } :=
        hfailed.of_same ⟨rfl, rfl, rfl, rfl, id⟩ fun id due htimer =>
          absurd htimer (hquiet id due)
      cases outcome with
      | sentHello =>
        cases hstep
        apply armCleanRecycleReset
        apply armStabilityReset
        · exact h.of_same ⟨rfl, rfl, rfl, rfl, id⟩ fun id due htimer =>
            absurd htimer (hquiet id due)
        · exact Option.some_ne_none attempt
      | failed =>
        cases hstep
        exact hlost.handleCrash rfl _
      | helloThrew =>
        cases hstep
        exact hlost.handleCrash rfl _
  · cases hstep

theorem childError (h : Watched s) (hstep : s.childError child = some t) : Watched t := by
  unfold Transport.childError at hstep
  split at hstep
  · cases hstep
  split at hstep
  · cases hstep
    exact h
  cases hstep
  have hdropped : Watched { s with startPromise := none } :=
    h.of_same_timers ⟨rfl, rfl, rfl, rfl, id⟩ rfl rfl rfl
  exact (hdropped.cleanup true).handleCrash rfl _

theorem childExit (h : Watched s) {graceful : Bool}
    (hstep : s.childExit child graceful = some t) : Watched t := by
  unfold Transport.childExit at hstep
  split at hstep
  · simp only at hstep
    split at hstep
    · cases hstep
      exact h.of_same_timers ⟨rfl, rfl, rfl, rfl, id⟩ rfl rfl rfl
    · cases hstep
      have hdropped : Watched { s.markExited child with startPromise := none } :=
        h.of_same_timers ⟨rfl, rfl, rfl, rfl, id⟩ rfl rfl rfl
      have hclean := hdropped.clearDisconnectTimer.cleanup false
      simp only [handleProcessExit]
      split
      · exact hdropped
      split
      · exact hclean.of_same_timers ⟨rfl, rfl, rfl, rfl, id⟩ rfl rfl rfl
      · exact hclean.handleCrash rfl _
  · cases hstep

theorem disconnected (h : Watched s) (client : Nat) : Watched (s.disconnected client) := by
  unfold Transport.disconnected
  split
  · exact h
  split
  · exact h
  refine h.of_same ⟨rfl, rfl, rfl, rfl, id⟩ fun id due htimer => ?_
  grind [h.stability id due]

theorem fire (h : Watched s) {timer : Nat} {workspaceFallbackRoot : Option String}
    (hstep : s.fire timer workspaceFallbackRoot = some t) : Watched t := by
  unfold Transport.fire at hstep
  split at hstep
  · cases hstep
  rename_i due callback htimer
  split at hstep
  · cases hstep
  rename_i hdue
  have hfired : Watched { s with timers := cancel s.timers (some timer) } := by
    refine h.of_same ⟨rfl, rfl, rfl, rfl, id⟩ fun id due htimer => ?_
    grind [h.stability id due]
  cases callback with
  | restart =>
    have hcleared : Watched { s with
        timers := cancel s.timers (some timer)
        restartTimer := none } :=
      hfired.of_same_timers ⟨rfl, rfl, rfl, rfl, id⟩ rfl rfl rfl
    simp only at hstep
    split at hstep
    · cases hstep
      exact hcleared
    · cases hstep
      exact { hcleared.start s.lastAnalysisRoot workspaceFallbackRoot with }
  | stability =>
    cases hstep
    obtain ⟨hfield, -, hold⟩ := h.stability timer due htimer
    have hnone : recent crashWindowMs s.now s.sessionCrashes = [] := by
      apply recent_eq_nil
      intro t ht
      have := hold t ht
      omega
    refine { hfired with kept := ?_ }
    change (recent crashWindowMs s.now s.sessionCrashes).Sublist []
    rw [hnone]
  | cleanRecycle =>
    cases hstep
    exact hfired
  | disconnect =>
    have hcleared : Watched { s with
        timers := cancel s.timers (some timer)
        disconnectTimer := none } :=
      hfired.of_same_timers ⟨rfl, rfl, rfl, rfl, id⟩ rfl rfl rfl
    simp only at hstep
    split at hstep
    · cases hstep
      exact hcleared
    · cases hstep
      exact (hcleared.cleanup true).handleCrash rfl _

theorem shutdown (h : Watched s) : Watched s.shutdown := by
  have hsession : s.shutdown.sessionCrashes = [] := by
    rw [sessionCrashes, List.map_eq_nil_iff, List.filter_eq_nil_iff]
    intro crash hcrash
    have hgeneration := (h.past crash hcrash).2
    have hnext : s.shutdown.startGeneration = s.startGeneration + 1 := rfl
    rw [decide_eq_true_eq]
    omega
  constructor
  · intro crash hcrash
    obtain ⟨hpast, hgeneration⟩ := h.past crash hcrash
    exact ⟨hpast, Nat.le_succ_of_le hgeneration⟩
  · rw [hsession]
    exact .slnil
  · rw [hsession]
    exact fun _ => .nil (by decide)
  · intro id due htimer
    simp only [Transport.shutdown] at htimer
    grind [h.stability id due]

theorem elapsed (h : Watched s) (millis : Nat) : Watched { s with now := s.now + millis } := by
  refine { h with
    past := ?_
    kept := (recent_later (Nat.le_add_right s.now millis)).trans h.kept }
  intro crash hcrash
  obtain ⟨hpast, hgeneration⟩ := h.past crash hcrash
  exact ⟨Nat.le_add_right_of_le hpast, hgeneration⟩

theorem step (h : Watched s) (howned : Owned s) {event : Event} (hstep : s.step event = some t) :
    Watched t := by
  cases event with
  | elapsed millis =>
    cases hstep
    exact h.elapsed millis
  | start analysisRoot workspaceFallbackRoot =>
    cases hstep
    exact h.start analysisRoot workspaceFallbackRoot
  | prepared attempt outcome => exact h.prepared howned hstep
  | connected attempt outcome => exact h.connected howned hstep
  | settled attempt =>
    simp only [Transport.step, Transport.settled] at hstep
    split at hstep
    · cases hstep
      split
      · exact h.of_same_timers ⟨rfl, rfl, rfl, rfl, id⟩ rfl rfl rfl
      · exact h
    · cases hstep
  | childError child => exact h.childError hstep
  | childExit child graceful => exact h.childExit hstep
  | recycleRecorded =>
    simp only [Transport.step, Transport.recycleRecorded] at hstep
    split at hstep
    · cases hstep
    · cases hstep
      apply scheduleRestart
      exact h.of_same_timers ⟨rfl, rfl, rfl, rfl, id⟩ rfl rfl rfl
  | disconnected client =>
    cases hstep
    exact h.disconnected client
  | fire timer workspaceFallbackRoot => exact h.fire hstep
  | restartFailed attempt =>
    simp only [Transport.step, Transport.restartFailed] at hstep
    split at hstep
    · cases hstep
      exact h.of_same_timers ⟨rfl, rfl, rfl, rfl, id⟩ rfl rfl rfl
    · cases hstep
  | shutdown =>
    cases hstep
    exact h.shutdown

theorem run (h : Watched s) (howned : Owned s) {events : List Event}
    (hrun : s.run events = some t) : Watched t := by
  induction events generalizing s with
  | nil =>
    cases hrun
    exact h
  | cons event rest ih =>
    obtain ⟨next, hstep, hrest⟩ := run_cons hrun
    exact ih (h.step howned hstep) (howned.step hstep) hrest

end Watched

/-- Three crashes within a minute, since the last shutdown, leave the transport degraded,
whatever it forgot of them. -/
theorem burst_of_crashes_degrades (events : List Event) (opens : Nat)
    (hrun : Transport.run {} events = some t)
    (hburst : maxCrashesInWindow ≤ t.sessionCrashes.countP fun instant =>
      decide (opens ≤ instant ∧ instant < opens + crashWindowMs)) : t.degraded = true := by
  have hwatched := Watched.initial.run .initial hrun
  by_contra hdegraded
  have hcalm := hwatched.calm (Bool.eq_false_iff.mpr hdegraded) opens
  omega

def threeFailedSpawns : List Event :=
  [.start (some "/w") none, .prepared 0 .spawnThrew, .settled 0,
    .elapsed 1000, .fire 0 (some "/w"), .prepared 1 .spawnThrew, .settled 1,
    .elapsed 2000, .fire 1 (some "/w"), .prepared 2 .spawnThrew]

theorem three_failed_spawns_degrade :
    ∃ t, Transport.run {} threeFailedSpawns = some t ∧ t.sessionCrashes = [0, 1000, 3000] ∧
      t.degraded = true :=
  ⟨_, rfl, by decide, burst_of_crashes_degrades threeFailedSpawns 0 rfl (by decide)⟩

end Transport
end ImportLens.Extension.DaemonTransport
