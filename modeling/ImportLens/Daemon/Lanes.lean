import ImportLens.Support.Interleaving

/-!
# Bounded lanes

A lane queues jobs and runs at most `limit` runners over the queue.  A spawner
that finds the lane below its limit counts a runner under the lock and starts it
afterwards: a new thread, or the spawner itself when no thread can be had.  A
runner takes jobs until the queue is empty and uncounts itself in the section
that found it empty.

Jobs are numbered in the order they are queued.  A job that spawns is a spawner
like any other, so a call from inside a job is a call of some other thread.
-/

namespace ImportLens.Daemon.Lanes

open ImportLens.Support

/-- `LaneState`. -/
structure Shared where
  queue : List Nat
  running : Nat
  /-- Threads that were started for a runner and have not begun. -/
  starting : Nat
  /-- History: the jobs queued so far. -/
  spawned : Nat
  /-- History: the jobs taken so far, in this order. -/
  taken : List Nat

inductive Position
  | idle
  /-- A spawner that has counted a runner and has yet to start it. -/
  | startRunner
  /-- A runner about to lock the state. -/
  | drain
  | run (job : Nat)
  deriving DecidableEq

inductive Call
  | spawn
  /-- A started thread begins. -/
  | begin
  deriving DecidableEq

structure Action where
  call : Call := .spawn
  /-- Whether the system gives the lane a thread. -/
  threadStarts : Bool := true

/-- `Lane::new`: a lane runs at least one job. -/
def limit (width : Nat) : Nat := max width 1

/-- The critical section of `Lane::spawn`. -/
def spawn (width : Nat) (s : Shared) : Shared × Position :=
  let queued := { s with queue := s.queue ++ [s.spawned], spawned := s.spawned + 1 }
  if s.running < limit width then ({ queued with running := s.running + 1 }, .startRunner)
  else (queued, .idle)

/-- The critical section of `Lane::drain`. -/
def drain (s : Shared) : Shared × Position :=
  match s.queue with
  | job :: rest => ({ s with queue := rest, taken := s.taken ++ [job] }, .run job)
  | [] => ({ s with running := s.running - 1 }, .idle)

def program (width : Nat) : Program Shared Position Action := fun _ a s position =>
  match position with
  | .idle =>
      match a.call with
      | .spawn => some (spawn width s)
      | .begin =>
          if s.starting = 0 then none else some ({ s with starting := s.starting - 1 }, .drain)
  | .startRunner =>
      if a.threadStarts then some ({ s with starting := s.starting + 1 }, .idle)
      -- out of threads: the spawner drains
      else some (s, .drain)
  | .drain => some (drain s)
  -- the job returns or panics; a panic is caught and the runner moves on
  | .run _ => some (s, .drain)

def empty : Config Shared Position where
  shared := { queue := [], running := 0, starting := 0, spawned := 0, taken := [] }
  thread _ := .idle

/-! ## Runners -/

def Position.isRunner : Position → Prop
  | .idle => False
  | .startRunner | .drain | .run _ => True

theorem Position.not_isRunner_idle : ¬ Position.idle.isRunner := id

theorem Position.isRunner_iff {p : Position} : p.isRunner ↔ p ≠ .idle := by
  cases p <;> simp [isRunner]

/-- What holds in every configuration. -/
structure Sound (width : Nat) (c : Config Shared Position) : Prop where
  counted : ∃ n, Counts Position.isRunner c.thread n ∧ c.shared.running = c.shared.starting + n
  bounded : c.shared.running ≤ limit width
  served : c.shared.queue ≠ [] → 0 < c.shared.running
  order : c.shared.taken ++ c.shared.queue = List.range c.shared.spawned

theorem sound_empty (width : Nat) : Sound width empty where
  counted := ⟨0, .none_at fun _ h => h, rfl⟩
  bounded := Nat.zero_le _
  served h := absurd rfl h
  order := rfl

theorem limit_pos (width : Nat) : 0 < limit width := by
  unfold limit
  omega

variable {width : Nat} {c d : Config Shared Position} {t : Nat} {a : Action}

theorem Sound.spawn (hc : Sound width c) (hthread : c.thread t = .idle) :
    Sound width ⟨(spawn width c.shared).1,
      Function.update c.thread t (spawn width c.shared).2⟩ := by
  obtain ⟨n, hcount, hrunning⟩ := hc.counted
  have hout : ¬ (c.thread t).isRunner := by simp [hthread, Position.isRunner_iff]
  have hlimit := limit_pos width
  have horder : c.shared.taken ++ (c.shared.queue ++ [c.shared.spawned]) =
      List.range (c.shared.spawned + 1) := by
    rw [← List.append_assoc, hc.order, List.range_succ]
  unfold Lanes.spawn
  split
  · rename_i hbelow
    refine ⟨⟨n + 1, hcount.enter hout trivial, ?_⟩, hbelow, fun _ => Nat.succ_pos _, horder⟩
    change c.shared.running + 1 = c.shared.starting + (n + 1)
    omega
  · rename_i hfull
    refine ⟨⟨n, hcount.stay ?_, hrunning⟩, hc.bounded, fun _ => ?_, horder⟩
    · simp [hthread]
    · change 0 < c.shared.running
      omega

theorem Sound.drain (hc : Sound width c) (hthread : c.thread t = .drain) :
    Sound width ⟨(drain c.shared).1, Function.update c.thread t (drain c.shared).2⟩ := by
  obtain ⟨n, hcount, hrunning⟩ := hc.counted
  have hin : (c.thread t).isRunner := by simp [hthread, Position.isRunner_iff]
  have horder := hc.order
  unfold Lanes.drain
  cases hqueue : c.shared.queue with
  | cons job rest =>
      refine ⟨⟨n, hcount.stay ?_, hrunning⟩, hc.bounded, fun _ => ?_, ?_⟩
      · simp [hthread, Position.isRunner]
      · exact hc.served (by simp [hqueue])
      · rw [hqueue] at horder
        simpa using horder
  | nil =>
      obtain ⟨m, rfl, hleft⟩ := hcount.leave hin Position.not_isRunner_idle
      refine ⟨⟨m, hleft, ?_⟩, ?_, fun h => absurd rfl h, ?_⟩
      · change c.shared.running - 1 = c.shared.starting + m
        omega
      · exact (Nat.sub_le _ _).trans hc.bounded
      · rw [hqueue] at horder
        simpa using horder

theorem sound_step (hc : Sound width c) (h : c.step (program width) t a = some d) :
    Sound width d := by
  obtain ⟨shared, position, hprog, rfl⟩ := Config.step_eq_some h
  obtain ⟨n, hcount, hrunning⟩ := hc.counted
  cases hthread : c.thread t with
  | idle =>
      simp only [hthread, program] at hprog
      split at hprog
      · have hsound := hc.spawn hthread
        rw [Option.some.inj hprog] at hsound
        exact hsound
      · split at hprog
        · cases hprog
        · rename_i hstarting
          cases hprog
          have hout : ¬ (c.thread t).isRunner := by simp [hthread, Position.isRunner_iff]
          refine ⟨⟨n + 1, hcount.enter hout trivial, ?_⟩, hc.bounded, hc.served, hc.order⟩
          change c.shared.running = c.shared.starting - 1 + (n + 1)
          omega
  | startRunner =>
      have hin : (c.thread t).isRunner := by simp [hthread, Position.isRunner_iff]
      simp only [hthread, program] at hprog
      split at hprog
      · cases hprog
        obtain ⟨m, rfl, hleft⟩ := hcount.leave hin Position.not_isRunner_idle
        refine ⟨⟨m, hleft, ?_⟩, hc.bounded, hc.served, hc.order⟩
        change c.shared.running = c.shared.starting + 1 + m
        omega
      · cases hprog
        exact ⟨⟨n, hcount.stay (by simp [hthread, Position.isRunner]), hrunning⟩,
          hc.bounded, hc.served, hc.order⟩
  | drain =>
      simp only [hthread, program] at hprog
      have hsound := hc.drain hthread
      rw [Option.some.inj hprog] at hsound
      exact hsound
  | run job =>
      simp only [hthread, program] at hprog
      cases hprog
      exact ⟨⟨n, hcount.stay (by simp [hthread, Position.isRunner]), hrunning⟩,
        hc.bounded, hc.served, hc.order⟩

theorem sound_of_runs {guard : Config Shared Position → Nat → Action → Prop}
    {acts : List (Nat × Action)} (h : Runs (program width) guard c acts d) (hc : Sound width c) :
    Sound width d :=
  h.invariant (fun _ _ _ _ _ hstep hs => sound_step hs hstep) hc

/-! ## No job is stranded -/

def OfRunner (c : Config Shared Position) (t : Nat) (a : Action) : Prop :=
  c.thread t = .idle → a.call = .begin

theorem drains_queue {queue : List Nat} (hqueue : c.shared.queue = queue)
    (hthread : c.thread t = .drain) :
    ∃ acts d, Runs (program width) OfRunner c acts d ∧ d.shared.queue = [] ∧
      d.shared.spawned = c.shared.spawned := by
  induction queue generalizing c with
  | nil => exact ⟨[], c, .refl c, hqueue, rfl⟩
  | cons job rest ih =>
      let taken : Shared := { c.shared with queue := rest, taken := c.shared.taken ++ [job] }
      let running : Config Shared Position := ⟨taken, Function.update c.thread t (.run job)⟩
      let back : Config Shared Position := ⟨taken, Function.update running.thread t .drain⟩
      have htake : c.step (program width) t {} = some running := by
        simp [Config.step, program, hthread, drain, hqueue, running, taken]
      have hrun : running.step (program width) t {} = some back := by
        simp [Config.step, program, running, back]
      obtain ⟨acts, d, hruns, hempty, hspawned⟩ := ih (c := back) rfl (by simp [back])
      refine ⟨_, d, .cons ?_ htake (.cons ?_ hrun hruns), hempty, hspawned⟩
      · intro hidle
        simp [hthread] at hidle
      · intro hidle
        simp [running] at hidle

theorem Sound.drains (hc : Sound width c) :
    ∃ acts d, Runs (program width) OfRunner c acts d ∧ d.shared.queue = [] ∧
      d.shared.spawned = c.shared.spawned := by
  by_cases hqueue : c.shared.queue = []
  · exact ⟨[], c, .refl c, hqueue, rfl⟩
  · obtain ⟨n, hcount, hrunning⟩ := hc.counted
    have hpos := hc.served hqueue
    -- bring one runner to the lock
    suffices hlock : ∃ (t : Nat) (a : Action) (next : Config Shared Position), OfRunner c t a ∧
        (next = c ∨ c.step (program width) t a = some next) ∧ next.thread t = .drain ∧
        next.shared.spawned = c.shared.spawned by
      obtain ⟨t, a, next, hguard, hnext, hthread, hspawned⟩ := hlock
      obtain ⟨acts, d, hruns, hempty, hlast⟩ : ∃ acts d, Runs (program width) OfRunner next acts d ∧
          d.shared.queue = [] ∧ d.shared.spawned = next.shared.spawned := drains_queue rfl hthread
      rcases hnext with rfl | hstep
      · exact ⟨acts, d, hruns, hempty, hlast⟩
      · exact ⟨_, d, .cons hguard hstep hruns, hempty, hlast.trans hspawned⟩
    by_cases hstarting : c.shared.starting = 0
    · obtain ⟨t, ht⟩ := hcount.exists_of_pos (by omega)
      have hguard : ∀ a, OfRunner c t a := fun a hidle => absurd hidle (Position.isRunner_iff.mp ht)
      cases hthread : c.thread t with
      | idle => exact absurd hthread (Position.isRunner_iff.mp ht)
      | startRunner =>
          exact ⟨t, { threadStarts := false }, ⟨c.shared, Function.update c.thread t .drain⟩,
            hguard _, .inr (by simp [Config.step, program, hthread]), by simp, rfl⟩
      | drain => exact ⟨t, {}, c, hguard _, .inl rfl, hthread, rfl⟩
      | run job =>
          exact ⟨t, {}, ⟨c.shared, Function.update c.thread t .drain⟩, hguard _,
            .inr (by simp [Config.step, program, hthread]), by simp, rfl⟩
    · obtain ⟨t, ht⟩ := hcount.exists_not
      have hthread : c.thread t = .idle := by
        by_contra hne
        exact ht (Position.isRunner_iff.mpr hne)
      exact ⟨t, { call := .begin },
        ⟨{ c.shared with starting := c.shared.starting - 1 }, Function.update c.thread t .drain⟩,
        fun _ => rfl, .inr (by simp [Config.step, program, hthread, hstarting]), by simp, rfl⟩

/-! ## Scheduling -/

/-- Every interleaving of spawns and runners: the counted runners are those that
run or are being started, within the limit; a job in the queue has a runner;
`running` is never taken below zero; and the jobs are taken in the order they
were queued, each of them once, the queued ones by the runners there are. -/
theorem lane_schedules {acts : List (Nat × Action)}
    (h : Runs (program width) (fun _ _ _ => True) empty acts c) :
    (∃ n, Counts Position.isRunner c.thread n ∧ c.shared.running = c.shared.starting + n) ∧
    c.shared.running ≤ limit width ∧
    (c.shared.queue ≠ [] → 0 < c.shared.starting ∨ ∃ t, (c.thread t).isRunner) ∧
    (∀ t, c.thread t = .drain → 0 < c.shared.running) ∧
    c.shared.taken ++ c.shared.queue = List.range c.shared.spawned ∧
    ∃ more d, Runs (program width) OfRunner c more d ∧
      d.shared.taken = List.range c.shared.spawned := by
  have hc := sound_of_runs h (sound_empty width)
  obtain ⟨n, hcount, hrunning⟩ := hc.counted
  refine ⟨hc.counted, hc.bounded, ?_, ?_, hc.order, ?_⟩
  · intro hqueue
    have hpos := hc.served hqueue
    by_cases hstarting : 0 < c.shared.starting
    · exact .inl hstarting
    · exact .inr (hcount.exists_of_pos (by omega))
  · intro t ht
    have hpos := hcount.pos (t := t) (by simp [ht, Position.isRunner])
    omega
  · obtain ⟨more, d, hruns, hempty, hspawned⟩ := hc.drains
    have horder := (sound_of_runs hruns hc).order
    rw [hempty, List.append_nil, hspawned] at horder
    exact ⟨more, d, hruns, horder⟩

/-- A lane of width one with a job running and a job queued. -/
theorem lane_of_one_schedules :
    ∃ c : Config Shared Position, c.thread 1 = .run 0 ∧ c.shared.queue = [1] ∧
      c.shared.running ≤ 1 ∧ ∃ more d, Runs (program 1) OfRunner c more d ∧
        d.shared.taken = [0, 1] := by
  have hrun : ((empty.run (program 1) (fun _ _ _ => True)
      [(0, {}), (0, {}), (1, { call := .begin }), (1, {}), (0, {})]).any fun c =>
      decide (c.thread 1 = .run 0 ∧ c.shared.queue = [1] ∧ c.shared.spawned = 2)) = true := by
    decide
  obtain ⟨c, hc, htest⟩ := Runs.of_run_any hrun
  obtain ⟨hthread, hqueue, hspawned⟩ := of_decide_eq_true htest
  obtain ⟨_, hbounded, _, _, _, more, d, hmore, htaken⟩ := lane_schedules hc
  rw [hspawned] at htaken
  exact ⟨c, hthread, hqueue, hbounded, more, d, hmore, htaken⟩

end ImportLens.Daemon.Lanes
