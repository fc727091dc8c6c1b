import ImportLens.Ipc.Connection

/-!
# The invalidation barrier

An invalidation runs beside the loop, and the loop reads no frame until it has
settled.  The loop knows the pending invalidation by one receiver, which the
select, the close and, through the tracked tasks, the recycle look at.
-/

namespace ImportLens.Ipc.Connection

open ImportLens.Support

variable {ρ : Type} {wire : Wire ρ} {s s' : Shared ρ} {l l' : Loop} {a : Action ρ}

def Place.isCalm : Place → Bool
  | .handle _ | .join _ | .drainOutbound _ | .ended _ => true
  | _ => false

def Calm (s : Shared ρ) : Prop :=
  ∀ (k : Nat) (message : Message) (p : Progress Finish),
    s.tasks[k]? = some (.invalidation message p) → p.isSettled = true

def invalidating (handled : List (Message × Bool)) : List Message :=
  (handled.filter fun entry => entry.2 && entry.1.invalidates).map Prod.fst

/-- What holds of the loop and its invalidations in every configuration. -/
structure Barrier (s : Shared ρ) (l : Loop) : Prop where
  tracked : ∀ (k : Nat) (task : Task ρ), s.tasks[k]? = some task → task.isFinished = false →
    k ∈ l.activeTasks
  pending : ∀ (k : Nat) (message : Message) (p : Progress Finish),
    s.tasks[k]? = some (.invalidation message p) → p.isSettled = false → l.invalidation = some k
  calm : l.place.isCalm = true → Calm s
  causes : s.tasks.filterMap Task.cause = invalidating s.handled

theorem barrier_started : Barrier ({} : Shared ρ) {} where
  tracked _ _ h := by cases h
  pending _ _ _ h := by cases h
  calm h := by cases h
  causes := rfl

theorem Progress.isSettled_of_isFinished {α : Type} {p : Progress α} (h : p.isFinished = true) :
    p.isSettled = true := by
  cases p with
  | finished => rfl
  | _ => cases h

theorem Progress.isRunning_of_isSettled {α : Type} {p : Progress α} (h : p.isSettled = true) :
    p.isRunning = false := by
  cases p with
  | running => cases h
  | _ => rfl

theorem Barrier.calm_of_none (h : Barrier s l) (hnone : l.invalidation = none) : Calm s := by
  intro k message p htask
  by_contra hunsettled
  have hpending := h.pending k message p htask (eq_false_of_ne_true hunsettled)
  rw [hnone] at hpending
  cases hpending

theorem mem_reap {k : Nat} {active : List Nat} {task : Task ρ} (hk : k ∈ active)
    (htask : s.tasks[k]? = some task) (hunfinished : task.isFinished = false) :
    k ∈ s.reap active :=
  List.mem_filter.mpr ⟨hk, by simp [htask, hunfinished]⟩

theorem Barrier.tracked_reap (h : Barrier s l) {k : Nat} {task : Task ρ}
    (htask : s.tasks[k]? = some task) (hunfinished : task.isFinished = false) :
    k ∈ s.reap l.activeTasks :=
  mem_reap (h.tracked k task htask hunfinished) htask hunfinished

theorem Barrier.calm_of_reap (h : Barrier s l) (hnone : s.reap l.activeTasks = []) : Calm s := by
  intro k message p htask
  by_contra hunsettled
  have hunfinished : Task.isFinished (.invalidation message p : Task ρ) = false := by
    by_contra hfinished
    exact hunsettled (Progress.isSettled_of_isFinished (eq_true_of_ne_false hfinished))
  have hmem := h.tracked_reap htask hunfinished
  rw [hnone] at hmem
  cases hmem

/-- The loop moves on without a new task or message. -/
theorem Barrier.moves (h : Barrier s l) (htasks : s'.tasks = s.tasks)
    (hhandled : s'.handled = s.handled)
    (htracked : ∀ (k : Nat) (task : Task ρ), s.tasks[k]? = some task → task.isFinished = false →
      k ∈ l'.activeTasks)
    (hpending : l'.invalidation = l.invalidation ∨ Calm s)
    (hcalm : l'.place.isCalm = true → Calm s) : Barrier s' l' := by
  refine ⟨?_, ?_, ?_, ?_⟩
  · rw [htasks]
    exact htracked
  · rw [htasks]
    intro k message p htask hunsettled
    rcases hpending with hsame | hall
    · rw [hsame]
      exact h.pending k message p htask hunsettled
    · rw [hall k message p htask] at hunsettled
      cases hunsettled
  · intro hplace k message p htask
    rw [htasks] at htask
    exact hcalm hplace k message p htask
  · rw [htasks, hhandled]
    exact h.causes

theorem Barrier.recycle (h : Barrier s l) (shouldRecycle helloReceived : Bool) :
    Barrier s (recycleIfNeeded s { l with helloReceived := helloReceived } shouldRecycle) := by
  unfold recycleIfNeeded
  split
  · split
    · rename_i hnone
      refine h.moves rfl rfl ?_ (.inl rfl) fun _ => h.calm_of_reap hnone
      intro k task htask hunfinished
      have hmem := h.tracked_reap htask hunfinished
      rw [hnone] at hmem
      cases hmem
    · exact h.moves rfl rfl (fun k task => h.tracked_reap) (.inl rfl) nofun
  · exact h.moves rfl rfl h.tracked (.inl rfl) nofun

theorem barrier_select (h : Barrier s l) (hplace : l.place = .select)
    (hstep : select s l a = some (s', l')) : Barrier s' l' := by
  have hnot : l.place.isCalm = true → Calm s := by
    rw [hplace]
    exact nofun
  unfold select at hstep
  split at hstep
  · split at hstep
    · rename_i k hpending
      split at hstep
      · rename_i hsettled
        cases hstep
        -- the settled one is the only one that could be pending
        refine h.moves rfl rfl h.tracked (.inr ?_) hnot
        intro j message p htask
        by_contra hunsettled
        have hj := h.pending j message p htask (eq_false_of_ne_true hunsettled)
        rw [hpending] at hj
        cases hj
        rw [Shared.settled, htask] at hsettled
        exact hunsettled hsettled
      · cases hstep
    · cases hstep
  · split at hstep
    · cases hstep
    · split at hstep
      · cases hstep
        exact h.moves rfl rfl h.tracked (.inl rfl) hnot
      · cases hstep
        exact h.moves rfl rfl h.tracked (.inl rfl) nofun
  · split at hstep
    · rename_i hnone
      split at hstep <;> cases hstep
      · exact h.moves rfl rfl h.tracked (.inl rfl) fun _ => h.calm_of_none hnone
      · exact h
      · exact h.moves rfl rfl h.tracked (.inl rfl) nofun
      · exact h.moves rfl rfl h.tracked (.inl rfl) nofun
    · cases hstep
  · cases hstep
    exact h.recycle a.shouldRecycle l.helloReceived

/-- The loop spawns a task. -/
theorem Barrier.spawn (h : Barrier s l) (hcalm : Calm s) {task : Task ρ} {place : Place}
    {message : Message} {requests : List Request}
    (hplace : place.isCalm = false)
    (hcause : invalidating (s.handled ++ [(message, l.helloReceived)]) =
      invalidating s.handled ++ task.cause.toList)
    {invalidation : Option Nat}
    (hpending : ∀ m p, task = .invalidation m p → invalidation = some s.tasks.length) :
    Barrier
      { s with
        tasks := s.tasks ++ [task]
        handled := s.handled ++ [(message, l.helloReceived)]
        requests := requests }
      { l.track s with invalidation := invalidation, place := place } := by
  refine ⟨?_, ?_, ?_, ?_⟩
  · intro k other hother hunfinished
    refine List.mem_append.mpr ?_
    rcases getElem?_concat_cases hother with hold | ⟨rfl, _⟩
    · exact .inl (h.tracked_reap hold hunfinished)
    · exact .inr (List.mem_singleton.mpr rfl)
  · intro k m p hother hunsettled
    rcases getElem?_concat_cases hother with hold | ⟨rfl, rfl⟩
    · rw [hcalm k m p hold] at hunsettled
      cases hunsettled
    · exact hpending m p rfl
  · intro hcalm'
    rw [hplace] at hcalm'
    cases hcalm'
  · simp only [List.filterMap_append, h.causes, hcause]
    cases hc : task.cause <;> simp [hc]

/-- A message that asks for no invalidation leaves the record as it is. -/
theorem invalidating_append (handled : List (Message × Bool)) (message : Message)
    (helloReceived : Bool) :
    invalidating (handled ++ [(message, helloReceived)]) =
      invalidating handled ++
        if helloReceived && message.invalidates then [message] else [] := by
  unfold invalidating
  cases hinvalidates : (helloReceived && message.invalidates) <;> simp [hinvalidates]

theorem barrier_handle (wire : Wire ρ) (h : Barrier s l) {message : Message}
    (hplace : l.place = .handle message)
    (shouldRecycle : Bool) :
    Barrier
      (handle wire { s with handled := s.handled ++ [(message, l.helloReceived)] } l shouldRecycle
        message).1
      (handle wire { s with handled := s.handled ++ [(message, l.helloReceived)] } l shouldRecycle
        message).2 := by
  have hcalm : Calm s := h.calm (by rw [hplace]; rfl)
  have hcauses := invalidating_append s.handled message l.helloReceived
  -- the message is on record and asks for no invalidation
  have hquiet : (l.helloReceived && message.invalidates) = false →
      Barrier { s with handled := s.handled ++ [(message, l.helloReceived)] } l := by
    intro hnone
    rw [hnone] at hcauses
    exact ⟨h.tracked, h.pending, h.calm, h.causes.trans (by simpa using hcauses.symm)⟩
  have hselect : ∀ {s' : Shared ρ}, (l.helloReceived && message.invalidates) = false →
      s'.tasks = s.tasks → s'.handled = s.handled ++ [(message, l.helloReceived)] →
      Barrier s' { l with place := .select } := by
    intro s' hnone htasks hhandled
    exact (hquiet hnone).moves htasks hhandled h.tracked (.inl rfl) nofun
  have hignored : message.invalidates = false →
      (l.helloReceived && message.invalidates) = false := by
    intro hnone
    rw [hnone, Bool.and_false]
  have hinvalidation : ∀ (s' : Shared ρ) (l' : Loop),
      (s', l') = (if l.helloReceived ∧ message.invalidates = true then
        spawnInvalidation { s with handled := s.handled ++ [(message, l.helloReceived)] } l message
        else ({ s with handled := s.handled ++ [(message, l.helloReceived)] },
          { l with place := .select })) → Barrier s' l' := by
    intro s' l' heq
    split at heq
    · rename_i hasks
      cases heq
      refine h.spawn hcalm rfl ?_ fun m p _ => rfl
      rw [hcauses, hasks.1, hasks.2]
      rfl
    · rename_i hasks
      cases heq
      refine hselect ?_ rfl rfl
      simpa [Bool.and_eq_true] using hasks
  cases message with
  | hello version =>
      simp only [handle]
      split
      · exact (hquiet (hignored rfl)).recycle shouldRecycle true
      · exact (hquiet (hignored rfl)).moves rfl rfl h.tracked (.inl rfl) fun _ => hcalm
  | request r =>
      simp only [handle]
      split
      · simp only [handleRequest]
        split
        · exact hselect (hignored rfl) (by simp) (by simp)
        · refine h.spawn hcalm rfl ?_ nofun
          rw [hcauses, hignored rfl]
          rfl
      · exact hselect (hignored rfl) (by simp) (by simp)
  | shutdown => exact (hquiet (hignored rfl)).moves rfl rfl h.tracked (.inl rfl) nofun
  | cacheInvalidate | cacheInvalidateAll | nodeModulesChanged | prewarmPackageJson
  | visibleDocuments => exact hinvalidation _ _ rfl

theorem barrier_loopStep (h : Barrier s l) (hstep : loopStep wire s l a = some (s', l')) :
    Barrier s' l' := by
  unfold loopStep at hstep
  split at hstep
  · rename_i hplace
    exact barrier_select h hplace hstep
  · rename_i message hplace
    have hhandle := barrier_handle wire h hplace a.shouldRecycle
    rwa [Option.some.inj hstep] at hhandle
  · cases hstep
    exact h.moves rfl rfl (fun k task => h.tracked_reap) (.inl rfl) nofun
  · split at hstep
    · rename_i hsettled
      cases hstep
      refine h.moves rfl rfl h.tracked (.inl rfl) fun _ k message p htask => ?_
      by_contra hunsettled
      have hk := h.pending k message p htask (eq_false_of_ne_true hunsettled)
      rw [hk, Option.all_some, Shared.settled, htask] at hsettled
      exact hunsettled hsettled
    · cases hstep
  · rename_i ending hplace
    cases hstep
    exact h.moves rfl rfl (fun k task => h.tracked_reap) (.inl rfl)
      fun _ => h.calm (by rw [hplace]; rfl)
  · rename_i ending hplace
    have hcalm : Calm s := h.calm (by rw [hplace]; rfl)
    split at hstep
    · cases hstep
      exact h.moves rfl rfl h.tracked (.inl rfl) fun _ => hcalm
    · split at hstep <;> cases hstep <;>
        exact h.moves rfl rfl h.tracked (.inl rfl) fun _ => hcalm
  · cases hstep

theorem barrier_taskStep (h : Barrier s l) {k : Nat} (hstep : taskStep wire s k a = some s') :
    Barrier s' l := by
  obtain ⟨hhandled, htasks | ⟨old, new, hold, htasks, hadvances⟩⟩ := taskStep_tasks hstep
  · exact h.moves htasks hhandled h.tracked (.inl rfl) h.calm
  · have hset : ∀ {j : Nat} {task : Task ρ}, s'.tasks[j]? = some task →
        s.tasks[j]? = some task ∨ j = k ∧ task = new := by
      intro j task hj
      rw [htasks] at hj
      exact getElem?_set_cases hj
    refine ⟨?_, ?_, ?_, ?_⟩
    · intro j task hj hunfinished
      rcases hset hj with hj | ⟨rfl, rfl⟩
      · exact h.tracked j task hj hunfinished
      · exact h.tracked j old hold (hadvances.unfinished hunfinished)
    · intro j message p hj hunsettled
      rcases hset hj with hj | ⟨rfl, heq⟩
      · exact h.pending j message p hj hunsettled
      · obtain ⟨q, rfl, hq⟩ := hadvances.unsettled message p heq.symm hunsettled
        exact h.pending j message q hold hq
    · intro hplace j message p hj
      rcases hset hj with hj | ⟨rfl, heq⟩
      · exact h.calm hplace j message p hj
      · by_contra hunsettled
        obtain ⟨q, rfl, hq⟩ :=
          hadvances.unsettled message p heq.symm (eq_false_of_ne_true hunsettled)
        rw [h.calm hplace j message q hold] at hq
        cases hq
    · rw [htasks, hhandled, ← h.causes]
      have hlt : k < s.tasks.length := by
        by_contra hnot
        rw [List.getElem?_eq_none (Nat.le_of_not_lt hnot)] at hold
        cases hold
      have hget : s.tasks[k] = old := by
        rw [List.getElem?_eq_getElem hlt] at hold
        exact Option.some.inj hold
      calc
        (s.tasks.set k new).filterMap Task.cause
            = (s.tasks.take k).filterMap Task.cause ++ (new.cause.toList ++
                (s.tasks.drop (k + 1)).filterMap Task.cause) := by
              rw [List.set_eq_take_append_cons_drop, if_pos hlt, List.filterMap_append,
                List.filterMap_cons]
              cases new.cause <;> simp
        _ = (s.tasks.take k).filterMap Task.cause ++ (old.cause.toList ++
                (s.tasks.drop (k + 1)).filterMap Task.cause) := by rw [hadvances.cause]
        _ = s.tasks.filterMap Task.cause := by
              conv_rhs =>
                rw [← List.take_append_drop k s.tasks, List.drop_eq_getElem_cons hlt, hget]
              rw [List.filterMap_append, List.filterMap_cons]
              cases old.cause <;> simp

/-- Every sequence of frames and every scheduling of the arms and the tasks: a
frame is handled only when the invalidations of all frames handled before it have
ended, at most one is pending, what is queued is still written while one is, and
the loop neither passes its close nor recycles while one runs. -/
theorem invalidation_barrier {acts : List (Nat × Action ρ)} {c : Config (Shared ρ) Position}
    (h : Runs (program wire) (fun _ _ _ => True) started acts c) :
    ∃ l, c.thread 0 = .loop l ∧
      c.shared.tasks.filterMap Task.cause = invalidating c.shared.handled ∧
      (∀ message, l.place = .handle message → ∀ (k : Nat) (earlier : Message)
        (p : Progress Finish), c.shared.tasks[k]? = some (.invalidation earlier p) →
        p.isRunning = false) ∧
      (∀ (j k : Nat) (message message' : Message) (p q : Progress Finish),
        c.shared.tasks[j]? = some (.invalidation message p) →
        c.shared.tasks[k]? = some (.invalidation message' q) →
        p.isSettled = false → q.isSettled = false → j = k) ∧
      (∀ k, l.place = .select → l.invalidation = some k →
        ∀ n, n ≤ c.shared.outbound.length → (∀ frame ∈ c.shared.outbound.take n, frame.Fits) →
        ∃ more d, Runs (program wire) (fun _ _ _ => True) c more d ∧ d.thread 0 = .loop l ∧
          d.shared.tasks = c.shared.tasks ∧
          d.shared.written = c.shared.written ++ c.shared.outbound.take n) ∧
      (∀ ending, l.place = .join ending ∨ l.place = .drainOutbound ending ∨
        l.place = .ended ending → ∀ (k : Nat) (message : Message) (p : Progress Finish),
        c.shared.tasks[k]? = some (.invalidation message p) → p.isRunning = false) := by
  obtain ⟨l, hzero, _, hbarrier⟩ := invariant_of_runs (c := started) (I := Barrier) rfl
    started_workers barrier_started (fun _ _ hstep hI => barrier_loopStep hI hstep)
    (fun _ _ hstep hI => barrier_taskStep hI hstep) h
  have hcalm : l.place.isCalm = true → ∀ (k : Nat) (message : Message) (p : Progress Finish),
      c.shared.tasks[k]? = some (.invalidation message p) → p.isRunning = false :=
    fun hplace k message p htask =>
      Progress.isRunning_of_isSettled (hbarrier.calm hplace k message p htask)
  refine ⟨l, hzero, hbarrier.causes, ?_, ?_, ?_, ?_⟩
  · intro message hplace
    exact hcalm (by rw [hplace]; rfl)
  · intro j k message message' p q hj hk hp hq
    have hfirst := hbarrier.pending j message p hj hp
    have hsecond := hbarrier.pending k message' q hk hq
    rw [hfirst] at hsecond
    exact Option.some.inj hsecond
  · intro k hplace _ n hn hfits
    -- the outbound arm does not look at the invalidation
    obtain ⟨d, hrun, hloop, hshared⟩ := outbound_written (fun _ _ _ => True) hzero hplace
      (fun _ _ => trivial) n hn hfits
    exact ⟨_, d, hrun, hloop, by rw [hshared], by rw [hshared]⟩
  · intro ending hplace
    refine hcalm ?_
    rcases hplace with hplace | hplace | hplace <;> rw [hplace] <;> rfl

/-- An invalidation has ended, and the next request is handled. -/
theorem invalidation_barrier_passed :
    ∃ c : Config (Shared Unit) Position,
      c.shared.tasks[0]? = some (.invalidation .cacheInvalidateAll (.settled .panicked)) ∧
      (∃ l, c.thread 0 = .loop l ∧ l.place = .handle (.request ⟨.cacheStatus, 8, 1⟩)) ∧
      (∀ (k : Nat) (earlier : Message) (p : Progress Finish),
        c.shared.tasks[k]? = some (.invalidation earlier p) → p.isRunning = false) := by
  have hrun : ((started.run (program ⟨fun _ => .ok 1, fun _ _ => ()⟩) (fun _ _ _ => True)
      [(0, { arm := .next (.frame (.hello 8)) }), (0, {}),
        (0, { arm := .next (.frame .cacheInvalidateAll) }), (0, {}), (1, { finish := .panicked }),
        (1, {}), (0, { arm := .invalidationSettled }),
        (0, { arm := .next (.frame (.request ⟨.cacheStatus, 8, 1⟩)) })]).any fun c =>
      decide (c.shared.tasks[0]? = some (.invalidation .cacheInvalidateAll (.settled .panicked)) ∧
        c.thread 0 = .loop ⟨.handle (.request ⟨.cacheStatus, 8, 1⟩), true, none, [0]⟩)) = true := by
    decide
  obtain ⟨c, hc, htest⟩ := Runs.of_run_any hrun
  obtain ⟨htask, hthread⟩ := of_decide_eq_true htest
  obtain ⟨l, hzero, _, hhandled, _⟩ := invalidation_barrier hc
  rw [hthread] at hzero
  cases hzero
  exact ⟨c, htask, ⟨_, hthread, rfl⟩, hhandled _ rfl⟩

end ImportLens.Ipc.Connection
