import ImportLens.Cache.Concurrent.Sections

/-!
# Removals against a flush in flight

A removal erases a key from the queue, then from the table, each under its own
lock.  A flush that took the queue before the removal holds the key in neither
of them, and its commit brings the row back.  What a removal leaves behind is
final exactly when its transaction runs while no such batch, and no value that
a failed flush has put back, is around.
-/

namespace ImportLens.Cache.Concurrent

open ImportLens.Support

variable {ν : Type} {key : Key}

/-! ## A key that is nowhere -/

/-- Neither the queue, nor a batch in flight, nor the table holds `key`. -/
structure Absent (key : Key) (s : Shared ν) : Prop where
  queue : s.queue.lookup key = none
  inFlight : s.inFlight.lookup key = none
  table : ∀ rows, s.table = some rows → rows.lookup key = none

/-- Whether a section queues `key`. -/
def Effect.enqueues (key : Key) : Effect ν → Bool
  | enqueue key' _ _ => key' == key
  | _ => false

theorem Absent.apply {s : Shared ν} {effect : Effect ν} (h : Absent key s)
    (henqueues : effect.enqueues key = false) : Absent key (effect.apply s) := by
  have hflight := Keyed.lookup_eq_none_iff_all.mp h.inFlight
  refine ⟨Keyed.lookup_eq_none_iff_all.mpr ?_, Keyed.lookup_eq_none_iff_all.mpr ?_,
    fun rows hrows =>
    Keyed.lookup_eq_none_iff_all.mpr ?_⟩
  · refine Effect.apply_queue_all (Keyed.lookup_eq_none_iff_all.mp h.queue) ?_ fun _ => hflight
    rintro key' generation stored rfl
    simpa [Effect.enqueues] using henqueues
  · refine Effect.apply_inFlight_all hflight fun t _ => ?_
    intro key' tagged hrow _
    exact Keyed.lookup_eq_none_iff_all.mp h.queue key' tagged hrow
  · refine Effect.apply_tableAll ?_ (fun _ => hflight) rows hrows
    intro rows hrows
    exact Keyed.lookup_eq_none_iff_all.mp (h.table rows hrows)

/-! ## Runs of a removal -/

/-- The thread is about to erase `key` from the queue. -/
def Position.unqueues (key : Key) : Position ν → Bool
  | removeQueue covers => covers key
  | _ => false

/-- The thread is about to erase `key` from the table. -/
def Position.untables (key : Key) : Position ν → Bool
  | removeTable covers => covers key
  | _ => false

/-- No insert of `key` is queued. -/
def NoEnqueue (key : Key) (c : Config (Shared ν) (Position ν)) (t : Nat) (a : Action ν) : Prop :=
  ((next t a c.shared (c.thread t)).any fun taken => taken.1.enqueues key) = false

/-- While thread `r` removes `key`: no insert of it is queued, and the
transaction of the removal commits. -/
def Removing (r : Nat) (key : Key) (c : Config (Shared ν) (Position ν)) (t : Nat)
    (a : Action ν) : Prop :=
  NoEnqueue key c t a ∧ (t = r → (c.thread t).untables key → a.writeFails = false)

/-- The transaction of the removal runs while no batch in flight holds `key`,
and no failed flush has put it back into the queue. -/
def NoneInFlight (r : Nat) (key : Key) (c : Config (Shared ν) (Position ν)) (t : Nat) : Prop :=
  t = r → (c.thread t).untables key →
    c.shared.queue.lookup key = none ∧ c.shared.inFlight.lookup key = none

instance (key : Key) (c : Config (Shared ν) (Position ν)) (t : Nat) (a : Action ν) :
    Decidable (NoEnqueue key c t a) :=
  inferInstanceAs (Decidable (_ = false))

instance (r : Nat) (key : Key) (c : Config (Shared ν) (Position ν)) (t : Nat) (a : Action ν) :
    Decidable (Removing r key c t a) :=
  inferInstanceAs (Decidable (_ ∧ (_ → _)))

instance (r : Nat) (key : Key) (c : Config (Shared ν) (Position ν)) (t : Nat) :
    Decidable (NoneInFlight r key c t) :=
  inferInstanceAs (Decidable (_ → _))

variable {c d : Config (Shared ν) (Position ν)} {t r : Nat} {a : Action ν}

theorem absent_step (hguard : NoEnqueue key c t a) (h : c.step program t a = some d)
    (habsent : Absent key c.shared) : Absent key d.shared := by
  obtain ⟨effect, hnext, _, hshared, _⟩ := taken_of_step h
  rw [hshared]
  apply habsent.apply
  simpa [NoEnqueue, hnext] using hguard

/-- A removal is before its queue section, before its table section, or has
left nothing behind. -/
def Removed (r : Nat) (key : Key) (c : Config (Shared ν) (Position ν)) : Prop :=
  (c.thread r).unqueues key ∨ (c.thread r).untables key ∨ Absent key c.shared

theorem removed_step (hguard : Removing r key c t a ∧ NoneInFlight r key c t)
    (h : c.step program t a = some d) (hremoved : Removed r key c) : Removed r key d := by
  obtain ⟨⟨henqueue, hcommits⟩, hnone⟩ := hguard
  by_cases htr : t = r
  · subst htr
    rcases hremoved with hqueue | htable | habsent
    · obtain ⟨effect, _, htaken, _, _⟩ := taken_of_step h
      refine .inr (.inl ?_)
      generalize c.thread t = p at htaken hqueue
      generalize d.thread t = p' at htaken
      cases htaken with
      | unqueue covers => exact hqueue
      | _ => cases hqueue
    · obtain ⟨hq, hf⟩ := hnone rfl htable
      have hfails := hcommits rfl htable
      obtain ⟨effect, _, htaken, hshared, _⟩ := taken_of_step h
      refine .inr (.inr ?_)
      rw [hshared]
      generalize c.thread t = p at htaken htable
      generalize d.thread t = p' at htaken
      cases htaken with
      | untable covers _ =>
          refine ⟨hq, hf, fun rows hrows => ?_⟩
          obtain ⟨before, _, rfl⟩ := Option.map_eq_some_iff.mp hrows
          have hcovers : covers key = true := htable
          simp [hcovers]
      | untableFails covers hwrite => simp [hfails] at hwrite
      | _ => cases htable
    · exact .inr (.inr (absent_step henqueue h habsent))
  · have hthread : d.thread r = c.thread r := Config.thread_of_step_ne h (Ne.symm htr)
    rcases hremoved with hqueue | htable | habsent
    · exact .inl (by rw [hthread]; exact hqueue)
    · exact .inr (.inl (by rw [hthread]; exact htable))
    · exact .inr (.inr (absent_step henqueue h habsent))

/-- Once a removal of `key` has returned, no state holds a value of it until an
insert of it is queued: in every run in which the transaction of the removal
does not race with a batch in flight that holds the key. -/
theorem removal_final_without_batch_in_flight {c₁ : Config (Shared ν) (Position ν)}
    {acts more : List (Nat × Action ν)} (hstart : (c.thread r).unqueues key = true)
    (hrun : Runs program (fun c t a => Removing r key c t a ∧ NoneInFlight r key c t) c acts c₁)
    (hreturned : c₁.thread r = .idle)
    (hmore : Runs program (NoEnqueue key) c₁ more d) :
    d.shared.queue.lookup key = none ∧
      ∀ rows, d.shared.table = some rows → rows.lookup key = none := by
  have hremoved : Removed r key c₁ := hrun.invariant (fun _ _ _ _ => removed_step) (.inl hstart)
  have habsent : Absent key c₁.shared := by
    rcases hremoved with hqueue | htable | habsent
    · simp [hreturned, Position.unqueues] at hqueue
    · simp [hreturned, Position.untables] at htable
    · exact habsent
  have hfinal : Absent key d.shared := hmore.invariant (fun _ _ _ _ => absent_step) habsent
  exact ⟨hfinal.queue, hfinal.table⟩

/-- An insert and a flush that commits it, then a removal by thread 2. -/
theorem removal_after_commit_final :
    ∃ c c₁ : Config (Shared Nat) (Position Nat),
      (c.thread 2).unqueues "k" = true ∧ c₁.thread 2 = .idle ∧
      Runs program (Removing 2 "k") c [(2, {}), (2, {})] c₁ ∧
      c₁.shared.queue.lookup "k" = none ∧
      ∀ rows, c₁.shared.table = some rows → rows.lookup "k" = none := by
  have hrun : (((opened Nat).run program (fun _ _ _ => True)
      [(0, { call := .insert "k" 1 }), (0, {}), (1, {}), (1, {}), (1, {}),
        (2, { call := .remove fun key => key == "k" })]).any fun c =>
      (c.thread 2).unqueues "k" &&
        (c.run program (fun c t a => Removing 2 "k" c t a ∧ NoneInFlight 2 "k" c t)
          [(2, {}), (2, {})]).any fun c₁ => (c₁.thread 2).isIdle) = true := by
    decide
  obtain ⟨c, _, htest⟩ := Runs.of_run_any hrun
  obtain ⟨hstart, hrest⟩ := Bool.and_eq_true_iff.mp htest
  obtain ⟨c₁, hremoval, hidle⟩ := Runs.of_run_any hrest
  have hreturned := Position.eq_idle hidle
  exact ⟨c, c₁, hstart, hreturned, hremoval.mono fun _ _ _ h => h.1,
    removal_final_without_batch_in_flight hstart hremoval hreturned (.refl c₁)⟩

/-- A flush takes the queue, the key is removed from the empty queue and from
the table that does not hold it yet, and the flush commits. -/
theorem removal_undone_by_batch_in_flight :
    ¬ ∀ (c₀ c c₁ d : Config (Shared Nat) (Position Nat)) (r : Nat) (key : Key)
      (before acts more : List (Nat × Action Nat)),
      Initial c₀ → Runs program (fun _ _ _ => True) c₀ before c →
      (c.thread r).unqueues key = true →
      Runs program (Removing r key) c acts c₁ → c₁.thread r = .idle →
      Runs program (NoEnqueue key) c₁ more d →
      d.shared.queue.lookup key = none ∧
        ∀ rows, d.shared.table = some rows → rows.lookup key = none := by
  intro hfinal
  have hrun : (((opened Nat).run program (fun _ _ _ => True)
      [(0, { call := .insert "k" 1 }), (0, {}), (1, {}), (1, {}),
        (2, { call := .remove fun key => key == "k" })]).any fun c =>
      (c.thread 2).unqueues "k" &&
        (c.run program (Removing 2 "k") [(2, {}), (2, {})]).any fun c₁ =>
          (c₁.thread 2).isIdle &&
            (c₁.run program (NoEnqueue "k") [(1, {})]).any fun d =>
              d.shared.table.any fun rows => (rows.lookup "k").isSome) = true := by
    decide
  obtain ⟨c, hbefore, htest⟩ := Runs.of_run_any hrun
  obtain ⟨hstart, hrest⟩ := Bool.and_eq_true_iff.mp htest
  obtain ⟨c₁, hremoval, htest₁⟩ := Runs.of_run_any hrest
  obtain ⟨hidle, hrest₁⟩ := Bool.and_eq_true_iff.mp htest₁
  obtain ⟨d, hmore, htable⟩ := Runs.of_run_any hrest₁
  have hgone := (hfinal _ c c₁ d 2 "k" _ _ _ (initial_opened Nat) hbefore hstart hremoval
    (Position.eq_idle hidle) hmore).2
  cases hrows : d.shared.table with
  | none => simp [hrows] at htable
  | some rows => simp [hrows, hgone rows hrows] at htable

end ImportLens.Cache.Concurrent
