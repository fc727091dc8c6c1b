import Mathlib.Data.List.Sort
import Mathlib.Logic.Function.Basic

/-!
# The breaker of recycle loops

The recycles of the daemon are kept in a file that every window shares.  The guard of one window
reads it once and then serializes its own calls: a mutation waits for those made before it, and a
check for those made before the check.
-/

namespace ImportLens.Extension.RecycleGuard

def recycleWindowMs : Int := 10 * 60 * 1000

def cleanSessionMs : Int := 30 * 60 * 1000

def maxRecyclesInWindow : Nat := 5

def recentRecycleTimes (recycleTimes : List Int) (now : Int) : List Int :=
  recycleTimes.filter fun timestamp => now - timestamp ≤ recycleWindowMs

def sortedRecycleTimes (recycleTimes : List Int) : List Int :=
  recycleTimes.insertionSort (· ≤ ·)

/-- `recordRecycle` and `resetAfterCleanSession`, with the clock as it stood at the call. -/
inductive Mutation
  | record (now : Int)
  | reset (now : Int)

namespace Mutation

def now : Mutation → Int
  | .record now => now
  | .reset now => now

def updater (recycleTimes : List Int) : Mutation → List Int
  | .record now => recentRecycleTimes recycleTimes now ++ [now]
  | .reset now =>
      if recycleTimes.any fun timestamp => now - timestamp ≤ cleanSessionMs then recycleTimes
      else []

def recorded : Mutation → List Int
  | .record now => [now]
  | .reset _ => []

end Mutation

/-- A call of `shouldEnterDegradedMode`. -/
structure Check where
  now : Int
  /-- The mutations made before it. -/
  awaited : Nat
  /-- What `readRecycleTimes` gave it. -/
  recycleTimes : Option (List Int) := none

def shouldEnterDegradedMode (recycleTimes : List Int) (now : Int) : Bool :=
  decide (maxRecyclesInWindow < (recentRecycleTimes recycleTimes now).length)

structure Guard where
  cachedRecycleTimes : Option (List Int) := none
  /-- `#loadPromise` is set. -/
  loading : Bool := false
  /-- The mutations that did not end, as they are chained. -/
  waiting : List Mutation := []
  /-- What the first of them is writing. -/
  writing : Option (List Int) := none
  checks : Nat → Option Check := fun _ => none
  /-- The mutations that ended, and whether their write succeeded. -/
  settled : List (Mutation × Bool) := []
  /-- What the file was found to hold. -/
  reads : List (List Int) := []

inductive Event
  | mutate (mutation : Mutation)
  | check (id : Nat) (now : Int)
  /-- The first mutation needs the times. -/
  | start
  /-- A check, whose mutations have ended, needs the times. -/
  | proceed (id : Nat)
  | loaded (recycles : List Int)
  | wrote (succeeded : Bool)

namespace Guard

/-- Who needs the times while there are none has the file read, unless it is being read, and goes
on after that. -/
def step (s : Guard) : Event → Option Guard
  | .mutate mutation => some { s with waiting := s.waiting ++ [mutation] }
  | .check id now =>
      match s.checks id with
      | some _ => none
      | none =>
          let check := { now, awaited := s.settled.length + s.waiting.length }
          some { s with checks := Function.update s.checks id (some check) }
  | .start =>
      match s.writing, s.waiting, s.cachedRecycleTimes with
      | none, mutation :: _, some current =>
          some { s with writing := some (sortedRecycleTimes (mutation.updater current)) }
      | none, _ :: _, none => some { s with loading := true }
      | _, _, _ => none
  | .proceed id =>
      match s.checks id with
      | some ⟨now, awaited, none⟩ =>
          if awaited ≤ s.settled.length then
            match s.cachedRecycleTimes with
            | some current =>
                let check := ⟨now, awaited, some current⟩
                some { s with checks := Function.update s.checks id (some check) }
            | none => some { s with loading := true }
          else none
      | _ => none
  | .loaded recycles =>
      if s.loading then
        let stored := sortedRecycleTimes recycles
        some { s with
          cachedRecycleTimes := some stored
          loading := false
          reads := s.reads ++ [stored] }
      else none
  | .wrote succeeded =>
      match s.writing, s.waiting with
      | some next, mutation :: rest =>
          some { s with
            cachedRecycleTimes := if succeeded then some next else s.cachedRecycleTimes
            waiting := rest
            writing := none
            settled := s.settled ++ [(mutation, succeeded)] }
      | _, _ => none

def run (s : Guard) (events : List Event) : Option Guard := events.foldlM step s

end Guard

/-! ## The times as the mutations leave them -/

def settle (current : List Int) (done : Mutation × Bool) : List Int :=
  if done.2 then sortedRecycleTimes (done.1.updater current) else current

def contents (stored : List Int) (settled : List (Mutation × Bool)) : List Int :=
  settled.foldl settle stored

def recorded (settled : List (Mutation × Bool)) : List Int :=
  settled.flatMap fun done => if done.2 then done.1.recorded else []

theorem recent_append (times others : List Int) (now : Int) :
    recentRecycleTimes (times ++ others) now =
      recentRecycleTimes times now ++ recentRecycleTimes others now :=
  List.filter_append _ _

theorem recent_updater {mutation : Mutation} {now : Int} (h : mutation.now ≤ now)
    (times : List Int) : recentRecycleTimes (mutation.updater times) now =
      recentRecycleTimes times now ++ recentRecycleTimes mutation.recorded now := by
  cases mutation with
  | record earlier =>
    change recentRecycleTimes (recentRecycleTimes times earlier ++ [earlier]) now = _
    rw [recent_append]
    congr 1
    rw [recentRecycleTimes, recentRecycleTimes, List.filter_filter]
    apply List.filter_congr
    intro timestamp _
    simp only [Mutation.now] at h
    by_cases hrecent : now - timestamp ≤ recycleWindowMs
    · have hearlier : earlier - timestamp ≤ recycleWindowMs := by omega
      rw [decide_eq_true hrecent, decide_eq_true hearlier, Bool.and_self]
    · rw [decide_eq_false hrecent, Bool.false_and]
  | reset earlier =>
    change recentRecycleTimes (if _ then times else []) now = recentRecycleTimes times now ++ []
    rw [List.append_nil]
    split
    · rfl
    · rename_i hold
      symm
      apply List.filter_eq_nil_iff.mpr
      intro timestamp hmem hrecent
      refine hold (List.any_eq_true.mpr ⟨timestamp, hmem, decide_eq_true ?_⟩)
      have hin := of_decide_eq_true hrecent
      simp only [Mutation.now, recycleWindowMs, cleanSessionMs] at h hin ⊢
      omega

theorem recorded_cons (done : Mutation × Bool) (rest : List (Mutation × Bool)) :
    recorded (done :: rest) = (if done.2 then done.1.recorded else []) ++ recorded rest :=
  List.flatMap_cons

theorem recent_contents {settled : List (Mutation × Bool)} {now : Int}
    (h : ∀ done ∈ settled, done.1.now ≤ now) (stored : List Int) :
    (recentRecycleTimes (contents stored settled) now).Perm
      (recentRecycleTimes (stored ++ recorded settled) now) := by
  induction settled generalizing stored with
  | nil => rw [recorded, List.flatMap_nil, List.append_nil]; rfl
  | cons done rest ih =>
    obtain ⟨hdone, hrest⟩ := List.forall_mem_cons.mp h
    refine (ih hrest (settle stored done)).trans ?_
    rw [recorded_cons, recent_append, recent_append, recent_append, ← List.append_assoc]
    refine List.Perm.append_right _ ?_
    rw [settle]
    split
    · have hsorted := List.perm_insertionSort (· ≤ ·) (done.1.updater stored)
      exact (hsorted.filter _).trans (.of_eq (recent_updater hdone stored))
    · exact .of_eq (List.append_nil _).symm

theorem contents_append (stored : List Int) (settled : List (Mutation × Bool))
    (done : Mutation × Bool) :
    contents stored (settled ++ [done]) = settle (contents stored settled) done :=
  List.foldl_concat settle stored done settled

/-! ## Every run is serial -/

/-- What a check sees is what some of the settled mutations left, all it awaited among them. -/
def Sees (s : Guard) (check : Check) (recycleTimes : List Int) : Prop :=
  ∃ stored seen, s.reads = [stored] ∧ check.awaited ≤ seen ∧ seen ≤ s.settled.length ∧
    recycleTimes = contents stored (s.settled.take seen)

structure Serial (s : Guard) : Prop where
  cached : ∀ current, s.cachedRecycleTimes = some current →
    ∃ stored, s.reads = [stored] ∧ current = contents stored s.settled
  unread : s.cachedRecycleTimes = none → s.reads = [] ∧ s.settled = []
  writing : ∀ next, s.writing = some next → ∃ current mutation rest,
    s.cachedRecycleTimes = some current ∧ s.waiting = mutation :: rest ∧
      next = sortedRecycleTimes (mutation.updater current)
  loading : s.loading = true → s.cachedRecycleTimes = none
  answered : ∀ id check times, s.checks id = some check → check.recycleTimes = some times →
    Sees s check times

namespace Serial

variable {s t : Guard}

theorem initial : Serial {} := by
  constructor
  · exact nofun
  · exact fun _ => ⟨rfl, rfl⟩
  · exact nofun
  · exact nofun
  · exact nofun

theorem checked (h : Serial s) {id : Nat} {check : Check}
    (hsees : ∀ times, check.recycleTimes = some times → Sees s check times) :
    Serial { s with checks := Function.update s.checks id (some check) } := by
  refine { h with answered := ?_ }
  intro other found times hfound htimes
  by_cases heq : other = id
  · subst heq
    cases (Function.update_self _ _ _).symm.trans hfound
    exact hsees times htimes
  · exact h.answered other found times ((Function.update_of_ne heq _ _).symm.trans hfound) htimes

theorem mutate (h : Serial s) (mutation : Mutation) :
    Serial { s with waiting := s.waiting ++ [mutation] } := by
  refine { h with writing := ?_ }
  intro next hnext
  obtain ⟨current, first, rest, hcached, hwaiting, hupdated⟩ := h.writing next hnext
  refine ⟨current, first, rest ++ [mutation], hcached, ?_, hupdated⟩
  rw [hwaiting]
  rfl

theorem loaded (h : Serial s) (hloading : s.loading = true) (stored : List Int) :
    Serial { s with
      cachedRecycleTimes := some stored
      loading := false
      reads := s.reads ++ [stored] } := by
  have hnone := h.loading hloading
  obtain ⟨hreads, hsettled⟩ := h.unread hnone
  constructor
  · intro current hcurrent
    cases hcurrent
    exact ⟨stored, by rw [hreads]; rfl, by rw [hsettled]; rfl⟩
  · exact nofun
  · intro next hnext
    obtain ⟨current, -, -, hcached, -⟩ := h.writing next hnext
    exact absurd (hcached.symm.trans hnone) (Option.some_ne_none current)
  · exact nofun
  · intro id check times hcheck htimes
    obtain ⟨earlier, -, hearlier, -⟩ := h.answered id check times hcheck htimes
    rw [hreads] at hearlier
    cases hearlier

theorem wrote (h : Serial s) {next : List Int} {mutation : Mutation} {rest : List Mutation}
    (hwriting : s.writing = some next) (hwaiting : s.waiting = mutation :: rest)
    (succeeded : Bool) :
    Serial { s with
      cachedRecycleTimes := if succeeded then some next else s.cachedRecycleTimes
      waiting := rest
      writing := none
      settled := s.settled ++ [(mutation, succeeded)] } := by
  obtain ⟨current, first, others, hcached, hfirst, hnext⟩ := h.writing next hwriting
  obtain ⟨stored, hreads, hcurrent⟩ := h.cached current hcached
  cases hwaiting.symm.trans hfirst
  have hcache : (if succeeded then some next else s.cachedRecycleTimes) =
      some (settle current (mutation, succeeded)) := by
    cases succeeded with
    | true => exact congrArg some hnext
    | false => exact hcached
  rw [hcache]
  constructor
  · intro after hafter
    cases hafter
    exact ⟨stored, hreads, by rw [contents_append, hcurrent]⟩
  · exact nofun
  · exact nofun
  · intro hloading
    exact absurd (hcached.symm.trans (h.loading hloading)) (Option.some_ne_none current)
  · intro id check times hcheck htimes
    obtain ⟨earlier, seen, hearlier, hawaited, hseen, heq⟩ :=
      h.answered id check times hcheck htimes
    refine ⟨earlier, seen, hearlier, hawaited, ?_, ?_⟩
    · rw [List.length_append]
      omega
    · rw [List.take_append_of_le_length hseen, heq]

theorem step (h : Serial s) {event : Event} (hstep : s.step event = some t) : Serial t := by
  cases event with
  | mutate mutation =>
    cases hstep
    exact h.mutate mutation
  | check id now =>
    rw [Guard.step] at hstep
    split at hstep
    · cases hstep
    · cases hstep
      exact h.checked nofun
  | start =>
    rw [Guard.step] at hstep
    split at hstep
    · rename_i mutation rest current _ hwaiting hcached
      cases hstep
      refine { h with writing := ?_ }
      intro next hnext
      cases hnext
      exact ⟨current, mutation, rest, hcached, hwaiting, rfl⟩
    · rename_i hcached
      cases hstep
      exact { h with loading := fun _ => hcached }
    · cases hstep
  | proceed id =>
    rw [Guard.step] at hstep
    split at hstep
    · split at hstep
      · rename_i hawaited
        split at hstep
        · rename_i current hcached
          cases hstep
          apply h.checked
          intro times htimes
          cases htimes
          obtain ⟨stored, hreads, hcurrent⟩ := h.cached current hcached
          refine ⟨stored, s.settled.length, hreads, hawaited, le_refl _, ?_⟩
          rw [List.take_length, hcurrent]
        · rename_i hcached
          cases hstep
          exact { h with loading := fun _ => hcached }
      · cases hstep
    · cases hstep
  | loaded recycles =>
    rw [Guard.step] at hstep
    split at hstep
    · rename_i hloading
      cases hstep
      exact h.loaded hloading _
    · cases hstep
  | wrote succeeded =>
    rw [Guard.step] at hstep
    split at hstep
    · rename_i next mutation rest hwriting hwaiting
      cases hstep
      exact h.wrote hwriting hwaiting succeeded
    · cases hstep

theorem run (h : Serial s) {events : List Event} (hrun : s.run events = some t) : Serial t := by
  induction events generalizing s with
  | nil =>
    cases hrun
    exact h
  | cons event rest ih =>
    rw [Guard.run, List.foldlM_cons] at hrun
    obtain ⟨next, hnext, hrest⟩ := Option.bind_eq_some_iff.mp hrun
    exact ih (h.step hnext) hrest

end Serial

/-- However the calls, the loads and the writes interleave, and whatever the other windows write,
the file is read once, and a check counts each recent recycle once: those the file held then and
those of the settled calls it sees, all it awaited among them. -/
theorem check_counts_the_recycles (events : List Event) {s : Guard}
    (hrun : Guard.run {} events = some s) {id : Nat} {check : Check} {times : List Int}
    (hcheck : s.checks id = some check) (hanswered : check.recycleTimes = some times)
    (hclock : ∀ done ∈ s.settled, done.1.now ≤ check.now) :
    ∃ stored seen, s.reads = [stored] ∧ check.awaited ≤ seen ∧ seen ≤ s.settled.length ∧
      (shouldEnterDegradedMode times check.now = true ↔ maxRecyclesInWindow <
        (recentRecycleTimes (stored ++ recorded (s.settled.take seen)) check.now).length) := by
  obtain ⟨stored, seen, hreads, hawaited, hseen, htimes⟩ :=
    (Serial.initial.run hrun).answered id check times hcheck hanswered
  have hseenclock : ∀ done ∈ s.settled.take seen, done.1.now ≤ check.now :=
    fun done hdone => hclock done (List.mem_of_mem_take hdone)
  have hperm := recent_contents hseenclock stored
  refine ⟨stored, seen, hreads, hawaited, hseen, ?_⟩
  rw [shouldEnterDegradedMode, decide_eq_true_eq, htimes, hperm.length_eq]

def recycleLoop : List Event :=
  [.mutate (.record 1), .start, .check 0 60000, .loaded [], .start, .wrote true,
    .mutate (.record 2), .mutate (.record 3), .mutate (.reset 4), .mutate (.record 5),
    .mutate (.record 6), .mutate (.record 7), .check 1 60000,
    .start, .wrote true, .start, .wrote true, .start, .wrote true, .start, .wrote true,
    .start, .wrote true, .start, .wrote true, .proceed 0, .proceed 1]

theorem recycle_loop_is_seen : ∃ s stored seen, Guard.run {} recycleLoop = some s ∧
    s.reads = [stored] ∧ 7 ≤ seen ∧ seen ≤ s.settled.length ∧
      (shouldEnterDegradedMode [1, 2, 3, 5, 6, 7] 60000 = true ↔ maxRecyclesInWindow <
        (recentRecycleTimes (stored ++ recorded (s.settled.take seen)) 60000).length) := by
  have hclock : ((Guard.run {} recycleLoop).any fun s =>
      s.settled.all fun done => decide (done.1.now ≤ 60000)) = true := by decide
  have hcheck : (Guard.run {} recycleLoop).bind (fun s => s.checks 1) =
      some ⟨60000, 7, some [1, 2, 3, 5, 6, 7]⟩ := rfl
  obtain ⟨s, hrun, hall⟩ := (Option.any_eq_true _ _).mp hclock
  rw [hrun, Option.bind_some] at hcheck
  obtain ⟨stored, seen, hresult⟩ := check_counts_the_recycles recycleLoop hrun hcheck rfl
    fun done hdone => of_decide_eq_true (List.all_eq_true.mp hall done hdone)
  exact ⟨s, stored, seen, hrun, hresult⟩

end ImportLens.Extension.RecycleGuard
