import ImportLens.Extension.DocumentStates
import Mathlib.Data.List.Induction

/-!
# Pushes around the response

A push may arrive before the response it belongs to or after it; the states end up
the same.  The analysis stores its states a second time, and the pushes held since
are replayed onto states that have them already: that changes no result as long as
the last measured result of an import came with the generation.
-/

namespace ImportLens.Extension

open ImportLens.Support ImportLens.Daemon

/-! ## One import -/

def Push.refreshed (push : Push) (detected : DetectedImport) : Option ImportResult :=
  if push.options.isCurrent = some false then none
  else refreshedFor push.results push.options.toRefreshMergeOptions detected

def Push.measured (push : Push) (detected : DetectedImport) : Option ImportResult :=
  (push.refreshed detected).filter fun result => result.error.isNone

def landed (state : ImportAnalysisState) (pushes : List Push) : ImportAnalysisState :=
  pushes.foldl (fun state push => mergeState state (push.refreshed state.detected)) state

def lastMeasured (pushes : List Push) (detected : DetectedImport) : Option ImportResult :=
  (pushes.filterMap fun push => push.measured detected).getLast?

section

variable {state : ImportAnalysisState} {pushes : List Push} {push : Push}
variable {detected : DetectedImport} {result : ImportResult}

theorem mergeInto_eq_map (push : Push) (states : List ImportAnalysisState) :
    push.mergeInto states =
      states.map fun state => mergeState state (push.refreshed state.detected) := by
  unfold Push.refreshed
  by_cases hsuperseded : push.options.isCurrent = some false
  · rw [mergeInto_superseded hsuperseded]
    simp only [if_pos hsuperseded, mergeState_none, List.map_id']
  · simp only [if_neg hsuperseded]
    unfold Push.mergeInto mergeRefreshedResults
    rw [if_neg hsuperseded]

theorem mergeInOrder_eq_map (states : List ImportAnalysisState) (pushes : List Push) :
    mergeInOrder states pushes = states.map fun state => landed state pushes := by
  induction pushes generalizing states with
  | nil => exact (List.map_id states).symm
  | cons push rest ih =>
      show mergeInOrder (push.mergeInto states) rest = _
      rw [ih, mergeInto_eq_map, List.map_map]
      rfl

theorem landed_concat (state : ImportAnalysisState) (pushes : List Push) (push : Push) :
    landed state (pushes ++ [push]) =
      mergeState (landed state pushes) (push.refreshed (landed state pushes).detected) := by
  unfold landed
  rw [List.foldl_append]
  rfl

@[simp] theorem detected_landed (state : ImportAnalysisState) (pushes : List Push) :
    (landed state pushes).detected = state.detected := by
  induction pushes using List.reverseRecOn with
  | nil => rfl
  | append_singleton pushes push ih => rw [landed_concat, detected_mergeState, ih]

theorem result_mergeState (state : ImportAnalysisState) (refreshed : Option ImportResult) :
    (mergeState state refreshed).result =
      if takes state refreshed then refreshed else state.result := by
  unfold mergeState
  split <;> rfl

theorem mergeState_measured (h : result.error = none) :
    (mergeState state (some result)).result = some result := by
  rw [result_mergeState, if_pos (by simp [takes, h])]

theorem mergeState_empty (h : state.result = none) (refreshed : Option ImportResult) :
    (mergeState state refreshed).result = refreshed := by
  rw [result_mergeState]
  cases refreshed with
  | none => rw [h, if_neg (by simp [takes])]
  | some result => rw [if_pos (by simp [takes, h])]

theorem mergeState_some {old : ImportResult} (h : state.result = some old)
    (refreshed : Option ImportResult) :
    (mergeState state refreshed).result =
      ((refreshed.filter fun result => result.error.isNone) <|> some old) := by
  rw [result_mergeState]
  cases refreshed with
  | none => rw [h, if_neg (by simp [takes])]; rfl
  | some result =>
      cases herror : result.error with
      | none => simp [takes, herror, Option.filter]
      | some message => simp [takes, herror, h, Option.filter]

theorem lastMeasured_concat (pushes : List Push) (push : Push) (detected : DetectedImport) :
    lastMeasured (pushes ++ [push]) detected =
      (push.measured detected <|> lastMeasured pushes detected) := by
  unfold lastMeasured
  rw [List.filterMap_append, List.filterMap_cons]
  cases push.measured detected with
  | none =>
      rw [List.filterMap_nil, List.append_nil]
      rfl
  | some result =>
      rw [List.filterMap_nil, List.getLast?_concat]
      rfl

theorem landed_some {old : ImportResult} (h : state.result = some old) (pushes : List Push) :
    (landed state pushes).result = (lastMeasured pushes state.detected <|> some old) := by
  induction pushes using List.reverseRecOn with
  | nil => exact h
  | append_singleton pushes push ih =>
      rw [landed_concat, lastMeasured_concat, detected_landed]
      cases hlast : lastMeasured pushes state.detected with
      | none =>
          rw [hlast] at ih
          rw [mergeState_some ih, ← Push.measured]
          cases push.measured state.detected <;> rfl
      | some last =>
          rw [hlast] at ih
          rw [mergeState_some ih, ← Push.measured]
          cases push.measured state.detected <;> rfl

theorem landed_untouched (h : ∀ push ∈ pushes, push.refreshed state.detected = none) :
    landed state pushes = state := by
  induction pushes using List.reverseRecOn with
  | nil => rfl
  | append_singleton pushes push ih =>
      have hrest : landed state pushes = state :=
        ih fun other hother => h other (List.mem_append_left _ hother)
      rw [landed_concat, hrest, h push (List.mem_append_right _ List.mem_cons_self),
        mergeState_none]

theorem landed_none (h : (landed state pushes).result = none) :
    state.result = none ∧ ∀ push ∈ pushes, push.refreshed state.detected = none := by
  induction pushes using List.reverseRecOn with
  | nil => exact ⟨h, fun _ hmem => absurd hmem List.not_mem_nil⟩
  | append_singleton pushes push ih =>
      rw [landed_concat, detected_landed] at h
      have hbefore : (landed state pushes).result = none := by
        cases hold : (landed state pushes).result with
        | none => rfl
        | some old =>
            rw [mergeState_some hold, ← Push.measured] at h
            cases hnew : push.measured state.detected <;> rw [hnew] at h <;> cases h
      rw [mergeState_empty hbefore] at h
      obtain ⟨hstate, hrest⟩ := ih hbefore
      refine ⟨hstate, fun other hother => ?_⟩
      rcases List.mem_append.mp hother with hin | hlast
      · exact hrest other hin
      · rw [List.mem_singleton.mp hlast]
        exact h

theorem landed_measured (h : lastMeasured pushes state.detected = some result) :
    (landed state pushes).result = some result := by
  induction pushes using List.reverseRecOn with
  | nil => cases h
  | append_singleton pushes push ih =>
      rw [landed_concat, detected_landed]
      rw [lastMeasured_concat] at h
      cases hnew : push.measured state.detected with
      | none =>
          rw [hnew] at h
          rw [mergeState_some (ih h), ← Push.measured, hnew]
          rfl
      | some new =>
          rw [hnew] at h
          obtain ⟨hcarried, hmeasured⟩ := Option.filter_eq_some_iff.mp hnew
          rw [hcarried, mergeState_measured (Option.isNone_iff_eq_none.mp hmeasured)]
          exact h

end

/-! ## The response -/

def pushesOf (generation : Nat) (pushes : List Push) : List Push :=
  pushes.filter fun push => decide (push.options.generation = some generation)

section

variable {generation : Nat} {pushes : List Push}

/-- What is held for a generation are its pushes. -/
theorem push_held (hcurrent : ∀ push ∈ pushes, push.options.generation = some generation →
      push.options.isCurrent ≠ some false) :
    ((pushes.filterMap DocumentAnalysisStates.held).filter fun held =>
      decide (held.generation = generation)).map QueuedRefresh.push =
        pushesOf generation pushes := by
  unfold pushesOf
  induction pushes with
  | nil => rfl
  | cons push rest ih =>
      have hrest := ih fun other hother => hcurrent other (List.mem_cons_of_mem _ hother)
      rw [List.filterMap_cons, List.filter_cons]
      by_cases hown : push.options.generation = some generation
      · have hheld : DocumentAnalysisStates.held push = some ⟨push, generation⟩ := by
          unfold DocumentAnalysisStates.held
          rw [if_neg (hcurrent push List.mem_cons_self hown), hown]
          rfl
        rw [hheld, if_pos (decide_eq_true hown), ← hrest]
        simp only [List.filter_cons, decide_true, if_true, List.map_cons]
      · rw [if_neg (by simpa using hown), ← hrest]
        cases hheld : DocumentAnalysisStates.held push with
        | none => rfl
        | some held =>
            have hother : held.generation ≠ generation := by
              unfold DocumentAnalysisStates.held at hheld
              split at hheld
              · cases hheld
              · obtain ⟨other, hother, rfl⟩ := Option.map_eq_some_iff.mp hheld
                intro heq
                exact hown (hother.trans (congrArg some heq))
            simp only [List.filter_cons, decide_eq_true_eq, if_neg hother]

/-- Superseded pushes merge nothing. -/
theorem mergeInOrder_pushesOf (states : List ImportAnalysisState)
    (hothers : ∀ push ∈ pushes, push.options.generation = some generation ∨
      push.options.isCurrent = some false) :
    mergeInOrder states pushes = mergeInOrder states (pushesOf generation pushes) := by
  unfold pushesOf
  induction pushes generalizing states with
  | nil => rfl
  | cons push rest ih =>
      have hrest := fun other hother => hothers other (List.mem_cons_of_mem push hother)
      rw [List.filter_cons]
      show mergeInOrder (push.mergeInto states) rest = _
      rw [ih _ hrest]
      split
      · rfl
      · rename_i hother
        rw [decide_eq_true_eq] at hother
        rw [mergeInto_superseded ((hothers push List.mem_cons_self).resolve_left hother)]

end

/-- The results of a generation's pushes are stored whether they arrive before the
response or after it, and those of other generations are not. -/
theorem pushes_survive_response (docs : DocumentAnalysisStates) (key : String)
    (states : List ImportAnalysisState) (generation : Nat) (refine : Option RefineStates)
    (before after : List Push)
    (hqueued : (docs.queuedOf key).length +
      (before.filterMap DocumentAnalysisStates.held).length ≤ maxQueuedRefreshBatches)
    (hnone : ∀ held ∈ docs.queuedOf key, held.generation ≠ generation)
    (hcurrent : ∀ push ∈ before ++ after, push.options.generation = some generation →
      push.options.isCurrent ≠ some false)
    (hafter : ∀ push ∈ after, push.options.generation = some generation ∨
      push.options.isCurrent = some false)
    (hrefine : CaptionsOnly refine)
    (hpushes : ∀ push ∈ before ++ after, CaptionsOnly push.options.refine) :
    SameResults
      ((((docs.applyAll key before).set key states generation refine).applyAll key after).get key)
      (mergeInOrder states (pushesOf generation (before ++ after))) ∧
    (∀ state ∈ states, ∀ old, state.result = some old → old.error = none →
      ∃ new, (landed state (pushesOf generation (before ++ after))).result = some new ∧
        new.error = none) ∧
    ∀ state ∈ states, state.result = none → ∀ skipped push rest,
      pushesOf generation (before ++ after) = skipped ++ push :: rest →
        (∀ other ∈ skipped, other.refreshed state.detected = none) →
          (landed state (skipped ++ [push])).result = push.refreshed state.detected := by
  refine ⟨?_, ?_, ?_⟩
  · have hheld := DocumentAnalysisStates.queuedOf_applyAll hqueued
    have hset := DocumentAnalysisStates.stores_set (docs.applyAll key before) key states generation
      hrefine (fun held hin hown => ?_)
    · rw [hheld, List.filter_append, List.filter_eq_nil_iff.mpr fun held hin => by
          simpa using hnone held hin, List.nil_append,
        push_held fun push hin => hcurrent push (List.mem_append_left _ hin)] at hset
      have hall := (hset.applyAll fun push hin => hpushes push (List.mem_append_right _ hin)).get
      unfold pushesOf at *
      rw [List.filter_append, mergeInOrder_append]
      rw [mergeInOrder_pushesOf _ hafter] at hall
      exact hall
    · rw [hheld] at hin
      rcases List.mem_append.mp hin with hold | hnew
      · exact absurd hown (hnone held hold)
      · obtain ⟨push, hpush, heq⟩ := List.mem_filterMap.mp hnew
        have hsame : held.push = push := by
          unfold DocumentAnalysisStates.held at heq
          split at heq
          · cases heq
          · obtain ⟨other, _, rfl⟩ := Option.map_eq_some_iff.mp heq
            rfl
        rw [hsame]
        exact hpushes push (List.mem_append_left _ hpush)
  · intro state _ old hold hmeasured
    rw [landed_some hold]
    cases hlast : lastMeasured (pushesOf generation (before ++ after)) state.detected with
    | none => exact ⟨old, rfl, hmeasured⟩
    | some last =>
        refine ⟨last, rfl, ?_⟩
        have hin := List.mem_of_getLast? hlast
        obtain ⟨push, _, hfilter⟩ := List.mem_filterMap.mp hin
        exact Option.isNone_iff_eq_none.mp (Option.filter_eq_some_iff.mp hfilter).2
  · intro state _ hempty skipped push rest _ hskipped
    rw [landed_concat, landed_untouched hskipped, mergeState_empty hempty]

/-! ### One import of a document -/

def position (line : Int) : SourcePosition := ⟨line, 0⟩

def detectedAt (specifier : String) (line : Int) : DetectedImport where
  specifier := specifier
  packageName := specifier
  named := []
  importKind := .defaultExport
  importSyntax := .staticImport
  runtime := .component
  line := line
  quoteEnd := position line
  specifierRange := ⟨position line, position line⟩
  statementRange := ⟨position line, position (line + 1)⟩

def loadingAt (specifier : String) (line : Int) : ImportAnalysisState where
  detected := detectedAt specifier line
  status := .loading

def measuredResult (specifier : String) (bytes : Nat) : ImportResult :=
  .measured specifier ⟨bytes, bytes, bytes, bytes, bytes⟩

def pushOf (specifier : String) (bytes : Nat) (generation : Option Nat) (isCurrent : Bool) :
    Push where
  results := [measuredResult specifier bytes]
  options :=
    { identities := some [importIdentityOf (detectedAt specifier 0)]
      isCurrent := some isCurrent
      generation := generation }

theorem captionsOnly_pushOf (specifier : String) (bytes : Nat) (generation : Option Nat)
    (isCurrent : Bool) :
    CaptionsOnly (pushOf specifier bytes generation isCurrent).options.refine :=
  fun _ hnone => by cases hnone

/-- One push of the generation before its response and one after it, beside a push
of the analysis before. -/
theorem pushes_survive_response_two :
    SameResults
      ((((DocumentAnalysisStates.applyAll {} "a.ts"
          [pushOf "react" 10 (some 1) true, pushOf "react" 20 (some 2) true]).set "a.ts"
            [loadingAt "react" 0, loadingAt "lodash" 1] 2 none).applyAll "a.ts"
              [pushOf "react" 15 (some 1) false, pushOf "lodash" 30 (some 2) true]).get "a.ts")
      (mergeInOrder [loadingAt "react" 0, loadingAt "lodash" 1]
        (pushesOf 2 [pushOf "react" 10 (some 1) true, pushOf "react" 20 (some 2) true,
          pushOf "react" 15 (some 1) false, pushOf "lodash" 30 (some 2) true])) := by
  refine (pushes_survive_response {} "a.ts" [loadingAt "react" 0, loadingAt "lodash" 1] 2 none
    [pushOf "react" 10 (some 1) true, pushOf "react" 20 (some 2) true]
    [pushOf "react" 15 (some 1) false, pushOf "lodash" 30 (some 2) true]
    (by decide) ?_ ?_ ?_ (fun _ hnone => by cases hnone) ?_).1
  · exact fun held hin => absurd hin List.not_mem_nil
  · simp [pushOf]
  · simp [pushOf]
  · intro push hpush
    simp only [List.cons_append, List.nil_append, List.mem_cons, List.not_mem_nil, or_false]
      at hpush
    rcases hpush with heq | heq | heq | heq <;> rw [heq] <;> exact captionsOnly_pushOf _ _ _ _

/-! ## The second store -/

/-- If a held push measured an import, the last measured result of the import is one
of a held push. -/
def EndsWithHeld (generation : Nat) (pushes : List Push) (detected : DetectedImport) : Prop :=
  ∀ result, lastMeasured (pushesOf generation pushes) detected = some result →
    lastMeasured pushes detected = some result

section

variable {docs : DocumentAnalysisStates} {key : String} {generation : Nat}
variable {pushes : List Push} {states : List ImportAnalysisState} {state : ImportAnalysisState}
variable {again : Option RefineStates}

theorem lastMeasured_of_pushesOf {detected : DetectedImport} {result : ImportResult}
    (h : lastMeasured (pushesOf generation pushes) detected = some result) :
    ∃ last, lastMeasured pushes detected = some last := by
  have hin := List.mem_of_getLast? h
  obtain ⟨push, hpush, hmeasured⟩ := List.mem_filterMap.mp hin
  have hmem : result ∈ pushes.filterMap fun push => push.measured detected :=
    List.mem_filterMap.mpr ⟨push, List.mem_of_mem_filter hpush, hmeasured⟩
  unfold lastMeasured
  cases hlast : (pushes.filterMap fun push => push.measured detected).getLast? with
  | none =>
      rw [List.getLast?_eq_none_iff] at hlast
      rw [hlast] at hmem
      cases hmem
  | some last => exact ⟨last, rfl⟩

theorem replay_landed_iff (state : ImportAnalysisState) (generation : Nat) (pushes : List Push) :
    (landed (landed state pushes) (pushesOf generation pushes)).result =
      (landed state pushes).result ↔ EndsWithHeld generation pushes state.detected := by
  unfold EndsWithHeld
  cases hheld : lastMeasured (pushesOf generation pushes) state.detected with
  | none =>
      refine iff_of_true ?_ fun _ hresult => by cases hresult
      cases hresult : (landed state pushes).result with
      | none =>
          have hcarried := (landed_none hresult).2
          rw [landed_untouched, hresult]
          intro push hpush
          rw [detected_landed]
          exact hcarried push (List.mem_of_mem_filter hpush)
      | some result =>
          rw [landed_some hresult, detected_landed, hheld]
          rfl
  | some held =>
      obtain ⟨last, hlast⟩ := lastMeasured_of_pushesOf hheld
      rw [landed_measured (by rw [detected_landed]; exact hheld), landed_measured hlast, hlast]
      constructor
      · intro heq result hresult
        rw [← hresult, heq]
      · intro hends
        rw [hends held rfl]

theorem results_of_same {first second : List ImportAnalysisState} (h : SameResults first second) :
    first.map ImportAnalysisState.result = second.map ImportAnalysisState.result := by
  have hresult : ∀ states : List ImportAnalysisState,
      states.map ImportAnalysisState.result =
        (states.map ImportAnalysisState.uncaptioned).map ImportAnalysisState.result := by
    intro states
    rw [List.map_map]
    rfl
  rw [hresult first, hresult second, h]

theorem detected_of_same {first second : List ImportAnalysisState} (h : SameResults first second) :
    first.map ImportAnalysisState.detected = second.map ImportAnalysisState.detected := by
  have hdetected : ∀ states : List ImportAnalysisState,
      states.map ImportAnalysisState.detected =
        (states.map ImportAnalysisState.uncaptioned).map ImportAnalysisState.detected := by
    intro states
    rw [List.map_map]
    rfl
  rw [hdetected first, hdetected second, h]

theorem detected_mergeInOrder (states : List ImportAnalysisState) (pushes : List Push) :
    (mergeInOrder states pushes).map ImportAnalysisState.detected =
      states.map ImportAnalysisState.detected := by
  rw [mergeInOrder_eq_map, List.map_map]
  apply List.map_congr_left
  intro state _
  exact detected_landed state pushes

/-- The second store replays the pushes since the first one. -/
theorem stores_again (generation : Nat) (h : docs.Stores key states)
    (hempty : docs.queuedOf key = [])
    (hbound : pushes.length ≤ maxQueuedRefreshBatches)
    (hcurrent : ∀ push ∈ pushes, push.options.isCurrent ≠ some false)
    (hpushes : ∀ push ∈ pushes, CaptionsOnly push.options.refine) (hagain : CaptionsOnly again) :
    ((docs.applyAll key pushes).set key ((docs.applyAll key pushes).get key) generation
      again).Stores key
        (mergeInOrder (mergeInOrder states pushes) (pushesOf generation pushes)) := by
  have hqueued : (docs.applyAll key pushes).queuedOf key =
      pushes.filterMap DocumentAnalysisStates.held := by
    have hlength := List.length_filterMap_le DocumentAnalysisStates.held pushes
    rw [DocumentAnalysisStates.queuedOf_applyAll (by rw [hempty, List.length_nil]; omega), hempty,
      List.nil_append]
  have hset := DocumentAnalysisStates.stores_set (docs.applyAll key pushes) key
    ((docs.applyAll key pushes).get key) generation hagain (fun held hin _ => ?_)
  · rw [hqueued, push_held fun push hin _ => hcurrent push hin] at hset
    obtain ⟨stored, hlookup, hsame⟩ := hset
    exact ⟨stored, hlookup, hsame.trans ((h.applyAll hpushes).get.mergeInOrder _)⟩
  · rw [hqueued] at hin
    obtain ⟨push, hpush, heq⟩ := List.mem_filterMap.mp hin
    unfold DocumentAnalysisStates.held at heq
    split at heq
    · cases heq
    · obtain ⟨_, _, rfl⟩ := Option.map_eq_some_iff.mp heq
      exact hpushes push hpush

end

/-- The second store keeps every result as it was read back exactly if, of
each import a held push measured, the last measured result is one of a held push. -/
theorem replay_keeps_results_iff (docs : DocumentAnalysisStates) (key : String)
    (states : List ImportAnalysisState) (generation : Nat) (first again : Option RefineStates)
    (pushes : List Push) (hbound : pushes.length ≤ maxQueuedRefreshBatches)
    (hlive : ∀ push ∈ pushes, push.options.isCurrent ≠ some false ∧
      (push.options.generation = none ∨ push.options.generation = some generation))
    (hfirst : CaptionsOnly first) (hagain : CaptionsOnly again)
    (hpushes : ∀ push ∈ pushes, CaptionsOnly push.options.refine)
    (hqueued : ∀ held ∈ docs.queuedOf key, CaptionsOnly held.push.options.refine) :
    (((((docs.set key states generation first).applyAll key pushes).set key
        (((docs.set key states generation first).applyAll key pushes).get key) generation
          again).get key).map ImportAnalysisState.result =
      (((docs.set key states generation first).applyAll key pushes).get key).map
        ImportAnalysisState.result) ↔
    ∀ state ∈ states, EndsWithHeld generation pushes state.detected := by
  have hset := DocumentAnalysisStates.stores_set docs key states generation hfirst
    fun held hin _ => hqueued held hin
  generalize hearlier : ((docs.queuedOf key).filter fun held =>
    decide (held.generation = generation)).map QueuedRefresh.push = earlier at hset
  have hempty := DocumentAnalysisStates.queuedOf_set docs key states generation first
  have hlast := stores_again generation hset hempty hbound
    (fun push hin => (hlive push hin).1) hpushes hagain
  rw [results_of_same hlast.get, results_of_same (hset.applyAll hpushes).get,
    mergeInOrder_eq_map _ (pushesOf generation pushes), mergeInOrder_eq_map _ pushes,
    mergeInOrder_eq_map states]
  simp only [List.map_map]
  rw [List.map_inj_left]
  constructor
  · intro hsame state hstate
    have hresult := hsame state hstate
    have hends := (replay_landed_iff (landed state earlier) generation pushes).mp hresult
    rwa [detected_landed] at hends
  · intro hends state hstate
    have hresult := (replay_landed_iff (landed state earlier) generation pushes).mpr
    rw [detected_landed] at hresult
    exact hresult (hends state hstate)

/-- A held push is merged again over the same import, which it alone has measured. -/
theorem replay_keeps_results_one :
    (((((DocumentAnalysisStates.set {} "a.ts" [loadingAt "react" 0] 1 none).applyAll "a.ts"
        [pushOf "react" 10 (some 1) true]).set "a.ts"
          (((DocumentAnalysisStates.set {} "a.ts" [loadingAt "react" 0] 1 none).applyAll "a.ts"
            [pushOf "react" 10 (some 1) true]).get "a.ts") 1 none).get "a.ts").map
              ImportAnalysisState.result =
      (((DocumentAnalysisStates.set {} "a.ts" [loadingAt "react" 0] 1 none).applyAll "a.ts"
        [pushOf "react" 10 (some 1) true]).get "a.ts").map ImportAnalysisState.result) ↔
    ∀ state ∈ [loadingAt "react" 0],
      EndsWithHeld 1 [pushOf "react" 10 (some 1) true] state.detected := by
  refine replay_keeps_results_iff {} "a.ts" [loadingAt "react" 0] 1 none none
    [pushOf "react" 10 (some 1) true] (by decide) ?_ (fun _ hnone => by cases hnone)
    (fun _ hnone => by cases hnone) ?_ (fun held hin => absurd hin List.not_mem_nil)
  · simp [pushOf]
  · intro push hpush
    rw [List.mem_singleton.mp hpush]
    exact captionsOnly_pushOf _ _ _ _

/-- A push without a generation lands after a held one; the replay takes its result
back. -/
theorem replay_turns_result_back :
    ¬ ∀ (docs : DocumentAnalysisStates) (key : String) (states : List ImportAnalysisState)
      (generation : Nat) (pushes : List Push), pushes.length ≤ maxQueuedRefreshBatches →
      (∀ push ∈ pushes, push.options.isCurrent ≠ some false ∧
        (push.options.generation = none ∨ push.options.generation = some generation)) →
      ((((docs.set key states generation none).applyAll key pushes).set key
          (((docs.set key states generation none).applyAll key pushes).get key) generation
            none).get key).map ImportAnalysisState.result =
        (((docs.set key states generation none).applyAll key pushes).get key).map
          ImportAnalysisState.result := by
  intro hreplay
  have hsame := hreplay {} "a.ts" [loadingAt "react" 0] 1
    [pushOf "react" 10 (some 1) true, pushOf "react" 20 none true] (by decide) (by simp [pushOf])
  exact absurd hsame (by decide +kernel)

end ImportLens.Extension
