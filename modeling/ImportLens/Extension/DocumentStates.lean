import ImportLens.Extension.RefreshMerge

/-!
# The stored states of a document

The states of each document, and the pushes held for the response they raced: a
push is merged into the states on screen and held under the analysis generation it
was computed for, and `set` replays the held pushes of its generation onto the
states it installs.
-/

namespace ImportLens.Extension

open ImportLens.Support ImportLens.Daemon

abbrev RefineStates : Type := List ImportAnalysisState → List ImportAnalysisState

structure RefreshApplyOptions extends RefreshMergeOptions where
  /-- The analysis a push was computed for. -/
  generation : Option Nat := none
  refine : Option RefineStates := none

structure Push where
  results : List ImportResult
  options : RefreshApplyOptions

structure QueuedRefresh where
  push : Push
  generation : Nat

def maxQueuedRefreshBatches : Nat := 256

def shiftStates (states : List ImportAnalysisState) (edits : List SourceEdit) :
    List ImportAnalysisState :=
  if edits = [] then states
  else states.filterMap fun state =>
    (shiftDetectedImport state.detected edits).map fun detected =>
      { state with detected := detected }

structure DocumentAnalysisStates where
  states : Keyed String (List ImportAnalysisState) := ∅
  queued : Keyed String (List QueuedRefresh) := ∅

namespace DocumentAnalysisStates

def get (docs : DocumentAnalysisStates) (key : String) : List ImportAnalysisState :=
  (docs.states.lookup key).getD []

def queuedOf (docs : DocumentAnalysisStates) (key : String) : List QueuedRefresh :=
  (docs.queued.lookup key).getD []

/-- Merge a push into the stored states; an analysis's refiner stands before the
push's own. -/
def merge (docs : DocumentAnalysisStates) (key : String) (push : Push)
    (refine : Option RefineStates) : DocumentAnalysisStates × Bool :=
  match docs.states.lookup key with
  | none => (docs, false)
  | some existing =>
      let outcome :=
        mergeRefreshedResults existing push.results push.options.toRefreshMergeOptions
      if outcome.changed then
        let refined := (refine <|> push.options.refine).elim outcome.next fun refine =>
          refine outcome.next
        ({ docs with states := docs.states.insert key refined }, true)
      else (docs, false)

def queue (docs : DocumentAnalysisStates) (key : String) (push : Push) : DocumentAnalysisStates :=
  push.options.generation.elim docs fun generation =>
    let queued := docs.queuedOf key ++ [⟨push, generation⟩]
    { docs with queued :=
        docs.queued.insert key (queued.drop (queued.length - maxQueuedRefreshBatches)) }

def replay (key : String) (generation : Nat) (refine : Option RefineStates)
    (docs : DocumentAnalysisStates) (held : QueuedRefresh) : DocumentAnalysisStates :=
  if held.generation = generation then (docs.merge key held.push refine).1 else docs

def set (docs : DocumentAnalysisStates) (key : String) (states : List ImportAnalysisState)
    (generation : Nat) (refine : Option RefineStates) : DocumentAnalysisStates :=
  (docs.queuedOf key).foldl (replay key generation refine)
    { states := docs.states.insert key states, queued := docs.queued.erase key }

def replace (docs : DocumentAnalysisStates) (key : String) (states : List ImportAnalysisState) :
    DocumentAnalysisStates :=
  { docs with states := docs.states.insert key states }

def applyRefreshedResults (docs : DocumentAnalysisStates) (key : String) (push : Push) :
    DocumentAnalysisStates × Bool :=
  if push.options.isCurrent = some false then (docs, false)
  else
    let docs := docs.queue key push
    if (docs.states.lookup key).isNone then (docs, false) else docs.merge key push none

def applyEdits (docs : DocumentAnalysisStates) (key : String) (edits : List SourceEdit) :
    DocumentAnalysisStates × Bool :=
  match docs.states.lookup key with
  | none => (docs, false)
  | some states =>
      if edits = [] then (docs, false)
      else
        let shifted := shiftStates states edits
        ({ docs with states := docs.states.insert key shifted },
          decide (shifted.length < states.length))

def clear (docs : DocumentAnalysisStates) (key : String) : DocumentAnalysisStates where
  states := docs.states.erase key
  queued := docs.queued.erase key

def applyAll (docs : DocumentAnalysisStates) (key : String) (pushes : List Push) :
    DocumentAnalysisStates :=
  pushes.foldl (fun docs push => (docs.applyRefreshedResults key push).1) docs

end DocumentAnalysisStates

/-! ## States up to their captions -/

/-- The states differ in their captions only. -/
def SameResults (first second : List ImportAnalysisState) : Prop :=
  first.map ImportAnalysisState.uncaptioned = second.map ImportAnalysisState.uncaptioned

def CaptionsOnly (refine : Option RefineStates) : Prop :=
  ∀ recaption ∈ refine, ∀ states, SameResults (recaption states) states

def Push.mergeInto (push : Push) (states : List ImportAnalysisState) :
    List ImportAnalysisState :=
  (mergeRefreshedResults states push.results push.options.toRefreshMergeOptions).next

def mergeInOrder (states : List ImportAnalysisState) (pushes : List Push) :
    List ImportAnalysisState :=
  pushes.foldl (fun states push => push.mergeInto states) states

theorem SameResults.mergeInto {first second : List ImportAnalysisState}
    (h : SameResults first second) (push : Push) :
    SameResults (push.mergeInto first) (push.mergeInto second) :=
  uncaptioned_merge h

theorem SameResults.mergeInOrder {first second : List ImportAnalysisState}
    (h : SameResults first second) (pushes : List Push) :
    SameResults (mergeInOrder first pushes) (mergeInOrder second pushes) := by
  induction pushes generalizing first second with
  | nil => exact h
  | cons push rest ih => exact ih (h.mergeInto push)

theorem mergeInOrder_append (states : List ImportAnalysisState) (first second : List Push) :
    mergeInOrder states (first ++ second) = mergeInOrder (mergeInOrder states first) second :=
  List.foldl_append

theorem mergeInto_superseded {push : Push} (h : push.options.isCurrent = some false)
    (states : List ImportAnalysisState) : push.mergeInto states = states := by
  unfold Push.mergeInto mergeRefreshedResults
  rw [if_pos h]

theorem captionsOnly_orElse {first second : Option RefineStates} (hfirst : CaptionsOnly first)
    (hsecond : CaptionsOnly second) : CaptionsOnly (first <|> second) := by
  cases first with
  | none => exact hsecond
  | some recaption => exact hfirst

/-! ## What an operation stores -/

namespace DocumentAnalysisStates

variable {docs : DocumentAnalysisStates} {key : String} {push : Push}
variable {refine : Option RefineStates} {states : List ImportAnalysisState}

/-- The document has states with these results. -/
def Stores (docs : DocumentAnalysisStates) (key : String) (states : List ImportAnalysisState) :
    Prop :=
  ∃ stored, docs.states.lookup key = some stored ∧ SameResults stored states

theorem Stores.get (h : docs.Stores key states) : SameResults (docs.get key) states := by
  obtain ⟨stored, hlookup, hsame⟩ := h
  unfold DocumentAnalysisStates.get
  rw [hlookup]
  exact hsame

@[simp] theorem queued_merge : (docs.merge key push refine).1.queued = docs.queued := by
  unfold merge
  split
  · rfl
  · dsimp only
    split <;> rfl

theorem Stores.merge (h : docs.Stores key states) (hrefine : CaptionsOnly refine)
    (hpush : CaptionsOnly push.options.refine) :
    (docs.merge key push refine).1.Stores key (push.mergeInto states) := by
  obtain ⟨stored, hlookup, hsame⟩ := h
  have hmerged : SameResults (push.mergeInto stored) (push.mergeInto states) := hsame.mergeInto push
  unfold DocumentAnalysisStates.merge
  rw [hlookup]
  dsimp only
  by_cases hchanged : (mergeRefreshedResults stored push.results
      push.options.toRefreshMergeOptions).changed = true
  · rw [if_pos hchanged]
    have hcaptions := captionsOnly_orElse hrefine hpush
    generalize (refine <|> push.options.refine) = refiner at hcaptions ⊢
    refine ⟨_, AList.lookup_insert _, ?_⟩
    cases refiner with
    | none => exact hmerged
    | some recaption => exact (hcaptions recaption rfl _).trans hmerged
  · rw [if_neg hchanged]
    have hnext : push.mergeInto stored = stored :=
      next_of_not_changed (eq_false_of_ne_true hchanged)
    rw [hnext] at hmerged
    exact ⟨stored, hlookup, hmerged⟩

theorem states_queue : (docs.queue key push).states = docs.states := by
  unfold queue
  cases push.options.generation <;> rfl

theorem Stores.applyRefreshedResults (h : docs.Stores key states)
    (hpush : CaptionsOnly push.options.refine) :
    (docs.applyRefreshedResults key push).1.Stores key (push.mergeInto states) := by
  unfold DocumentAnalysisStates.applyRefreshedResults
  by_cases hsuperseded : push.options.isCurrent = some false
  · rw [if_pos hsuperseded, mergeInto_superseded hsuperseded]
    exact h
  · rw [if_neg hsuperseded]
    have hqueued : (docs.queue key push).Stores key states := by
      obtain ⟨stored, hlookup, hsame⟩ := h
      exact ⟨stored, by rw [states_queue, hlookup], hsame⟩
    have hsome : ((docs.queue key push).states.lookup key).isNone = false := by
      obtain ⟨stored, hlookup, _⟩ := hqueued
      rw [hlookup]
      rfl
    dsimp only
    rw [hsome, if_neg Bool.false_ne_true]
    exact hqueued.merge (fun _ hnone => by cases hnone) hpush

theorem Stores.applyAll (h : docs.Stores key states) {pushes : List Push}
    (hpushes : ∀ push ∈ pushes, CaptionsOnly push.options.refine) :
    (docs.applyAll key pushes).Stores key (mergeInOrder states pushes) := by
  induction pushes generalizing docs states with
  | nil => exact h
  | cons push rest ih =>
      exact ih (h.applyRefreshedResults (hpushes push List.mem_cons_self))
        fun push hpush => hpushes push (List.mem_cons_of_mem _ hpush)

/-! ## What is held -/

def held (push : Push) : Option QueuedRefresh :=
  if push.options.isCurrent = some false then none
  else push.options.generation.map fun generation => ⟨push, generation⟩

theorem queuedOf_applyRefreshedResults
    (hbound : (docs.queuedOf key).length + (held push).toList.length ≤ maxQueuedRefreshBatches) :
    (docs.applyRefreshedResults key push).1.queuedOf key =
      docs.queuedOf key ++ (held push).toList := by
  unfold applyRefreshedResults held at *
  by_cases hsuperseded : push.options.isCurrent = some false
  · rw [if_pos hsuperseded, if_pos hsuperseded, Option.toList_none, List.append_nil]
  · rw [if_neg hsuperseded] at hbound ⊢
    rw [if_neg hsuperseded]
    have hqueue : (docs.queue key push).queuedOf key = docs.queuedOf key ++
        (push.options.generation.map fun generation => ⟨push, generation⟩).toList := by
      unfold queue
      cases hgeneration : push.options.generation with
      | none => simp only [Option.elim_none, Option.map_none, Option.toList_none, List.append_nil]
      | some generation =>
          rw [hgeneration] at hbound
          simp only [Option.map_some, Option.toList_some, List.length_singleton] at hbound
          simp only [Option.elim_some, Option.map_some, Option.toList_some]
          have hlength : (docs.queuedOf key ++ [(⟨push, generation⟩ : QueuedRefresh)]).length -
              maxQueuedRefreshBatches = 0 := by
            rw [List.length_append, List.length_singleton]
            omega
          rw [hlength, List.drop_zero]
          show ((docs.queued.insert key _).lookup key).getD [] = _
          rw [AList.lookup_insert]
          rfl
    dsimp only
    split
    · exact hqueue
    · rw [← hqueue]
      unfold queuedOf
      rw [queued_merge]

theorem queuedOf_applyAll {pushes : List Push}
    (hbound : (docs.queuedOf key).length + (pushes.filterMap held).length ≤
      maxQueuedRefreshBatches) :
    (docs.applyAll key pushes).queuedOf key = docs.queuedOf key ++ pushes.filterMap held := by
  induction pushes generalizing docs with
  | nil => rw [List.filterMap_nil, List.append_nil]; rfl
  | cons push rest ih =>
      have hcons : (push :: rest).filterMap held = (held push).toList ++ rest.filterMap held := by
        rw [List.filterMap_cons]
        cases held push <;> rfl
      rw [hcons] at hbound ⊢
      rw [List.length_append] at hbound
      have hone : (docs.applyRefreshedResults key push).1.queuedOf key =
          docs.queuedOf key ++ (held push).toList := queuedOf_applyRefreshedResults (by omega)
      show ((docs.applyRefreshedResults key push).1.applyAll key rest).queuedOf key = _
      rw [ih (by rw [hone, List.length_append]; omega), hone, List.append_assoc]

/-! ## What a replay stores -/

theorem Stores.foldl_replay (h : docs.Stores key states) (generation : Nat)
    (hrefine : CaptionsOnly refine) {queued : List QueuedRefresh}
    (hqueued : ∀ held ∈ queued, held.generation = generation →
      CaptionsOnly held.push.options.refine) :
    (queued.foldl (replay key generation refine) docs).Stores key
      (mergeInOrder states ((queued.filter fun held => decide (held.generation = generation)).map
        QueuedRefresh.push)) := by
  induction queued generalizing docs states with
  | nil => exact h
  | cons held rest ih =>
      have hrest := fun other hother => hqueued other (List.mem_cons_of_mem held hother)
      rw [List.foldl_cons, List.filter_cons]
      by_cases hgeneration : held.generation = generation
      · rw [if_pos (decide_eq_true hgeneration), List.map_cons]
        unfold replay
        rw [if_pos hgeneration]
        exact ih (h.merge hrefine (hqueued held List.mem_cons_self hgeneration)) hrest
      · rw [if_neg (by simpa using hgeneration)]
        unfold replay
        rw [if_neg hgeneration]
        exact ih h hrest

/-- `set` stores the states with the held pushes of the generation merged in. -/
theorem stores_set (docs : DocumentAnalysisStates) (key : String)
    (states : List ImportAnalysisState) (generation : Nat) (hrefine : CaptionsOnly refine)
    (hqueued : ∀ held ∈ docs.queuedOf key, held.generation = generation →
      CaptionsOnly held.push.options.refine) :
    (docs.set key states generation refine).Stores key
      (mergeInOrder states
        (((docs.queuedOf key).filter fun held => decide (held.generation = generation)).map
          QueuedRefresh.push)) := by
  unfold set
  refine Stores.foldl_replay ?_ generation hrefine hqueued
  exact ⟨states, AList.lookup_insert _, rfl⟩

theorem queuedOf_set (docs : DocumentAnalysisStates) (key : String)
    (states : List ImportAnalysisState) (generation : Nat) (refine : Option RefineStates) :
    (docs.set key states generation refine).queuedOf key = [] := by
  have hkeep : ∀ (queued : List QueuedRefresh) (docs : DocumentAnalysisStates),
      (queued.foldl (replay key generation refine) docs).queued = docs.queued := by
    intro queued
    induction queued with
    | nil => exact fun _ => rfl
    | cons held rest ih =>
        intro docs
        rw [List.foldl_cons, ih]
        unfold replay
        split
        · exact queued_merge
        · rfl
  unfold set queuedOf
  rw [hkeep]
  dsimp only
  rw [AList.lookup_erase]
  rfl

end DocumentAnalysisStates

end ImportLens.Extension
