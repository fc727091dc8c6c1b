import ImportLens.Extension.HintVersions

/-!
# Registry hints over runs of analyses

The runs of `PackageJsonRuns`, with the rows the daemon sent that were laid onto the
stored ones.  A run in which the next known version of a dependency is always the last
one, wherever a hint is carried over a row without a version, keeps every hint with the
version it came with.
-/

namespace ImportLens.Extension.PackageJson

open ImportLens.Support ImportLens.Daemon

/-! ## Runs, with the rows that were applied -/

/-- What the daemon keeps to in the rows of one response: each is of another dependency, and
one without a version has no hint. -/
structure DaemonRows (response : AnalyzePackageJsonResponse) : Prop where
  distinct : (response.states.map identity).Nodup
  known : ∀ row ∈ response.states, row.installedVersion = none → row.registryHint = none

def Analysis.FromDaemon (analysis : Analysis) : Prop :=
  (analysis.entries.map entryIdentity).Nodup ∧
    ∀ response ∈ analysis.stream.responses, DaemonRows response

def Event.FromDaemon : Event → Prop
  | .analyze analysis => analysis.FromDaemon
  | .refreshHints _ => False
  | _ => True

namespace Controller

variable (key : String)

def arriving (controller : Controller) (requestId : Nat) :
    Option (Flight × AnalyzePackageJsonResponse) :=
  (controller.flights.find? fun flight => flight.requestId = requestId).bind fun flight =>
    flight.waiting.head?.map fun response => (flight, response)

def applies (controller : Controller) (flight : Flight) (response : AnalyzePackageJsonResponse) :
    Bool :=
  controller.isCurrent flight.requestId &&
    (controller.editLog.since key flight.sourceVersion).isSome && response.error.isNone

def appliedRows (controller : Controller) : Event → List DependencyState
  | .deliver requestId =>
      match controller.arriving requestId with
      | some (flight, response) =>
          if controller.applies key flight response then response.rows.map Prod.snd else []
      | none => []
  | _ => []

end Controller

structure Traced where
  controller : Controller := {}
  /-- The daemon's rows so far. -/
  applied : List DependencyState := []

namespace Traced

variable (key : String)

def step (traced : Traced) (event : Event) : Traced where
  controller := traced.controller.step key event
  applied := traced.applied ++ traced.controller.appliedRows key event

def run (traced : Traced) (events : List Event) : Traced :=
  events.foldl (step key) traced

/-- Every row of an event agrees with what is stored. -/
def Agrees (traced : Traced) (event : Event) : Prop :=
  ∀ row ∈ traced.controller.appliedRows key event,
    RowAgrees (traced.controller.privateScopes.getD []) traced.applied
      (traced.controller.states.getD []) row

def AgreedRun (traced : Traced) : List Event → Prop
  | [] => True
  | event :: events => traced.Agrees key event ∧ (traced.step key event).AgreedRun events

instance (traced : Traced) (event : Event) : Decidable (traced.Agrees key event) :=
  inferInstanceAs (Decidable (∀ row ∈ _, _))

instance decidableAgreedRun : (traced : Traced) → (events : List Event) →
    Decidable (traced.AgreedRun key events)
  | _, [] => isTrue trivial
  | traced, event :: events =>
    have := decidableAgreedRun (traced.step key event) events
    inferInstanceAs (Decidable (_ ∧ _))

theorem controller_run (traced : Traced) (events : List Event) :
    (traced.run key events).controller = traced.controller.run key events := by
  induction events generalizing traced with
  | nil => rfl
  | cons event events ih => exact ih (traced.step key event)

variable {key}

theorem AgreedRun.take {traced : Traced} {events : List Event} (h : traced.AgreedRun key events)
    (n : Nat) : traced.AgreedRun key (events.take n) := by
  induction events generalizing traced n with
  | nil =>
    rw [List.take_nil]
    trivial
  | cons event events ih =>
    cases n with
    | zero => trivial
    | succ n => exact ⟨h.1, ih h.2 n⟩

end Traced

/-! ### What a response leaves -/

section

variable {key : String} {controller : Controller} {flight : Flight}
variable {response : AnalyzePackageJsonResponse} {edits : List SourceEdit}
variable {applied states : List DependencyState} {entries : List DependencyEntry}
variable {privateScopes : List String}

theorem rows_whole (hindexes : response.indexes.getD (List.range response.states.length) =
    List.range response.states.length) : response.rows.map Prod.snd = response.states := by
  unfold AnalyzePackageJsonResponse.rows
  rw [hindexes, List.map_snd_zip]
  rw [List.length_range]

/-- A response with all rows. -/
theorem rowSound_whole (hrows : DaemonRows response)
    (hagrees : ∀ row ∈ response.states, RowAgrees privateScopes applied states row)
    (hsound : ∀ row ∈ states, RowSound applied row True) :
    ∀ row ∈ mergePackageJsonFinalStates states (shiftPackageJsonResponse response edits).states,
      RowSound (applied ++ response.states) row (eligible privateScopes row = true) := by
  obtain ⟨place, hplace, hstates⟩ := shiftPackageJsonStates_eq_map edits
  rw [states_shiftPackageJsonResponse, hstates]
  exact rowSound_mergePackageJsonFinalStates hrows.distinct hrows.known hplace hagrees hsound

theorem map_snd_zip_sublist {α β : Type} (as : List α) (bs : List β) :
    ((as.zip bs).map Prod.snd).Sublist bs := by
  induction as generalizing bs with
  | nil => exact List.nil_sublist bs
  | cons a as ih =>
    cases bs with
    | nil => exact List.nil_sublist []
    | cons b bs => exact (ih bs).cons_cons b

/-- A patch of a list that has one row for each of its dependencies. -/
theorem rowSound_patch {unedited : Prop} {sent : Nat → ImportResult → Prop}
    (hpatch : IsPatch entries response) (hrows : DaemonRows response)
    (hdistinct : (entries.map entryIdentity).Nodup)
    (hstored : RowsOf unedited entries sent states)
    (hagrees : ∀ row ∈ response.rows.map Prod.snd, RowAgrees privateScopes applied states row)
    (hsound : ∀ row ∈ states, RowSound applied row True) :
    ∀ row ∈ mergePackageJsonAnalysisPartial states (shiftPackageJsonResponse response edits),
      RowSound (applied ++ response.rows.map Prod.snd) row (eligible privateScopes row = true) := by
  obtain ⟨index, indexes, hindexes, hindexed⟩ := hpatch.indexed
  obtain ⟨place, hplace, hstates⟩ := shiftPackageJsonStates_eq_map edits
  have hnot : ¬ isDependencySkeleton (shiftPackageJsonResponse response edits) = true := by
    unfold isDependencySkeleton
    rw [(sections_shiftPackageJsonResponse response edits).mpr hpatch.sections]
    simp
  have hzip : response.rows = (index :: indexes).zip response.states := by
    rw [AnalyzePackageJsonResponse.rows, hindexes, Option.getD_some]
  have hsub : (response.rows.map Prod.snd).Sublist response.states := by
    rw [hzip]
    exact map_snd_zip_sublist _ _
  unfold mergePackageJsonAnalysisPartial
  rw [indexes_shiftPackageJsonResponse, hindexes]
  dsimp only
  rw [if_neg hnot, states_shiftPackageJsonResponse, hstates, List.zip_map_right, ← hzip]
  apply rowSound_patches hplace
  · exact hrows.distinct.sublist (hsub.map identity)
  · intro one hone
    exact hrows.known one.2 (hsub.subset (List.mem_map_of_mem hone))
  · intro one hone
    exact hagrees one.2 (List.mem_map_of_mem hone)
  · -- a stored row of the same dependency stands at its position
    intro one hone j row hj hsame
    obtain ⟨entry, hentry, hanswers⟩ := hindexed one (hzip ▸ hone)
    have hlt : j < entries.length := by
      rw [← hstored.length]
      exact (List.getElem?_eq_some_iff.mp hj).1
    have hrow := hstored.row j _ row (List.getElem?_eq_getElem hlt) hj
    have hidentity : (entries.map entryIdentity)[j]? =
        (entries.map entryIdentity)[one.1]? := by
      rw [List.getElem?_map, List.getElem?_map, hentry, List.getElem?_eq_getElem hlt,
        Option.map_some, Option.map_some, entryIdentity, entryIdentity, ← hrow.sectionName,
        ← hrow.name, hsame.1, hsame.2, hanswers.sectionName, hanswers.name]
    exact (List.getElem?_inj (by rwa [List.length_map]) hdistinct).mp hidentity
  · intro j row hj
    have hrow := hsound row (List.mem_of_getElem? hj)
    exact ⟨⟨hrow.version, fun _ => hrow.hint trivial⟩, fun _ => hrow⟩

/-- A response leaves the stored rows alone, or clears them, or is laid onto them. -/
theorem states_handleResponse_cases (key : String) (controller : Controller) (flight : Flight)
    (response : AnalyzePackageJsonResponse)
    (hscopes : controller.current = some flight.requestId →
      controller.privateScopes = some flight.privateScopes) :
    ((if controller.applies key flight response then response.rows.map Prod.snd else []) = [] ∧
      (controller.handleResponse key flight response).states = controller.states) ∨
    (controller.handleResponse key flight response).states = none ∨
    ∃ edits, controller.current = some flight.requestId ∧
      controller.editLog.since key flight.sourceVersion = some edits ∧ response.error = none ∧
      controller.applies key flight response = true ∧
      ((∃ index indexes, response.indexes = some (index :: indexes)) ∨ response.states ≠ []) ∧
      (controller.handleResponse key flight response).states =
        some (withRegistryEligibility (mergePackageJsonAnalysisPartial
          (controller.states.getD []) (shiftPackageJsonResponse response edits))
          (controller.privateScopes.getD [])) := by
  by_cases hcurrent : controller.current = some flight.requestId
  · have hisCurrent : controller.isCurrent flight.requestId = true := decide_eq_true hcurrent
    cases hsince : controller.editLog.since key flight.sourceVersion with
    | none =>
      left
      refine ⟨by rw [Controller.applies, hsince]; simp, ?_⟩
      unfold Controller.handleResponse Controller.handlePackageJsonPartial
        Controller.handleFinalResponse
      rw [hisCurrent, hsince]
      simp
    | some edits =>
      cases herror : response.error with
      | some error =>
        have happlies : controller.applies key flight response = false := by
          rw [Controller.applies, herror]
          simp
        rw [happlies, if_neg (by simp)]
        unfold Controller.handleResponse Controller.handlePackageJsonPartial
          Controller.handleFinalResponse
        rw [hisCurrent, hsince, outcome_clear (by rw [herror]; rfl), herror]
        cases response.indexes.any fun indexes => decide (indexes.length > 0) with
        | true => exact .inl ⟨rfl, rfl⟩
        | false => exact .inr (.inl rfl)
      | none =>
        have happlies : controller.applies key flight response = true := by
          rw [Controller.applies, hisCurrent, hsince, herror]
          rfl
        rw [happlies, if_pos rfl]
        cases hindexes : response.indexes.any fun indexes => decide (indexes.length > 0) with
        | true =>
          have hsome : ∃ index indexes, response.indexes = some (index :: indexes) := by
            cases hall : response.indexes with
            | none =>
              rw [hall] at hindexes
              cases hindexes
            | some all =>
              rw [hall] at hindexes
              obtain ⟨index, indexes, rfl⟩ :=
                List.exists_cons_of_length_pos (of_decide_eq_true hindexes)
              exact ⟨index, indexes, rfl⟩
          obtain ⟨index, indexes, hall⟩ := hsome
          refine .inr (.inr ⟨edits, hcurrent, rfl, rfl, rfl, .inl ⟨index, indexes, hall⟩, ?_⟩)
          exact states_handleResponse hall herror hcurrent hsince
        | false =>
          have hresponse : controller.handleResponse key flight response =
              controller.handleFinalResponse key flight response := by
            rw [Controller.handleResponse, hindexes, if_neg (by simp)]
          rw [hresponse]
          unfold Controller.handleFinalResponse
          rw [hisCurrent, hsince, if_neg (by simp)]
          dsimp only
          by_cases hstates : response.states.length > 0
          · rw [outcome_apply herror hstates]
            have hne : response.states ≠ [] := List.ne_nil_of_length_pos hstates
            refine .inr (.inr ⟨edits, hcurrent, rfl, rfl, rfl, .inr hne, ?_⟩)
            rw [hscopes hcurrent]
            rfl
          · have hnil : response.states = [] := List.length_eq_zero_iff.mp (by omega)
            have hrows : response.rows.map Prod.snd = [] := by
              rw [AnalyzePackageJsonResponse.rows, hnil, List.zip_nil_right, List.map_nil]
            rw [hrows, packageJsonFinalResponseOutcome, herror, if_neg (by simp), if_neg hstates]
            cases flight.parseable with
            | true => exact .inr (.inl rfl)
            | false => exact .inl ⟨rfl, rfl⟩
  · left
    refine ⟨?_, by rw [handleResponse_superseded hcurrent]⟩
    rw [Controller.applies, Controller.isCurrent, decide_eq_false hcurrent]
    rfl

end

/-! ### The invariant -/

structure TracedInv (key : String) (traced : Traced) : Prop where
  base : Inv key traced.controller
  rows : ∀ row ∈ traced.controller.states.getD [], RowSound traced.applied row True
  scopes : ∀ flight ∈ traced.controller.flights,
    traced.controller.current = some flight.requestId →
      traced.controller.privateScopes = some flight.privateScopes
  entries : ∀ flight ∈ traced.controller.flights,
    (flight.entries.map entryIdentity).Nodup
  daemon : ∀ flight ∈ traced.controller.flights, ∀ response ∈ flight.waiting, DaemonRows response

section

variable {key : String} {traced : Traced} {controller : Controller} {applied : List DependencyState}

/-- A step that applies no row, sends no request, and changes no hint. -/
theorem TracedInv.of_same (h : TracedInv key traced) (hbase : Inv key controller)
    (hflights : controller.flights = traced.controller.flights)
    (hscopes : ∀ flight ∈ controller.flights, controller.current = some flight.requestId →
      traced.controller.current = some flight.requestId ∧
        controller.privateScopes = traced.controller.privateScopes)
    (hrows : ∀ row ∈ controller.states.getD [], RowSound traced.applied row True) :
    TracedInv key { controller := controller, applied := traced.applied } where
  base := hbase
  rows := hrows
  scopes := by
    intro flight hflight hcurrent
    obtain ⟨hbefore, hsame⟩ := hscopes flight hflight hcurrent
    rw [hsame]
    exact h.scopes flight (hflights ▸ hflight) hbefore
  entries := by
    rw [hflights]
    exact h.entries
  daemon := by
    rw [hflights]
    exact h.daemon

theorem TracedInv.clear (h : TracedInv key traced) :
    TracedInv key { controller := traced.controller.clear key, applied := traced.applied } := by
  refine h.of_same h.base.clear rfl (fun flight _ hcurrent => ?_) (fun row hrow => ?_)
  · cases hcurrent
  · cases hrow

theorem TracedInv.fail (h : TracedInv key traced) (requestId : Nat) (message : String) :
    TracedInv key
      { controller := traced.controller.fail key requestId message
        applied := traced.applied } := by
  have hbase := h.base.fail requestId message
  unfold Controller.fail Controller.markLoadingUnavailable at hbase ⊢
  split
  · split
    · exact h.clear
    · rename_i hcurrent hstates
      rw [if_pos hcurrent, if_neg hstates] at hbase
      refine h.of_same hbase rfl (fun flight _ hcurrent => ⟨hcurrent, rfl⟩) fun row hrow => ?_
      obtain ⟨before, hbefore, rfl⟩ := List.mem_map.mp hrow
      have hsound := h.rows before hbefore
      split
      · apply RowSound.congr hsound
        · exact ⟨rfl, rfl⟩
        · rfl
        · exact fun _ _ hhint => ⟨trivial, hhint⟩
      · exact hsound
  · exact h

theorem TracedInv.followEdits (h : TracedInv key traced) (edits : List SourceEdit) :
    TracedInv key
      { controller := traced.controller.followEdits key edits, applied := traced.applied } := by
  have hbase := h.base.followEdits edits
  unfold Controller.followEdits at hbase ⊢
  split
  · exact h
  · rename_i hedits
    rw [if_neg hedits] at hbase
    refine h.of_same hbase rfl (fun flight _ hcurrent => ⟨hcurrent, rfl⟩) fun row hrow => ?_
    obtain ⟨place, hplace, hstates⟩ := shiftPackageJsonStates_eq_map edits
    dsimp only at hrow
    rw [getD_map _ _ (by rw [hstates]; rfl), hstates] at hrow
    obtain ⟨before, hbefore, rfl⟩ := List.mem_map.mp hrow
    refine (h.rows before hbefore).congr (hplace before).same (hplace before).installedVersion ?_
    intro _ hint hhint
    exact ⟨trivial, (hplace before).registryHint ▸ hhint⟩

theorem TracedInv.analyze (h : TracedInv key traced) {analysis : Analysis}
    (hdaemon : analysis.FromDaemon) :
    TracedInv key
      { controller := traced.controller.analyze analysis, applied := traced.applied } := by
  have hnew : ∀ flight ∈ (traced.controller.analyze analysis).flights,
      flight ∈ traced.controller.flights ∨ flight.requestId = traced.controller.nextRequestId ∧
        flight.privateScopes = analysis.privateScopes ∧ flight.entries = analysis.entries ∧
        flight.waiting = analysis.stream.responses := by
    intro flight hflight
    rcases List.mem_append.mp hflight with hold | hnew
    · exact .inl hold
    · rw [List.mem_singleton.mp hnew]
      exact .inr ⟨rfl, rfl, rfl, rfl⟩
  constructor
  · exact h.base.analyze analysis
  · exact h.rows
  · intro flight hflight hcurrent
    have hid : traced.controller.nextRequestId = flight.requestId := Option.some.inj hcurrent
    rcases hnew flight hflight with hold | ⟨-, hscopes, -⟩
    · have := h.base.ids flight hold
      omega
    · rw [hscopes]
      rfl
  · intro flight hflight
    rcases hnew flight hflight with hold | ⟨-, -, hentries, -⟩
    · exact h.entries flight hold
    · rw [hentries]
      exact hdaemon.1
  · intro flight hflight
    rcases hnew flight hflight with hold | ⟨-, -, -, hwaiting⟩
    · exact h.daemon flight hold
    · rw [hwaiting]
      exact hdaemon.2

/-- After the rows of a response the hints that stay eligible are sound. -/
theorem rowSound_withRegistryEligibility {privateScopes : List String}
    {states : List DependencyState}
    (h : ∀ row ∈ states, RowSound applied row (eligible privateScopes row = true)) :
    ∀ row ∈ withRegistryEligibility states privateScopes, RowSound applied row True := by
  intro row hrow
  obtain ⟨before, hbefore, rfl⟩ := List.mem_map.mp hrow
  apply RowSound.congr (h before hbefore)
  · exact ⟨rfl, rfl⟩
  · rfl
  · intro _ hint hhint
    dsimp only at hhint
    split at hhint
    · exact ⟨by assumption, hhint⟩
    · cases hhint

/-- A manifest without dependencies is answered by a response that is not laid onto
anything. -/
theorem entries_ne_nil {entries : List DependencyEntry} {stream : PackageJsonStream entries}
    {response : AnalyzePackageJsonResponse} {arrived waiting : List AnalyzePackageJsonResponse}
    (hstream : stream.responses = arrived ++ response :: waiting) (herror : response.error = none)
    (hlaid : (∃ index indexes, response.indexes = some (index :: indexes)) ∨ response.states ≠ []) :
    entries ≠ [] := by
  rintro rfl
  have hmem : response ∈ stream.responses := by
    rw [hstream]
    exact List.mem_append_right _ List.mem_cons_self
  have hlast : response = stream.final := List.mem_singleton.mp hmem
  have hfinal := stream.last
  rw [← hlast] at hfinal
  rcases hlaid with ⟨index, indexes, hindexes⟩ | hstates
  · rw [hfinal.indexes] at hindexes
    cases hindexes
  · exact hstates (List.forall₂_nil_left_iff.mp (hfinal.states herror))

/-- The rows after a response. -/
theorem TracedInv.handleResponse (h : TracedInv key traced) {flight : Flight}
    {response : AnalyzePackageJsonResponse} {waiting : List AnalyzePackageJsonResponse}
    (hflight : flight ∈ traced.controller.flights) (hwaiting : flight.waiting = response :: waiting)
    {rows : List DependencyState}
    (hrows : (if traced.controller.applies key flight response then response.rows.map Prod.snd
      else []) = rows)
    (hagrees : ∀ row ∈ rows, RowAgrees (traced.controller.privateScopes.getD []) traced.applied
      (traced.controller.states.getD []) row) :
    ∀ row ∈ (traced.controller.handleResponse key flight response).states.getD [],
      RowSound (traced.applied ++ rows) row True := by
  have hdaemon : DaemonRows response :=
    h.daemon flight hflight response (hwaiting ▸ List.mem_cons_self)
  rcases states_handleResponse_cases key traced.controller flight response
      (h.scopes flight hflight) with ⟨hnone, hsame⟩ | hcleared |
        ⟨edits, hcurrent, hsince, herror, happlies, hlaid, hstates⟩
  · rw [hsame, ← hrows, hnone, List.append_nil]
    exact h.rows
  · rw [hcleared]
    exact fun row hrow => by cases hrow
  · rw [happlies, if_pos rfl] at hrows
    subst hrows
    obtain ⟨stream, hstream⟩ := h.base.streams flight hflight
    rw [hwaiting] at hstream
    have hentries := entries_ne_nil hstream herror hlaid
    rw [hstates, Option.getD_some]
    apply rowSound_withRegistryEligibility
    rcases stream.response_cases hentries hstream with hskeleton | ⟨harrived, hpatch | hfinal⟩
    · have hlength : response.states.length = flight.entries.length :=
        hskeleton.states.length_eq.symm
      have hwhole : response.rows.map Prod.snd = response.states :=
        rows_whole (by rw [hskeleton.indexes, hlength]; rfl)
      rw [hwhole] at hagrees ⊢
      unfold mergePackageJsonAnalysisPartial
      rw [indexes_shiftPackageJsonResponse, hskeleton.indexes]
      dsimp only
      rw [if_pos (isDependencySkeleton_of hskeleton)]
      exact rowSound_whole hdaemon hagrees h.rows
    · have hshows : Shows traced.controller flight :=
        h.base.rows flight hflight hcurrent hentries harrived (by rw [hsince]; rfl)
      exact rowSound_patch hpatch hdaemon (h.entries flight hflight) hshows hagrees h.rows
    · have hwhole : response.rows.map Prod.snd = response.states :=
        rows_whole (by rw [hfinal.indexes]; rfl)
      rw [hwhole] at hagrees ⊢
      unfold mergePackageJsonAnalysisPartial
      rw [indexes_shiftPackageJsonResponse, hfinal.indexes]
      exact rowSound_whole hdaemon hagrees h.rows

theorem privateScopes_handleResponse (key : String) (controller : Controller) (flight : Flight)
    (response : AnalyzePackageJsonResponse) :
    (controller.handleResponse key flight response).current = none ∨
      (controller.handleResponse key flight response).privateScopes = controller.privateScopes := by
  unfold Controller.handleResponse Controller.handlePackageJsonPartial
    Controller.handleFinalResponse
  split
  · split
    · exact .inr rfl
    · split <;> exact .inr rfl
  · split
    · exact .inr rfl
    · split
      · exact .inr rfl
      · dsimp only
        split
        · exact .inr rfl
        · exact .inl rfl
        · exact .inr rfl

/-- A delivery brings nothing, or the next response of a flight. -/
theorem deliver_cases (key : String) (controller : Controller) (requestId : Nat) :
    (controller.appliedRows key (.deliver requestId) = [] ∧
      controller.deliver key requestId = controller) ∨
    ∃ flight response waiting, flight ∈ controller.flights ∧ flight.waiting = response :: waiting ∧
      controller.appliedRows key (.deliver requestId) =
        (if controller.applies key flight response then response.rows.map Prod.snd else []) ∧
      controller.deliver key requestId =
        { controller.handleResponse key flight response with
          flights := controller.flights.map fun other =>
            if other.requestId = requestId then Flight.take other response waiting
            else other } := by
  cases hfind : controller.flights.find? fun flight => flight.requestId = requestId with
  | none =>
    left
    simp only [Controller.appliedRows, Controller.arriving, Controller.deliver, hfind,
      Option.bind_none, and_self]
  | some flight =>
    cases hwaiting : flight.waiting with
    | nil =>
      left
      simp only [Controller.appliedRows, Controller.arriving, Controller.deliver, hfind,
        hwaiting, Option.bind_some, List.head?_nil, Option.map_none, and_self]
    | cons response waiting =>
      refine .inr ⟨flight, response, waiting, List.mem_of_find?_eq_some hfind, hwaiting, ?_, ?_⟩
      · simp only [Controller.appliedRows, Controller.arriving, hfind, hwaiting, Option.bind_some,
          List.head?_cons, Option.map_some]
      · simp only [Controller.deliver, hfind, hwaiting]

theorem TracedInv.deliver (h : TracedInv key traced) (requestId : Nat)
    (hagrees : traced.Agrees key (.deliver requestId)) :
    TracedInv key (traced.step key (.deliver requestId)) := by
  have hbase := h.base.deliver requestId
  unfold Traced.Agrees at hagrees
  unfold Traced.step Controller.step
  dsimp only
  rcases deliver_cases key traced.controller requestId with ⟨hrows, hsame⟩ |
    ⟨flight, response, waiting, hflight, hwaiting, hrows, hdeliver⟩
  · rw [hrows, hsame, List.append_nil]
    exact h
  · rw [hrows] at hagrees
    rw [hdeliver] at hbase
    rw [hrows, hdeliver]
    have hhandled := handled_response h.base.log flight response
    have hsame : ∀ other ∈ traced.controller.flights.map (fun other =>
        if other.requestId = requestId then Flight.take other response waiting else other),
        ∃ before ∈ traced.controller.flights, other.requestId = before.requestId ∧
          other.privateScopes = before.privateScopes ∧ other.entries = before.entries ∧
          (other.waiting = waiting ∨ other.waiting = before.waiting) := by
      intro other hother
      obtain ⟨before, hbefore, rfl⟩ := List.mem_map.mp hother
      refine ⟨before, hbefore, ?_⟩
      split
      · exact ⟨rfl, rfl, rfl, .inl rfl⟩
      · exact ⟨rfl, rfl, rfl, .inr rfl⟩
    constructor
    · exact hbase
    · exact h.handleResponse hflight hwaiting rfl hagrees
    · intro other hother hcurrent
      obtain ⟨before, hbefore, hid, hscopes, -⟩ := hsame other hother
      dsimp only at hcurrent ⊢
      rcases privateScopes_handleResponse key traced.controller flight response with hnone | hkept
      · rw [hnone] at hcurrent
        cases hcurrent
      · rw [hkept, hscopes]
        apply h.scopes before hbefore
        rw [← hid, ← hcurrent]
        refine (hhandled.current.resolve_right fun hnone => ?_).symm
        rw [hnone] at hcurrent
        cases hcurrent
    · intro other hother
      obtain ⟨before, hbefore, -, -, hentries, -⟩ := hsame other hother
      rw [hentries]
      exact h.entries before hbefore
    · intro other hother later hlater
      obtain ⟨before, hbefore, -, -, -, hrest | hrest⟩ := hsame other hother
      · rw [hrest] at hlater
        exact h.daemon flight hflight later (hwaiting ▸ List.mem_cons_of_mem _ hlater)
      · rw [hrest] at hlater
        exact h.daemon before hbefore later hlater

theorem TracedInv.step (h : TracedInv key traced) {event : Event} (hdaemon : event.FromDaemon)
    (hagrees : traced.Agrees key event) : TracedInv key (traced.step key event) := by
  cases event with
  | deliver requestId => exact h.deliver requestId hagrees
  | refreshHints refreshed => exact absurd hdaemon id
  | analyze analysis =>
    show TracedInv key ⟨_, traced.applied ++ []⟩
    rw [List.append_nil]
    exact h.analyze hdaemon
  | fail requestId message =>
    show TracedInv key ⟨_, traced.applied ++ []⟩
    rw [List.append_nil]
    exact h.fail requestId message
  | edit edits =>
    show TracedInv key ⟨_, traced.applied ++ []⟩
    rw [List.append_nil]
    exact h.followEdits edits
  | supersedeAll =>
    show TracedInv key ⟨_, traced.applied ++ []⟩
    rw [List.append_nil]
    refine h.of_same (h.base.step .supersedeAll) rfl (fun flight _ hcurrent => ?_) h.rows
    cases hcurrent
  | close =>
    show TracedInv key ⟨_, traced.applied ++ []⟩
    rw [List.append_nil]
    exact h.clear

theorem tracedInv_empty (key : String) : TracedInv key {} where
  base := inv_empty key
  rows _ hnone := absurd hnone List.not_mem_nil
  scopes _ hnone := absurd hnone List.not_mem_nil
  entries _ hnone := absurd hnone List.not_mem_nil
  daemon _ hnone := absurd hnone List.not_mem_nil

theorem tracedInv_run (h : TracedInv key traced) {events : List Event}
    (hdaemon : ∀ event ∈ events, event.FromDaemon) (hagreed : traced.AgreedRun key events) :
    TracedInv key (traced.run key events) := by
  induction events generalizing traced with
  | nil => exact h
  | cons event events ih =>
    apply ih (h.step (hdaemon event List.mem_cons_self) hagreed.1)
    · exact fun other hother => hdaemon other (List.mem_cons_of_mem _ hother)
    · exact hagreed.2

end

/-- In every state of a run whose rows agree on the last known versions, a hint that is shown
beside a version came with that version. -/
theorem hints_stay (key : String) (events : List Event)
    (hdaemon : ∀ event ∈ events, event.FromDaemon)
    (hagreed : Traced.AgreedRun key {} events) (n : Nat) :
    HintsStay (Traced.run key {} (events.take n)).applied
      ((Traced.run key {} (events.take n)).controller.states.getD []) := by
  have h := tracedInv_run (tracedInv_empty key)
    (fun event hevent => hdaemon event (List.mem_of_mem_take hevent)) (hagreed.take n)
  intro row hrow version hversion hint hhint
  have hsound := h.rows row hrow
  obtain ⟨judged, hlast, hjudged⟩ := hsound.hint trivial hint hhint
  rw [hsound.version version hversion] at hlast
  rw [Option.some.inj hlast]
  exact hjudged

/-! ## The rows the daemon sends -/

section

open ImportLens.Daemon.PackageJson

variable {objects : List DependencySectionObject} {findings : Findings}

theorem map_identity_answers {entries : List DependencyEntry} {states : List DependencyState}
    (h : List.Forall₂ Answers entries states) :
    states.map identity = entries.map entryIdentity := by
  induction h with
  | nil => rfl
  | cons hanswers _ ih =>
    rw [List.map_cons, List.map_cons, ih, identity, entryIdentity, hanswers.sectionName,
      hanswers.name]

def KnownHint (row : DependencyState) : Prop :=
  row.installedVersion = none → row.registryHint = none

theorem knownHint_resolved (entry : DependencyEntry) (resolution : Resolution) :
    KnownHint (resolvedState entry resolution) := by
  intro hnone
  cases resolution with
  | installed version hint => cases hnone
  | missing message => rfl

theorem knownHint_resolvedStates : ∀ row ∈ resolvedStates objects findings, KnownHint row := by
  intro row hrow
  obtain ⟨indexed, -, rfl⟩ := List.mem_map.mp hrow
  exact knownHint_resolved _ _

theorem knownHint_finalStates : ∀ row ∈ finalStates objects findings, KnownHint row := by
  unfold finalStates
  generalize finalResults objects findings = results
  have h := @knownHint_resolvedStates objects findings
  generalize resolvedStates objects findings = states at h ⊢
  induction results generalizing states with
  | nil => exact h
  | cons indexed results ih =>
    apply ih
    intro row hrow
    obtain ⟨i, hi⟩ := List.mem_iff_getElem?.mp hrow
    rw [List.getElem?_modify] at hi
    obtain ⟨before, hbefore, hsame⟩ := Option.map_eq_some_iff.mp hi
    have hknown := h before (List.mem_of_getElem? hbefore)
    split at hsame
    · rw [← hsame]
      exact hknown
    · rw [← hsame]
      exact hknown

/-- The rows of results at different positions. -/
theorem daemonRows_readyRows {results : List (Nat × ImportResult)}
    (hdistinct : ((packageJsonDependencyEntries objects).map entryIdentity).Nodup)
    (hpositions : (results.map Prod.fst).Nodup) :
    DaemonRows (indexedPartial [] (readyRows objects findings results)) := by
  constructor
  · have hidentity : ((readyRows objects findings results).map Prod.snd).map identity =
        (results.map Prod.fst).filterMap fun index =>
          ((packageJsonDependencyEntries objects).map entryIdentity)[index]? := by
      rw [readyRows, List.map_map, List.map_filterMap, List.filterMap_map]
      apply List.filterMap_congr
      intro indexed _
      rw [getElem?_resolvedStates, Function.comp_apply, List.getElem?_map]
      cases (packageJsonDependencyEntries objects)[indexed.1]? with
      | none => rfl
      | some entry =>
        have hanswers :=
          answers_ready (answers_resolved entry (findings.resolution indexed.1)) indexed.2
        simp only [Option.map_some, Function.comp_apply, identity, entryIdentity,
          hanswers.sectionName, hanswers.name]
    show (((readyRows objects findings results).map Prod.snd).map identity).Nodup
    rw [hidentity]
    apply List.Nodup.filterMap ?_ hpositions
    intro i j key hi hj
    have hlt := (List.getElem?_eq_some_iff.mp hi).1
    exact (List.getElem?_inj hlt hdistinct).mp (Eq.trans hi hj.symm)
  · intro row hrow
    obtain ⟨indexed, hindexed, rfl⟩ := List.mem_map.mp hrow
    obtain ⟨result, -, hresult⟩ := List.mem_filterMap.mp hindexed
    obtain ⟨state, hstate, rfl⟩ := Option.map_eq_some_iff.mp hresult
    exact knownHint_resolvedStates state (List.mem_of_getElem? hstate)

/-- What the daemon sends about a manifest whose dependencies differ in section or name. -/
theorem fromDaemon_packageJsonStream {landed : List Nat}
    (hlanded : landed.Perm (pendingAnalysis objects findings))
    (hdistinct : ((packageJsonDependencyEntries objects).map entryIdentity).Nodup)
    (parseable : Bool) (privateScopes : List String) :
    (Analysis.mk (packageJsonDependencyEntries objects) parseable privateScopes
      (packageJsonStream objects findings landed hlanded)).FromDaemon := by
  refine ⟨hdistinct, fun response hresponse => ?_⟩
  have hinstalled : (installedIndexes objects findings).Nodup := List.nodup_range.filter _
  have hfinal : DaemonRows (packageJsonStream objects findings landed hlanded).final := by
    constructor
    · show ((finalStates objects findings).map identity).Nodup
      rw [map_identity_answers forall₂_final]
      exact hdistinct
    · exact knownHint_finalStates
  unfold PackageJsonStream.responses at hresponse
  split at hresponse
  · rw [List.mem_singleton.mp hresponse]
    exact hfinal
  · rcases List.mem_cons.mp hresponse with rfl | hresponse
    · constructor
      · show (((packageJsonDependencyEntries objects).map loadingState).map identity).Nodup
        rw [map_identity_answers forall₂_loading]
        exact hdistinct
      · intro row hrow _
        obtain ⟨entry, -, rfl⟩ := List.mem_map.mp hrow
        rfl
    · rcases List.mem_cons.mp hresponse with rfl | hresponse
      · constructor
        · show ((resolvedStates objects findings).map identity).Nodup
          rw [map_identity_answers forall₂_resolved]
          exact hdistinct
        · exact knownHint_resolvedStates
      · rcases List.mem_append.mp hresponse with hpatch | hlast
        · rcases List.mem_append.mp hpatch with hcached | hbuilt
          · split at hcached
            · cases hcached
            · rw [List.mem_singleton.mp hcached]
              apply daemonRows_readyRows hdistinct
              rw [cachedIndexedResults, List.map_filterMap]
              apply List.Nodup.filterMap ?_ hinstalled
              intro i j key hi hj
              simp only [Option.mem_def, Option.map_map, Option.map_eq_some_iff] at hi hj
              obtain ⟨_, _, rfl⟩ := hi
              obtain ⟨_, _, hj⟩ := hj
              exact hj.symm
          · obtain ⟨index, -, rfl⟩ := List.mem_map.mp hbuilt
            exact daemonRows_readyRows hdistinct (List.nodup_singleton _)
        · rw [List.mem_singleton.mp hlast]
          exact hfinal

end

/-! ## Two analyses of one dependency -/

def reactEntry : DependencyEntry :=
  ⟨"react", "^18.0.0", .dependencies, ⟨⟨1, 2⟩, ⟨1, 20⟩⟩, ⟨⟨1, 2⟩, ⟨1, 9⟩⟩, ⟨⟨1, 11⟩, ⟨1, 20⟩⟩⟩

def reactRow (status : ImportAnalysisStatus) (version : Option String)
    (hint : Option RegistryHint) : DependencyState where
  name := "react"
  sectionName := .dependencies
  entry := reactEntry
  status := status
  installedVersion := version
  registryHint := hint

def reactSection : DependencySection :=
  ⟨.dependencies, ⟨⟨0, 0⟩, ⟨2, 1⟩⟩, ⟨⟨0, 17⟩, ⟨2, 1⟩⟩⟩

def reactStream (version : String) (hint : Option RegistryHint) :
    PackageJsonStream [reactEntry] where
  loading := ⟨[reactSection], [reactRow .loading none none], some [0], none⟩
  resolved := ⟨[reactSection], [reactRow .loading (some version) hint], some [0], none⟩
  patches := []
  final := ⟨[reactSection], [reactRow .ready (some version) hint], none, none⟩
  loading_skeleton := fun _ =>
    ⟨List.cons_ne_nil _ _, .cons ⟨rfl, rfl, rfl⟩ .nil, rfl, rfl⟩
  resolved_skeleton := fun _ =>
    ⟨List.cons_ne_nil _ _, .cons ⟨rfl, rfl, rfl⟩ .nil, rfl, rfl⟩
  patch := fun _ hnone => absurd hnone List.not_mem_nil
  last := ⟨rfl, fun _ => .cons ⟨rfl, rfl, rfl⟩ .nil⟩

def reactAnalysis (version : String) (hint : Option RegistryHint) : Analysis :=
  ⟨[reactEntry], true, [], reactStream version hint⟩

def reactRun (first second : String) (hint : RegistryHint) : List Event :=
  [.analyze (reactAnalysis first (some hint)), .deliver 0, .deliver 0, .deliver 0,
    .analyze (reactAnalysis second none), .deliver 1, .deliver 1, .deliver 1]

theorem reactRun_fromDaemon (first second : String) (hint : RegistryHint) :
    ∀ event ∈ reactRun first second hint, event.FromDaemon := by
  have hanalysis : ∀ version hint, (reactAnalysis version hint).FromDaemon := by
    intro version hint
    refine ⟨List.nodup_singleton _, fun response hresponse => ?_⟩
    have hcases : response.states = [reactRow .loading none none] ∨
        ∃ status, response.states = [reactRow status (some version) hint] := by
      simp only [reactAnalysis, PackageJsonStream.responses, reactStream, List.cons_ne_nil,
        if_false, List.nil_append, List.mem_cons, List.not_mem_nil, or_false] at hresponse
      rcases hresponse with rfl | rfl | rfl
      · exact .inl rfl
      · exact .inr ⟨.loading, rfl⟩
      · exact .inr ⟨.ready, rfl⟩
    rcases hcases with hstates | ⟨status, hstates⟩
    · refine ⟨by rw [hstates]; exact List.nodup_singleton _, fun row hrow _ => ?_⟩
      rw [hstates] at hrow
      rw [List.mem_singleton.mp hrow]
      rfl
    · refine ⟨by rw [hstates]; exact List.nodup_singleton _, fun row hrow hnone => ?_⟩
      rw [hstates] at hrow
      rw [List.mem_singleton.mp hrow] at hnone
      cases hnone
  intro event hevent
  simp only [reactRun, List.mem_cons, List.not_mem_nil, or_false] at hevent
  rcases hevent with rfl | rfl | rfl | rfl | rfl | rfl | rfl | rfl
  · exact hanalysis first (some hint)
  · trivial
  · trivial
  · trivial
  · exact hanalysis second none
  · trivial
  · trivial
  · trivial

/-- A version that stays. -/
theorem hints_stay_react :
    HintsStay (Traced.run "m" {} (reactRun "18.2.0" "18.2.0" { fetchedAt := some 5 })).applied
      ((Traced.run "m" {}
        (reactRun "18.2.0" "18.2.0" { fetchedAt := some 5 })).controller.states.getD
        []) :=
  hints_stay "m" (reactRun "18.2.0" "18.2.0" { fetchedAt := some 5 })
    (reactRun_fromDaemon _ _ _) (by decide) 8

/-- A version that changes: the hint of the old one is shown beside the new one. -/
theorem hints_stay_updated :
    (∀ event ∈ reactRun "18.2.0" "18.3.0" { fetchedAt := some 5 }, event.FromDaemon) ∧
      ¬ HintsStay (Traced.run "m" {} (reactRun "18.2.0" "18.3.0" { fetchedAt := some 5 })).applied
        ((Traced.run "m" {}
          (reactRun "18.2.0" "18.3.0" { fetchedAt := some 5 })).controller.states.getD
          []) :=
  ⟨reactRun_fromDaemon _ _ _, by decide⟩

end ImportLens.Extension.PackageJson
