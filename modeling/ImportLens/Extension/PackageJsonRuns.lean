import ImportLens.Daemon.PackageJson
import ImportLens.Extension.StoredRanges

/-!
# Analyses of one manifest

The controller of `packageJsonAnalysis.ts` for one `package.json`.  Analyses supersede
each other while their responses are on the way, the text is edited, and registry hints
are refreshed.  From the first response of the current request on, the stored rows are
those of its dependencies.
-/

namespace ImportLens.Extension.PackageJson

open ImportLens.Support ImportLens.Daemon

/-- A request that has been sent, and how far it is answered. -/
structure Flight where
  requestId : Nat
  sourceVersion : Nat
  entries : List DependencyEntry
  /-- Whether the text is JSON. -/
  parseable : Bool
  privateScopes : List String
  arrived : List AnalyzePackageJsonResponse := []
  waiting : List AnalyzePackageJsonResponse
  deriving DecidableEq, Repr

def Flight.take (flight : Flight) (response : AnalyzePackageJsonResponse)
    (waiting : List AnalyzePackageJsonResponse) : Flight :=
  { flight with arrived := flight.arrived ++ [response], waiting := waiting }

structure Controller where
  /-- The version of the text on screen. -/
  version : Nat := 0
  editLog : DocumentEditLog := {}
  states : Option (List DependencyState) := none
  sections : Option (List DependencySection) := none
  privateScopes : Option (List String) := none
  /-- The latest request of the manifest, unless it is forgotten. -/
  current : Option Nat := none
  nextRequestId : Nat := 0
  flights : List Flight := []

abbrev RefreshedHint : Type :=
  DependencyState → Option RegistryHint × Option RegistryHintRefreshStatus × Option String

/-- The text an analysis reads, with the responses it will get. -/
structure Analysis where
  entries : List DependencyEntry
  parseable : Bool
  privateScopes : List String
  stream : PackageJsonStream entries

inductive Event
  | analyze (analysis : Analysis)
  /-- The next response of a request. -/
  | deliver (requestId : Nat)
  /-- The request times out, or the daemon is gone. -/
  | fail (requestId : Nat) (message : String)
  | edit (edits : List SourceEdit)
  | refreshHints (refreshed : RefreshedHint)
  | supersedeAll
  | close

namespace Controller

variable (key : String)

def isCurrent (controller : Controller) (requestId : Nat) : Bool :=
  controller.current = some requestId

def forgetEdits (log : DocumentEditLog) : DocumentEditLog :=
  { entries := log.entries.erase key, droppedThrough := log.droppedThrough.erase key }

def clear (controller : Controller) : Controller :=
  { controller with
    states := none
    sections := none
    editLog := forgetEdits key controller.editLog
    privateScopes := none
    current := none }

/-- The start of `analyze`: the request id is taken, and the request is sent. -/
def analyze (controller : Controller) (analysis : Analysis) : Controller :=
  { controller with
    current := some controller.nextRequestId
    nextRequestId := controller.nextRequestId + 1
    privateScopes := some analysis.privateScopes
    flights := controller.flights ++
      [{ requestId := controller.nextRequestId
         sourceVersion := controller.version
         entries := analysis.entries
         parseable := analysis.parseable
         privateScopes := analysis.privateScopes
         waiting := analysis.stream.responses }] }

def handlePackageJsonPartial (controller : Controller) (requestId : Nat)
    (response : AnalyzePackageJsonResponse) (sourceVersion : Nat) : Controller :=
  match controller.editLog.since key sourceVersion with
  | none => controller
  | some editsSinceSource =>
      if !controller.isCurrent requestId || response.error.isSome then controller
      else
        let placed := shiftPackageJsonResponse response editsSinceSource
        { controller with
          sections := if placed.sections.length > 0 then some placed.sections
            else controller.sections
          states := some (withRegistryEligibility
            (mergePackageJsonAnalysisPartial (controller.states.getD []) placed)
            (controller.privateScopes.getD [])) }

/-- The end of `analyze`. -/
def handleFinalResponse (controller : Controller) (flight : Flight)
    (response : AnalyzePackageJsonResponse) : Controller :=
  if !controller.isCurrent flight.requestId then controller
  else
    match controller.editLog.since key flight.sourceVersion with
    | none => controller
    | some editsSinceSource =>
        let placed := shiftPackageJsonResponse response editsSinceSource
        let pruned := { controller with
          editLog := controller.editLog.prune key flight.sourceVersion }
        match packageJsonFinalResponseOutcome response flight.parseable with
        | .keep => pruned
        | .clear => pruned.clear key
        | .apply =>
            { pruned with
              sections := some placed.sections
              states := some (withRegistryEligibility
                (mergePackageJsonAnalysisPartial (controller.states.getD []) placed)
                flight.privateScopes) }

def handleResponse (controller : Controller) (flight : Flight)
    (response : AnalyzePackageJsonResponse) : Controller :=
  if response.indexes.any fun indexes => indexes.length > 0 then
    controller.handlePackageJsonPartial key flight.requestId response flight.sourceVersion
  else controller.handleFinalResponse key flight response

def markLoadingUnavailable (controller : Controller) (message : String) : Controller :=
  if (controller.states.getD []).length = 0 then controller.clear key
  else
    { controller with
      states := some (markPackageJsonLoadingUnavailable (controller.states.getD []) message) }

def fail (controller : Controller) (requestId : Nat) (message : String) : Controller :=
  if controller.isCurrent requestId then controller.markLoadingUnavailable key message
  else controller

def followEdits (controller : Controller) (edits : List SourceEdit) : Controller :=
  if edits.length = 0 then controller
  else
    { controller with
      version := controller.version + 1
      editLog := controller.editLog.record key (controller.version + 1) edits
      sections := controller.sections.map fun sections => shiftPackageJsonSections sections edits
      states := controller.states.map fun states => shiftPackageJsonStates states edits }

def refreshHints (controller : Controller) (refreshed : RefreshedHint) : Controller :=
  { controller with
    states := controller.states.map fun states => states.map fun state =>
      { state with
        registryHint := (refreshed state).1
        registryHintRefreshStatus := (refreshed state).2.1
        registryHintRefreshError := (refreshed state).2.2 } }

def deliver (controller : Controller) (requestId : Nat) : Controller :=
  match controller.flights.find? fun flight => flight.requestId = requestId with
  | none => controller
  | some flight =>
      match flight.waiting with
      | [] => controller
      | response :: waiting =>
          { controller.handleResponse key flight response with
            flights := controller.flights.map fun other =>
              if other.requestId = requestId then Flight.take other response waiting else other }

def step (controller : Controller) : Event → Controller
  | .analyze analysis => controller.analyze analysis
  | .deliver requestId => controller.deliver key requestId
  | .fail requestId message => controller.fail key requestId message
  | .edit edits => controller.followEdits key edits
  | .refreshHints refreshed => controller.refreshHints refreshed
  | .supersedeAll => { controller with current := none }
  | .close => controller.clear key

def run (controller : Controller) (events : List Event) : Controller :=
  events.foldl (step key) controller

end Controller

/-! ## The log of edits -/

section

variable {key : String} {log : DocumentEditLog} {version sourceVersion : Nat}

/-- The log of a text at a version. -/
structure LogSound (key : String) (log : DocumentEditLog) (version : Nat) : Prop where
  increasing : (log.entriesOf key).Pairwise fun a b => a.version < b.version
  recorded : ∀ entry ∈ log.entriesOf key, entry.version ≤ version
  through : ∀ dropped, log.droppedThrough.lookup key = some dropped →
    dropped ≤ version ∧ ∀ entry ∈ log.entriesOf key, dropped < entry.version

theorem logSound_empty (key : String) (version : Nat) : LogSound key {} version :=
  ⟨List.Pairwise.nil, fun _ hnone => absurd hnone List.not_mem_nil, fun _ hnone => by cases hnone⟩

theorem since_eq_some (h : ∀ dropped, log.droppedThrough.lookup key = some dropped →
    dropped ≤ sourceVersion) :
    log.since key sourceVersion = some (((log.entriesOf key).filter fun entry =>
      decide (sourceVersion < entry.version)).flatMap LoggedEdits.edits) := by
  unfold DocumentEditLog.since
  cases hlookup : log.droppedThrough.lookup key with
  | none => rfl
  | some dropped =>
    have hle := h dropped hlookup
    rw [if_neg (by simp; omega)]

theorem since_isSome_iff : (log.since key sourceVersion).isSome = true ↔
    ∀ dropped, log.droppedThrough.lookup key = some dropped → dropped ≤ sourceVersion := by
  constructor
  · intro hsome dropped hlookup
    unfold DocumentEditLog.since at hsome
    rw [hlookup] at hsome
    by_contra hless
    rw [if_pos (by simp; omega)] at hsome
    cases hsome
  · intro h
    rw [since_eq_some h]
    rfl

theorem LogSound.since_version (h : LogSound key log version) :
    log.since key version = some [] := by
  rw [since_eq_some fun dropped hlookup => (h.through dropped hlookup).1]
  have hnone : (log.entriesOf key).filter (fun entry => decide (version < entry.version)) = [] := by
    rw [List.filter_eq_nil_iff]
    intro entry hentry
    have := h.recorded entry hentry
    simp only [decide_eq_true_eq]
    omega
  rw [hnone]
  rfl

theorem mem_held {edits : List SourceEdit} {entry : LoggedEdits}
    (hentry : entry ∈ log.entriesOf key ++ [(⟨version + 1, edits⟩ : LoggedEdits)]) :
    entry ∈ log.entriesOf key ∨ entry.version = version + 1 := by
  rcases List.mem_append.mp hentry with hold | hnew
  · exact .inl hold
  · rw [List.mem_singleton.mp hnew]
    exact .inr rfl

theorem LogSound.held (h : LogSound key log version) (edits : List SourceEdit) :
    (log.entriesOf key ++ [(⟨version + 1, edits⟩ : LoggedEdits)]).Pairwise
      fun a b => a.version < b.version := by
  rw [List.pairwise_append]
  refine ⟨h.increasing, List.pairwise_singleton _ _, ?_⟩
  intro entry hentry new hnew
  rw [List.mem_singleton.mp hnew]
  exact Nat.lt_succ_of_le (h.recorded entry hentry)

/-- The newest dropped version is newer than the one before, and older than what is kept. -/
theorem LogSound.record (h : LogSound key log version) (edits : List SourceEdit) :
    LogSound key (log.record key (version + 1) edits) (version + 1) ∧
      ∀ sourceVersion, ((log.record key (version + 1) edits).since key sourceVersion).isSome →
        (log.since key sourceVersion).isSome := by
  have hheld := h.held edits
  have hthrough : ∀ dropped,
      (log.record key (version + 1) edits).droppedThrough.lookup key = some dropped →
        (dropped ≤ version + 1 ∧
          ∀ entry ∈ (log.record key (version + 1) edits).entriesOf key, dropped < entry.version) ∧
        ∀ older, log.droppedThrough.lookup key = some older → older ≤ dropped := by
    intro dropped hlookup
    rw [droppedThrough_record] at hlookup
    rw [entriesOf_record]
    generalize hbound : (log.entriesOf key ++ [(⟨version + 1, edits⟩ : LoggedEdits)]).length -
      maxLoggedEditsPerDocument = k
    have hover : overBound key log ⟨version + 1, edits⟩ =
        (log.entriesOf key ++ [(⟨version + 1, edits⟩ : LoggedEdits)]).take k := by
      rw [overBound, hbound]
    rw [hover] at hlookup
    cases hlast : ((log.entriesOf key ++
        [(⟨version + 1, edits⟩ : LoggedEdits)]).take k).getLast? with
    | none =>
      rw [hlast] at hlookup
      have hold : log.droppedThrough.lookup key = some dropped := hlookup
      obtain ⟨hle, hnewer⟩ := h.through dropped hold
      refine ⟨⟨by omega, fun entry hentry => ?_⟩, fun older holder => ?_⟩
      · rcases mem_held (List.mem_of_mem_drop hentry) with hmem | hnew
        · exact hnewer entry hmem
        · omega
      · rw [hold] at holder
        exact (Option.some.inj holder).ge
    | some last =>
      rw [hlast] at hlookup
      have hversion : last.version = dropped := Option.some.inj hlookup
      have hmem := List.mem_of_getLast? hlast
      rw [← List.take_append_drop k (log.entriesOf key ++ _), List.pairwise_append] at hheld
      refine ⟨⟨?_, fun entry hentry => ?_⟩, fun older holder => ?_⟩
      · rcases mem_held (List.mem_of_mem_take hmem) with hold | hnew
        · have := h.recorded last hold
          omega
        · omega
      · rw [← hversion]
        exact hheld.2.2 last hmem entry hentry
      · obtain ⟨hle, hnewer⟩ := h.through older holder
        rcases mem_held (List.mem_of_mem_take hmem) with hold | hnew
        · have := hnewer last hold
          omega
        · omega
  refine ⟨⟨?_, ?_, fun dropped hlookup => (hthrough dropped hlookup).1⟩, ?_⟩
  · rw [entriesOf_record]
    exact hheld.drop
  · intro entry hentry
    rw [entriesOf_record] at hentry
    rcases mem_held (List.mem_of_mem_drop hentry) with hold | hnew
    · have := h.recorded entry hold
      omega
    · omega
  · intro sourceVersion hsome
    rw [since_isSome_iff] at hsome ⊢
    intro older holder
    -- the log still answers, so what it dropped last is not newer than the source
    cases hlookup : (log.record key (version + 1) edits).droppedThrough.lookup key with
    | none =>
      rw [droppedThrough_record] at hlookup
      cases hlast : (overBound key log ⟨version + 1, edits⟩).getLast? with
      | none =>
        rw [hlast] at hlookup
        have hnone : log.droppedThrough.lookup key = none := hlookup
        rw [hnone] at holder
        cases holder
      | some last =>
        rw [hlast] at hlookup
        cases hlookup
    | some dropped =>
      have := hsome dropped hlookup
      have := (hthrough dropped hlookup).2 older holder
      omega

theorem LogSound.prune (h : LogSound key log version) (sourceVersion : Nat) :
    LogSound key (log.prune key sourceVersion) version ∧
      ∀ sourceVersion', ((log.prune key sourceVersion).since key sourceVersion').isSome →
        (log.since key sourceVersion').isSome := by
  have hthrough : (log.prune key sourceVersion).droppedThrough = log.droppedThrough := by
    unfold DocumentEditLog.prune
    cases log.entries.lookup key <;> rfl
  have hsub : ((log.prune key sourceVersion).entriesOf key).Sublist (log.entriesOf key) := by
    unfold DocumentEditLog.prune DocumentEditLog.entriesOf
    cases hlookup : log.entries.lookup key with
    | none => rw [Option.elim_none, hlookup]
    | some entries =>
      rw [Option.elim_some, AList.lookup_insert, Option.getD_some, Option.getD_some]
      exact List.filter_sublist
  refine ⟨⟨h.increasing.sublist hsub, fun entry hentry => h.recorded entry (hsub.subset hentry),
    fun dropped hlookup => ?_⟩, fun sourceVersion' hsome => ?_⟩
  · rw [hthrough] at hlookup
    obtain ⟨hle, hnewer⟩ := h.through dropped hlookup
    exact ⟨hle, fun entry hentry => hnewer entry (hsub.subset hentry)⟩
  · rw [since_isSome_iff, hthrough] at hsome
    exact since_isSome_iff.mpr hsome

theorem logSound_forgetEdits (log : DocumentEditLog) (version : Nat) :
    LogSound key (Controller.forgetEdits key log) version := by
  have hentries : (Controller.forgetEdits key log).entriesOf key = [] := by
    unfold Controller.forgetEdits DocumentEditLog.entriesOf
    rw [AList.lookup_erase]
    rfl
  have hdropped : (Controller.forgetEdits key log).droppedThrough.lookup key = none :=
    AList.lookup_erase _ _
  constructor
  · rw [hentries]
    exact List.Pairwise.nil
  · rw [hentries]
    exact fun _ hnone => absurd hnone List.not_mem_nil
  · intro dropped hlookup
    rw [hdropped] at hlookup
    cases hlookup

end

/-! ## The rows of the current request -/

def Shows (controller : Controller) (flight : Flight) : Prop :=
  RowsOf (controller.version = flight.sourceVersion) flight.entries (Sent flight.arrived)
    (controller.states.getD [])

structure Inv (key : String) (controller : Controller) : Prop where
  log : LogSound key controller.editLog controller.version
  ids : ∀ flight ∈ controller.flights, flight.requestId < controller.nextRequestId
  distinct : (controller.flights.map Flight.requestId).Nodup
  sources : ∀ flight ∈ controller.flights, flight.sourceVersion ≤ controller.version
  streams : ∀ flight ∈ controller.flights, ∃ stream : PackageJsonStream flight.entries,
    stream.responses = flight.arrived ++ flight.waiting
  rows : ∀ flight ∈ controller.flights, controller.current = some flight.requestId →
    flight.entries ≠ [] → flight.arrived ≠ [] →
    (controller.editLog.since key flight.sourceVersion).isSome → Shows controller flight

section

variable {key : String} {controller next : Controller} {flight : Flight}
variable {response : AnalyzePackageJsonResponse}

theorem inv_empty (key : String) : Inv key {} where
  log := logSound_empty key 0
  ids _ hnone := absurd hnone List.not_mem_nil
  distinct := List.nodup_nil
  sources _ hnone := absurd hnone List.not_mem_nil
  streams _ hnone := absurd hnone List.not_mem_nil
  rows _ hnone := absurd hnone List.not_mem_nil

/-- A step that leaves the flights alone, and the rows those of the current request. -/
theorem Inv.of_flights (h : Inv key controller)
    (hlog : LogSound key next.editLog next.version) (hflights : next.flights = controller.flights)
    (hnext : next.nextRequestId = controller.nextRequestId)
    (hversion : controller.version ≤ next.version)
    (hrows : ∀ flight ∈ controller.flights, next.current = some flight.requestId →
      (next.editLog.since key flight.sourceVersion).isSome →
        controller.current = some flight.requestId ∧
          (controller.editLog.since key flight.sourceVersion).isSome ∧
          (Shows controller flight → Shows next flight)) : Inv key next := by
  constructor
  · exact hlog
  · rw [hflights, hnext]
    exact h.ids
  · rw [hflights]
    exact h.distinct
  · rw [hflights]
    exact fun flight hflight => Nat.le_trans (h.sources flight hflight) hversion
  · rw [hflights]
    exact h.streams
  · rw [hflights]
    intro flight hflight hcurrent hentries harrived hsince
    obtain ⟨hbefore, hknown, hshows⟩ := hrows flight hflight hcurrent hsince
    exact hshows (h.rows flight hflight hbefore hentries harrived hknown)

/-- Without a current request nothing is promised of the rows. -/
theorem Inv.of_forgotten (h : Inv key controller)
    (hlog : LogSound key next.editLog next.version) (hflights : next.flights = controller.flights)
    (hnext : next.nextRequestId = controller.nextRequestId)
    (hversion : controller.version ≤ next.version) (hnone : next.current = none) :
    Inv key next := by
  refine h.of_flights hlog hflights hnext hversion fun flight _ hcurrent => ?_
  rw [hnone] at hcurrent
  cases hcurrent

theorem Inv.clear (h : Inv key controller) : Inv key (controller.clear key) :=
  h.of_forgotten (logSound_forgetEdits _ _) rfl rfl (Nat.le_refl _) rfl

theorem Inv.analyze (h : Inv key controller) (analysis : Analysis) :
    Inv key (controller.analyze analysis) := by
  have hnew : ∀ flight ∈ (controller.analyze analysis).flights,
      flight ∈ controller.flights ∨ flight.requestId = controller.nextRequestId ∧
        flight.sourceVersion = controller.version ∧ flight.arrived = [] ∧
        ∃ stream : PackageJsonStream flight.entries, stream.responses = flight.waiting := by
    intro flight hflight
    rcases List.mem_append.mp hflight with hold | hnew
    · exact .inl hold
    · rw [List.mem_singleton.mp hnew]
      exact .inr ⟨rfl, rfl, rfl, analysis.stream, rfl⟩
  constructor
  · exact h.log
  · intro flight hflight
    show flight.requestId < controller.nextRequestId + 1
    rcases hnew flight hflight with hold | ⟨hid, -⟩
    · have := h.ids flight hold
      omega
    · omega
  · show (List.map Flight.requestId (controller.flights ++ [_])).Nodup
    rw [List.map_append, List.nodup_append]
    refine ⟨h.distinct, List.nodup_singleton _, fun id hid other hother => ?_⟩
    obtain ⟨flight, hflight, rfl⟩ := List.mem_map.mp hid
    rw [List.map_singleton, List.mem_singleton] at hother
    have hless : flight.requestId < controller.nextRequestId := h.ids flight hflight
    exact ne_of_lt (hother ▸ hless)
  · intro flight hflight
    show flight.sourceVersion ≤ controller.version
    rcases hnew flight hflight with hold | ⟨-, hsource, -⟩
    · exact h.sources flight hold
    · omega
  · intro flight hflight
    rcases hnew flight hflight with hold | ⟨-, -, harrived, stream, hstream⟩
    · exact h.streams flight hold
    · exact ⟨stream, by rw [hstream, harrived, List.nil_append]⟩
  · -- the request that is current now has no response yet
    intro flight hflight hcurrent _ harrived
    have hid : controller.nextRequestId = flight.requestId := Option.some.inj hcurrent
    rcases hnew flight hflight with hold | ⟨-, -, hnone, -⟩
    · have := h.ids flight hold
      omega
    · exact absurd hnone harrived

theorem getD_map {α β : Type} (states : Option (List α)) (f : List α → List β)
    (hnil : f [] = []) : (states.map f).getD [] = f (states.getD []) := by
  cases states with
  | none => exact hnil.symm
  | some states => rfl

theorem Inv.fail (h : Inv key controller) (requestId : Nat) (message : String) :
    Inv key (controller.fail key requestId message) := by
  unfold Controller.fail Controller.markLoadingUnavailable
  split
  · split
    · exact h.clear
    · refine h.of_flights h.log rfl rfl (Nat.le_refl _) fun flight _ hcurrent hsince =>
        ⟨hcurrent, hsince, fun hshows => ?_⟩
      exact hshows.markPackageJsonLoadingUnavailable message
  · exact h

theorem Inv.followEdits (h : Inv key controller) (edits : List SourceEdit) :
    Inv key (controller.followEdits key edits) := by
  unfold Controller.followEdits
  split
  · exact h
  · obtain ⟨hlog, hsince⟩ := h.log.record edits
    refine h.of_flights hlog rfl rfl (Nat.le_succ _) fun flight hflight hcurrent hknown =>
      ⟨hcurrent, hsince flight.sourceVersion hknown, fun hshows => ?_⟩
    have hsource := h.sources flight hflight
    have hedited : ¬ controller.version + 1 = flight.sourceVersion := by omega
    unfold Shows
    dsimp only
    rw [getD_map _ _ (by unfold shiftPackageJsonStates; split <;> rfl)]
    exact RowsOf.shiftPackageJsonStates hshows (fun _ => hedited) fun hsame => absurd hsame hedited

theorem Inv.refreshHints (h : Inv key controller) (refreshed : RefreshedHint) :
    Inv key (controller.refreshHints refreshed) := by
  refine h.of_flights h.log rfl rfl (Nat.le_refl _) fun flight _ hcurrent hsince =>
    ⟨hcurrent, hsince, fun hshows => ?_⟩
  unfold Shows Controller.refreshHints
  dsimp only
  rw [getD_map _ _ rfl]
  exact RowsOf.map hshows _ fun _ _ _ hrow => hrow.congr rfl rfl rfl rfl

/-! ### A response arrives -/

/-- What can come next among the responses to a manifest with dependencies. -/
theorem PackageJsonStream.response_cases {entries : List DependencyEntry} (hentries : entries ≠ [])
    (stream : PackageJsonStream entries) {arrived waiting : List AnalyzePackageJsonResponse}
    (heq : stream.responses = arrived ++ response :: waiting) :
    IsSkeleton entries response ∨
      arrived ≠ [] ∧ (IsPatch entries response ∨ IsFinal entries response) := by
  rw [PackageJsonStream.responses, if_neg hentries] at heq
  cases arrived with
  | nil =>
    cases heq
    exact .inl (stream.loading_skeleton hentries)
  | cons first arrived =>
    obtain ⟨-, htail⟩ := List.cons.inj heq
    cases arrived with
    | nil =>
      cases htail
      exact .inl (stream.resolved_skeleton hentries)
    | cons second arrived =>
      obtain ⟨-, hrest⟩ := List.cons.inj htail
      have hmem : response ∈ stream.patches ++ [stream.final] := by
        rw [hrest]
        exact List.mem_append_right _ List.mem_cons_self
      refine .inr ⟨List.cons_ne_nil _ _, ?_⟩
      rcases List.mem_append.mp hmem with hpatch | hfinal
      · exact .inl (stream.patch response hpatch)
      · rw [List.mem_singleton.mp hfinal]
        exact .inr stream.last

/-- What the handling of a response leaves as it is. -/
structure Handled (key : String) (controller next : Controller) : Prop where
  version : next.version = controller.version
  flights : next.flights = controller.flights
  nextRequestId : next.nextRequestId = controller.nextRequestId
  current : next.current = controller.current ∨ next.current = none
  log : LogSound key next.editLog next.version
  since : ∀ sourceVersion, next.current = controller.current →
    (next.editLog.since key sourceVersion).isSome →
      (controller.editLog.since key sourceVersion).isSome

theorem handled_refl (h : LogSound key controller.editLog controller.version) :
    Handled key controller controller :=
  ⟨rfl, rfl, rfl, .inl rfl, h, fun _ _ => id⟩

theorem handled_patch (h : LogSound key controller.editLog controller.version)
    (requestId : Nat) (response : AnalyzePackageJsonResponse) (sourceVersion : Nat) :
    Handled key controller
      (controller.handlePackageJsonPartial key requestId response sourceVersion) := by
  unfold Controller.handlePackageJsonPartial
  split
  · exact handled_refl h
  · split
    · exact handled_refl h
    · exact ⟨rfl, rfl, rfl, .inl rfl, h, fun _ _ => id⟩

theorem handled_final (h : LogSound key controller.editLog controller.version)
    (flight : Flight) (response : AnalyzePackageJsonResponse) :
    Handled key controller (controller.handleFinalResponse key flight response) := by
  unfold Controller.handleFinalResponse
  split
  · exact handled_refl h
  · rename_i hcurrent
    split
    · exact handled_refl h
    · obtain ⟨hlog, hsince⟩ := h.prune flight.sourceVersion
      dsimp only
      split
      · exact ⟨rfl, rfl, rfl, .inl rfl, hlog, fun sourceVersion _ => hsince sourceVersion⟩
      · refine ⟨rfl, rfl, rfl, .inr rfl, logSound_forgetEdits _ _, fun _ hsame => ?_⟩
        -- a request is current, so forgetting it does not leave it the current one
        have hnone : none = controller.current := hsame
        rw [Controller.isCurrent, ← hnone] at hcurrent
        simp at hcurrent
      · exact ⟨rfl, rfl, rfl, .inl rfl, hlog, fun sourceVersion _ => hsince sourceVersion⟩

theorem handled_response (h : LogSound key controller.editLog controller.version)
    (flight : Flight) (response : AnalyzePackageJsonResponse) :
    Handled key controller (controller.handleResponse key flight response) := by
  unfold Controller.handleResponse
  split
  · exact handled_patch h _ _ _
  · exact handled_final h _ _

/-- A partial of the current request whose text the log still reaches. -/
theorem states_handleResponse {edits : List SourceEdit} {index : Nat} {indexes : List Nat}
    (hindexes : response.indexes = some (index :: indexes)) (herror : response.error = none)
    (hcurrent : controller.current = some flight.requestId)
    (hsince : controller.editLog.since key flight.sourceVersion = some edits) :
    (controller.handleResponse key flight response).states =
      some (withRegistryEligibility (mergePackageJsonAnalysisPartial
        (controller.states.getD []) (shiftPackageJsonResponse response edits))
        (controller.privateScopes.getD [])) := by
  unfold Controller.handleResponse Controller.handlePackageJsonPartial Controller.isCurrent
  rw [hindexes, herror, hcurrent, hsince, if_pos (by simp)]
  dsimp only
  rw [if_neg (by simp)]

theorem outcome_clear {parseable : Bool} (h : response.error.isSome = true) :
    packageJsonFinalResponseOutcome response parseable = .clear := by
  rw [packageJsonFinalResponseOutcome, if_pos h]

theorem outcome_apply {parseable : Bool} (herror : response.error = none)
    (hstates : response.states.length > 0) :
    packageJsonFinalResponseOutcome response parseable = .apply := by
  rw [packageJsonFinalResponseOutcome, herror, if_neg (by simp), if_pos hstates]

theorem handleResponse_superseded (hcurrent : controller.current ≠ some flight.requestId) :
    controller.handleResponse key flight response = controller := by
  have hnot : (!controller.isCurrent flight.requestId) = true := by
    simpa [Controller.isCurrent] using hcurrent
  unfold Controller.handleResponse Controller.handlePackageJsonPartial
    Controller.handleFinalResponse
  rw [hnot]
  split
  · split
    · rfl
    · rw [Bool.true_or, if_pos rfl]
  · rw [if_pos rfl]

/-- The rows after a response to the current request. -/
theorem shows_handleResponse (h : Inv key controller) (hflight : flight ∈ controller.flights)
    {waiting : List AnalyzePackageJsonResponse} (hwaiting : flight.waiting = response :: waiting)
    (hentries : flight.entries ≠ [])
    (hafter : (controller.handleResponse key flight response).current = some flight.requestId)
    (hsince : ((controller.handleResponse key flight response).editLog.since key
      flight.sourceVersion).isSome) :
    RowsOf (controller.version = flight.sourceVersion) flight.entries
      (Sent (flight.arrived ++ [response]))
      ((controller.handleResponse key flight response).states.getD []) := by
  have hhandled := handled_response h.log flight response
  have hsame : (controller.handleResponse key flight response).current = controller.current := by
    refine hhandled.current.resolve_right fun hnone => ?_
    rw [hnone] at hafter
    cases hafter
  have hcurrent : controller.current = some flight.requestId := hsame.symm.trans hafter
  have hknown := hhandled.since flight.sourceVersion hsame hsince
  obtain ⟨edits, hedits⟩ := Option.isSome_iff_exists.mp hknown
  have hunedited : controller.version = flight.sourceVersion → edits = [] := by
    intro hversion
    rw [← hversion, h.log.since_version] at hedits
    exact (Option.some.inj hedits).symm
  have hsent : ∀ i state result, (i, state) ∈ response.rows → state.result = some result →
      Sent (flight.arrived ++ [response]) i result := fun i state result hrow hresult =>
    ⟨response, List.mem_append_right _ (List.mem_singleton_self _), state, hrow, hresult⟩
  obtain ⟨stream, hstream⟩ := h.streams flight hflight
  rw [hwaiting] at hstream
  rcases stream.response_cases hentries hstream with hskeleton | ⟨harrived, hpatch | hfinal⟩
  · obtain ⟨entry, entries, heq⟩ := List.exists_cons_of_ne_nil hentries
    have hindexes := hskeleton.indexes
    rw [heq, List.length_cons, List.range_succ_eq_map] at hindexes
    rw [states_handleResponse hindexes hskeleton.error hcurrent hedits]
    exact (rowsOf_skeleton hunedited hskeleton hsent _).withRegistryEligibility _
  · obtain ⟨index, indexes, hindexes, -⟩ := hpatch.indexed
    have hshows : Shows controller flight :=
      h.rows flight hflight hcurrent hentries harrived hknown
    have hrows : RowsOf (controller.version = flight.sourceVersion) flight.entries
        (Sent (flight.arrived ++ [response])) (controller.states.getD []) := by
      refine RowsOf.mono hshows id fun i result => ?_
      rintro ⟨earlier, hearlier, hcarried⟩
      exact ⟨earlier, List.mem_append_left _ hearlier, hcarried⟩
    rw [states_handleResponse hindexes hpatch.error hcurrent hedits]
    exact (hrows.patch hunedited hpatch hsent).withRegistryEligibility _
  · have hresponse : controller.handleResponse key flight response =
        controller.handleFinalResponse key flight response := by
      rw [Controller.handleResponse, hfinal.indexes, if_neg (by simp)]
    rw [hresponse] at hafter ⊢
    unfold Controller.handleFinalResponse Controller.isCurrent at hafter ⊢
    rw [hcurrent, hedits, if_neg (by simp)] at hafter ⊢
    dsimp only at hafter ⊢
    cases herror : response.error with
    | some error =>
      rw [outcome_clear (by rw [herror]; rfl)] at hafter
      cases hafter
    | none =>
      have hlength : response.states.length > 0 := by
        rw [← (hfinal.states herror).length_eq]
        exact List.length_pos_of_ne_nil hentries
      rw [outcome_apply herror hlength]
      exact (rowsOf_final hunedited hfinal herror hsent _).withRegistryEligibility _

theorem Inv.deliver (h : Inv key controller) (requestId : Nat) :
    Inv key (controller.deliver key requestId) := by
  unfold Controller.deliver
  split
  · exact h
  · rename_i flight hfind
    have hflight := List.mem_of_find?_eq_some hfind
    have hid : flight.requestId = requestId := by simpa using List.find?_some hfind
    subst hid
    split
    · exact h
    · rename_i response waiting hwaiting
      have hhandled := handled_response h.log flight response
      -- the flight that was found is the only one with its id
      have honly : ∀ other ∈ controller.flights, other.requestId = flight.requestId →
          other = flight := fun other hother heq =>
        List.inj_on_of_nodup_map h.distinct hother hflight heq
      have hmem : ∀ other ∈ controller.flights.map (fun other =>
          if other.requestId = flight.requestId then Flight.take other response waiting
          else other),
          (other = Flight.take flight response waiting) ∨
            (other ∈ controller.flights ∧ other.requestId ≠ flight.requestId) := by
        intro other hother
        obtain ⟨before, hbefore, rfl⟩ := List.mem_map.mp hother
        split
        · rename_i heq
          exact .inl (by rw [honly before hbefore heq])
        · rename_i hne
          exact .inr ⟨hbefore, hne⟩
      constructor
      · exact hhandled.log
      · intro other hother
        show other.requestId < (controller.handleResponse key flight response).nextRequestId
        rw [hhandled.nextRequestId]
        rcases hmem other hother with rfl | ⟨hbefore, -⟩
        · exact h.ids flight hflight
        · exact h.ids other hbefore
      · have hkeys : (controller.flights.map fun other =>
            if other.requestId = flight.requestId then Flight.take other response waiting
            else other).map Flight.requestId = controller.flights.map Flight.requestId := by
          rw [List.map_map]
          apply List.map_congr_left
          intro other _
          dsimp only [Function.comp_apply]
          split <;> rfl
        exact hkeys ▸ h.distinct
      · intro other hother
        show other.sourceVersion ≤ (controller.handleResponse key flight response).version
        rw [hhandled.version]
        rcases hmem other hother with rfl | ⟨hbefore, -⟩
        · exact h.sources flight hflight
        · exact h.sources other hbefore
      · intro other hother
        rcases hmem other hother with rfl | ⟨hbefore, -⟩
        · obtain ⟨stream, hstream⟩ := h.streams flight hflight
          rw [hwaiting] at hstream
          exact ⟨stream, hstream.trans (List.append_cons _ _ _)⟩
        · exact h.streams other hbefore
      · intro other hother hcurrent hentries harrived hsince
        rcases hmem other hother with rfl | ⟨hbefore, hne⟩
        · have hrows := shows_handleResponse h hflight hwaiting hentries hcurrent hsince
          rw [← hhandled.version] at hrows
          exact hrows
        · have hsame : controller.current = some other.requestId := by
            rcases hhandled.current with hsame | hnone
            · exact hsame.symm.trans hcurrent
            · exact absurd (hnone.symm.trans hcurrent) (by simp)
          have hdropped : controller.handleResponse key flight response = controller := by
            apply handleResponse_superseded
            rw [hsame]
            exact fun heq => hne (Option.some.inj heq)
          dsimp only at hsince
          rw [hdropped] at hsince
          have hshows := h.rows other hbefore hsame hentries harrived hsince
          unfold Shows at hshows ⊢
          dsimp only
          rw [hdropped]
          exact hshows

theorem Inv.step (h : Inv key controller) (event : Event) :
    Inv key (controller.step key event) := by
  cases event with
  | analyze analysis => exact h.analyze analysis
  | deliver requestId => exact h.deliver requestId
  | fail requestId message => exact h.fail requestId message
  | edit edits => exact h.followEdits edits
  | refreshHints refreshed => exact h.refreshHints refreshed
  | supersedeAll => exact h.of_forgotten h.log rfl rfl (Nat.le_refl _) rfl
  | close => exact h.clear

theorem inv_run (h : Inv key controller) (events : List Event) :
    Inv key (controller.run key events) := by
  induction events generalizing controller with
  | nil => exact h
  | cons event events ih => exact ih (h.step event)

end

/-- From the first response to the current request on, the stored list has one row for
each dependency of its manifest.  While the text is the one that was analyzed the rows
have its entries; later they follow the edits, as far as the log reaches back. -/
def RowsStay (key : String) (controller : Controller) : Prop :=
  ∀ flight ∈ controller.flights, controller.current = some flight.requestId →
    flight.entries ≠ [] → flight.arrived ≠ [] →
      ((controller.editLog.since key flight.sourceVersion).isSome → Shows controller flight) ∧
      (controller.version = flight.sourceVersion → Shows controller flight)

/-- Whatever superseded requests still send, and whatever happens in between. -/
theorem rows_stay (key : String) (events : List Event) :
    RowsStay key (Controller.run key {} events) := by
  have h := inv_run (inv_empty key) events
  intro flight hflight hcurrent hentries harrived
  refine ⟨h.rows flight hflight hcurrent hentries harrived, fun hversion => ?_⟩
  refine h.rows flight hflight hcurrent hentries harrived ?_
  rw [← hversion, h.log.since_version]
  rfl

end ImportLens.Extension.PackageJson
