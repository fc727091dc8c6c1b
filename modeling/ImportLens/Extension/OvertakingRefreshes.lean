import ImportLens.Extension.RegistryHints

/-!
# Refreshes that overtake one another

What any interleaving of refreshes leaves of the rows of a manifest: the newest hint of all
that were sent, the verdict of the newest refresh that had one, and an error wherever that
refresh failed without a result.
-/

namespace ImportLens.Extension.RegistryHints

open ImportLens.Extension.PackageJson

namespace Refresher

/-! ## What one step does to the rows -/

variable {r r' t : Refresher} {key : String}

def verdict (row : DependencyState) : Option RegistryHintRefreshStatus × Option String :=
  (row.registryHintRefreshStatus, row.registryHintRefreshError)

def deliveries (r : Refresher) (key : String) : Event → List RegistryHintResult
  | .partialResponse generation results =>
      if (r.refreshes generation).any fun refresh => refresh.key = key then results else []
  | .answered generation (some response) =>
      if (r.refreshes generation).any fun refresh => refresh.key = key then response.results
      else []
  | _ => []

def Event.generation : Event → Option Nat
  | .partialResponse generation _ | .answered generation _ | .failed generation _ =>
      some generation
  | _ => none

def hintsFor (results : List RegistryHintResult) (row : DependencyState) :
    List (Option RegistryHint) :=
  (results.filter fun result => registryTargetKey result.target = rowKey row).map
    RegistryHintResult.hint

/-- A change of the rows: each stays the row of its target, has the newest of the hints it had
and was sent, and shows the same verdict where the refresh is superseded. -/
structure Effect (superseded : String → Prop) (results : List RegistryHintResult)
    (f : DependencyState → DependencyState) : Prop where
  target : ∀ row, targetOf (f row) = targetOf row
  hint : ∀ row, (f row).registryHint =
    (hintsFor results row).foldl newerRegistryHint row.registryHint
  verdict : ∀ row, superseded (rowKey row) → verdict (f row) = verdict row

theorem rowKey_congr {row row' : DependencyState} (h : targetOf row' = targetOf row) :
    rowKey row' = rowKey row := by rw [rowKey, rowKey, h]

theorem hintsFor_congr {row row' : DependencyState} (h : targetOf row' = targetOf row)
    (results : List RegistryHintResult) : hintsFor results row' = hintsFor results row := by
  rw [hintsFor, hintsFor, rowKey_congr h]

namespace Effect

variable {superseded : String → Prop} {results more : List RegistryHintResult}
variable {f g : DependencyState → DependencyState}

theorem none_sent : Effect superseded [] id := ⟨fun _ => rfl, fun _ => rfl, fun _ _ => rfl⟩

theorem comp (h : Effect superseded results f) (h' : Effect superseded more g) :
    Effect superseded (results ++ more) (g ∘ f) := by
  constructor
  · intro row
    rw [Function.comp_apply, h'.target, h.target]
  · intro row
    have happend : hintsFor (results ++ more) row = hintsFor results row ++ hintsFor more row := by
      simp only [hintsFor, List.filter_append, List.map_append]
    rw [Function.comp_apply, h'.hint, hintsFor_congr (h.target row), h.hint, happend,
      List.foldl_append]
  · intro row hsuperseded
    rw [Function.comp_apply, h'.verdict _ (by rwa [rowKey_congr (h.target row)]),
      h.verdict row hsuperseded]

end Effect

theorem targetOf_refreshRow (superseded : Bool) (row : DependencyState) (hint : Option RegistryHint)
    (error : Option String) : targetOf (refreshRow superseded row hint error) = targetOf row := by
  cases superseded <;> rfl

theorem registryHint_refreshRow (superseded : Bool) (row : DependencyState)
    (hint : Option RegistryHint) (error : Option String) :
    (refreshRow superseded row hint error).registryHint =
      newerRegistryHint row.registryHint hint := by
  cases superseded <;> rfl

theorem applyResults_cons (r : Refresher) (key : String) (generation : Nat)
    (result : RegistryHintResult) (rest : List RegistryHintResult) :
    r.applyResults key generation (result :: rest) =
      r.applyResults key generation rest ∘ r.applyResults key generation [result] := by
  funext row
  by_cases hmine : registryTargetKey result.target = rowKey row
  · have hsame := rowKey_congr (targetOf_refreshRow (r.isSuperseded key
      (registryTargetKey result.target) generation) row result.hint result.error)
    simp only [applyResults, Function.comp_apply, List.filter_cons, List.filter_nil, hmine,
      decide_true, if_true, List.foldl_cons, List.foldl_nil] at hsame ⊢
    rw [hsame]
  · simp only [applyResults, Function.comp_apply, List.filter_cons, List.filter_nil,
      decide_eq_false hmine, Bool.false_eq_true, if_false, List.foldl_nil]

theorem effect_applyResults (r : Refresher) (key : String) (generation : Nat)
    (results : List RegistryHintResult) :
    Effect (fun targetKey => r.isSuperseded key targetKey generation = true) results
      (r.applyResults key generation results) := by
  induction results with
  | nil => exact .none_sent
  | cons result rest ih =>
    have hone : Effect (fun targetKey => r.isSuperseded key targetKey generation = true) [result]
        (r.applyResults key generation [result]) := by
      constructor <;> intro row <;> by_cases hmine : registryTargetKey result.target = rowKey row
      · simp [applyResults, hmine, targetOf_refreshRow]
      · simp [applyResults, hmine]
      · simp [applyResults, hintsFor, hmine, registryHint_refreshRow]
      · simp [applyResults, hintsFor, hmine]
      · intro hsuperseded
        simp [applyResults, hmine, hsuperseded, refreshRow, verdict]
      · simp [applyResults, hmine]
    rw [applyResults_cons]
    exact hone.comp ih

/-- What an event does to the rows of one manifest. -/
def Moves (superseded : String → Prop) (results : List RegistryHintResult)
    (before after : Option (List DependencyState)) : Prop :=
  ∃ f, Effect superseded results f ∧ after = before.map (List.map f)

namespace Moves

variable {superseded : String → Prop} {results more : List RegistryHintResult}
variable {a b c : Option (List DependencyState)}

theorem refl : Moves superseded [] a a := by
  refine ⟨id, .none_sent, ?_⟩
  cases a with
  | none => rfl
  | some rows => rw [Option.map_some, List.map_id]

theorem trans (h : Moves superseded results a b) (h' : Moves superseded more b c) :
    Moves superseded (results ++ more) a c := by
  obtain ⟨f, hf, rfl⟩ := h
  obtain ⟨g, hg, rfl⟩ := h'
  refine ⟨g ∘ f, hf.comp hg, ?_⟩
  cases a with
  | none => rfl
  | some rows => simp only [Option.map_some, List.map_map]

theorem imp (h : Moves superseded results a b) {narrower : String → Prop}
    (himp : ∀ targetKey, narrower targetKey → superseded targetKey) :
    Moves narrower results a b := by
  obtain ⟨f, hf, hb⟩ := h
  exact ⟨f, ⟨hf.target, hf.hint, fun row hrow => hf.verdict row (himp _ hrow)⟩, hb⟩

end Moves

/-! ## The rows of one manifest -/

def mapRows (r : Refresher) (key : String) (f : DependencyState → DependencyState) : Refresher :=
  { r with states := Function.update r.states key ((r.states key).map (List.map f)) }

theorem states_mapRows (r : Refresher) (key : String) (f : DependencyState → DependencyState) :
    (r.mapRows key f).states key = (r.states key).map (List.map f) := Function.update_self _ _ _

theorem mapRows_id (r : Refresher) (key : String) : (r.mapRows key fun row => row) = r := by
  have hsame : (r.states key).map (List.map fun row : DependencyState => row) = r.states key := by
    cases r.states key <;> simp
  rw [mapRows, hsame, Function.update_eq_self]

theorem mapRows_mapRows (r : Refresher) (key : String) (f g : DependencyState → DependencyState) :
    (r.mapRows key f).mapRows key g = r.mapRows key fun row => g (f row) := by
  unfold mapRows
  dsimp only
  rw [Function.update_self, Function.update_idem, Option.map_map, List.map_comp_map]
  rfl

theorem mapRows_moves {superseded : String → Prop} {results : List RegistryHintResult}
    {f : DependencyState → DependencyState} {key' : String} (r : Refresher)
    (h : key' = key → Effect superseded results f) :
    Moves superseded (if key' = key then results else []) (r.states key)
      ((r.mapRows key' f).states key) := by
  split
  · rename_i heq
    subst heq
    exact ⟨f, h rfl, r.states_mapRows key' f⟩
  · rename_i hne
    have hsame : (r.mapRows key' f).states key = r.states key :=
      Function.update_of_ne (Ne.symm hne) _ _
    rw [hsame]
    exact .refl

theorem applyResponse_eq (r : Refresher) (key : String) (generation : Nat)
    (results : List RegistryHintResult) :
    r.applyResponse key generation results =
      r.mapRows key (r.applyResults key generation results) := by
  unfold applyResponse mapRows
  split
  · rename_i hnone
    rw [hnone, Option.map_none, ← hnone, Function.update_eq_self]
  · rename_i rows hrows
    rw [hrows]
    rfl

def failRow (r : Refresher) (key : String) (generation : Nat) (message : String)
    (row : DependencyState) (target : RegistryHintTarget) : DependencyState :=
  if targetOf row = target then
    refreshRow (r.isSuperseded key (registryTargetKey target) generation) row none (some message)
  else row

theorem applyRequestFailure_eq (r : Refresher) (key : String) (generation : Nat)
    (targets : List RegistryHintTarget) (message : String) :
    r.applyRequestFailure key generation targets message =
      r.mapRows key fun row => targets.foldl (r.failRow key generation message) row := by
  induction targets generalizing r with
  | nil => exact (r.mapRows_id key).symm
  | cons target rest ih =>
    have hone : r.updateRegistryHint key generation message target =
        r.mapRows key fun row => r.failRow key generation message row target := by
      unfold updateRegistryHint mapRows
      split
      · rename_i hnone
        rw [hnone, Option.map_none, ← hnone, Function.update_eq_self]
      · rename_i rows hrows
        rw [hrows]
        rfl
    rw [applyRequestFailure, List.foldl_cons, hone]
    refine (ih _).trans ?_
    rw [mapRows_mapRows]
    rfl

theorem effect_failRow (r : Refresher) (key : String) (generation : Nat) (message : String)
    (targets : List RegistryHintTarget) :
    Effect (fun targetKey => r.isSuperseded key targetKey generation = true) []
      fun row => targets.foldl (r.failRow key generation message) row := by
  induction targets with
  | nil => exact .none_sent
  | cons target rest ih =>
    have hone : Effect (fun targetKey => r.isSuperseded key targetKey generation = true) []
        fun row => r.failRow key generation message row target := by
      constructor
      · intro row
        unfold failRow
        split
        · exact targetOf_refreshRow _ _ _ _
        · rfl
      · intro row
        unfold failRow
        split
        · exact registryHint_refreshRow _ _ _ _
        · rfl
      · intro row hsuperseded
        unfold failRow
        split
        · rename_i htarget
          unfold rowKey at hsuperseded
          rw [← htarget, hsuperseded]
          rfl
        · rfl
    exact hone.comp ih

theorem applyResponse_moves (r : Refresher) (key key' : String) (generation : Nat)
    (results : List RegistryHintResult) :
    Moves (fun targetKey => r.isSuperseded key targetKey generation = true)
      (if key' = key then results else []) (r.states key)
      ((r.applyResponse key' generation results).states key) := by
  rw [applyResponse_eq]
  exact mapRows_moves r fun heq => heq ▸ effect_applyResults r key' generation results

theorem applyRequestFailure_moves (r : Refresher) (key key' : String) (generation : Nat)
    (targets : List RegistryHintTarget) (message : String) :
    Moves (fun targetKey => r.isSuperseded key targetKey generation = true) []
      (r.states key) ((r.applyRequestFailure key' generation targets message).states key) := by
  rw [applyRequestFailure_eq]
  have hmoves : Moves (fun targetKey => r.isSuperseded key targetKey generation = true)
      (if key' = key then [] else []) (r.states key)
      ((r.mapRows key' fun row =>
        targets.foldl (r.failRow key' generation message) row).states key) :=
    mapRows_moves r fun heq => heq ▸ effect_failRow r key' generation message targets
  rwa [ite_self] at hmoves

/-- An event that is not of the host lays the results it brings onto the rows, and changes no
verdict where it is of a superseded refresh. -/
theorem step_moves {event : Event} (h : r.step event = some r')
    (hhost : ∀ rows, event ≠ .hostStates key rows) :
    Moves (fun targetKey => ∀ generation, event.generation = some generation →
      r.isSuperseded key targetKey generation = true) (r.deliveries key event)
      (r.states key) (r'.states key) := by
  cases event with
  | refresh key' targets =>
    cases h
    exact .refl
  | forget key' =>
    cases h
    exact .refl
  | hostStates key' rows =>
    cases h
    have hne : key ≠ key' := by
      rintro rfl
      exact hhost rows rfl
    change Moves _ [] (r.states key) (Function.update r.states key' rows key)
    rw [Function.update_of_ne hne]
    exact .refl
  | partialResponse generation results =>
    obtain ⟨refresh, hrefresh, rfl⟩ := Option.map_eq_some_iff.mp h
    have hdelivered : r.deliveries key (.partialResponse generation results) =
        if refresh.key = key then results else [] := by
      simp [deliveries, hrefresh]
    rw [hdelivered]
    exact (applyResponse_moves _ key refresh.key generation results).imp
      fun _ hsuperseded => hsuperseded generation rfl
  | answered generation response =>
    obtain ⟨refresh, hrefresh, rfl⟩ := Option.map_eq_some_iff.mp h
    cases response with
    | none =>
      exact (applyRequestFailure_moves (r.settle generation) key refresh.key generation
        refresh.pendingTargets "Daemon unavailable").imp
          fun _ hsuperseded => hsuperseded generation rfl
    | some response =>
      have hdelivered : r.deliveries key (.answered generation (some response)) =
          if refresh.key = key then response.results else [] := by
        simp [deliveries, hrefresh]
      have happlied : Moves (fun targetKey => ∀ g, some generation = some g →
          r.isSuperseded key targetKey g = true) _ _ _ :=
        (applyResponse_moves (r.settle generation) key refresh.key generation response.results).imp
          fun _ hsuperseded => hsuperseded generation rfl
      rw [hdelivered]
      generalize (if refresh.key = key then response.results else []) = delivered at happlied ⊢
      dsimp only
      cases response.error with
      | none => exact happlied
      | some error =>
        dsimp only
        split
        · have hfailure := (applyRequestFailure_moves ((r.settle generation).applyResponse
            refresh.key generation response.results) key refresh.key generation
            (markCompleted refresh.pendingTargets response.results) error)
          rw [← List.append_nil delivered]
          refine happlied.trans (hfailure.imp fun targetKey hsuperseded => ?_)
          rw [applyResponse_eq]
          exact hsuperseded generation rfl
        · exact happlied
  | failed generation message =>
    obtain ⟨refresh, hrefresh, rfl⟩ := Option.map_eq_some_iff.mp h
    exact (applyRequestFailure_moves (r.settle generation) key refresh.key generation
      refresh.pendingTargets message).imp fun _ hsuperseded => hsuperseded generation rfl

/-! ## Runs -/

theorem run_cons {event : Event} {rest : List Event} (h : r.run (event :: rest) = some t) :
    ∃ next, r.step event = some next ∧ next.run rest = some t := Option.bind_eq_some_iff.mp h

def delivered (r : Refresher) (key : String) : List Event → List RegistryHintResult
  | [] => []
  | event :: rest =>
      r.deliveries key event ++
        ((r.step event).elim [] fun next => next.delivered key rest)

theorem delivered_cons {event : Event} {rest : List Event} (h : r.step event = some r') :
    r.delivered key (event :: rest) = r.deliveries key event ++ r'.delivered key rest := by
  rw [delivered, h]
  rfl

/-- The host leaves the rows of the manifest alone. -/
def HostQuiet (key : String) (events : List Event) : Prop :=
  ∀ rows, .hostStates key rows ∉ events

theorem HostQuiet.head {event : Event} {rest : List Event} (h : HostQuiet key (event :: rest)) :
    ∀ rows, event ≠ .hostStates key rows := fun rows heq => h rows (heq ▸ List.mem_cons_self)

theorem HostQuiet.tail {event : Event} {rest : List Event} (h : HostQuiet key (event :: rest)) :
    HostQuiet key rest := fun rows hmem => h rows (List.mem_cons_of_mem _ hmem)

theorem run_moves {events : List Event} (hrun : r.run events = some t)
    (hhost : HostQuiet key events) :
    Moves (fun _ => False) (r.delivered key events) (r.states key) (t.states key) := by
  induction events generalizing r with
  | nil =>
    cases hrun
    exact .refl
  | cons event rest ih =>
    obtain ⟨next, hstep, hrest⟩ := run_cons hrun
    rw [delivered_cons hstep]
    exact ((step_moves hstep hhost.head).imp fun _ hfalse => hfalse.elim).trans
      (ih hrest hhost.tail)

/-! ## Generations -/

theorem step_frame {event : Event} {generation : Nat} (hevent : event.generation = some generation)
    (h : r.step event = some r') :
    ∃ refresh states next, r.refreshes generation = some refresh ∧
      r' = { r with states, refreshes := Function.update r.refreshes generation next } ∧
      ((∃ results, event = .partialResponse generation results ∧
        next = some { refresh with
          pendingTargets := markCompleted refresh.pendingTargets results }) ∨ next = none) := by
  cases event with
  | refresh key targets => cases hevent
  | forget key => cases hevent
  | hostStates key rows => cases hevent
  | partialResponse g results =>
    cases hevent
    obtain ⟨refresh, hrefresh, rfl⟩ := Option.map_eq_some_iff.mp h
    exact ⟨refresh, _, _, hrefresh, applyResponse_eq _ _ _ _, .inl ⟨results, rfl, rfl⟩⟩
  | answered g response =>
    cases hevent
    obtain ⟨refresh, hrefresh, rfl⟩ := Option.map_eq_some_iff.mp h
    cases response with
    | none => exact ⟨refresh, _, none, hrefresh, applyRequestFailure_eq _ _ _ _ _, .inr rfl⟩
    | some response =>
      dsimp only
      rw [applyResponse_eq]
      cases response.error with
      | none => exact ⟨refresh, _, none, hrefresh, rfl, .inr rfl⟩
      | some error =>
        dsimp only
        split
        · exact ⟨refresh, _, none, hrefresh, applyRequestFailure_eq _ _ _ _ _, .inr rfl⟩
        · exact ⟨refresh, _, none, hrefresh, rfl, .inr rfl⟩
  | failed g message =>
    cases hevent
    obtain ⟨refresh, hrefresh, rfl⟩ := Option.map_eq_some_iff.mp h
    exact ⟨refresh, _, none, hrefresh, applyRequestFailure_eq _ _ _ _ _, .inr rfl⟩

theorem generations_foldl (generations : String → Option Nat) (key : String)
    (targets : List RegistryHintTarget) (generation : Nat) (known : String) :
    let begun := targets.foldl (fun generations target =>
      Function.update generations (generationKey key (registryTargetKey target))
        (some generation)) generations
    begun known = generations known ∨ begun known = some generation := by
  induction targets generalizing generations with
  | nil => exact .inl rfl
  | cons target rest ih =>
    rcases ih (Function.update generations (generationKey key (registryTargetKey target))
      (some generation)) with hsame | hnew
    · by_cases hknown : known = generationKey key (registryTargetKey target)
      · right
        rw [hknown, Function.update_self] at hsame
        rw [hknown]
        exact hsame
      · left
        rw [Function.update_of_ne hknown] at hsame
        exact hsame
    · exact .inr hnew

/-- No forgetting of a manifest drops the generation of this key. -/
def Kept (known : String) (events : List Event) : Prop :=
  ∀ key, .forget key ∈ events → ¬ (key ++ "\x00").toList <+: known.toList

/-- The generations of a target only grow. -/
theorem generations_step {event : Event} {known : String} {generation : Nat}
    (h : r.step event = some r') (hknown : r.generations known = some generation)
    (hbound : generation ≤ r.nextGeneration) (hkept : Kept known [event]) :
    ∃ later, r'.generations known = some later ∧ generation ≤ later ∧
      later ≤ r'.nextGeneration := by
  cases hevent : event.generation with
  | some g =>
    obtain ⟨refresh, states, next, -, rfl, -⟩ := step_frame hevent h
    exact ⟨generation, hknown, Nat.le_refl _, hbound⟩
  | none =>
    cases event with
    | partialResponse | answered | failed => cases hevent
    | refresh key targets =>
      cases h
      rcases generations_foldl r.generations key targets (r.nextGeneration + 1) known with
        hsame | hnew
      · exact ⟨generation, hsame.trans hknown, Nat.le_refl _, Nat.le_succ_of_le hbound⟩
      · exact ⟨r.nextGeneration + 1, hnew, Nat.le_succ_of_le hbound, Nat.le_refl _⟩
    | forget key =>
      cases h
      refine ⟨generation, ?_, Nat.le_refl _, hbound⟩
      exact (if_neg (hkept key List.mem_cons_self)).trans hknown
    | hostStates key rows =>
      cases h
      exact ⟨generation, hknown, Nat.le_refl _, hbound⟩

/-- While a refresh of a target is the newest, what older refreshes are sent, and how they
end, changes no verdict of the rows of the target. -/
theorem older_refreshes_change_no_verdict {events : List Event} {targetKey : String}
    {generation newest : Nat} (hnewest : r.generations (generationKey key targetKey) = some newest)
    (hle : generation ≤ newest) (hbound : newest ≤ r.nextGeneration)
    (hrun : r.run events = some t) (hhost : HostQuiet key events)
    (hkept : Kept (generationKey key targetKey) events)
    (holder : ∀ event ∈ events, ∀ g, event.generation = some g → g < generation) :
    Moves (fun other => other = targetKey) (r.delivered key events) (r.states key)
      (t.states key) := by
  induction events generalizing r newest with
  | nil =>
    cases hrun
    exact .refl
  | cons event rest ih =>
    obtain ⟨next, hstep, hrest⟩ := run_cons hrun
    obtain ⟨later, hlater, hgrown, hbound'⟩ := generations_step hstep hnewest hbound
      fun key hmem => hkept key (List.mem_cons.mpr (.inl (List.mem_singleton.mp hmem)))
    rw [delivered_cons hstep]
    have hfirst : Moves (fun other => other = targetKey) (r.deliveries key event) (r.states key)
        (next.states key) := by
      refine (step_moves hstep hhost.head).imp fun other hother g hg => ?_
      have hlt := holder event List.mem_cons_self g hg
      rw [hother, isSuperseded, hnewest, Option.getD_some, decide_eq_true_eq]
      omega
    exact hfirst.trans (ih hlater (hle.trans hgrown) hbound' hrest hhost.tail
      (fun key hmem => hkept key (List.mem_cons_of_mem _ hmem))
      fun event hmem => holder event (List.mem_cons_of_mem _ hmem))

theorem generations_begun (r : Refresher) (key : String) {targets : List RegistryHintTarget}
    {target : RegistryHintTarget} (hmem : target ∈ targets) :
    (r.refresh key targets).generations (generationKey key (registryTargetKey target)) =
      some (r.nextGeneration + 1) := by
  have hset : ∀ (rest : List RegistryHintTarget) (generations : String → Option Nat),
      target ∈ rest → rest.foldl (fun generations target =>
        Function.update generations (generationKey key (registryTargetKey target))
          (some (r.nextGeneration + 1))) generations
        (generationKey key (registryTargetKey target)) = some (r.nextGeneration + 1) := by
    intro rest
    induction rest with
    | nil => exact fun _ hmem => absurd hmem List.not_mem_nil
    | cons other rest ih =>
      intro generations hmem
      rcases List.mem_cons.mp hmem with rfl | hmem
      · rcases generations_foldl (Function.update generations
          (generationKey key (registryTargetKey target)) (some (r.nextGeneration + 1))) key rest
          (r.nextGeneration + 1) (generationKey key (registryTargetKey target)) with hsame | hnew
        · exact hsame.trans (Function.update_self _ _ _)
        · exact hnew
      · exact ih _ hmem
  exact hset targets r.generations hmem

/-! ## One row, two refreshes -/

def react : RegistryHintTarget := ⟨"react", some "18.0.0"⟩

def reactRow : DependencyState where
  name := "react"
  sectionName := .dependencies
  entry := ⟨"react", "^18.0.0", .dependencies, ⟨⟨0, 0⟩, ⟨0, 0⟩⟩, ⟨⟨0, 0⟩, ⟨0, 0⟩⟩, ⟨⟨0, 0⟩, ⟨0, 0⟩⟩⟩
  status := .ready
  installedVersion := some "18.0.0"

def refreshing : Refresher := (setStates {} "m" [reactRow]).refresh "m" [react]

def olderAnswers : List Event :=
  [.partialResponse 1 [⟨react, some { fetchedAt := some 7 }, none⟩], .failed 1 "timeout"]

/-- Once a refresh of a target has begun, no row of the target shows another verdict until that
refresh, or a later one, has something to say. -/
theorem newest_refresh_keeps_the_verdict (r : Refresher) (key : String)
    (targets : List RegistryHintTarget) (target : RegistryHintTarget) (hmem : target ∈ targets)
    (events : List Event) (hrun : (r.refresh key targets).run events = some t)
    (hhost : HostQuiet key events)
    (hkept : Kept (generationKey key (registryTargetKey target)) events)
    (holder : ∀ event ∈ events, ∀ g, event.generation = some g → g ≤ r.nextGeneration) :
    ∃ f : DependencyState → DependencyState, t.states key = (r.states key).map (List.map f) ∧
      ∀ row, targetOf (f row) = targetOf row ∧
        (rowKey row = registryTargetKey target → verdict (f row) = verdict row) := by
  obtain ⟨f, hf, ht⟩ := older_refreshes_change_no_verdict (generations_begun r key hmem)
    (Nat.le_refl _) (Nat.le_refl _) hrun hhost hkept
    fun event hevent g hg => Nat.lt_succ_of_le (holder event hevent g hg)
  exact ⟨f, ht, fun row => ⟨hf.target row, fun hrow => hf.verdict row hrow⟩⟩

theorem older_answers_keep_the_verdict :
    ∃ (t : Refresher) (f : DependencyState → DependencyState),
      (refreshing.refresh "m" [react]).run olderAnswers = some t ∧
        t.states "m" = some [f reactRow] ∧ verdict (f reactRow) = (none, none) := by
  obtain ⟨f, hstates, hrows⟩ := newest_refresh_keeps_the_verdict refreshing "m" [react] react
    List.mem_cons_self olderAnswers rfl (fun rows hmem => by simp [olderAnswers] at hmem)
    (fun key hmem => by simp [olderAnswers] at hmem) (by decide)
  exact ⟨_, f, rfl, hstates, (hrows reactRow).2 rfl⟩

/-! ## The newest hint -/

def fetchedAt (hint : Option RegistryHint) : Nat := (hint.bind RegistryHint.fetchedAt).getD 0

theorem newerRegistryHint_mem (current incoming : Option RegistryHint) :
    newerRegistryHint current incoming = current ∨
      newerRegistryHint current incoming = incoming := by
  unfold newerRegistryHint
  split
  · exact .inl rfl
  · exact .inr rfl
  · split
    · exact .inl rfl
    · exact .inr rfl

theorem fetchedAt_newerRegistryHint (current incoming : Option RegistryHint) :
    fetchedAt (newerRegistryHint current incoming) =
      max (fetchedAt current) (fetchedAt incoming) := by
  cases incoming with
  | none => exact (Nat.max_zero _).symm
  | some incoming =>
    cases current with
    | none => exact (Nat.zero_max _).symm
    | some current =>
      simp only [newerRegistryHint]
      split
      · rename_i hnewer
        exact (Nat.max_eq_left (Nat.le_of_lt hnewer)).symm
      · rename_i holder
        exact (Nat.max_eq_right (Nat.le_of_not_lt holder)).symm

theorem isSome_newerRegistryHint (current incoming : Option RegistryHint) :
    (newerRegistryHint current incoming).isSome = (current.isSome || incoming.isSome) := by
  cases incoming with
  | none => exact (Bool.or_false _).symm
  | some incoming =>
    cases current with
    | none => rfl
    | some current =>
      simp only [newerRegistryHint]
      split
      · rfl
      · rfl

theorem foldl_newerRegistryHint (hints : List (Option RegistryHint))
    (current : Option RegistryHint) :
    let shown := hints.foldl newerRegistryHint current
    (shown = current ∨ shown ∈ hints) ∧ fetchedAt current ≤ fetchedAt shown ∧
      (∀ hint ∈ hints, fetchedAt hint ≤ fetchedAt shown) ∧
      ∀ hint ∈ current :: hints, hint.isSome = true → shown.isSome = true := by
  induction hints generalizing current with
  | nil =>
    exact ⟨.inl rfl, Nat.le_refl _, fun _ hmem => absurd hmem List.not_mem_nil,
      fun hint hmem => List.mem_singleton.mp hmem ▸ id⟩
  | cons hint rest ih =>
    obtain ⟨hshown, hcurrent, hrest, hkept⟩ := ih (newerRegistryHint current hint)
    rw [fetchedAt_newerRegistryHint] at hcurrent
    have hnewer := isSome_newerRegistryHint current hint
    refine ⟨?_, (Nat.le_max_left _ _).trans hcurrent, ?_, ?_⟩
    · rcases hshown with hshown | hshown
      · rcases newerRegistryHint_mem current hint with hsame | hsame
        · exact .inl (hshown.trans hsame)
        · exact .inr (List.mem_cons.mpr (.inl (hshown.trans hsame)))
      · exact .inr (List.mem_cons_of_mem _ hshown)
    · intro other hother
      rcases List.mem_cons.mp hother with rfl | hother
      · exact (Nat.le_max_right _ _).trans hcurrent
      · exact hrest other hother
    · intro other hother hsome
      rcases List.mem_cons.mp hother with rfl | hother
      · exact hkept _ List.mem_cons_self (by rw [hnewer, hsome, Bool.true_or])
      rcases List.mem_cons.mp hother with rfl | hother
      · exact hkept _ List.mem_cons_self (by rw [hnewer, hsome, Bool.or_true])
      · exact hkept other (List.mem_cons_of_mem _ hother) hsome

/-- However the refreshes of a manifest interleave, fail or supersede one another, a row shows
the newest of the hint it had and the hints that any of them was sent for its target; where
there is one, none is lost. -/
theorem rows_show_the_newest_hint (r : Refresher) (key : String) (events : List Event)
    (hrun : r.run events = some t) (hhost : HostQuiet key events) :
    ∃ f : DependencyState → DependencyState, t.states key = (r.states key).map (List.map f) ∧
      ∀ row, targetOf (f row) = targetOf row ∧
        ((f row).registryHint = row.registryHint ∨
          (f row).registryHint ∈ hintsFor (r.delivered key events) row) ∧
        fetchedAt row.registryHint ≤ fetchedAt (f row).registryHint ∧
        (∀ hint ∈ hintsFor (r.delivered key events) row,
          fetchedAt hint ≤ fetchedAt (f row).registryHint) ∧
        ∀ hint ∈ row.registryHint :: hintsFor (r.delivered key events) row,
          hint.isSome = true → (f row).registryHint.isSome = true := by
  obtain ⟨f, hf, ht⟩ := run_moves hrun hhost
  refine ⟨f, ht, fun row => ⟨hf.target row, ?_⟩⟩
  rw [hf.hint row]
  exact foldl_newerRegistryHint _ _

theorem older_answers_bring_their_hint :
    ∃ (t : Refresher) (f : DependencyState → DependencyState),
      (refreshing.refresh "m" [react]).run olderAnswers = some t ∧
        t.states "m" = some [f reactRow] ∧ 7 ≤ fetchedAt (f reactRow).registryHint := by
  obtain ⟨f, hstates, hrows⟩ := rows_show_the_newest_hint (refreshing.refresh "m" [react]) "m"
    olderAnswers rfl fun rows hmem => by simp [olderAnswers] at hmem
  exact ⟨_, f, rfl, hstates,
    (hrows reactRow).2.2.2.1 (some { fetchedAt := some 7 }) (by decide)⟩

/-! ## The targets of a failed refresh -/

theorem registryTargetsForStates_nodup (states : List DependencyState)
    (privateScopes : List String) :
    ((registryTargetsForStates states privateScopes).map registryTargetKey).Nodup := by
  have hfold : ∀ (rest : List DependencyState) (targets : List RegistryHintTarget),
      (targets.map registryTargetKey).Nodup →
      ((rest.foldl (fun targets state =>
        if targets.any (fun target => registryTargetKey target = rowKey state) ||
            !isPublicRegistryDependency state.name state.entry.version privateScopes then targets
        else targets ++ [targetOf state]) targets).map registryTargetKey).Nodup := by
    intro rest
    induction rest with
    | nil => exact fun _ h => h
    | cons state rest ih =>
      intro targets hnodup
      apply ih
      dsimp only
      split
      · exact hnodup
      · rename_i hadd
        rw [Bool.or_eq_true, not_or, List.any_eq_true] at hadd
        rw [List.map_append, List.nodup_append]
        refine ⟨hnodup, List.nodup_singleton _, ?_⟩
        intro known hknown other hother heq
        obtain ⟨target, htarget, rfl⟩ := List.mem_map.mp hknown
        rw [List.map_singleton, List.mem_singleton] at hother
        exact hadd.1 ⟨target, htarget, decide_eq_true (heq.trans hother)⟩
  exact hfold states [] List.nodup_nil

theorem registryTargetMap_of_nodup {targets : List RegistryHintTarget}
    (h : (targets.map registryTargetKey).Nodup) : registryTargetMap targets = targets := by
  have hfold : ∀ (rest map : List RegistryHintTarget),
      ((map ++ rest).map registryTargetKey).Nodup →
      rest.foldl (fun map target =>
        if map.any fun other => registryTargetKey other = registryTargetKey target then
          map.map fun other =>
            if registryTargetKey other = registryTargetKey target then target else other
        else map ++ [target]) map = map ++ rest := by
    intro rest
    induction rest with
    | nil => exact fun map _ => (List.append_nil map).symm
    | cons target rest ih =>
      intro map hnodup
      have hnone : (map.any fun other => registryTargetKey other = registryTargetKey target) =
          false := by
        rw [List.any_eq_false]
        intro other hother
        rw [List.map_append, List.nodup_append] at hnodup
        rw [decide_eq_true_eq]
        exact hnodup.2.2 _ (List.mem_map_of_mem hother) _ List.mem_cons_self
      have happend : map ++ target :: rest = map ++ [target] ++ rest := by
        rw [List.append_assoc, List.singleton_append]
      rw [happend] at hnodup ⊢
      rw [List.foldl_cons, hnone]
      exact ih (map ++ [target]) hnodup
  exact hfold targets [] h

def resultsOf (generation : Nat) (events : List Event) : List RegistryHintResult :=
  events.flatMap fun event =>
    match event with
    | .partialResponse g results => if g = generation then results else []
    | _ => []

theorem markCompleted_append (pending : List RegistryHintTarget)
    (results more : List RegistryHintResult) :
    markCompleted (markCompleted pending results) more =
      markCompleted pending (results ++ more) := by
  simp only [markCompleted, List.filter_filter, List.any_append, Bool.not_or, Bool.and_comm]

theorem refreshes_step {event : Event} {generation : Nat} (h : r.step event = some r')
    (hbound : generation ≤ r.nextGeneration) :
    generation ≤ r'.nextGeneration ∧
      (event.generation ≠ some generation → r'.refreshes generation = r.refreshes generation) := by
  cases hevent : event.generation with
  | some g =>
    obtain ⟨refresh, states, next, -, rfl, -⟩ := step_frame hevent h
    refine ⟨hbound, fun hne => Function.update_of_ne ?_ _ _⟩
    rintro rfl
    exact hne rfl
  | none =>
    cases event with
    | partialResponse | answered | failed => cases hevent
    | refresh key targets =>
      cases h
      refine ⟨Nat.le_succ_of_le hbound, fun _ => Function.update_of_ne ?_ _ _⟩
      exact Nat.ne_of_lt (Nat.lt_succ_of_le hbound)
    | forget key =>
      cases h
      exact ⟨hbound, fun _ => rfl⟩
    | hostStates key rows =>
      cases h
      exact ⟨hbound, fun _ => rfl⟩

/-- A refresh is settled, or awaits the targets it was sent nothing for. -/
theorem refreshes_run {events : List Event} (generation : Nat) {refresh : Refresh}
    (hrun : r.run events = some t) (hbound : generation ≤ r.nextGeneration)
    (hrefresh : r.refreshes generation = none ∨ r.refreshes generation = some refresh) :
    t.refreshes generation = none ∨ t.refreshes generation = some { refresh with
      pendingTargets := markCompleted refresh.pendingTargets (resultsOf generation events) } := by
  induction events generalizing r refresh with
  | nil =>
    cases hrun
    have hall : markCompleted refresh.pendingTargets (resultsOf generation []) =
        refresh.pendingTargets := by simp [markCompleted, resultsOf]
    rw [hall]
    exact hrefresh
  | cons event rest ih =>
    obtain ⟨next, hstep, hrest⟩ := run_cons hrun
    obtain ⟨hbound', hother⟩ := refreshes_step hstep hbound
    have hresults : resultsOf generation (event :: rest) =
        resultsOf generation [event] ++ resultsOf generation rest := by
      simp [resultsOf]
    have hnext : next.refreshes generation = none ∨ next.refreshes generation = some { refresh with
        pendingTargets :=
          markCompleted refresh.pendingTargets (resultsOf generation [event]) } := by
      by_cases hevent : event.generation = some generation
      · obtain ⟨known, states, after, hknown, rfl, hafter⟩ := step_frame hevent hstep
        rcases hafter with ⟨results, rfl, rfl⟩ | rfl
        · right
          have hsame : known = refresh := by
            rcases hrefresh with hnone | hsome
            · rw [hnone] at hknown
              cases hknown
            · rw [hsome] at hknown
              exact (Option.some.inj hknown).symm
          cases hevent
          rw [← hsame]
          simp [resultsOf]
        · exact .inl (Function.update_self _ _ _)
      · have hnothing : resultsOf generation [event] = [] := by
          cases event with
          | partialResponse g results =>
            have hne : g ≠ generation := fun heq => hevent (congrArg some heq)
            simp [resultsOf, hne]
          | refresh | answered | failed | forget | hostStates => rfl
        have hall : markCompleted refresh.pendingTargets [] = refresh.pendingTargets := by
          simp [markCompleted]
        rw [hother hevent, hnothing, hall]
        exact hrefresh
    have hlast := ih hrest hbound' hnext
    rw [markCompleted_append] at hlast
    rw [hresults]
    exact hlast

def failure : Event → Option (Nat × List RegistryHintResult × String)
  | .failed generation message => some (generation, [], message)
  | .answered generation none => some (generation, [], "Daemon unavailable")
  | .answered generation (some ⟨results, some error⟩) =>
      if error = "" then none else some (generation, results, error)
  | _ => none

/-- What a failure leaves of a row: the error, and the hint as a stale one. -/
structure Marked (message : String) (before after : DependencyState) : Prop where
  target : targetOf after = targetOf before
  hint : after.registryHint = before.registryHint
  status : after.registryHintRefreshStatus = before.registryHint.map fun _ => .stale
  error : after.registryHintRefreshError = some message

theorem refreshStatus_of_error {message : String} (hmessage : message ≠ "")
    (hint : Option RegistryHint) :
    refreshStatus (some message) hint = hint.map fun _ => .stale := by
  have htrue : isTrue (some message) = true := decide_eq_true hmessage
  cases hint with
  | none => rw [refreshStatus, htrue]; rfl
  | some hint => rw [refreshStatus, htrue]; rfl

theorem failRow_marks {generation : Nat} {message : String} {row : DependencyState}
    (hmessage : message ≠ "") (hnewest : r.isSuperseded key (rowKey row) generation = false)
    {targets : List RegistryHintTarget} (hmem : targetOf row ∈ targets) :
    Marked message row (targets.foldl (r.failRow key generation message) row) := by
  have hmark : ∀ row', targetOf row' = targetOf row → row'.registryHint = row.registryHint →
      Marked message row (r.failRow key generation message row' (targetOf row)) := by
    intro row' htarget hhint
    have hnewest' : r.isSuperseded key (registryTargetKey (targetOf row)) generation = false :=
      hnewest
    rw [failRow, if_pos htarget, hnewest']
    refine ⟨htarget, hhint, ?_, rfl⟩
    rw [← refreshStatus_of_error hmessage, ← hhint]
    rfl
  have hother : ∀ row' target, targetOf row' = targetOf row → target ≠ targetOf row →
      r.failRow key generation message row' target = row' := fun row' target htarget hne =>
    if_neg fun heq => hne (heq.symm.trans htarget)
  have hfold : ∀ (rest : List RegistryHintTarget) (row' : DependencyState),
      targetOf row' = targetOf row → row'.registryHint = row.registryHint →
      Marked message row row' ∨ targetOf row ∈ rest →
      Marked message row (rest.foldl (r.failRow key generation message) row') := by
    intro rest
    induction rest with
    | nil => exact fun row' _ _ hmarked => hmarked.resolve_right List.not_mem_nil
    | cons target rest ih =>
      intro row' htarget hhint hmarked
      rw [List.foldl_cons]
      by_cases heq : target = targetOf row
      · subst heq
        have hnow := hmark row' htarget hhint
        exact ih _ hnow.target hnow.hint (.inl hnow)
      · rw [hother row' target htarget heq]
        apply ih row' htarget hhint
        rcases hmarked with hmarked | hmem
        · exact .inl hmarked
        · exact .inr ((List.mem_cons.mp hmem).resolve_left (Ne.symm heq))
  exact hfold targets row rfl rfl (.inr hmem)

theorem isSuperseded_of_newest {targetKey : String} {generation : Nat}
    (h : r.generations (generationKey key targetKey) = some generation) :
    r.isSuperseded key targetKey generation = false := by
  rw [isSuperseded, h, Option.getD_some, decide_eq_false_iff_not]
  exact Nat.lt_irrefl _

/-- A refresh that fails with some error while it is the newest of a target marks every row of
the target for which it was sent nothing: the row shows the error, and its hint, if it has
one, as stale. -/
theorem failed_refresh_marks_every_target (r : Refresher) (key : String)
    (targets : List RegistryHintTarget) (hnodup : (targets.map registryTargetKey).Nodup)
    (events : List Event) (hrun : (r.refresh key targets).run events = some r')
    (event : Event) (results : List RegistryHintResult) (message : String)
    (hmessage : message ≠ "")
    (hfailure : failure event = some (r.nextGeneration + 1, results, message))
    (hstep : r'.step event = some t) :
    ∃ f : DependencyState → DependencyState, t.states key = (r'.states key).map (List.map f) ∧
      ∀ row, targetOf row ∈ targets →
        r'.generations (generationKey key (rowKey row)) = some (r.nextGeneration + 1) →
        (∀ result ∈ resultsOf (r.nextGeneration + 1) events ++ results,
          registryTargetKey result.target ≠ rowKey row) → Marked message row (f row) := by
  have hbegun : (r.refresh key targets).refreshes (r.nextGeneration + 1) = some ⟨key, targets⟩ := by
    rw [refresh, registryTargetMap_of_nodup hnodup]
    exact Function.update_self _ _ _
  have hpending := refreshes_run (r.nextGeneration + 1) hrun (Nat.le_refl _)
    (.inr hbegun)
  generalize r.nextGeneration + 1 = generation at hfailure hpending ⊢
  have hleft : ∀ row : DependencyState, targetOf row ∈ targets →
      (∀ result ∈ resultsOf generation events ++ results,
        registryTargetKey result.target ≠ rowKey row) →
      targetOf row ∈ markCompleted (markCompleted targets (resultsOf generation events))
        results := by
    intro row hmem hnone
    rw [markCompleted_append, markCompleted, List.mem_filter, Bool.not_eq_true', List.any_eq_false]
    exact ⟨hmem, fun result hresult heq => hnone result hresult (of_decide_eq_true heq)⟩
  cases event with
  | refresh | partialResponse | forget | hostStates => cases hfailure
  | failed g m =>
    cases hfailure
    obtain ⟨known, hknown, rfl⟩ := Option.map_eq_some_iff.mp hstep
    rw [hknown] at hpending
    obtain rfl := Option.some.inj (hpending.resolve_left (Option.some_ne_none known))
    refine ⟨_, applyRequestFailure_eq _ _ _ _ _ ▸ states_mapRows _ _ _, ?_⟩
    intro row hmem hnewest hnone
    apply failRow_marks hmessage (isSuperseded_of_newest hnewest)
    simpa [markCompleted] using hleft row hmem hnone
  | answered g response =>
    cases response with
    | none =>
      cases hfailure
      obtain ⟨known, hknown, rfl⟩ := Option.map_eq_some_iff.mp hstep
      rw [hknown] at hpending
      obtain rfl := Option.some.inj (hpending.resolve_left (Option.some_ne_none known))
      refine ⟨_, applyRequestFailure_eq _ _ _ _ _ ▸ states_mapRows _ _ _, ?_⟩
      intro row hmem hnewest hnone
      apply failRow_marks hmessage (isSuperseded_of_newest hnewest)
      simpa [markCompleted] using hleft row hmem hnone
    | some response =>
      obtain ⟨sent, error⟩ := response
      cases error with
      | none => cases hfailure
      | some error =>
        simp only [failure] at hfailure
        split at hfailure
        · cases hfailure
        rename_i htext
        cases hfailure
        obtain ⟨known, hknown, rfl⟩ := Option.map_eq_some_iff.mp hstep
        rw [hknown] at hpending
        obtain rfl := Option.some.inj (hpending.resolve_left (Option.some_ne_none known))
        simp only [applyResponse_eq]
        have huntouched : ∀ row : DependencyState,
            (∀ result ∈ resultsOf generation events ++ results,
              registryTargetKey result.target ≠ rowKey row) →
            (r'.settle generation).applyResults key generation results row = row := by
          intro row hnone
          rw [applyResults, List.filter_eq_nil_iff.mpr fun result hresult heq =>
            hnone result (List.mem_append_right _ hresult) (of_decide_eq_true heq)]
          rfl
        by_cases hempty :
            markCompleted (markCompleted targets (resultsOf generation events)) results = []
        · rw [if_neg fun hboth => hboth.2 hempty]
          refine ⟨_, states_mapRows _ _ _, fun row hmem _ hnone => ?_⟩
          have := hleft row hmem hnone
          rw [hempty] at this
          exact absurd this List.not_mem_nil
        · rw [if_pos ⟨htext, hempty⟩]
          rw [applyRequestFailure_eq, mapRows_mapRows]
          refine ⟨_, states_mapRows _ _ _, ?_⟩
          intro row hmem hnewest hnone
          rw [huntouched row hnone]
          exact failRow_marks hmessage (isSuperseded_of_newest hnewest) (hleft row hmem hnone)

/-- A row that shows what an earlier refresh brought. -/
def hintedRow : DependencyState :=
  { reactRow with
    registryHint := some { fetchedAt := some 7 }
    registryHintRefreshStatus := some .fresh }

theorem offline_refresh_marks_its_row :
    ∃ (t : Refresher) (f : DependencyState → DependencyState),
      ((setStates {} "m" [hintedRow]).refresh "m" [react]).failed 1 "offline" = some t ∧
        t.states "m" = some [f hintedRow] ∧
        (f hintedRow).registryHintRefreshStatus = some .stale ∧
        (f hintedRow).registryHintRefreshError = some "offline" := by
  obtain ⟨f, hstates, hrows⟩ := failed_refresh_marks_every_target (setStates {} "m" [hintedRow])
    "m" [react] (List.nodup_singleton _) [] rfl (.failed 1 "offline") [] "offline" (by decide)
    rfl rfl
  have hmarked := hrows hintedRow List.mem_cons_self rfl
    fun result hmem => absurd hmem List.not_mem_nil
  exact ⟨_, f, rfl, hstates, hmarked.status, hmarked.error⟩

end Refresher
end ImportLens.Extension.RegistryHints
