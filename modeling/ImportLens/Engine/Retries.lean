import ImportLens.Engine.Failures
import ImportLens.Support.Rounds

/-!
# The retries of a build

A build that fails is run again with the lazy barrel if it breached the limit of the
graph, and with the missing exports stubbed if every diagnostic is about a binding
between two dependencies.  Each retry turns one switch on for good.

Every attempt gets a fresh plugin with a state of its own.  What the bundler answers to
an attempt, and the state it leaves behind, may be anything.
-/

namespace ImportLens.Engine.Retries

open ImportLens.Support ImportLens.Engine.Failures
open ImportLens.Cache (containsText)
open ImportLens.Pipeline.FileSize (EngineDiagnostic)

/-! ## The options of an attempt -/

structure ExperimentalOptions where
  lazyBarrel : Option Bool := none
  deriving DecidableEq, Repr

/-- The options that a retry changes, as `build_options` leaves them. -/
structure BundlerOptions where
  experimental : Option ExperimentalOptions := some {}
  shimMissingExports : Option Bool := none
  deriving DecidableEq, Repr

/-- The variables of the loop, and how many attempts came before. -/
structure Attempt where
  number : Nat := 0
  lazyBarrel : Bool := false
  unboundImports : Option (List EngineDiagnostic) := none
  deriving DecidableEq, Repr

def Attempt.options (attempt : Attempt) : BundlerOptions :=
  let options : BundlerOptions := {}
  let options :=
    if attempt.lazyBarrel then
      { options with
        experimental := options.experimental.map fun experimental =>
          { experimental with lazyBarrel := some true } }
    else options
  if attempt.unboundImports.isSome then { options with shimMissingExports := some true }
  else options

theorem Attempt.options_shim (attempt : Attempt) :
    attempt.options.shimMissingExports = some true ↔ attempt.unboundImports.isSome = true := by
  unfold options
  cases attempt.lazyBarrel <;> cases attempt.unboundImports <;> simp

/-! ## The loop -/

def importedBy (entry : String) : String := "imported by \"" ++ entry ++ "\""

def isInternalUnboundImport (failure : BundleFailure) (entryStableIds : List String) : Bool :=
  !entryStableIds.isEmpty && !failure.diagnostics.isEmpty &&
    failure.diagnostics.all fun diagnostic =>
      diagnostic.stage == Stage.missingExport &&
        !entryStableIds.any fun entry => containsText diagnostic.message (importedBy entry)

section

variable {ω σ : Type} (entryStableIds : σ → List String)
  (runBuild : Nat → BundlerOptions → Except BundleFailure ω × σ)

def Attempt.run (attempt : Attempt) : Except BundleFailure ω × σ :=
  runBuild attempt.number attempt.options

def retry (attempt : Attempt) : Option Attempt :=
  let (result, state) := attempt.run runBuild
  match result with
  | .ok _ => none
  | .error failure =>
      if !attempt.lazyBarrel && attempt.unboundImports.isNone &&
          failure.stage == Stage.moduleGraphLimit then
        some { attempt with number := attempt.number + 1, lazyBarrel := true }
      else if attempt.unboundImports.isNone &&
          isInternalUnboundImport failure (entryStableIds state) then
        some { attempt with
          number := attempt.number + 1
          unboundImports := some failure.diagnostics }
      else none

def Attempt.answer (attempt : Attempt) :
    Except BundleFailure (ω × σ × List EngineDiagnostic) :=
  let (result, state) := attempt.run runBuild
  match result with
  | .ok output => .ok (output, state, attempt.unboundImports.getD [])
  | .error failure => .error failure

/-- The loop, cut off after `fuel` attempts. -/
def buildWithRetries (fuel : Nat) :
    Option (Except BundleFailure (ω × σ × List EngineDiagnostic)) :=
  (rounds (retry entryStableIds runBuild) fuel {}).map (Attempt.answer runBuild)

/-! ## One retry -/

/-- What a retry of `before` changes in `next`. -/
structure Switched (before next : Attempt) : Prop where
  numbered : next.number = before.number + 1
  lazy_stays : before.lazyBarrel = true → next.lazyBarrel = true
  stubs_stay : ∀ imports, before.unboundImports = some imports →
    next.unboundImports = some imports
  lazy_turned : before.lazyBarrel = false → next.lazyBarrel = true →
    ∃ failure, (before.run runBuild).1 = .error failure ∧ failure.stage = Stage.moduleGraphLimit
  stubs_turned : ∀ imports, before.unboundImports = none → next.unboundImports = some imports →
    imports ≠ [] ∧ entryStableIds (before.run runBuild).2 ≠ [] ∧
      (∃ failure, (before.run runBuild).1 = .error failure ∧ failure.diagnostics = imports) ∧
      ∀ diagnostic ∈ imports, diagnostic.stage = Stage.missingExport ∧
        ∀ entry ∈ entryStableIds (before.run runBuild).2,
          containsText diagnostic.message (importedBy entry) = false
  /-- A retry turns one of them on. -/
  turned : (before.lazyBarrel = false ∧ next.lazyBarrel = true) ∨
    (before.unboundImports = none ∧ next.unboundImports.isSome = true)

variable {entryStableIds runBuild} {before next : Attempt}

theorem isInternalUnboundImport_iff {failure : BundleFailure} {entries : List String} :
    isInternalUnboundImport failure entries = true ↔
      entries ≠ [] ∧ failure.diagnostics ≠ [] ∧ ∀ diagnostic ∈ failure.diagnostics,
        diagnostic.stage = Stage.missingExport ∧
          ∀ entry ∈ entries, containsText diagnostic.message (importedBy entry) = false := by
  unfold isInternalUnboundImport
  simp only [Bool.and_eq_true, Bool.not_eq_true', List.isEmpty_eq_false_iff, List.all_eq_true,
    beq_iff_eq, List.any_eq_false, Bool.not_eq_true, and_assoc]

theorem retry_switched (h : retry entryStableIds runBuild before = some next) :
    Switched entryStableIds runBuild before next := by
  unfold retry at h
  dsimp only at h
  cases hrun : (before.run runBuild).1 with
  | ok output =>
    rw [hrun] at h
    cases h
  | error failure =>
    rw [hrun] at h
    dsimp only at h
    split at h
    · rename_i hlazy
      simp only [Bool.and_eq_true, Bool.not_eq_true', Option.isNone_iff_eq_none,
        beq_iff_eq] at hlazy
      obtain ⟨⟨hoff, hnone⟩, hstage⟩ := hlazy
      cases h
      constructor
      · rfl
      · intro _
        rfl
      · intro imports himports
        exact himports
      · intro _ _
        exact ⟨failure, hrun, hstage⟩
      · intro imports _ himports
        rw [show before.unboundImports = some imports from himports] at hnone
        cases hnone
      · exact .inl ⟨hoff, rfl⟩
    · split at h
      · rename_i hstub
        rw [Bool.and_eq_true, Option.isNone_iff_eq_none] at hstub
        obtain ⟨hnone, hinternal⟩ := hstub
        obtain ⟨hentries, hdiagnostics, hall⟩ := isInternalUnboundImport_iff.mp hinternal
        cases h
        constructor
        · rfl
        · intro hlazy
          exact hlazy
        · intro imports himports
          rw [hnone] at himports
          cases himports
        · intro hoff hon
          rw [show before.lazyBarrel = true from hon] at hoff
          cases hoff
        · intro imports _ himports
          cases himports
          exact ⟨hdiagnostics, hentries, ⟨failure, hrun, rfl⟩, hall⟩
        · exact .inr ⟨hnone, rfl⟩
      · cases h

def Attempt.off (attempt : Attempt) : Nat :=
  (if attempt.lazyBarrel then 0 else 1) + if attempt.unboundImports.isSome then 0 else 1

theorem retry_off (h : retry entryStableIds runBuild before = some next) :
    next.off < before.off := by
  obtain ⟨-, hlazy, hstubs, -, -, hturned⟩ := retry_switched h
  have hsome : before.unboundImports.isSome = true → next.unboundImports.isSome = true := by
    intro hsome
    obtain ⟨imports, himports⟩ := Option.isSome_iff_exists.mp hsome
    rw [hstubs imports himports]
    rfl
  unfold Attempt.off
  rcases hturned with ⟨hoff, hon⟩ | ⟨hnone, hon⟩
  · have hle : (if next.unboundImports.isSome = true then 0 else 1) ≤
        if before.unboundImports.isSome = true then 0 else 1 := by
      by_cases hstubbed : before.unboundImports.isSome = true
      · rw [if_pos hstubbed, if_pos (hsome hstubbed)]
      · rw [if_neg hstubbed]
        split <;> omega
    rw [hoff, hon, if_pos rfl, if_neg Bool.false_ne_true]
    omega
  · have hle : (if next.lazyBarrel = true then 0 else 1) ≤
        if before.lazyBarrel = true then 0 else 1 := by
      by_cases hbarrel : before.lazyBarrel = true
      · rw [if_pos hbarrel, if_pos (hlazy hbarrel)]
      · rw [if_neg hbarrel]
        split <;> omega
    rw [hnone, hon, if_pos rfl, Option.isSome_none, if_neg Bool.false_ne_true]
    omega

/-! ## The whole loop -/

theorem answer_ok {output : ω} {state : σ} {disclosed : List EngineDiagnostic}
    (h : before.answer runBuild = .ok (output, state, disclosed)) :
    before.run runBuild = (.ok output, state) ∧ disclosed = before.unboundImports.getD [] := by
  unfold Attempt.answer at h
  dsimp only at h
  cases hrun : before.run runBuild with
  | mk result state' =>
    rw [hrun] at h
    cases result with
    | ok output' =>
      cases h
      exact ⟨rfl, rfl⟩
    | error failure => cases h

theorem answer_error {failure : BundleFailure} (h : before.answer runBuild = .error failure) :
    (before.run runBuild).1 = .error failure := by
  unfold Attempt.answer at h
  dsimp only at h
  cases hrun : (before.run runBuild).1 with
  | ok output =>
    rw [hrun] at h
    cases h
  | error failure' =>
    rw [hrun] at h
    cases h
    rfl

end

/-- The loop ends within three attempts.  Every retry turns on one switch that stays on, for the
failure of the attempt before it.  What is returned is the output of the last attempt with the
state of that attempt, and with the diagnostics the stubs were turned on for exactly if it was
built with stubs, or the failure of the last attempt. -/
theorem build_with_retries {ω σ : Type} (entryStableIds : σ → List String)
    (runBuild : Nat → BundlerOptions → Except BundleFailure ω × σ) (fuel : Nat) :
    ∃ attempts last, Passes (retry entryStableIds runBuild) {} attempts last ∧
      attempts.length ≤ 3 ∧
      buildWithRetries entryStableIds runBuild (fuel + 3) = some (last.answer runBuild) ∧
      (∀ before next, retry entryStableIds runBuild before = some next →
        Switched entryStableIds runBuild before next) ∧
      (∀ output state disclosed, last.answer runBuild = .ok (output, state, disclosed) →
        last.run runBuild = (.ok output, state) ∧
        (disclosed ≠ [] ↔ last.options.shimMissingExports = some true) ∧
        (last.options.shimMissingExports = some true →
          ∃ unbound ∈ attempts, unbound.unboundImports = none ∧
            ∃ failure, (unbound.run runBuild).1 = .error failure ∧
              failure.diagnostics = disclosed)) ∧
      (∀ failure, last.answer runBuild = .error failure →
        (last.run runBuild).1 = .error failure) := by
  obtain ⟨attempts, last, hrun, hpasses, hlength⟩ :=
    @rounds_passes _ (retry entryStableIds runBuild) {} (fuel + 3) Attempt.off
      (fun _ _ => retry_off) (Nat.lt_of_lt_of_le (by decide) (Nat.le_add_left 3 fuel))
  have hturn : ∀ imports, last.unboundImports = some imports →
      ∃ unbound ∈ attempts, unbound.unboundImports = none ∧ imports ≠ [] ∧
        ∃ failure, (unbound.run runBuild).1 = .error failure ∧
          failure.diagnostics = imports := by
    intro imports himports
    obtain ⟨before, next, hin, -, hretry, hbefore, hnext⟩ :=
      hpasses.exists_turn (P := fun attempt : Attempt => attempt.unboundImports = some imports)
        (fun hstart => by cases hstart) himports
    have hswitched := retry_switched hretry
    have hnone : before.unboundImports = none := by
      cases hold : before.unboundImports with
      | none => rfl
      | some old =>
        rw [hswitched.stubs_stay old hold] at hnext
        exact absurd (hold.trans hnext) hbefore
    obtain ⟨hne, -, hfailure, -⟩ := hswitched.stubs_turned imports hnone hnext
    exact ⟨before, hin, hnone, hne, hfailure⟩
  refine ⟨attempts, last, hpasses, hlength, ?_, fun _ _ => retry_switched, ?_,
    fun _ => answer_error⟩
  · rw [buildWithRetries, hrun, Option.map_some]
  · intro output state disclosed hanswer
    obtain ⟨hlast, hdisclosed⟩ := answer_ok hanswer
    rw [Attempt.options_shim]
    cases himports : last.unboundImports with
    | none =>
      rw [himports] at hdisclosed
      refine ⟨hlast, ?_, ?_⟩
      · simp [hdisclosed]
      · intro hsome
        cases hsome
    | some imports =>
      rw [himports, Option.getD_some] at hdisclosed
      subst hdisclosed
      obtain ⟨unbound, hin, hnone, hne, hfailure⟩ := hturn disclosed himports
      refine ⟨hlast, ?_, fun _ => ⟨unbound, hin, hnone, hfailure⟩⟩
      simp [hne]

end ImportLens.Engine.Retries
