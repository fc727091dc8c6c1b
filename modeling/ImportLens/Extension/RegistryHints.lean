import ImportLens.Extension.PackageJsonRows
import Mathlib.Logic.Function.Basic

/-!
# Refreshing registry hints

`RegistryHintRefresher` asks the daemon for the hints of some dependencies of a manifest,
and lays what it is sent onto the rows of the manifest.  Several refreshes of one manifest
may be under way at once, and their answers come in any order.  A hint is replaced by a
newer one only; whether a row is shown as fresh, stale or failed is up to the newest
refresh of its target.
-/

namespace ImportLens.Extension.RegistryHints

open ImportLens.Extension.PackageJson

structure RegistryHintTarget where
  name : String
  installedVersion : Option String
  deriving DecidableEq, Repr

structure RegistryHintResult where
  target : RegistryHintTarget
  hint : Option RegistryHint
  error : Option String
  deriving DecidableEq, Repr

structure RefreshRegistryHintsResponse where
  results : List RegistryHintResult
  error : Option String
  deriving DecidableEq, Repr

def registryTargetKey (target : RegistryHintTarget) : String :=
  target.name ++ "\n" ++ target.installedVersion.getD ""

def targetOf (row : DependencyState) : RegistryHintTarget := ⟨row.name, row.installedVersion⟩

def rowKey (row : DependencyState) : String := registryTargetKey (targetOf row)

def registryTargetsForStates (states : List DependencyState) (privateScopes : List String) :
    List RegistryHintTarget :=
  states.foldl (fun targets state =>
    if targets.any (fun target => registryTargetKey target = rowKey state) ||
        !isPublicRegistryDependency state.name state.entry.version privateScopes then targets
    else targets ++ [targetOf state]) []

def registryTargetMap (targets : List RegistryHintTarget) : List RegistryHintTarget :=
  targets.foldl (fun map target =>
    if map.any fun other => registryTargetKey other = registryTargetKey target then
      map.map fun other =>
        if registryTargetKey other = registryTargetKey target then target else other
    else map ++ [target]) []

/-! ## Rows -/

def isTrue (text : Option String) : Bool := text.any fun text => text ≠ ""

def refreshStatus (error : Option String) (hint : Option RegistryHint) :
    Option RegistryHintRefreshStatus :=
  if isTrue error && hint.isSome then some .stale
  else if hint.isSome then some .fresh
  else none

def refreshRow (superseded : Bool) (row : DependencyState) (hint : Option RegistryHint)
    (error : Option String) : DependencyState :=
  let registryHint := newerRegistryHint row.registryHint hint
  if superseded then { row with registryHint }
  else
    { row with
      registryHint
      registryHintRefreshStatus := refreshStatus error registryHint
      registryHintRefreshError := error }

/-! ## The refresher -/

/-- A call of `refresh` that awaits its response. -/
structure Refresh where
  key : String
  pendingTargets : List RegistryHintTarget
  deriving DecidableEq, Repr

/-- The refresher and the rows of its host.  A call goes by its generation. -/
structure Refresher where
  generations : String → Option Nat := fun _ => none
  nextGeneration : Nat := 0
  states : String → Option (List DependencyState) := fun _ => none
  refreshes : Nat → Option Refresh := fun _ => none

namespace Refresher

def generationKey (key targetKey : String) : String := key ++ "\x00" ++ targetKey

def isSuperseded (r : Refresher) (key targetKey : String) (generation : Nat) : Bool :=
  generation < (r.generations (generationKey key targetKey)).getD 0

def beginGeneration (r : Refresher) (key : String) (targets : List RegistryHintTarget) :
    Refresher :=
  { r with
    nextGeneration := r.nextGeneration + 1
    generations := targets.foldl (fun generations target =>
      Function.update generations (generationKey key (registryTargetKey target))
        (some (r.nextGeneration + 1))) r.generations }

/-- `refresh` up to its await. -/
def refresh (r : Refresher) (key : String) (targets : List RegistryHintTarget) : Refresher :=
  let begun := r.beginGeneration key targets
  { begun with
    refreshes := Function.update r.refreshes begun.nextGeneration
      (some ⟨key, registryTargetMap targets⟩) }

def setStates (r : Refresher) (key : String) (rows : List DependencyState) : Refresher :=
  { r with states := Function.update r.states key (some rows) }

def applyResults (r : Refresher) (key : String) (generation : Nat)
    (results : List RegistryHintResult) (row : DependencyState) : DependencyState :=
  (results.filter fun result => registryTargetKey result.target = rowKey row).foldl
    (fun row result => refreshRow
      (r.isSuperseded key (registryTargetKey result.target) generation) row
        result.hint result.error)
    row

def applyResponse (r : Refresher) (key : String) (generation : Nat)
    (results : List RegistryHintResult) : Refresher :=
  match r.states key with
  | none => r
  | some rows => r.setStates key (rows.map (r.applyResults key generation results))

def updateRegistryHint (r : Refresher) (key : String) (generation : Nat) (message : String)
    (target : RegistryHintTarget) : Refresher :=
  match r.states key with
  | none => r
  | some rows =>
      r.setStates key <| rows.map fun row =>
        if targetOf row = target then
          refreshRow (r.isSuperseded key (registryTargetKey target) generation) row none
            (some message)
        else row

def applyRequestFailure (r : Refresher) (key : String) (generation : Nat)
    (targets : List RegistryHintTarget) (message : String) : Refresher :=
  targets.foldl (fun r target => r.updateRegistryHint key generation message target) r

def markCompleted (pendingTargets : List RegistryHintTarget) (results : List RegistryHintResult) :
    List RegistryHintTarget :=
  pendingTargets.filter fun target =>
    !results.any fun result => registryTargetKey result.target = registryTargetKey target

def settle (r : Refresher) (generation : Nat) : Refresher :=
  { r with refreshes := Function.update r.refreshes generation none }

def partialResponse (r : Refresher) (generation : Nat) (results : List RegistryHintResult) :
    Option Refresher :=
  (r.refreshes generation).map fun refresh =>
    { r with
      refreshes := Function.update r.refreshes generation
        (some { refresh with
          pendingTargets := markCompleted refresh.pendingTargets results }) }.applyResponse
      refresh.key generation results

def answered (r : Refresher) (generation : Nat) (response : Option RefreshRegistryHintsResponse) :
    Option Refresher :=
  (r.refreshes generation).map fun refresh =>
    match response with
    | none =>
        ((r.settle generation).applyRequestFailure refresh.key generation refresh.pendingTargets
          "Daemon unavailable")
    | some response =>
        let pending := markCompleted refresh.pendingTargets response.results
        let applied := (r.settle generation).applyResponse refresh.key generation response.results
        match response.error with
        | some error =>
            if error ≠ "" ∧ pending ≠ [] then
              applied.applyRequestFailure refresh.key generation pending error
            else applied
        | none => applied

def failed (r : Refresher) (generation : Nat) (message : String) : Option Refresher :=
  (r.refreshes generation).map fun refresh =>
    (r.settle generation).applyRequestFailure refresh.key generation refresh.pendingTargets message

def forget (r : Refresher) (key : String) : Refresher :=
  { r with
    generations := fun known =>
      if (key ++ "\x00").toList <+: known.toList then none else r.generations known }

/-! ## Runs -/

inductive Event
  | refresh (key : String) (targets : List RegistryHintTarget)
  | partialResponse (generation : Nat) (results : List RegistryHintResult)
  | answered (generation : Nat) (response : Option RefreshRegistryHintsResponse)
  | failed (generation : Nat) (message : String)
  | forget (key : String)
  /-- The host replaces the rows of a manifest, or drops them. -/
  | hostStates (key : String) (rows : Option (List DependencyState))
  deriving DecidableEq, Repr

def step (r : Refresher) : Event → Option Refresher
  | .refresh key targets => some (r.refresh key targets)
  | .partialResponse generation results => r.partialResponse generation results
  | .answered generation response => r.answered generation response
  | .failed generation message => r.failed generation message
  | .forget key => some (r.forget key)
  | .hostStates key rows => some { r with states := Function.update r.states key rows }

def run (r : Refresher) : List Event → Option Refresher
  | [] => some r
  | event :: rest => (r.step event).bind fun next => next.run rest

end Refresher
end ImportLens.Extension.RegistryHints
