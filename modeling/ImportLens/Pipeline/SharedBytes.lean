import ImportLens.Daemon.Protocol
import ImportLens.Support.Keyed
import Mathlib.Data.List.Perm.Basic

/-!
# Shared bytes

How much of each import's weight another import of the same document also pulls in.
The figure counts within a runtime only: two runtimes ship as separate artifacts.  It
reads the modules of the results and nothing else, so neither the order of the imports
nor the figures they already carry change it.
-/

namespace ImportLens.Pipeline

open ImportLens.Daemon ImportLens.Support

def resultContributions (result : ImportResult) : List ModuleContribution :=
  if result.internalContributions.isEmpty then result.moduleBreakdown.getD []
  else result.internalContributions

def countModules (within : Keyed String Nat) (modules : List ModuleContribution) :
    Keyed String Nat :=
  modules.foldl
    (fun within module => within.insert module.path ((within.lookup module.path).getD 0 + 1)) within

def countPaths (counts : Keyed ImportRuntime (Keyed String Nat))
    (imports : List (ImportRuntime × ImportResult)) : Keyed ImportRuntime (Keyed String Nat) :=
  imports.foldl
    (fun counts imported => counts.insert imported.1
      (countModules ((counts.lookup imported.1).getD ∅) (resultContributions imported.2))) counts

def sharedWithin (within : Option (Keyed String Nat)) (result : ImportResult) : Nat :=
  (((resultContributions result).filter fun module =>
    decide (((within.bind fun within => within.lookup module.path).getD 0) > 1)).map
      ModuleContribution.bytes).sum

def withSharedBytes (result : ImportResult) (shared : Nat) : ImportResult :=
  { result with sharedBytes := some shared }

def annotateSharedBytes (imports : List (ImportRuntime × ImportResult)) : List ImportResult :=
  let counts := countPaths ∅ imports
  imports.map fun imported =>
    withSharedBytes imported.2 (sharedWithin (counts.lookup imported.1) imported.2)

/-! ## What the figure depends on -/

section

variable {imports imports' : List (ImportRuntime × ImportResult)} {runtime : ImportRuntime}
variable {result : ImportResult} {path : String}

theorem lookup_countModules (within : Keyed String Nat) (modules : List ModuleContribution)
    (path : String) :
    ((countModules within modules).lookup path).getD 0 =
      (within.lookup path).getD 0 + (modules.map ModuleContribution.path).count path := by
  induction modules generalizing within with
  | nil => rfl
  | cons module modules ih =>
    have hstep := ih (within.insert module.path ((within.lookup module.path).getD 0 + 1))
    rw [countModules, List.foldl_cons]
    refine hstep.trans ?_
    rw [Keyed.lookup_insert_eq, List.map_cons, List.count_cons]
    by_cases hpath : path = module.path
    · subst hpath
      simp only [if_true, Option.getD_some, beq_self_eq_true]
      omega
    · have hne : (module.path == path) = false := by
        rw [beq_eq_false_iff_ne]
        exact Ne.symm hpath
      rw [if_neg hpath, hne]
      simp

def occurrences (imports : List (ImportRuntime × ImportResult)) :
    List (ImportRuntime × String) :=
  imports.flatMap fun imported =>
    (resultContributions imported.2).map fun module => (imported.1, module.path)

theorem occurrences_cons (imported : ImportRuntime × ImportResult)
    (imports : List (ImportRuntime × ImportResult)) :
    occurrences (imported :: imports) =
      (resultContributions imported.2).map (fun module => (imported.1, module.path)) ++
        occurrences imports :=
  List.flatMap_cons

theorem count_within (runtime runtime' : ImportRuntime) (modules : List ModuleContribution)
    (path : String) :
    (modules.map fun module => (runtime', module.path)).count (runtime, path) =
      if runtime = runtime' then (modules.map ModuleContribution.path).count path else 0 := by
  induction modules with
  | nil => simp
  | cons module modules ih =>
    rw [List.map_cons, List.map_cons, List.count_cons, List.count_cons, ih]
    by_cases hruntime : runtime = runtime'
    · subst hruntime
      simp
    · have hne : ¬ runtime' = runtime := Ne.symm hruntime
      simp [hruntime, hne]

theorem lookup_countPaths (counts : Keyed ImportRuntime (Keyed String Nat))
    (imports : List (ImportRuntime × ImportResult)) (runtime : ImportRuntime) (path : String) :
    ((((countPaths counts imports).lookup runtime).bind fun within => within.lookup path).getD 0) =
      ((counts.lookup runtime).bind fun within => within.lookup path).getD 0 +
        (occurrences imports).count (runtime, path) := by
  induction imports generalizing counts with
  | nil => rfl
  | cons imported imports ih =>
    have hstep := ih (counts.insert imported.1
      (countModules ((counts.lookup imported.1).getD ∅) (resultContributions imported.2)))
    rw [countPaths, List.foldl_cons]
    refine hstep.trans ?_
    rw [Keyed.lookup_insert_eq, occurrences_cons, List.count_append, count_within]
    by_cases hruntime : runtime = imported.1
    · subst hruntime
      rw [if_pos rfl, if_pos rfl, Option.bind_some, lookup_countModules, Nat.add_assoc]
      cases counts.lookup imported.1 with
      | none => rfl
      | some within => rfl
    · rw [if_neg hruntime, if_neg hruntime, Nat.zero_add]

def sharedFigure (paths : List (ImportRuntime × String)) (runtime : ImportRuntime)
    (result : ImportResult) : Nat :=
  (((resultContributions result).filter fun module =>
    decide (paths.count (runtime, module.path) > 1)).map ModuleContribution.bytes).sum

theorem sharedWithin_eq (imports : List (ImportRuntime × ImportResult)) (runtime : ImportRuntime)
    (result : ImportResult) :
    sharedWithin ((countPaths ∅ imports).lookup runtime) result =
      sharedFigure (occurrences imports) runtime result := by
  unfold sharedWithin sharedFigure
  congr 2
  apply List.filter_congr
  intro module _
  rw [lookup_countPaths]
  simp

theorem annotateSharedBytes_eq (imports : List (ImportRuntime × ImportResult)) :
    annotateSharedBytes imports = imports.map fun imported =>
      withSharedBytes imported.2 (sharedFigure (occurrences imports) imported.1 imported.2) := by
  unfold annotateSharedBytes
  apply List.map_congr_left
  intro imported _
  rw [sharedWithin_eq]

theorem sharedFigure_perm {paths paths' : List (ImportRuntime × String)} (h : paths.Perm paths')
    (runtime : ImportRuntime) (result : ImportResult) :
    sharedFigure paths runtime result = sharedFigure paths' runtime result := by
  unfold sharedFigure
  congr 2
  apply List.filter_congr
  intro module _
  rw [h.count_eq]

theorem occurrences_perm (h : imports.Perm imports') :
    (occurrences imports).Perm (occurrences imports') :=
  h.flatMap_right _

end

end ImportLens.Pipeline
