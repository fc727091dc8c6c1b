import Mathlib.Data.List.TakeWhile
import Mathlib.Data.Prod.Lex
import Mathlib.Data.String.Basic

/-!
# POSIX paths

A path as its text, and the components that decide when two texts are the same path:
empty parts and `.` parts below the start count for nothing.
-/

namespace ImportLens.Support.PosixPath

inductive Component
  | rootDir
  | curDir
  | parentDir
  | normal (name : String)
  deriving DecidableEq, Repr

namespace Component

/-- The order of `std::path::Component`. -/
def position : Component → ℕ ×ₗ String
  | rootDir => toLex (1, "")
  | curDir => toLex (2, "")
  | parentDir => toLex (3, "")
  | normal name => toLex (4, name)

theorem position_injective : Function.Injective position := by
  intro a b h
  have hpair := Prod.mk.inj (toLex.injective h)
  cases a <;> cases b <;> simp_all [position]

instance : LinearOrder Component := LinearOrder.lift' position position_injective

end Component

def parts (path : String) : List (List Char) := path.toList.splitOn '/'

def isTrivial (part : List Char) : Bool := part.isEmpty || part == ['.']

def component (part : List Char) : Component :=
  if part = ['.', '.'] then .parentDir else .normal (String.ofList part)

def hasRoot (path : String) : Bool := path.toList.head? == some '/'

def components (path : String) : List Component :=
  let named := ((parts path).filter fun part => !isTrivial part).map component
  if hasRoot path then .rootDir :: named
  else if (parts path).head? = some ['.'] then .curDir :: named
  else named

def parent (path : String) : Option String :=
  match (parts path).reverse.dropWhile isTrivial with
  | [] => if components path = [.curDir] then some "" else none
  | _ :: before =>
      match before.dropWhile isTrivial with
      | [] =>
          some (if hasRoot path then "/" else if (parts path).head? = some ['.'] then "." else "")
      | part :: rest => some (String.ofList (['/'].intercalate (part :: rest).reverse))

def join (path name : String) : String :=
  if path.isEmpty || path.toList.getLast? == some '/' then path ++ name else path ++ "/" ++ name

def fileName (path : String) : Option String :=
  match (components path).getLast? with
  | some (.normal name) => some name
  | _ => none

def extension (path : String) : Option (List Char) :=
  (fileName path).bind fun name =>
    let after := (name.toList.reverse.takeWhile fun c => c ≠ '.').reverse
    let before := name.toList.take (name.toList.length - after.length - 1)
    if before.isEmpty then none else some after

theorem hasRoot_of_components {path : String} (h : components path = [.rootDir]) :
    hasRoot path = true := by
  have hcomponent : ∀ part, component part ≠ .rootDir := by
    intro part heq
    rw [component] at heq
    split at heq
    · cases heq
    · cases heq
  by_contra hroot
  rw [components, if_neg hroot] at h
  split at h
  · cases h
  · have hmem : Component.rootDir ∈
        ((parts path).filter fun part => !isTrivial part).map component := by
      rw [h]
      exact List.mem_singleton_self _
    obtain ⟨part, -, heq⟩ := List.mem_map.mp hmem
    exact hcomponent part heq

theorem parent_eq_none_iff {path : String} (hroot : hasRoot path = true) :
    parent path = none ↔ components path = [.rootDir] := by
  have hcomponents : components path = [.rootDir] ↔ ∀ part ∈ parts path, isTrivial part = true := by
    simp only [components, hroot, if_true, List.cons.injEq, true_and, List.map_eq_nil_iff,
      List.filter_eq_nil_iff, Bool.not_eq_true', Bool.not_eq_false]
  rw [hcomponents, parent]
  constructor
  · intro hnone
    split at hnone
    · rename_i hnil
      intro part hpart
      exact List.dropWhile_eq_nil_iff.mp hnil part (List.mem_reverse.mpr hpart)
    · split at hnone
      · cases hnone
      · cases hnone
  · intro hall
    have hnil : (parts path).reverse.dropWhile isTrivial = [] :=
      List.dropWhile_eq_nil_iff.mpr fun part hpart => hall part (List.mem_reverse.mp hpart)
    have hcurDir : components path ≠ [.curDir] := by
      intro heq
      rw [hcomponents.mpr hall] at heq
      cases heq
    simp only [hnil, hcurDir, if_false]

theorem fileName_congr {path other : String} (h : components path = components other) :
    fileName path = fileName other := by
  rw [fileName, fileName, h]

theorem extension_congr {path other : String} (h : components path = components other) :
    extension path = extension other := by
  rw [extension, extension, fileName_congr h]

end ImportLens.Support.PosixPath
