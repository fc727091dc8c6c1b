import Mathlib.Data.List.Basic
import Mathlib.Logic.Function.Basic

/-!
# Volumes that can crash

A volume is a directory of names over numbered files.  An open file is written by its
number, whatever its name is by then.  A crash may lose what was not synced, and it may
bring back a directory from before; a whole one, since a directory changes atomically.

Some names are scratch.  `Tidy` is what writers keep who write only under scratch names
and rename what they synced: behind every other name stands a whole version of it, today
and after a crash, and nobody writes to it any more.
-/

namespace ImportLens.Support

structure Inode (β : Type) where
  content : List β := []
  synced : Bool := false

structure Volume (ν β : Type) where
  inodes : Nat → Inode β
  nextInode : Nat
  directory : ν → Option Nat
  /-- The directories before, since the last crash. -/
  past : List (ν → Option Nat) := []

namespace Volume

variable {ν β : Type}

def directories (v : Volume ν β) : List (ν → Option Nat) := v.directory :: v.past

def relink (v : Volume ν β) (directory : ν → Option Nat) : Volume ν β :=
  { v with directory, past := v.directories }

def rewrite (v : Volume ν β) (i : Nat) (inode : Inode β) : Volume ν β :=
  { v with inodes := Function.update v.inodes i inode }

def append (v : Volume ν β) (i : Nat) (content : List β) : Volume ν β :=
  v.rewrite i ⟨(v.inodes i).content ++ content, false⟩

def sync (v : Volume ν β) (i : Nat) : Volume ν β := v.rewrite i ⟨(v.inodes i).content, true⟩

def crash (v : Volume ν β) (age : Nat) (lost : Nat → List β) : Volume ν β :=
  { v with
    inodes := fun i => if (v.inodes i).synced then v.inodes i else ⟨lost i, true⟩
    directory := v.directories.getD age v.directory
    past := [] }

/-! ## Tidy volumes -/

variable {scratch : ν → Prop} {version : ν → List β → Prop}
variable {v w : Volume ν β} {name target : ν} {i j : Nat}

structure Tidy (scratch : ν → Prop) (version : ν → List β → Prop) (v : Volume ν β) : Prop where
  bound : ∀ d ∈ v.directories, ∀ n i, d n = some i → i < v.nextInode
  injective : ∀ d ∈ v.directories, ∀ n m i, d n = some i → d m = some i → n = m
  settled : ∀ d ∈ v.directories, ∀ n i, ¬ scratch n → d n = some i →
    (v.inodes i).synced = true ∧ version n (v.inodes i).content
  /-- What stands under a scratch name never stood under another. -/
  apart : ∀ n i, scratch n → v.directory n = some i →
    ∀ d ∈ v.directories, ∀ m, ¬ scratch m → d m ≠ some i

/-- The file stands under the name, or stood there since the last crash. -/
def Published (scratch : ν → Prop) (v : Volume ν β) (name : ν) (i : Nat) : Prop :=
  ¬ scratch name ∧ ∃ d ∈ v.directories, d name = some i

theorem Published.content (hpublished : Published scratch v name i)
    (h : Tidy scratch version v) : version name (v.inodes i).content := by
  obtain ⟨hname, d, hd, hi⟩ := hpublished
  exact (h.settled d hd name i hname hi).2

/-- What a writer under one scratch name leaves as it is. -/
structure Frame (scratch : ν → Prop) (v : Volume ν β) (name : ν) (w : Volume ν β) : Prop where
  others : ∀ n i, scratch n → n ≠ name → v.directory n = some i →
    w.directory n = some i ∧ w.inodes i = v.inodes i
  published : ∀ n i, Published scratch v n i →
    Published scratch w n i ∧ w.inodes i = v.inodes i

theorem Published.of_past (hpublished : Published scratch v name i)
    (hpast : ∀ d ∈ v.directories, d ∈ w.directories) : Published scratch w name i := by
  obtain ⟨hname, d, hd, hi⟩ := hpublished
  exact ⟨hname, d, hpast d hd, hi⟩

namespace Tidy

theorem ne_of_scratch (hscratch : scratch name) (htarget : ¬ scratch target) : target ≠ name := by
  rintro rfl
  exact htarget hscratch

theorem ne_of_published (h : Tidy scratch version v) (hscratch : scratch name)
    (hi : v.directory name = some i) (hj : Published scratch v target j) : j ≠ i := by
  rintro rfl
  obtain ⟨htarget, d, hd, hdj⟩ := hj
  exact h.apart name j hscratch hi d hd target htarget hdj

theorem frame_rewrite (h : Tidy scratch version v) (hscratch : scratch name)
    (hi : v.directory name = some i) (inode : Inode β) :
    Frame scratch v name (v.rewrite i inode) := by
  constructor
  · intro n j _ hne hj
    refine ⟨hj, Function.update_of_ne ?_ _ _⟩
    rintro rfl
    exact hne (h.injective _ List.mem_cons_self n name j hj hi)
  · intro n j hj
    exact ⟨hj, Function.update_of_ne (h.ne_of_published hscratch hi hj) _ _⟩

theorem rewrite (h : Tidy scratch version v) (hscratch : scratch name)
    (hi : v.directory name = some i) (inode : Inode β) :
    Tidy scratch version (v.rewrite i inode) := by
  refine ⟨h.bound, h.injective, ?_, h.apart⟩
  intro d hd n j hn hj
  rw [((h.frame_rewrite hscratch hi inode).published n j ⟨hn, d, hd, hj⟩).2]
  exact h.settled d hd n j hn hj

theorem frame_relink {directory : ν → Option Nat}
    (hothers : ∀ n, scratch n → n ≠ name → directory n = v.directory n) :
    Frame scratch v name (v.relink directory) := by
  constructor
  · intro n j hn hne hj
    exact ⟨(hothers n hn hne).trans hj, rfl⟩
  · intro n j hj
    exact ⟨hj.of_past fun d hd => List.mem_cons_of_mem _ hd, rfl⟩

theorem relink (h : Tidy scratch version v) {directory : ν → Option Nat}
    (hbound : ∀ n i, directory n = some i → i < v.nextInode)
    (hinjective : ∀ n m i, directory n = some i → directory m = some i → n = m)
    (hsettled : ∀ n i, ¬ scratch n → directory n = some i →
      (v.inodes i).synced = true ∧ version n (v.inodes i).content)
    (hscratch : ∀ n i, scratch n → directory n = some i → v.directory n = some i) :
    Tidy scratch version (v.relink directory) := by
  constructor
  · intro d hd n i hi
    rcases List.mem_cons.mp hd with rfl | hd
    · exact hbound n i hi
    · exact h.bound d hd n i hi
  · intro d hd n m i hn hm
    rcases List.mem_cons.mp hd with rfl | hd
    · exact hinjective n m i hn hm
    · exact h.injective d hd n m i hn hm
  · intro d hd n i hn hi
    rcases List.mem_cons.mp hd with rfl | hd
    · exact hsettled n i hn hi
    · exact h.settled d hd n i hn hi
  · intro n i hn hi d hd m hm
    rcases List.mem_cons.mp hd with rfl | hd
    · intro hdi
      rw [hinjective m n i hdi hi] at hm
      exact hm hn
    · exact h.apart n i hn (hscratch n i hn hi) d hd m hm

theorem crash (h : Tidy scratch version v) (age : Nat) (lost : Nat → List β) :
    Tidy scratch version (v.crash age lost) := by
  have hmem : (v.crash age lost).directory ∈ v.directories := by
    change v.directories.getD age v.directory ∈ v.directories
    rw [List.getD_eq_getElem?_getD]
    cases hd : v.directories[age]? with
    | none => exact List.mem_cons_self
    | some d => exact List.mem_of_getElem? hd
  have hone : ∀ d ∈ (v.crash age lost).directories, d ∈ v.directories := by
    intro d hd
    rw [List.mem_singleton.mp hd]
    exact hmem
  constructor
  · exact fun d hd => h.bound d (hone d hd)
  · exact fun d hd => h.injective d (hone d hd)
  · intro d hd n i hn hi
    obtain ⟨hsynced, hversion⟩ := h.settled d (hone d hd) n i hn hi
    have hsame : (v.crash age lost).inodes i = v.inodes i := if_pos hsynced
    rw [hsame]
    exact ⟨hsynced, hversion⟩
  · intro n i hn hi d hd m hm hdi
    rw [List.mem_singleton.mp hd] at hdi
    have hsame := h.injective _ hmem m n i hdi hi
    exact hm (hsame ▸ hn)

end Tidy

/-! ## Changing the directory -/

section Directory

variable [DecidableEq ν]

def create (v : Volume ν β) (name : ν) : Volume ν β × Nat :=
  match v.directory name with
  | some i => (v.rewrite i {}, i)
  | none =>
      let fresh := { v with nextInode := v.nextInode + 1 }.rewrite v.nextInode {}
      (fresh.relink (Function.update v.directory name (some v.nextInode)), v.nextInode)

def rename (v : Volume ν β) (source target : ν) : Option (Volume ν β) :=
  (v.directory source).map fun i =>
    v.relink (Function.update (Function.update v.directory source none) target (some i))

def remove (v : Volume ν β) (name : ν) : Volume ν β :=
  v.relink (Function.update v.directory name none)

theorem create_opens (v : Volume ν β) (name : ν) :
    (v.create name).1.directory name = some (v.create name).2 ∧
      (v.create name).1.inodes (v.create name).2 = {} := by
  unfold create
  split
  · rename_i i hi
    exact ⟨hi, Function.update_self _ _ _⟩
  · exact ⟨Function.update_self _ _ _, Function.update_self _ _ _⟩

theorem directory_create_of_ne (v : Volume ν β) (hne : target ≠ name) :
    (v.create name).1.directory target = v.directory target := by
  unfold create
  split
  · rfl
  · exact Function.update_of_ne hne _ _

theorem directory_rename_self (hne : name ≠ target) (hrename : v.rename name target = some w) :
    w.directory name = none := by
  obtain ⟨i, -, rfl⟩ := Option.map_eq_some_iff.mp hrename
  exact (Function.update_of_ne hne _ _).trans (Function.update_self _ _ _)

theorem directory_rename_of_ne {other : ν} (hname : other ≠ name) (htarget : other ≠ target)
    (hrename : v.rename name target = some w) : w.directory other = v.directory other := by
  obtain ⟨i, -, rfl⟩ := Option.map_eq_some_iff.mp hrename
  exact (Function.update_of_ne htarget _ _).trans (Function.update_of_ne hname _ _)

theorem directory_remove_of_ne (v : Volume ν β) (hne : target ≠ name) :
    (v.remove name).directory target = v.directory target := Function.update_of_ne hne _ _

namespace Tidy

theorem frame_create (h : Tidy scratch version v) (hscratch : scratch name) :
    Frame scratch v name (v.create name).1 := by
  unfold Volume.create
  split
  · rename_i i hi
    exact h.frame_rewrite hscratch hi {}
  · have hbound := h.bound
    constructor
    · intro n j _ hne hj
      have hold := hbound _ List.mem_cons_self n j hj
      exact ⟨(Function.update_of_ne hne _ _).trans hj,
        Function.update_of_ne (Nat.ne_of_lt hold) _ _⟩
    · intro n j hj
      refine ⟨hj.of_past fun d hd => List.mem_cons_of_mem _ hd, ?_⟩
      obtain ⟨_, d, hd, hdj⟩ := hj
      exact Function.update_of_ne (Nat.ne_of_lt (hbound d hd n j hdj)) _ _

theorem frame_rename (htarget : ¬ scratch target) (hrename : v.rename name target = some w) :
    Frame scratch v name w := by
  have hothers : ∀ n, scratch n → n ≠ name → w.directory n = v.directory n := fun n hn hne =>
    directory_rename_of_ne hne (ne_of_scratch hn htarget).symm hrename
  obtain ⟨i, -, rfl⟩ := Option.map_eq_some_iff.mp hrename
  exact frame_relink hothers

theorem frame_remove : Frame scratch v name (v.remove name) :=
  frame_relink fun _ _ hne => v.directory_remove_of_ne hne

theorem create (h : Tidy scratch version v) (hscratch : scratch name) :
    Tidy scratch version (v.create name).1 := by
  unfold Volume.create
  split
  · rename_i i hi
    exact h.rewrite hscratch hi {}
  · have hcurrent := List.mem_cons_self (a := v.directory) (l := v.past)
    constructor
    · intro d hd n i hi
      rcases List.mem_cons.mp hd with rfl | hd
      · change Function.update v.directory name (some v.nextInode) n = some i at hi
        change i < v.nextInode + 1
        rw [Function.update_apply] at hi
        split at hi
        · cases hi
          exact Nat.lt_succ_self _
        · exact Nat.lt_succ_of_lt (h.bound _ hcurrent n i hi)
      · exact Nat.lt_succ_of_lt (h.bound d hd n i hi)
    · intro d hd n m i hn hm
      rcases List.mem_cons.mp hd with rfl | hd
      · change Function.update v.directory name (some v.nextInode) n = some i at hn
        change Function.update v.directory name (some v.nextInode) m = some i at hm
        have := h.bound _ hcurrent
        grind [Function.update_apply, h.injective _ hcurrent n m i]
      · exact h.injective d hd n m i hn hm
    · intro d hd n i hn hi
      have hold : ∃ d ∈ v.directories, d n = some i := by
        rcases List.mem_cons.mp hd with rfl | hd
        · change Function.update v.directory name (some v.nextInode) n = some i at hi
          rw [Function.update_of_ne (ne_of_scratch hscratch hn)] at hi
          exact ⟨_, hcurrent, hi⟩
        · exact ⟨d, hd, hi⟩
      obtain ⟨d, hd, hi⟩ := hold
      have hne := Nat.ne_of_lt (h.bound d hd n i hi)
      have hsame := Function.update_of_ne hne ({} : Inode β) v.inodes
      change (Function.update v.inodes v.nextInode {} i).synced = true ∧
        version n (Function.update v.inodes v.nextInode {} i).content
      rw [hsame]
      exact h.settled d hd n i hn hi
    · intro n i hn hi d hd m hm hdi
      change Function.update v.directory name (some v.nextInode) n = some i at hi
      have hold : ∃ d ∈ v.directories, d m = some i := by
        rcases List.mem_cons.mp hd with rfl | hd
        · change Function.update v.directory name (some v.nextInode) m = some i at hdi
          rw [Function.update_of_ne (ne_of_scratch hscratch hm)] at hdi
          exact ⟨_, hcurrent, hdi⟩
        · exact ⟨d, hd, hdi⟩
      obtain ⟨d, hd, hdi⟩ := hold
      rw [Function.update_apply] at hi
      split at hi
      · cases hi
        exact absurd (h.bound d hd m _ hdi) (Nat.lt_irrefl _)
      · exact h.apart n i hn hi d hd m hm hdi

/-- A synced file is renamed to what it is a version of. -/
theorem rename (h : Tidy scratch version v) (hi : v.directory name = some i)
    (hsynced : (v.inodes i).synced = true) (hversion : version target (v.inodes i).content)
    (htarget : ¬ scratch target) (hrename : v.rename name target = some w) :
    Tidy scratch version w := by
  rw [Volume.rename, hi, Option.map_some, Option.some.injEq] at hrename
  subst hrename
  have hcurrent := List.mem_cons_self (a := v.directory) (l := v.past)
  have hbound := h.bound _ hcurrent
  have hinjective := h.injective _ hcurrent
  have hsettled := h.settled _ hcurrent
  apply h.relink
  · intro n j hj
    grind [Function.update_apply]
  · intro n m j hn hm
    grind [Function.update_apply]
  · intro n j hn hj
    grind [Function.update_apply]
  · intro n j hn hj
    grind [Function.update_apply]

theorem remove (h : Tidy scratch version v) (name : ν) : Tidy scratch version (v.remove name) := by
  have hcurrent := List.mem_cons_self (a := v.directory) (l := v.past)
  have hold : ∀ n i, Function.update v.directory name none n = some i →
      v.directory n = some i := by
    intro n i hi
    rw [Function.update_apply] at hi
    split at hi
    · cases hi
    · exact hi
  apply h.relink
  · intro n i hi
    exact h.bound _ hcurrent n i (hold n i hi)
  · intro n m i hn hm
    exact h.injective _ hcurrent n m i (hold n i hn) (hold m i hm)
  · intro n i hn hi
    exact h.settled _ hcurrent n i hn (hold n i hi)
  · intro n i _ hi
    exact hold n i hi

end Tidy
end Directory
end Volume
end ImportLens.Support
