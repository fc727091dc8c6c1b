import Mathlib.Data.List.Basic

/-!
# Memoized recursion

A rectangle of results, some of them known, that a recursion reads and fills.  A
read or a write outside it fails.  If every known result is the one that a plain
function gives, a memoized computation returns what the plain one does and leaves
a table of the same kind.
-/

namespace ImportLens.Support

variable {β : Type}

abbrev MemoTable (β : Type) : Type := List (List (Option β))

namespace MemoTable

def new (rows columns : Nat) : MemoTable β := List.replicate rows (List.replicate columns none)

def read (table : MemoTable β) (i j : Nat) : Option (Option β) := table[i]?.bind fun row => row[j]?

def write (table : MemoTable β) (i j : Nat) (result : β) : Option (MemoTable β) :=
  (table.read i j).map fun _ => table.modify i fun row => row.set j (some result)

variable {rows columns i j k l : Nat} {f : Nat → Nat → β} {table other : MemoTable β} {b : β}

theorem read_new (hi : i < rows) (hj : j < columns) :
    (new rows columns : MemoTable β).read i j = some none := by
  simp [read, new, hi, hj]

theorem read_write (h : table.write i j b = some other) :
    other.read k l = if i = k ∧ j = l then some (some b) else table.read k l := by
  obtain ⟨cell, hcell, rfl⟩ := Option.map_eq_some_iff.mp h
  obtain ⟨row, hrow, hcell⟩ := Option.bind_eq_some_iff.mp hcell
  have hj : j < row.length := (List.getElem?_eq_some_iff.mp hcell).1
  simp only [read, List.getElem?_modify]
  by_cases hik : i = k
  · subst hik
    by_cases hjl : j = l
    · subst hjl
      simp [hrow, hj]
    · simp [hrow, hjl, List.getElem?_set_ne hjl]
  · simp [hik]

/-- Every place of the rectangle is there, and what is known is what `f` gives. -/
def Sound (rows columns : Nat) (f : Nat → Nat → β) (table : MemoTable β) : Prop :=
  ∀ i j, i < rows → j < columns →
    ∃ cell, table.read i j = some cell ∧ ∀ b, cell = some b → b = f i j

theorem sound_new (rows columns : Nat) (f : Nat → Nat → β) :
    Sound rows columns f (new rows columns) := by
  intro i j hi hj
  refine ⟨none, read_new hi hj, fun b hb => ?_⟩
  cases hb

theorem Sound.write (h : Sound rows columns f table) (hi : i < rows) (hj : j < columns) :
    ∃ other, table.write i j (f i j) = some other ∧ Sound rows columns f other := by
  obtain ⟨cell, hcell, _⟩ := h i j hi hj
  have hwrite : table.write i j (f i j) =
      some (table.modify i fun row => row.set j (some (f i j))) := by
    rw [MemoTable.write, hcell, Option.map_some]
  refine ⟨_, hwrite, fun k l hk hl => ?_⟩
  rw [read_write hwrite]
  by_cases hsame : i = k ∧ j = l
  · obtain ⟨rfl, rfl⟩ := hsame
    exact ⟨some (f i j), if_pos ⟨rfl, rfl⟩, fun b hb => (Option.some.inj hb).symm⟩
  · rw [if_neg hsame]
    exact h k l hk hl

end MemoTable

abbrev Memo (β α : Type) : Type := StateT (MemoTable β) Option α

namespace Memo

def memoize (i j : Nat) (compute : Memo β β) : Memo β β := fun table =>
  (table.read i j).bind fun cell =>
    match cell with
    | some result => some (result, table)
    | none =>
        (compute table).bind fun (result, table) =>
          (table.write i j result).map fun table => (result, table)

/-- `first || second` -/
def or (first second : Memo β Bool) : Memo β Bool := fun table =>
  (first table).bind fun (result, table) => if result then some (true, table) else second table

/-- The computation does not fail, returns `b` and keeps the table sound. -/
def Computes {α : Type} (rows columns : Nat) (f : Nat → Nat → β) (c : Memo β α) (b : α) : Prop :=
  ∀ table, MemoTable.Sound rows columns f table →
    ∃ other, c table = some (b, other) ∧ MemoTable.Sound rows columns f other

variable {rows columns i j : Nat} {f : Nat → Nat → β} {c d : Memo β Bool} {b e : Bool}

theorem computes_pure {α : Type} (b : α) : Computes rows columns f (pure b : Memo β α) b :=
  fun table h => ⟨table, rfl, h⟩

theorem computes_memoize {compute : Memo β β} (hi : i < rows) (hj : j < columns)
    (h : Computes rows columns f compute (f i j)) :
    Computes rows columns f (memoize i j compute) (f i j) := by
  intro table htable
  obtain ⟨cell, hcell, hknown⟩ := htable i j hi hj
  cases cell with
  | some result =>
      refine ⟨table, ?_, htable⟩
      rw [memoize, hcell, Option.bind_some, ← hknown result rfl]
  | none =>
      obtain ⟨next, hrun, hnext⟩ := h table htable
      obtain ⟨last, hwrite, hlast⟩ := hnext.write hi hj
      refine ⟨last, ?_, hlast⟩
      simp only [memoize, hcell, Option.bind_some, hrun, hwrite, Option.map_some]

theorem computes_or (hc : Computes rows columns f c b)
    (hd : b = false → Computes rows columns f d e) :
    Computes rows columns f (or c d) (b || e) := by
  intro table htable
  obtain ⟨next, hrun, hnext⟩ := hc table htable
  cases b with
  | true => exact ⟨next, by simp [or, hrun], hnext⟩
  | false =>
      obtain ⟨last, hlast, hsound⟩ := hd rfl next hnext
      exact ⟨last, by simp [or, hrun, hlast], hsound⟩

end Memo

end ImportLens.Support
