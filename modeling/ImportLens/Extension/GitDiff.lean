import ImportLens.Extension.ShiftedText
import ImportLens.Support.CommonSubsequence
import ImportLens.Support.Rounds
import Mathlib.Order.Interval.Finset.Nat

/-!
# Changed lines

`changedLinesBetween` of the extension's `gitDiff.ts`: the lines of a text that are
inserted or replaced relative to its committed version, by a longest common subsequence
of the lines between the first and the last that differ.
-/

namespace ImportLens.Extension.GitDiff

open ImportLens.Support

abbrev Line : Type := List UInt16

/-! ## The lines of a text -/

def withoutByteOrderMark : List UInt16 → List UInt16
  | [] => []
  | unit :: rest => if unit = 0xfeff then rest else unit :: rest

/-- `split(/\r?\n/u)` -/
def splitLines : List UInt16 → List Line
  | [] => [[]]
  | unit :: rest =>
      if unit = lineFeed then [] :: splitLines rest
      else
        match rest with
        | [] => [[unit]]
        | next :: after =>
            if unit = carriageReturn ∧ next = lineFeed then [] :: splitLines after
            else (splitLines (next :: after)).modifyHead (unit :: ·)

/-! ## The dynamic programme -/

def maxLcsCells : Nat := 4000000

/-- The row of `dp` for a line of the base, from the row below. -/
def dpRow (line : Line) : List Line → List Nat → List Nat
  | [], _ => [0]
  | first :: after, below =>
      let right := dpRow line after below.tail
      (if line = first then below.tail.headD 0 + 1
        else max (below.headD 0) (right.headD 0)) :: right

/-- `dp[i][j]`: the common lines of `before[i..]` and `after[j..]`. -/
def dpTable : List Line → List Line → List (List Nat)
  | [], after => [List.replicate (after.length + 1) 0]
  | line :: before, after =>
      let below := dpTable before after
      dpRow line after (below.headD []) :: below

def cell (dp : List (List Nat)) (i j : Nat) : Nat := (dp[i]?.getD [])[j]?.getD 0

/-- The variables of the loop that follows the table. -/
structure Trace where
  i : Nat
  j : Nat
  changed : Finset Nat
  deriving DecidableEq

section

variable (before after : List Line) (dp : List (List Nat)) (start : Nat)

def traceRound (trace : Trace) : Option Trace :=
  if trace.i < before.length ∧ trace.j < after.length then
    if before[trace.i]? = after[trace.j]? then
      some { trace with i := trace.i + 1, j := trace.j + 1 }
    else if cell dp (trace.i + 1) trace.j ≥ cell dp trace.i (trace.j + 1) then
      some { trace with i := trace.i + 1 }
    else
      some { trace with j := trace.j + 1, changed := insert (start + trace.j) trace.changed }
  else none

def addLines (first count : Nat) (changed : Finset Nat) : Finset Nat :=
  (List.range' first count).foldl (fun changed line => insert line changed) changed

/-- The lines of `after` that the table leaves out, numbered from `start`. -/
def tracedLines : Finset Nat :=
  let trace := (rounds (traceRound before after (dpTable before after) start)
    (before.length + after.length + 1) ⟨0, 0, ∅⟩).getD ⟨0, 0, ∅⟩
  addLines (start + trace.j) (after.length - trace.j) trace.changed

end

/-! ## Trimming -/

def commonFront : List Line → List Line → Nat
  | line :: before, line' :: after => if line = line' then commonFront before after + 1 else 0
  | _, _ => 0

/-- What is left of the lists between what they have in common at the ends. -/
structure Trimmed where
  start : Nat
  before : List Line
  after : List Line
  deriving DecidableEq

def trim (before after : List Line) : Trimmed :=
  let start := commonFront before after
  let restBefore := before.drop start
  let restAfter := after.drop start
  let back := commonFront restBefore.reverse restAfter.reverse
  { start := start
    before := restBefore.take (restBefore.length - back)
    after := restAfter.take (restAfter.length - back) }

def changedLines (before after : List Line) : Finset Nat :=
  let trimmed := trim before after
  if trimmed.after.length = 0 then ∅
  else if trimmed.before.length = 0 then addLines trimmed.start trimmed.after.length ∅
  else if trimmed.before.length * trimmed.after.length > maxLcsCells then ∅
  else tracedLines trimmed.before trimmed.after trimmed.start

def changedLinesBetween (base current : List UInt16) : Finset Nat :=
  let baseText := withoutByteOrderMark base
  let currentText := withoutByteOrderMark current
  if baseText = currentText then ∅
  else changedLines (splitLines baseText) (splitLines currentText)

/-! ## The table -/

section

variable {line : Line} {before after : List Line} {i j : Nat}

theorem rowOf_dpRow {below : List Nat} (h : RowOf before after below) :
    RowOf (line :: before) after (dpRow line after below) := by
  induction h with
  | nil => exact .nil
  | @cons after s row first hlongest hrow ih =>
    rw [dpRow]
    dsimp only [List.tail_cons, List.headD_cons]
    obtain ⟨t, ht, hright⟩ := ih.head
    obtain ⟨u, hu, hdiagonal⟩ := hrow.head
    rw [hright, hdiagonal]
    by_cases hsame : line = first
    · subst hsame
      rw [if_pos rfl]
      exact .cons line (hu.cons line) ih
    · rw [if_neg hsame]
      rcases Nat.le_total s.length t.length with hle | hle
      · rw [Nat.max_eq_right hle]
        exact .cons first (.skip_right hsame hlongest ht hle) ih
      · rw [Nat.max_eq_left hle]
        exact .cons first (.skip_left hsame hlongest ht hle) ih

theorem dpTable_row (hi : i ≤ before.length) :
    ∃ row, (dpTable before after)[i]? = some row ∧ RowOf (before.drop i) after row := by
  induction before generalizing i with
  | nil =>
    have hzero : i = 0 := by simpa using hi
    subst hzero
    exact ⟨_, rfl, rowOf_replicate after⟩
  | cons line before ih =>
    cases i with
    | zero =>
      refine ⟨_, rfl, ?_⟩
      obtain ⟨row, hrow, hspec⟩ := ih (Nat.zero_le before.length)
      have hhead : (dpTable before after).headD [] = row := by
        rw [List.headD_eq_head?_getD, List.head?_eq_getElem?, hrow]
        rfl
      rw [hhead]
      exact rowOf_dpRow hspec
    | succ i => exact ih (Nat.le_of_succ_le_succ hi)

theorem cell_dpTable (hi : i ≤ before.length) (hj : j ≤ after.length) :
    ∃ s, Longest s (before.drop i) (after.drop j) ∧
      cell (dpTable before after) i j = s.length := by
  obtain ⟨row, hrow, hspec⟩ := @dpTable_row before after i hi
  obtain ⟨s, hlongest, hlength⟩ := hspec.getD hj
  refine ⟨s, hlongest, ?_⟩
  rw [cell, hrow]
  exact hlength

end

/-! ## The lines that are kept -/

/-- The lines, numbered from `start`, that a set does not name. -/
def keptFrom : Nat → List Line → Finset Nat → List Line
  | _, [], _ => []
  | start, line :: lines, changed =>
      if start ∈ changed then keptFrom (start + 1) lines changed
      else line :: keptFrom (start + 1) lines changed

section

variable {start : Nat} {lines : List Line} {changed changed' : Finset Nat}

theorem keptFrom_cons (start : Nat) (line : Line) (lines : List Line) (changed : Finset Nat) :
    keptFrom start (line :: lines) changed =
      if start ∈ changed then keptFrom (start + 1) lines changed
      else line :: keptFrom (start + 1) lines changed := rfl

theorem keptFrom_congr
    (h : ∀ k, start ≤ k → k < start + lines.length → (k ∈ changed ↔ k ∈ changed')) :
    keptFrom start lines changed = keptFrom start lines changed' := by
  induction lines generalizing start with
  | nil => rfl
  | cons line lines ih =>
    have hhead := h start (Nat.le_refl _) (by rw [List.length_cons]; omega)
    have htail : keptFrom (start + 1) lines changed = keptFrom (start + 1) lines changed' :=
      ih fun k hle hlt => h k (by omega) (by rw [List.length_cons]; omega)
    simp only [keptFrom_cons, hhead, htail]

theorem keptFrom_append (start : Nat) (front back : List Line) (changed : Finset Nat) :
    keptFrom start (front ++ back) changed =
      keptFrom start front changed ++ keptFrom (start + front.length) back changed := by
  induction front generalizing start with
  | nil => rfl
  | cons line front ih =>
    rw [List.cons_append, keptFrom_cons, keptFrom_cons, ih, List.length_cons, Nat.add_right_comm,
      Nat.add_assoc start]
    split
    · rfl
    · rfl

theorem keptFrom_all (h : ∀ k, start ≤ k → k < start + lines.length → k ∉ changed) :
    keptFrom start lines changed = lines := by
  induction lines generalizing start with
  | nil => rfl
  | cons line lines ih =>
    rw [keptFrom_cons, if_neg (h start (Nat.le_refl _) (by rw [List.length_cons]; omega)),
      ih fun k hle hlt => h k (by omega) (by rw [List.length_cons]; omega)]

theorem keptFrom_none (h : ∀ k, start ≤ k → k < start + lines.length → k ∈ changed) :
    keptFrom start lines changed = [] := by
  induction lines generalizing start with
  | nil => rfl
  | cons line lines ih =>
    rw [keptFrom_cons, if_pos (h start (Nat.le_refl _) (by rw [List.length_cons]; omega)),
      ih fun k hle hlt => h k (by omega) (by rw [List.length_cons]; omega)]

theorem keptFrom_sublist (start : Nat) (lines : List Line) (changed : Finset Nat) :
    (keptFrom start lines changed).Sublist lines := by
  induction lines generalizing start with
  | nil => exact List.Sublist.refl []
  | cons line lines ih =>
    rw [keptFrom_cons]
    split
    · exact (ih (start + 1)).cons line
    · exact (ih (start + 1)).cons_cons line

theorem keptFrom_erase {k : Nat} (hk : k ∈ changed) (hle : start ≤ k)
    (hlt : k < start + lines.length) :
    (keptFrom start lines (changed.erase k)).length =
      (keptFrom start lines changed).length + 1 := by
  induction lines generalizing start with
  | nil =>
    rw [List.length_nil] at hlt
    omega
  | cons line lines ih =>
    rw [List.length_cons] at hlt
    rw [keptFrom_cons, keptFrom_cons]
    by_cases hhead : start = k
    · subst hhead
      rw [if_pos hk, if_neg (Finset.notMem_erase start changed), List.length_cons]
      congr 2
      apply keptFrom_congr
      intro other hother _
      rw [Finset.mem_erase]
      exact and_iff_right (by omega)
    · have hmem : start ∈ changed.erase k ↔ start ∈ changed := by
        rw [Finset.mem_erase]
        exact and_iff_right hhead
      have htail : (keptFrom (start + 1) lines (changed.erase k)).length =
          (keptFrom (start + 1) lines changed).length + 1 := ih (by omega) (by omega)
      simp only [hmem]
      split
      · exact htail
      · rw [List.length_cons, List.length_cons, htail]

theorem mem_addLines {first count k : Nat} :
    k ∈ addLines first count changed ↔ k ∈ changed ∨ first ≤ k ∧ k < first + count := by
  induction count generalizing first changed with
  | zero =>
    rw [addLines, List.range'_zero, List.foldl_nil]
    constructor
    · exact .inl
    · rintro (hmem | hrange)
      · exact hmem
      · omega
  | succ count ih =>
    have hstep : addLines first (count + 1) changed =
        addLines (first + 1) count (insert first changed) := by
      rw [addLines, List.range'_succ, List.foldl_cons]
      rfl
    rw [hstep, ih, Finset.mem_insert]
    constructor
    · rintro ((rfl | hmem) | hrange)
      · exact .inr (by omega)
      · exact .inl hmem
      · exact .inr (by omega)
    · rintro (hmem | hrange)
      · exact .inl (.inr hmem)
      · by_cases hfirst : k = first
        · exact .inl (.inl hfirst)
        · exact .inr (by omega)

end

/-! ## Minimal sets -/

/-- The set names lines of the second list, and what it leaves is as long as can be. -/
structure Minimal (start : Nat) (before after : List Line) (changed : Finset Nat) : Prop where
  bounds : ∀ k ∈ changed, start ≤ k ∧ k < start + after.length
  card : changed.card + (keptFrom start after changed).length = after.length
  longest : Longest (keptFrom start after changed) before after

section

variable {start : Nat} {before after : List Line} {changed : Finset Nat} {line first : Line}

theorem minimal_nil_right (start : Nat) (before : List Line) : Minimal start before [] ∅ where
  bounds := by simp
  card := rfl
  longest := .nil_right before

theorem minimal_nil_left (start : Nat) (after : List Line) :
    Minimal start [] after (addLines start after.length ∅) := by
  have hnone : keptFrom start after (addLines start after.length ∅) = [] :=
    keptFrom_none fun k hle hlt => mem_addLines.mpr (.inr ⟨hle, hlt⟩)
  have hset : addLines start after.length ∅ = Finset.Ico start (start + after.length) := by
    ext k
    rw [mem_addLines, Finset.mem_Ico]
    simp
  constructor
  · intro k hk
    rw [hset, Finset.mem_Ico] at hk
    exact hk
  · rw [hnone, hset, Nat.card_Ico, List.length_nil]
    omega
  · rw [hnone]
    exact .nil_left after

theorem Minimal.cons (h : Minimal (start + 1) before after changed) (line : Line) :
    Minimal start (line :: before) (line :: after) changed := by
  have hnot : start ∉ changed := by
    intro hmem
    have := (h.bounds start hmem).1
    omega
  have hkept : keptFrom start (line :: after) changed =
      line :: keptFrom (start + 1) after changed := by
    rw [keptFrom_cons, if_neg hnot]
  constructor
  · intro k hk
    have hbounds := h.bounds k hk
    rw [List.length_cons]
    omega
  · rw [hkept, List.length_cons, List.length_cons, ← Nat.add_assoc, h.card]
  · rw [hkept]
    exact h.longest.cons line

/-- A line of the base is deleted. -/
theorem Minimal.delete (h : Minimal start before (first :: after) changed) (hne : line ≠ first)
    {t : List Line} (ht : Longest t (line :: before) after)
    (hle : t.length ≤ (keptFrom start (first :: after) changed).length) :
    Minimal start (line :: before) (first :: after) changed :=
  { h with longest := .skip_left hne h.longest ht hle }

/-- A line is inserted. -/
theorem Minimal.insert (h : Minimal (start + 1) (line :: before) after changed)
    (hne : line ≠ first) {s : List Line} (hs : Longest s before (first :: after))
    (hle : s.length ≤ (keptFrom (start + 1) after changed).length) :
    Minimal start (line :: before) (first :: after) (insert start changed) := by
  have hnot : start ∉ changed := by
    intro hmem
    have := (h.bounds start hmem).1
    omega
  have hkept : keptFrom start (first :: after) (Insert.insert start changed) =
      keptFrom (start + 1) after changed := by
    rw [keptFrom_cons, if_pos (Finset.mem_insert_self start changed)]
    apply keptFrom_congr
    intro k hk _
    rw [Finset.mem_insert]
    exact or_iff_right (by omega)
  constructor
  · intro k hk
    rw [List.length_cons]
    rcases Finset.mem_insert.mp hk with rfl | hmem
    · omega
    · have hbounds := h.bounds k hmem
      omega
  · rw [hkept, Finset.card_insert_of_notMem hnot, List.length_cons, Nat.add_right_comm, h.card]
  · rw [hkept]
    exact .skip_right hne hs h.longest hle

theorem Minimal.surround (front back : List Line)
    (h : Minimal front.length before after changed) :
    Minimal 0 (front ++ before ++ back) (front ++ after ++ back) changed := by
  have hkept : keptFrom 0 (front ++ after ++ back) changed =
      front ++ keptFrom front.length after changed ++ back := by
    rw [keptFrom_append, keptFrom_append, Nat.zero_add, Nat.zero_add, List.length_append]
    congr 2
    · apply keptFrom_all
      intro k _ hlt hmem
      have := (h.bounds k hmem).1
      omega
    · apply keptFrom_all
      intro k hle _ hmem
      have := (h.bounds k hmem).2
      omega
  constructor
  · intro k hk
    have hbounds := h.bounds k hk
    rw [List.length_append, List.length_append]
    omega
  · have hcard := h.card
    rw [hkept]
    simp only [List.length_append]
    omega
  · rw [hkept]
    exact (h.longest.append_left front).append_right back

end

/-! ## The trace -/

section

variable {before after : List Line} {start : Nat}

/-- A walk from any cell adds a minimal set for the ends of the lists from there. -/
theorem trace_minimal (fuel i j : Nat) (changed : Finset Nat) (hi : i ≤ before.length)
    (hj : j ≤ after.length) (hfuel : (before.length - i) + (after.length - j) < fuel) :
    ∃ last added, rounds (traceRound before after (dpTable before after) start) fuel
        ⟨i, j, changed⟩ = some last ∧
      Minimal (start + j) (before.drop i) (after.drop j) added ∧
      addLines (start + last.j) (after.length - last.j) last.changed = changed ∪ added := by
  induction fuel generalizing i j changed with
  | zero => omega
  | succ fuel ih =>
    by_cases hmore : i < before.length ∧ j < after.length
    · obtain ⟨hilt, hjlt⟩ := hmore
      have hround : traceRound before after (dpTable before after) start ⟨i, j, changed⟩ =
          if before[i]? = after[j]? then some ⟨i + 1, j + 1, changed⟩
          else if cell (dpTable before after) (i + 1) j ≥ cell (dpTable before after) i (j + 1) then
            some ⟨i + 1, j, changed⟩
          else some ⟨i, j + 1, insert (start + j) changed⟩ := by
        unfold traceRound
        rw [if_pos ⟨hilt, hjlt⟩]
      obtain ⟨s, hs, hscell⟩ := @cell_dpTable before after (i + 1) j hilt hj
      obtain ⟨t, ht, htcell⟩ := @cell_dpTable before after i (j + 1) hi hjlt
      simp only [hscell, htcell, List.getElem?_eq_getElem hilt, List.getElem?_eq_getElem hjlt,
        Option.some.injEq] at hround
      have hbefore : before.drop i = before[i] :: before.drop (i + 1) :=
        List.drop_eq_getElem_cons hilt
      have hafter : after.drop j = after[j] :: after.drop (j + 1) := List.drop_eq_getElem_cons hjlt
      split at hround
      · rename_i hsame
        obtain ⟨last, added, hrun, hminimal, hlines⟩ :=
          ih (i + 1) (j + 1) changed hilt hjlt (by omega)
        refine ⟨last, added, (rounds_next hround).trans hrun, ?_, hlines⟩
        rw [hbefore, hafter, hsame]
        exact hminimal.cons _
      · rename_i hne
        rw [hbefore] at ht
        rw [hafter] at hs
        split at hround
        · rename_i hle
          obtain ⟨last, added, hrun, hminimal, hlines⟩ :=
            ih (i + 1) j changed hilt hj (by omega)
          refine ⟨last, added, (rounds_next hround).trans hrun, ?_, hlines⟩
          rw [hafter] at hminimal
          rw [hbefore, hafter]
          apply hminimal.delete hne ht
          rw [hminimal.longest.length_eq hs]
          exact hle
        · rename_i hlt
          obtain ⟨last, added, hrun, hminimal, hlines⟩ :=
            ih i (j + 1) (insert (start + j) changed) hi hjlt (by omega)
          refine ⟨last, insert (start + j) added, (rounds_next hround).trans hrun, ?_, ?_⟩
          · rw [hbefore, ← Nat.add_assoc] at hminimal
            rw [hbefore, hafter]
            apply Minimal.insert hminimal hne hs
            rw [hminimal.longest.length_eq ht]
            omega
          · rw [hlines, Finset.insert_union, Finset.union_insert]
    · refine ⟨⟨i, j, changed⟩, addLines (start + j) (after.length - j) ∅, ?_, ?_, ?_⟩
      · apply rounds_done
        unfold traceRound
        rw [if_neg hmore]
      · by_cases hend : i = before.length
        · rw [hend, List.drop_length, ← List.length_drop]
          exact minimal_nil_left _ _
        · have hjend : j = after.length := by omega
          rw [hjend, List.drop_length, Nat.sub_self]
          exact minimal_nil_right _ _
      · ext k
        rw [mem_addLines, Finset.mem_union, mem_addLines]
        simp

theorem tracedLines_minimal (before after : List Line) (start : Nat) :
    Minimal start before after (tracedLines before after start) := by
  obtain ⟨last, added, hrun, hminimal, hlines⟩ := @trace_minimal before after start
    (before.length + after.length + 1) 0 0 ∅ (Nat.zero_le _) (Nat.zero_le _) (by omega)
  rw [tracedLines, hrun]
  dsimp only [Option.getD_some]
  rw [hlines, Finset.empty_union]
  exact hminimal

end

/-! ## Trimming keeps the set minimal -/

section

variable {before after : List Line}

theorem take_commonFront (before after : List Line) :
    before.take (commonFront before after) = after.take (commonFront before after) ∧
      commonFront before after ≤ before.length ∧ commonFront before after ≤ after.length := by
  induction before generalizing after with
  | nil => simp [commonFront]
  | cons line before ih =>
    cases after with
    | nil => simp [commonFront]
    | cons line' after =>
      rw [commonFront]
      split
      · rename_i hsame
        obtain ⟨htake, hbefore, hafter⟩ := ih after
        refine ⟨?_, Nat.succ_le_succ hbefore, Nat.succ_le_succ hafter⟩
        rw [List.take_succ_cons, List.take_succ_cons, htake, hsame]
      · simp

theorem trim_spec (before after : List Line) :
    ∃ front back, front.length = (trim before after).start ∧
      before = front ++ (trim before after).before ++ back ∧
      after = front ++ (trim before after).after ++ back := by
  obtain ⟨hfront, hbefore, hafter⟩ := take_commonFront before after
  obtain ⟨hback, hrestBefore, hrestAfter⟩ := take_commonFront
    (before.drop (commonFront before after)).reverse
    (after.drop (commonFront before after)).reverse
  unfold trim
  dsimp only
  generalize commonFront before after = start at *
  generalize commonFront (before.drop start).reverse (after.drop start).reverse = tail at *
  rw [List.length_reverse] at hrestBefore hrestAfter
  rw [List.take_reverse, List.take_reverse] at hback
  refine ⟨before.take start, (before.drop start).drop ((before.drop start).length - tail), ?_, ?_,
    ?_⟩
  · rw [List.length_take]
    omega
  · rw [List.append_assoc, List.take_append_drop, List.take_append_drop]
  · rw [List.reverse_injective hback, hfront, List.append_assoc, List.take_append_drop,
      List.take_append_drop]

theorem changedLines_minimal (before after : List Line)
    (hcap : (trim before after).before.length * (trim before after).after.length ≤ maxLcsCells) :
    Minimal 0 before after (changedLines before after) := by
  obtain ⟨front, back, hstart, hbefore, hafter⟩ := trim_spec before after
  have hmiddle : Minimal front.length (trim before after).before (trim before after).after
      (changedLines before after) := by
    rw [hstart]
    unfold changedLines
    dsimp only
    split
    · rename_i hempty
      rw [List.length_eq_zero_iff] at hempty
      rw [hempty]
      exact minimal_nil_right _ _
    · split
      · rename_i hempty
        rw [List.length_eq_zero_iff] at hempty
        rw [hempty]
        exact minimal_nil_left _ _
      · rw [if_neg (by omega)]
        exact tracedLines_minimal _ _ _
  have hwhole := hmiddle.surround front back
  rwa [← hbefore, ← hafter] at hwhole

end

/-! ## Line endings -/

def withLineFeeds : List UInt16 → List UInt16
  | [] => []
  | unit :: rest =>
      match rest with
      | [] => [unit]
      | next :: after =>
          if unit = carriageReturn ∧ next = lineFeed then lineFeed :: withLineFeeds after
          else unit :: withLineFeeds (next :: after)

theorem splitOn_lineFeed (rest : List UInt16) :
    (lineFeed :: rest).splitOn lineFeed = [] :: rest.splitOn lineFeed := by
  rw [List.splitOn, List.splitOnP_cons_eq_if_modifyHead, if_pos (by simp)]
  rfl

theorem splitOn_of_ne {unit : UInt16} (hne : unit ≠ lineFeed) (rest : List UInt16) :
    (unit :: rest).splitOn lineFeed = (rest.splitOn lineFeed).modifyHead (unit :: ·) := by
  rw [List.splitOn, List.splitOnP_cons_eq_if_modifyHead, if_neg (by simpa using hne)]
  rfl

theorem splitLines_eq (text : List UInt16) :
    splitLines text = (withLineFeeds text).splitOn lineFeed := by
  induction text using splitLines.induct with
  | case1 => rfl
  | case2 rest ih =>
    cases rest with
    | nil => rfl
    | cons next after =>
      have hne : ¬ (lineFeed = carriageReturn ∧ next = lineFeed) := fun h => absurd h.1 (by decide)
      rw [splitLines, if_pos rfl, ih, withLineFeeds, if_neg hne, splitOn_lineFeed]
  | case3 unit hne =>
    rw [splitLines, if_neg hne, withLineFeeds, splitOn_of_ne hne]
    rfl
  | case4 unit hne next after hbreak ih =>
    rw [splitLines, if_neg hne, if_pos hbreak, ih, withLineFeeds, if_pos hbreak, splitOn_lineFeed]
  | case5 unit hne next after hbreak ih =>
    rw [splitLines, if_neg hne, if_neg hbreak, ih, withLineFeeds, if_neg hbreak, splitOn_of_ne hne]

theorem commonFront_self (lines : List Line) : commonFront lines lines = lines.length := by
  induction lines with
  | nil => rfl
  | cons line lines ih => rw [commonFront, if_pos rfl, ih, List.length_cons]

theorem changedLines_self (lines : List Line) : changedLines lines lines = ∅ := by
  unfold changedLines trim
  dsimp only
  rw [commonFront_self, List.drop_length, if_pos (by rfl)]

theorem changedLinesBetween_eq (base current : List UInt16) :
    changedLinesBetween base current =
      changedLines (splitLines (withoutByteOrderMark base))
        (splitLines (withoutByteOrderMark current)) := by
  unfold changedLinesBetween
  dsimp only
  split
  · rename_i hsame
    rw [hsame, changedLines_self]
  · rfl

/-! ## The changed lines of two texts -/

section

variable {before after : List Line} {changed : Finset Nat}

theorem Minimal.eq_empty_iff (h : Minimal 0 before after changed) :
    changed = ∅ ↔ after.Sublist before := by
  have hcard := h.card
  rw [← h.longest.eq_right_iff]
  constructor
  · rintro rfl
    exact keptFrom_all fun k _ _ => Finset.notMem_empty k
  · intro hkept
    rw [hkept] at hcard
    exact Finset.card_eq_zero.mp (by omega)

theorem Minimal.not_sublist (h : Minimal 0 before after changed) {line : Nat}
    (hline : line ∈ changed) : ¬ (keptFrom 0 after (changed.erase line)).Sublist before := by
  intro hsub
  obtain ⟨hle, hlt⟩ := h.bounds line hline
  have hlonger := keptFrom_erase hline hle hlt
  have hmax := h.longest.max _ hsub (keptFrom_sublist 0 after _)
  omega

theorem Minimal.card_eq {changed' : Finset Nat} (h : Minimal 0 before after changed)
    (h' : Minimal 0 before after changed') : changed.card = changed'.card := by
  have hcard := h.card
  have hcard' := h'.card
  have hlength := h.longest.length_eq h'.longest
  omega

end

/-- Without the marked lines the text is a longest part of its committed version, and there
are as many marked lines as the walk over the dynamic programme marks. -/
structure Marks (before after : List Line) (changed : Finset Nat) : Prop where
  kept : (keptFrom 0 after changed).Sublist before
  longest : ∀ common : List Line, common.Sublist before → common.Sublist after →
    common.length ≤ (keptFrom 0 after changed).length
  empty_iff : changed = ∅ ↔ after.Sublist before
  needed : ∀ line ∈ changed, line < after.length ∧
    ¬ (keptFrom 0 after (changed.erase line)).Sublist before
  card : changed.card = (tracedLines before after 0).card

theorem changedLinesBetween_minimal (base current : List UInt16) :
    ((trim (splitLines (withoutByteOrderMark base))
          (splitLines (withoutByteOrderMark current))).before.length *
        (trim (splitLines (withoutByteOrderMark base))
          (splitLines (withoutByteOrderMark current))).after.length ≤ maxLcsCells →
      Marks (splitLines (withoutByteOrderMark base)) (splitLines (withoutByteOrderMark current))
        (changedLinesBetween base current)) ∧
    (withLineFeeds (withoutByteOrderMark base) = withLineFeeds (withoutByteOrderMark current) →
      changedLinesBetween base current = ∅) := by
  rw [changedLinesBetween_eq base current]
  constructor
  · intro hcap
    have hminimal := changedLines_minimal (splitLines (withoutByteOrderMark base))
      (splitLines (withoutByteOrderMark current)) hcap
    refine ⟨hminimal.longest.left, hminimal.longest.max, hminimal.eq_empty_iff, ?_, ?_⟩
    · intro line hline
      have hbounds := (hminimal.bounds line hline).2
      exact ⟨by omega, hminimal.not_sublist hline⟩
    · exact hminimal.card_eq (tracedLines_minimal _ _ 0)
  · intro htext
    have hlines : splitLines (withoutByteOrderMark base) =
        splitLines (withoutByteOrderMark current) := by
      rw [splitLines_eq, splitLines_eq (withoutByteOrderMark current), htext]
    rw [hlines, changedLines_self]

/-- `a`, `b` against `a`, CR LF, `x`, CR LF, `b`: one line is inserted. -/
theorem changedLinesBetween_minimal_at_inserted_line :
    changedLinesBetween [97, 10, 98] [97, 13, 10, 120, 13, 10, 98] = {1} ∧
      ∀ common : List Line, common.Sublist [[97], [98]] → common.Sublist [[97], [120], [98]] →
        common.length ≤ 2 := by
  obtain ⟨hminimal, -⟩ :=
    changedLinesBetween_minimal [97, 10, 98] [97, 13, 10, 120, 13, 10, 98]
  exact ⟨by decide, (hminimal (by decide)).longest⟩

end ImportLens.Extension.GitDiff
