import ImportLens.Extension.ShiftedText
import Mathlib.Data.List.Induction

/-!
# Shifted imports

The statement of an import, its specifier and the end of its quote move one by one, with
different stickiness.  They stay together unless text is inserted at a point where one
of them sticks to what is before it and another to what is behind.
-/

namespace ImportLens.Extension

/-- The statement holds the specifier and the end of the quote. -/
structure DetectedImport.Contained (detected : DetectedImport) : Prop where
  statement : comparePositions detected.statementRange.start detected.statementRange.finish ≤ 0
  specifierStart :
    comparePositions detected.statementRange.start detected.specifierRange.start ≤ 0
  specifier : comparePositions detected.specifierRange.start detected.specifierRange.finish ≤ 0
  specifierFinish :
    comparePositions detected.specifierRange.finish detected.statementRange.finish ≤ 0
  quoteStart : comparePositions detected.statementRange.start detected.quoteEnd ≤ 0
  quoteFinish : comparePositions detected.quoteEnd detected.statementRange.finish ≤ 0

structure DetectedImport.WellFormed (detected : DetectedImport) : Prop
    extends detected.Contained where
  line_eq : detected.line = detected.statementRange.start.line

/-- An edit that puts text at a position and replaces nothing. -/
def SourceEdit.InsertsAt (edit : SourceEdit) (position : SourcePosition) : Prop :=
  edit.range.start = position ∧ edit.range.finish = position ∧ edit.text ≠ []

/-- Text in front of a statement whose quote ends there, or behind one whose empty
specifier stands there. -/
def SourceEdit.Parts (edit : SourceEdit) (detected : DetectedImport) : Prop :=
  edit.InsertsAt detected.statementRange.start ∧
      detected.quoteEnd = detected.statementRange.start ∨
    edit.InsertsAt detected.statementRange.finish ∧
      detected.specifierRange.start = detected.statementRange.finish ∧
      detected.statementRange.start ≠ detected.statementRange.finish

/-! ## The two stickinesses -/

section

variable {edit : SourceEdit} {p q : SourcePosition}

theorem comparePositions_self (p : SourcePosition) : comparePositions p p = 0 :=
  comparePositions_eq_zero.mpr rfl

theorem lt_of_le_of_ne_position (h : comparePositions p q ≤ 0) (hne : p ≠ q) :
    comparePositions p q < 0 := by
  have hzero : comparePositions p q ≠ 0 := fun hzero => hne (comparePositions_eq_zero.mp hzero)
  omega

theorem eq_of_le_of_le (h : comparePositions p q ≤ 0) (h' : comparePositions q p ≤ 0) : p = q := by
  apply comparePositions_eq_zero.mp
  rw [comparePositions_swap] at h'
  omega

theorem shiftPosition_start_of_inserts (h : edit.InsertsAt p) :
    shiftPosition p edit .start = insertedTextEnd edit := by
  obtain ⟨hstart, hfinish, -⟩ := h
  rw [shiftPosition_eq, if_pos (.inr ⟨by rw [hfinish, comparePositions_self], .inl rfl⟩)]
  have hafter := positionAfterEdit_advance edit []
  rw [advance, List.foldl_nil, hfinish] at hafter
  exact hafter

theorem shiftPosition_finish_of_point (hstart : edit.range.start = p)
    (hfinish : edit.range.finish = p) : shiftPosition p edit .finish = p := by
  rw [shiftPosition_eq, hstart, hfinish, comparePositions_self, if_neg (by simp),
    if_pos (.inr ⟨rfl, rfl⟩)]

theorem inserts_parts (h : edit.InsertsAt p) :
    0 < comparePositions (shiftPosition p edit .start) (shiftPosition p edit .finish) := by
  obtain ⟨hstart, hfinish, htext⟩ := h
  rw [shiftPosition_start_of_inserts ⟨hstart, hfinish, htext⟩,
    shiftPosition_finish_of_point hstart hfinish, comparePositions_swap p,
      insertedTextEnd_eq, hstart]
  have hlt : comparePositions p (advance p edit.text) < 0 := lt_advance htext
  omega

theorem shiftPosition_of_nothing (hstart : edit.range.start = p) (hfinish : edit.range.finish = p)
    (htext : edit.text = []) : shiftPosition p edit .start = p := by
  rw [shiftPosition_eq, if_pos (.inr ⟨by rw [hfinish, comparePositions_self], .inl rfl⟩)]
  have hafter := positionAfterEdit_advance edit []
  rw [advance, List.foldl_nil, hfinish] at hafter
  rw [hafter, advance, List.foldl_nil, insertedTextEnd_eq, htext, hstart]
  rfl

variable (hedit : comparePositions edit.range.start edit.range.finish ≤ 0)

include hedit

theorem shiftPosition_start_le_finish (hpoint : ¬ (edit.range.start = p ∧ edit.range.finish = p)) :
    comparePositions (shiftPosition p edit .start) (shiftPosition p edit .finish) ≤ 0 := by
  have hend := start_le_insertedTextEnd edit
  have hs := shiftPosition_cases p edit .start
  have hf := shiftPosition_cases p edit .finish
  generalize shiftPosition p edit .start = p' at hs ⊢
  generalize shiftPosition p edit .finish = q' at hf ⊢
  cases hs with
  | past hs hsticks =>
    cases hf with
    | past => exact Int.le_of_eq (comparePositions_self _)
    | before hf =>
      exfalso
      have hfront : comparePositions p edit.range.start ≤ 0 := by omega
      have hstart : edit.range.start = p := by
        apply eq_of_le_of_le _ hfront
        rw [comparePositions_le_zero] at *
        omega
      apply hpoint ⟨hstart, eq_of_le_of_le hs ?_⟩
      rw [← hstart]
      exact hedit
    | toStart _ _ hsticks => cases hsticks
    | toEnd hf hfinish =>
      exfalso
      rw [comparePositions_swap] at hfinish
      omega
  | before hs =>
    cases hf with
    | past hf =>
      have hfront : comparePositions p edit.range.start ≤ 0 := by omega
      have hpast := insertedTextEnd_le_after hf
      rw [comparePositions_le_zero] at *
      omega
    | before => exact Int.le_of_eq (comparePositions_self _)
    | toStart _ _ hsticks => cases hsticks
    | toEnd hf hfinish =>
      have hfront : comparePositions p edit.range.start ≤ 0 := by omega
      rw [comparePositions_le_zero] at *
      omega
  | toStart hs hfinish =>
    cases hf with
    | past hf =>
      exfalso
      rw [comparePositions_swap] at hf
      omega
    | before => exact hs
    | toStart _ _ hsticks => cases hsticks
    | toEnd => exact hend
  | toEnd _ _ hsticks => cases hsticks

theorem shiftPosition_start_le (h : comparePositions p q ≤ 0)
    (hinserts : ¬ (p = q ∧ edit.InsertsAt q)) :
    comparePositions (shiftPosition p edit .start) (shiftPosition q edit .finish) ≤ 0 := by
  by_cases hpoint : edit.range.start = q ∧ edit.range.finish = q
  · obtain ⟨hstart, hfinish⟩ := hpoint
    rw [shiftPosition_finish_of_point hstart hfinish]
    by_cases heq : p = q
    · have htext : edit.text = [] := by
        by_contra hne
        exact hinserts ⟨heq, hstart, hfinish, hne⟩
      rw [heq, shiftPosition_of_nothing hstart hfinish htext]
      exact Int.le_of_eq (comparePositions_self _)
    · have hlt := lt_of_le_of_ne_position h heq
      have hswap := comparePositions_swap p q
      rw [shiftPosition_eq, hstart, hfinish, if_neg (by omega), if_pos (.inl hlt)]
      exact h
  · have hmono := shiftPosition_mono hedit h .start
    have hsame := shiftPosition_start_le_finish hedit hpoint
    rw [comparePositions_le_zero] at *
    omega

end

/-! ## One edit -/

section

variable {edit : SourceEdit} {range shifted : SourceRange}

/-- An edit at a point replaces no range. -/
theorem shiftRange_of_inserts {position : SourcePosition} (h : edit.InsertsAt position)
    (range : SourceRange) :
    shiftRange range edit = some
      (if comparePositions range.start range.finish = 0 then
        ⟨shiftPosition range.start edit .start, shiftPosition range.start edit .start⟩
      else ⟨shiftPosition range.start edit .start, shiftPosition range.finish edit .finish⟩) := by
  obtain ⟨hstart, hfinish, -⟩ := h
  unfold shiftRange
  rw [if_neg (by rw [hstart, hfinish, comparePositions_self]; omega)]
  split
  · rfl
  · rfl

theorem shiftRange_start (h : shiftRange range edit = some shifted) :
    shifted.start = shiftPosition range.start edit .start := by
  unfold shiftRange at h
  split at h
  · cases h
  · split at h
    · cases h
      rfl
    · cases h
      rfl

theorem shiftRange_finish (h : shiftRange range edit = some shifted) :
    shifted.finish =
      if comparePositions range.start range.finish = 0 then shiftPosition range.start edit .start
      else shiftPosition range.finish edit .finish := by
  unfold shiftRange at h
  split at h
  · cases h
  · split at h
    · rename_i hempty
      cases h
      rw [if_pos hempty]
    · rename_i hne
      cases h
      rw [if_neg hne]

theorem shiftPosition_of_after {position : SourcePosition} (stickiness : Stickiness)
    (h : comparePositions edit.range.finish position < 0) :
    shiftPosition position edit stickiness = positionAfterEdit position edit := by
  have hswap := comparePositions_swap position edit.range.finish
  rw [shiftPosition_eq, if_pos (.inl (by omega))]

theorem not_contained_of_parts {detected next : DetectedImport} (hcontained : detected.Contained)
    (h : shiftDetected detected edit = some next) (hparts : edit.Parts detected) :
    ¬ next.Contained := by
  obtain ⟨statement, hstatement, rfl⟩ := Option.map_eq_some_iff.mp h
  intro hnext
  rcases hparts with ⟨hinserts, hquote⟩ | ⟨hinserts, hspecifier, hne⟩
  · have hgt := inserts_parts hinserts
    have hle := hnext.quoteStart
    dsimp only at hle
    rw [shiftRange_start hstatement, hquote] at hle
    omega
  · have hgt := inserts_parts hinserts
    have hempty : detected.specifierRange.start = detected.specifierRange.finish := by
      apply eq_of_le_of_le hcontained.specifier
      rw [hspecifier]
      exact hcontained.specifierFinish
    have hle := hnext.specifierFinish
    dsimp only at hle
    rw [shiftRange_of_inserts hinserts, Option.getD_some,
      if_pos (comparePositions_eq_zero.mpr hempty),
      shiftRange_finish hstatement, if_neg (fun hzero => hne (comparePositions_eq_zero.mp hzero)),
      hspecifier] at hle
    dsimp only at hle
    omega

variable (hedit : comparePositions edit.range.start edit.range.finish ≤ 0)

include hedit

theorem shiftPosition_of_before {position : SourcePosition} (stickiness : Stickiness)
    (h : comparePositions position edit.range.start < 0) :
    shiftPosition position edit stickiness = position := by
  have hfinish : comparePositions position edit.range.finish < 0 := by
    rw [comparePositions_lt_zero] at h ⊢
    rw [comparePositions_le_zero] at hedit
    omega
  rw [shiftPosition_eq, if_neg (by omega), if_pos (.inl h)]

theorem shiftRange_ordered (hrange : comparePositions range.start range.finish ≤ 0)
    (h : shiftRange range edit = some shifted) :
    comparePositions shifted.start shifted.finish ≤ 0 := by
  rw [shiftRange_start h, shiftRange_finish h]
  split
  · exact Int.le_of_eq (comparePositions_self _)
  · rename_i hne
    apply shiftPosition_start_le hedit hrange
    rintro ⟨heq, -⟩
    exact hne (comparePositions_eq_zero.mpr heq)

theorem shiftPosition_point (hrange : range.start = range.finish)
    (hinserts : ¬ edit.InsertsAt range.start) (h : shiftRange range edit = some shifted) :
    shiftPosition range.start edit .finish = shiftPosition range.start edit .start := by
  have hcovers : ¬ (comparePositions edit.range.start range.start ≤ 0 ∧
      comparePositions range.start edit.range.finish ≤ 0 ∧
      comparePositions edit.range.start edit.range.finish < 0) := by
    intro hcovers
    unfold shiftRange at h
    rw [if_pos (by rw [← hrange]; exact hcovers)] at h
    cases h
  by_cases hpoint : edit.range.start = range.start ∧ edit.range.finish = range.start
  · obtain ⟨hstart, hfinish⟩ := hpoint
    have htext : edit.text = [] := by
      by_contra hne
      exact hinserts ⟨hstart, hfinish, hne⟩
    rw [shiftPosition_of_nothing hstart hfinish htext, shiftPosition_finish_of_point hstart hfinish]
  · have happart : comparePositions range.start edit.range.start < 0 ∨
        comparePositions edit.range.finish range.start < 0 := by
      by_contra hinside
      apply hpoint
      have hswap := comparePositions_swap range.start edit.range.start
      have hswap' := comparePositions_swap range.start edit.range.finish
      have hzero : comparePositions edit.range.start edit.range.finish = 0 := by omega
      rw [comparePositions_eq_zero] at hzero
      rw [← hzero] at hswap' hinside ⊢
      have heq : edit.range.start = range.start := eq_of_le_of_le (by omega) (by omega)
      exact ⟨heq, heq⟩
    rcases happart with hbefore | hafter
    · rw [shiftPosition_of_before hedit .finish hbefore,
        shiftPosition_of_before hedit .start hbefore]
    · rw [shiftPosition_of_after .finish hafter, shiftPosition_of_after .start hafter]

variable {detected next : DetectedImport}

theorem contained_of_not_parts (hcontained : detected.Contained)
    (h : shiftDetected detected edit = some next) (hparts : ¬ edit.Parts detected) :
    next.Contained := by
  obtain ⟨statement, hstatement, rfl⟩ := Option.map_eq_some_iff.mp h
  obtain ⟨hordered, hspecifierStart, hspecifier, hspecifierFinish, hquoteStart, hquoteFinish⟩ :=
    hcontained
  have hstart := shiftRange_start hstatement
  have hfinish := shiftRange_finish hstatement
  have hshifted := shiftRange_ordered hedit hordered hstatement
  have hquote : comparePositions statement.start
      (shiftPosition detected.quoteEnd edit .finish) ≤ 0 := by
    rw [hstart]
    apply shiftPosition_start_le hedit hquoteStart
    rintro ⟨heq, hinserts⟩
    exact hparts (.inl ⟨heq ▸ hinserts, heq.symm⟩)
  have hquote' : comparePositions (shiftPosition detected.quoteEnd edit .finish)
      statement.finish ≤ 0 := by
    rw [hfinish]
    split
    · rename_i hempty
      rw [comparePositions_eq_zero] at hempty
      have heq : detected.statementRange.start = detected.quoteEnd := by
        apply eq_of_le_of_le hquoteStart
        rw [hempty]
        exact hquoteFinish
      rw [← heq, shiftPosition_point hedit hempty
        (fun hinserts => hparts (.inl ⟨hinserts, heq.symm⟩)) hstatement]
      exact Int.le_of_eq (comparePositions_self _)
    · exact shiftPosition_mono hedit hquoteFinish .finish
  cases hspecifierRange : shiftRange detected.specifierRange edit with
  | none =>
    refine ⟨hshifted, ?_, ?_, ?_, hquote, hquote'⟩
    · exact Int.le_of_eq (comparePositions_self _)
    · exact Int.le_of_eq (comparePositions_self _)
    · exact hshifted
  | some specifier =>
    have hsstart := shiftRange_start hspecifierRange
    have hsfinish := shiftRange_finish hspecifierRange
    refine ⟨hshifted, ?_, ?_, ?_, hquote, hquote'⟩
    · rw [Option.getD_some, hstart, hsstart]
      exact shiftPosition_mono hedit hspecifierStart .start
    · rw [Option.getD_some]
      exact shiftRange_ordered hedit hspecifier hspecifierRange
    · rw [Option.getD_some, hfinish, hsfinish]
      simp only [comparePositions_eq_zero]
      split
      · rename_i hempty
        split
        · rename_i hpoint
          have heq : detected.specifierRange.start = detected.statementRange.start := by
            apply eq_of_le_of_le _ hspecifierStart
            rw [hempty, hpoint]
            exact hspecifierFinish
          rw [heq]
          exact Int.le_of_eq (comparePositions_self _)
        · rename_i hne
          apply shiftPosition_start_le hedit (hempty ▸ hspecifierFinish)
          rintro ⟨heq, hinserts⟩
          exact hparts (.inr ⟨hinserts, heq, hne⟩)
      · rename_i hne
        rw [if_neg]
        · exact shiftPosition_mono hedit hspecifierFinish .finish
        · intro hpoint
          apply hne
          apply eq_of_le_of_le hspecifier
          rw [comparePositions_le_zero] at *
          rw [← hpoint] at hspecifierFinish
          omega

theorem shiftDetected_contained (hcontained : detected.Contained)
    (h : shiftDetected detected edit = some next) :
    next.Contained ↔ ¬ edit.Parts detected := by
  constructor
  · exact fun hnext hparts => not_contained_of_parts hcontained h hparts hnext
  · exact contained_of_not_parts hedit hcontained h

end

/-! ## Any edits -/

section

variable {detected shifted : DetectedImport} {edit : SourceEdit} {edits : List SourceEdit}

theorem shiftDetected_line (h : shiftDetected detected edit = some shifted) :
    shifted.line = shifted.statementRange.start.line := by
  obtain ⟨statement, -, rfl⟩ := Option.map_eq_some_iff.mp h
  rfl

theorem shiftDetectedImport_concat (detected : DetectedImport) (edits : List SourceEdit)
    (edit : SourceEdit) :
    shiftDetectedImport detected (edits ++ [edit]) =
      (shiftDetectedImport detected edits).bind fun reached => shiftDetected reached edit := by
  have hone : ∀ reached, shiftDetectedImport reached [edit] = shiftDetected reached edit := by
    intro reached
    rw [shiftDetectedImport, List.foldlM_cons]
    cases shiftDetected reached edit <;> rfl
  rw [shiftDetectedImport_append]
  simp only [hone]

theorem shiftDetected_of_parts (h : edit.Parts detected) :
    ∃ next, shiftDetected detected edit = some next := by
  have hinserts : ∃ position, edit.InsertsAt position := by
    rcases h with ⟨hinserts, -⟩ | ⟨hinserts, -⟩
    · exact ⟨_, hinserts⟩
    · exact ⟨_, hinserts⟩
  obtain ⟨position, hinserts⟩ := hinserts
  apply Option.isSome_iff_exists.mp
  rw [shiftDetected, shiftRange_of_inserts hinserts detected.statementRange]
  rfl

/-- A run whose edits part nothing keeps the import together. -/
theorem shiftDetectedImport_contained (hcontained : detected.Contained)
    (hedits : ∀ edit ∈ edits, comparePositions edit.range.start edit.range.finish ≤ 0)
    (hkeeps : ∀ before edit after, edits = before ++ edit :: after →
      ∀ reached, shiftDetectedImport detected before = some reached → ¬ edit.Parts reached)
    (h : shiftDetectedImport detected edits = some shifted) : shifted.Contained := by
  induction edits using List.reverseRecOn generalizing shifted with
  | nil =>
    cases h
    exact hcontained
  | append_singleton edits edit ih =>
    rw [shiftDetectedImport_concat] at h
    obtain ⟨reached, hreached, hstep⟩ := Option.bind_eq_some_iff.mp h
    have hbefore : reached.Contained := by
      apply ih (fun e he => hedits e (List.mem_append_left _ he)) _ hreached
      intro before e after heq
      apply hkeeps before e (after ++ [edit])
      rw [heq, List.append_assoc, List.cons_append]
    apply (shiftDetected_contained (hedits edit (by simp)) hbefore hstep).mpr
    exact hkeeps edits edit [] rfl reached hreached

end

theorem shiftDetectedImport_wellFormed_iff {detected : DetectedImport} {edits : List SourceEdit}
    (hcontained : detected.Contained)
    (hedits : ∀ edit ∈ edits, comparePositions edit.range.start edit.range.finish ≤ 0) :
    (∀ before after, edits = before ++ after → before ≠ [] →
      ∀ shifted, shiftDetectedImport detected before = some shifted → shifted.WellFormed) ↔
    ∀ before edit after, edits = before ++ edit :: after →
      ∀ reached, shiftDetectedImport detected before = some reached → ¬ edit.Parts reached := by
  constructor
  · intro hruns before edit after heq reached hreached hparts
    have hedit : comparePositions edit.range.start edit.range.finish ≤ 0 :=
      hedits edit (by rw [heq]; simp)
    have hbefore : reached.Contained := by
      by_cases hnil : before = []
      · rw [hnil] at hreached
        cases hreached
        exact hcontained
      · exact (hruns before _ heq hnil reached hreached).toContained
    obtain ⟨next, hnext⟩ := shiftDetected_of_parts hparts
    have hrun : shiftDetectedImport detected (before ++ [edit]) = some next := by
      rw [shiftDetectedImport_concat, hreached]
      exact hnext
    have hwell := hruns (before ++ [edit]) after (by rw [heq]; simp) (by simp) next hrun
    exact (shiftDetected_contained hedit hbefore hnext).mp hwell.toContained hparts
  · intro hkeeps before after heq hne shifted hshifted
    constructor
    · apply shiftDetectedImport_contained hcontained _ _ hshifted
      · exact fun edit hedit => hedits edit (by rw [heq]; exact List.mem_append_left _ hedit)
      · intro first edit rest hsplit
        apply hkeeps first edit (rest ++ after)
        rw [heq, hsplit, List.append_assoc, List.cons_append]
    · obtain ⟨first, last, rfl⟩ := (List.eq_nil_or_concat' before).resolve_left hne
      rw [shiftDetectedImport_concat] at hshifted
      obtain ⟨reached, -, hstep⟩ := Option.bind_eq_some_iff.mp hshifted
      exact shiftDetected_line hstep

/-- `import a from "a";` on a line. -/
def importOnLine (line : Int) : DetectedImport where
  specifier := "a"
  packageName := "a"
  named := []
  importKind := .defaultExport
  importSyntax := .staticImport
  runtime := .component
  line := line
  quoteEnd := ⟨line, 17⟩
  specifierRange := ⟨⟨line, 14⟩, ⟨line, 17⟩⟩
  statementRange := ⟨⟨line, 0⟩, ⟨line, 18⟩⟩

/-- A line is put above the import. -/
theorem line_above_keeps_import_wellFormed :
    ∃ shifted, shiftDetectedImport (importOnLine 1) [⟨⟨⟨0, 0⟩, ⟨0, 0⟩⟩, [10]⟩] = some shifted ∧
      shifted.WellFormed := by
  have hcontained : (importOnLine 1).Contained := ⟨by decide, by decide, by decide, by decide,
    by decide, by decide⟩
  have hkeeps : ∀ before edit after, [⟨⟨⟨0, 0⟩, ⟨0, 0⟩⟩, [10]⟩] = before ++ edit :: after →
      ∀ reached, shiftDetectedImport (importOnLine 1) before = some reached →
        ¬ edit.Parts reached := by
    intro before edit after heq reached hreached hparts
    cases before with
    | nil =>
      cases heq
      cases hreached
      rcases hparts with ⟨⟨hstart, -⟩, -⟩ | ⟨⟨hstart, -⟩, -⟩
      · exact absurd hstart (by decide)
      · exact absurd hstart (by decide)
    | cons first rest => simp at heq
  exact ⟨_, rfl, (shiftDetectedImport_wellFormed_iff hcontained (by decide)).mpr hkeeps
    [⟨⟨⟨0, 0⟩, ⟨0, 0⟩⟩, [10]⟩] [] rfl (by simp) _ rfl⟩

/-- All of the import but its semicolon is deleted, and a letter put in front of that. -/
theorem retyped_import_leaves_quoteEnd :
    ∃ shifted, shiftDetectedImport (importOnLine 0)
        [⟨⟨⟨0, 0⟩, ⟨0, 17⟩⟩, []⟩, ⟨⟨⟨0, 0⟩, ⟨0, 0⟩⟩, [120]⟩] = some shifted ∧
      (importOnLine 0).Contained ∧
      comparePositions (importOnLine 0).statementRange.start
        (importOnLine 0).statementRange.finish < 0 ∧
      shifted.statementRange.start = ⟨0, 1⟩ ∧ shifted.quoteEnd = ⟨0, 0⟩ ∧ ¬ shifted.WellFormed := by
  refine ⟨_, rfl, ⟨by decide, by decide, by decide, by decide, by decide, by decide⟩, by decide,
    by decide, by decide, ?_⟩
  intro hwell
  exact absurd hwell.quoteStart (by decide)

end ImportLens.Extension
