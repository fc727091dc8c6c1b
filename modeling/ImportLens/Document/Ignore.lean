import ImportLens.Support.Glob
import ImportLens.Support.MemoTable
import ImportLens.Support.Bytes
import Mathlib.Data.List.DropRight

/-!
# Ignore rules

The glob matcher of `document/ignore.rs` over the bytes of a pattern and a value:
a recursion on two positions that writes every result down in a table of its own.
Indexing outside the table or the pattern fails.
-/

namespace ImportLens.Document

open ImportLens.Support ImportLens.Support.Glob

def star : UInt8 := byteOf '*'

def slash : UInt8 := byteOf '/'

def backslash : UInt8 := byteOf '\\'

/-! ## The matcher -/

def globMatchesAt (pattern value : List UInt8) (patternIndex valueIndex : Nat) : Memo Bool Bool :=
  Memo.memoize patternIndex valueIndex <|
    if patternIndex = pattern.length then pure (valueIndex == value.length)
    else if hrange : patternIndex < pattern.length then
      if pattern[patternIndex] = star then
        if pattern[patternIndex + 1]? = some star then
          Memo.or (globMatchesAt pattern value (patternIndex + 2) valueIndex)
            (if valueIndex < value.length then
              globMatchesAt pattern value patternIndex (valueIndex + 1)
            else pure false)
        else
          Memo.or (globMatchesAt pattern value (patternIndex + 1) valueIndex)
            (if valueIndex < value.length ∧ value[valueIndex]? ≠ some slash then
              globMatchesAt pattern value patternIndex (valueIndex + 1)
            else pure false)
      else if valueIndex < value.length ∧ value[valueIndex]? = some pattern[patternIndex] then
        globMatchesAt pattern value (patternIndex + 1) (valueIndex + 1)
      else pure false
    else failure
termination_by (pattern.length - patternIndex) + (value.length - valueIndex)
decreasing_by all_goals grind

/-- The recursion of `glob_matches_at` without its table. -/
def globMatchesPlain (pattern value : List UInt8) (patternIndex valueIndex : Nat) : Bool :=
  if patternIndex = pattern.length then valueIndex == value.length
  else if hrange : patternIndex < pattern.length then
    if pattern[patternIndex] = star then
      if pattern[patternIndex + 1]? = some star then
        globMatchesPlain pattern value (patternIndex + 2) valueIndex ||
          (if valueIndex < value.length then
            globMatchesPlain pattern value patternIndex (valueIndex + 1)
          else false)
      else
        globMatchesPlain pattern value (patternIndex + 1) valueIndex ||
          (if valueIndex < value.length ∧ value[valueIndex]? ≠ some slash then
            globMatchesPlain pattern value patternIndex (valueIndex + 1)
          else false)
    else if valueIndex < value.length ∧ value[valueIndex]? = some pattern[patternIndex] then
      globMatchesPlain pattern value (patternIndex + 1) (valueIndex + 1)
    else false
  else false
termination_by (pattern.length - patternIndex) + (value.length - valueIndex)
decreasing_by all_goals grind

/-- `glob_matches_exact`; `none` is an index out of range. -/
def globMatchesExact (pattern value : List UInt8) : Option Bool :=
  (globMatchesAt pattern value 0 0 (.new (pattern.length + 1) (value.length + 1))).map Prod.fst

def normalizePath (value : List UInt8) : List UInt8 :=
  value.map fun byte => if byte = backslash then slash else byte

def suffixesAfterSlashes : List UInt8 → List (List UInt8)
  | [] => []
  | byte :: rest =>
      if byte = slash then rest :: suffixesAfterSlashes rest else suffixesAfterSlashes rest

def globMatchesPath (pattern filePath baseDirectory : List UInt8) : Option Bool :=
  let normalizedPattern := normalizePath pattern
  let normalizedPath := normalizePath filePath
  match [slash].isPrefixOf? normalizedPattern with
  | some anchored =>
      let base := (normalizePath baseDirectory).rdropWhile (· == slash)
      match (base.isPrefixOf? normalizedPath).bind ([slash].isPrefixOf? ·) with
      | some relative => globMatchesExact anchored relative
      | none => some false
  | none =>
      (globMatchesExact normalizedPattern normalizedPath).bind fun whole =>
        if whole then some true
        else (suffixesAfterSlashes normalizedPath).anyM (globMatchesExact normalizedPattern)

/-! ## What a pattern means -/

def tokenize : List UInt8 → List (Token UInt8)
  | [] => []
  | [byte] => [if byte = star then .segment else .literal byte]
  | byte :: next :: rest =>
      if byte = star then
        if next = star then .anything :: tokenize rest else .segment :: tokenize (next :: rest)
      else .literal byte :: tokenize (next :: rest)

example : tokenize (ascii "***a") = [.anything, .segment, .literal (byteOf 'a')] := by decide

theorem tokenize_literal {byte : UInt8} (h : byte ≠ star) (rest : List UInt8) :
    tokenize (byte :: rest) = .literal byte :: tokenize rest := by
  cases rest with
  | nil => simp [tokenize, h]
  | cons next rest => simp [tokenize, h]

theorem tokenize_segment {rest : List UInt8} (h : rest.head? ≠ some star) :
    tokenize (star :: rest) = .segment :: tokenize rest := by
  cases rest with
  | nil => simp [tokenize]
  | cons next rest =>
      have hnext : next ≠ star := fun heq => h (by rw [heq]; rfl)
      simp [tokenize, hnext]

theorem tokenize_anything (rest : List UInt8) :
    tokenize (star :: star :: rest) = .anything :: tokenize rest := by
  simp [tokenize]

/-- A pattern matches a value by its tokens. -/
def GlobMatches (pattern value : List UInt8) : Prop := Matches slash (tokenize pattern) value

section

variable {pattern value : List UInt8} {patternIndex valueIndex : Nat} {byte : UInt8}

theorem drop_of_getElem? {l : List UInt8} {i : Nat} (h : l[i]? = some byte) :
    l.drop i = byte :: l.drop (i + 1) := by
  obtain ⟨hlt, rfl⟩ := List.getElem?_eq_some_iff.mp h
  exact List.drop_eq_getElem_cons hlt

theorem drop_nil_of_not_lt {l : List UInt8} {i : Nat} (h : ¬ i < l.length) : l.drop i = [] :=
  List.drop_eq_nil_of_le (Nat.le_of_not_lt h)

theorem globMatches_anything (pattern : List UInt8) :
    GlobMatches (star :: star :: pattern) (value.drop valueIndex) ↔
      GlobMatches pattern (value.drop valueIndex) ∨ valueIndex < value.length ∧
        GlobMatches (star :: star :: pattern) (value.drop (valueIndex + 1)) := by
  simp only [GlobMatches, tokenize_anything]
  by_cases hlt : valueIndex < value.length
  · rw [List.drop_eq_getElem_cons hlt, matches_anything_cons]
    simp [hlt]
  · rw [drop_nil_of_not_lt hlt, matches_anything_nil]
    simp [hlt]

theorem globMatches_segment {pattern : List UInt8} (h : pattern.head? ≠ some star) :
    GlobMatches (star :: pattern) (value.drop valueIndex) ↔
      GlobMatches pattern (value.drop valueIndex) ∨
        (valueIndex < value.length ∧ value[valueIndex]? ≠ some slash) ∧
          GlobMatches (star :: pattern) (value.drop (valueIndex + 1)) := by
  simp only [GlobMatches, tokenize_segment h]
  by_cases hlt : valueIndex < value.length
  · rw [List.drop_eq_getElem_cons hlt, matches_segment_cons]
    simp [hlt]
  · rw [drop_nil_of_not_lt hlt, matches_segment_nil]
    simp [hlt]

theorem globMatches_literal (h : byte ≠ star) (pattern : List UInt8) :
    GlobMatches (byte :: pattern) (value.drop valueIndex) ↔
      (valueIndex < value.length ∧ value[valueIndex]? = some byte) ∧
        GlobMatches pattern (value.drop (valueIndex + 1)) := by
  simp only [GlobMatches, tokenize_literal h]
  by_cases hlt : valueIndex < value.length
  · rw [List.drop_eq_getElem_cons hlt, matches_literal_cons]
    simp [hlt, eq_comm]
  · rw [drop_nil_of_not_lt hlt]
    simp [hlt, matches_literal_nil]

theorem globMatchesPlain_iff (hpattern : patternIndex ≤ pattern.length)
    (hvalue : valueIndex ≤ value.length) :
    globMatchesPlain pattern value patternIndex valueIndex = true ↔
      GlobMatches (pattern.drop patternIndex) (value.drop valueIndex) := by
  fun_induction globMatchesPlain pattern value patternIndex valueIndex with
  | case1 valueIndex =>
      rw [List.drop_length, GlobMatches, tokenize, matches_nil, List.drop_eq_nil_iff, beq_iff_eq]
      omega
  | case2 patternIndex valueIndex hend hlt hbyte hnext ih2 ih1 =>
      have hlt2 : patternIndex + 1 < pattern.length := (List.getElem?_eq_some_iff.mp hnext).1
      have hdrop : pattern.drop patternIndex = star :: star :: pattern.drop (patternIndex + 2) := by
        rw [List.drop_eq_getElem_cons hlt, hbyte, drop_of_getElem? hnext]
      rw [hdrop, globMatches_anything, Bool.or_eq_true, ih2 hlt2 hvalue]
      by_cases hv : valueIndex < value.length
      · simp [hv, ih1 hv hpattern hv, hdrop]
      · simp [hv]
  | case3 patternIndex valueIndex hend hlt hbyte hnext ih2 ih1 =>
      have hhead : (pattern.drop (patternIndex + 1)).head? ≠ some star := by
        rw [List.head?_drop]
        exact hnext
      have hdrop : pattern.drop patternIndex = star :: pattern.drop (patternIndex + 1) := by
        rw [List.drop_eq_getElem_cons hlt, hbyte]
      rw [hdrop, globMatches_segment hhead, Bool.or_eq_true, ih2 hlt hvalue]
      by_cases hv : valueIndex < value.length ∧ value[valueIndex]? ≠ some slash
      · rw [if_pos hv, ih1 hv hpattern hv.1, hdrop]
        simp only [hv, ne_eq, not_false_eq_true, and_self, true_and]
      · rw [if_neg hv]
        simp [hv]
  | case4 patternIndex valueIndex hend hlt hbyte hv ih1 =>
      rw [List.drop_eq_getElem_cons hlt, globMatches_literal hbyte, ih1 hlt hv.1]
      exact ⟨fun h => ⟨hv, h⟩, fun h => h.2⟩
  | case5 patternIndex valueIndex hend hlt hbyte hv =>
      rw [List.drop_eq_getElem_cons hlt, globMatches_literal hbyte]
      simp [hv]
  | case6 patternIndex valueIndex hend hlt =>
      exact absurd (Nat.lt_of_le_of_ne hpattern hend) hlt

/-- The memoized recursion never fails and agrees with the plain one. -/
theorem computes_globMatchesAt (hpattern : patternIndex ≤ pattern.length)
    (hvalue : valueIndex ≤ value.length) :
    Memo.Computes (pattern.length + 1) (value.length + 1) (globMatchesPlain pattern value)
      (globMatchesAt pattern value patternIndex valueIndex)
      (globMatchesPlain pattern value patternIndex valueIndex) := by
  induction patternIndex, valueIndex using globMatchesPlain.induct pattern value with
  | case1 valueIndex =>
      rw [globMatchesAt]
      apply Memo.computes_memoize (by omega) (by omega)
      rw [globMatchesPlain, if_pos rfl, if_pos rfl]
      exact Memo.computes_pure _
  | case2 patternIndex valueIndex hend hlt hbyte hnext ih2 ih1 =>
      have hlt2 : patternIndex + 1 < pattern.length := (List.getElem?_eq_some_iff.mp hnext).1
      rw [globMatchesAt]
      apply Memo.computes_memoize (by omega) (by omega)
      rw [globMatchesPlain]
      simp only [hend, if_false, dif_pos hlt, hbyte, hnext, if_true]
      refine Memo.computes_or (ih2 hlt2 hvalue) fun _ => ?_
      split
      · rename_i hv
        exact ih1 hv hpattern hv
      · exact Memo.computes_pure _
  | case3 patternIndex valueIndex hend hlt hbyte hnext ih2 ih1 =>
      rw [globMatchesAt]
      apply Memo.computes_memoize (by omega) (by omega)
      rw [globMatchesPlain]
      simp only [hend, if_false, dif_pos hlt, hbyte, hnext, if_true]
      refine Memo.computes_or (ih2 hlt hvalue) fun _ => ?_
      split
      · rename_i hv
        exact ih1 hv hpattern hv.1
      · exact Memo.computes_pure _
  | case4 patternIndex valueIndex hend hlt hbyte hv ih1 =>
      rw [globMatchesAt]
      apply Memo.computes_memoize (by omega) (by omega)
      rw [globMatchesPlain]
      simp only [hend, if_false, dif_pos hlt, hbyte, if_pos hv]
      exact ih1 hlt hv.1
  | case5 patternIndex valueIndex hend hlt hbyte hv =>
      rw [globMatchesAt]
      apply Memo.computes_memoize (by omega) (by omega)
      rw [globMatchesPlain]
      simp only [hend, if_false, dif_pos hlt, hbyte, if_neg hv]
      exact Memo.computes_pure _
  | case6 patternIndex valueIndex hend hlt =>
      exact absurd (Nat.lt_of_le_of_ne hpattern hend) hlt

theorem globMatchesExact_eq (pattern value : List UInt8) :
    globMatchesExact pattern value = some (globMatchesPlain pattern value 0 0) := by
  obtain ⟨_, hrun, _⟩ := @computes_globMatchesAt pattern value 0 0
    (Nat.zero_le _) (Nat.zero_le _) _ (MemoTable.sound_new _ _ _)
  rw [globMatchesExact, hrun, Option.map_some]

theorem globMatchesPlain_zero_iff (pattern value : List UInt8) :
    globMatchesPlain pattern value 0 0 = true ↔ GlobMatches pattern value := by
  rw [globMatchesPlain_iff (Nat.zero_le _) (Nat.zero_le _), List.drop_zero, List.drop_zero]

end

/-! ## Paths -/

theorem isPrefixOf?_eq_some {start value rest : List UInt8} :
    start.isPrefixOf? value = some rest ↔ value = start ++ rest := by
  induction start generalizing value with
  | nil => simp [List.isPrefixOf?, eq_comm]
  | cons byte start ih =>
      cases value with
      | nil => simp [List.isPrefixOf?]
      | cons next value =>
          simp only [List.isPrefixOf?, List.cons_append, List.cons.injEq]
          split
          · rename_i heq
            simp [ih, eq_of_beq heq]
          · rename_i hne
            simp only [false_iff, reduceCtorEq, not_and]
            intro heq
            exact absurd (beq_iff_eq.mpr heq.symm) hne

theorem mem_suffixesAfterSlashes {suffix value : List UInt8} :
    suffix ∈ suffixesAfterSlashes value ↔ ∃ before, value = before ++ slash :: suffix := by
  induction value with
  | nil => simp [suffixesAfterSlashes]
  | cons byte value ih =>
      have hcons : (∃ before, byte :: value = before ++ slash :: suffix) ↔
          (byte = slash ∧ suffix = value) ∨ ∃ before, value = before ++ slash :: suffix := by
        constructor
        · rintro ⟨before, heq⟩
          cases before with
          | nil =>
              cases heq
              exact .inl ⟨rfl, rfl⟩
          | cons first before =>
              cases heq
              exact .inr ⟨before, rfl⟩
        · rintro (⟨rfl, rfl⟩ | ⟨before, rfl⟩)
          · exact ⟨[], rfl⟩
          · exact ⟨byte :: before, rfl⟩
      rw [hcons, ← ih, suffixesAfterSlashes]
      by_cases hbyte : byte = slash
      · simp [hbyte]
      · simp [hbyte]

theorem anyM_of_total {f : List UInt8 → Option Bool} {g : List UInt8 → Bool}
    (h : ∀ value, f value = some (g value)) (values : List (List UInt8)) :
    values.anyM f = some (values.any g) := by
  induction values with
  | nil => rfl
  | cons value values ih =>
      rw [List.anyM, h, List.any_cons]
      cases hg : g value with
      | true => rfl
      | false => exact ih

def trimmedBase (baseDirectory : List UInt8) : List UInt8 :=
  (normalizePath baseDirectory).rdropWhile (· == slash)

/-- An anchored rule matches the rest of a path that lies under the base directory. -/
theorem globMatchesPath_anchored {pattern anchored : List UInt8}
    (hpattern : normalizePath pattern = slash :: anchored) (filePath baseDirectory : List UInt8) :
    ∃ matched, globMatchesPath pattern filePath baseDirectory = some matched ∧
      (matched = true ↔ ∃ relative,
        normalizePath filePath = trimmedBase baseDirectory ++ slash :: relative ∧
          GlobMatches anchored relative) := by
  have hanchored : [slash].isPrefixOf? (normalizePath pattern) = some anchored :=
    isPrefixOf?_eq_some.mpr hpattern
  have hunder : ∀ relative,
      ((trimmedBase baseDirectory).isPrefixOf? (normalizePath filePath)).bind
          ([slash].isPrefixOf? ·) = some relative ↔
        normalizePath filePath = trimmedBase baseDirectory ++ slash :: relative := by
    intro relative
    constructor
    · intro h
      obtain ⟨rest, hrest, hrelative⟩ := Option.bind_eq_some_iff.mp h
      rw [isPrefixOf?_eq_some.mp hrest, isPrefixOf?_eq_some.mp hrelative]
      rfl
    · intro h
      exact Option.bind_eq_some_iff.mpr
        ⟨_, isPrefixOf?_eq_some.mpr h, isPrefixOf?_eq_some.mpr rfl⟩
  unfold globMatchesPath
  simp only [hanchored]
  cases hbind : ((trimmedBase baseDirectory).isPrefixOf? (normalizePath filePath)).bind
      ([slash].isPrefixOf? ·) with
  | none =>
      refine ⟨false, by rw [← trimmedBase, hbind], ?_⟩
      simp only [Bool.false_eq_true, false_iff, not_exists, not_and]
      intro relative hpath
      rw [(hunder relative).mpr hpath] at hbind
      cases hbind
  | some relative =>
      refine ⟨globMatchesPlain anchored relative 0 0, ?_, ?_⟩
      · rw [← trimmedBase, hbind]
        exact globMatchesExact_eq anchored relative
      · rw [globMatchesPlain_zero_iff]
        constructor
        · exact fun h => ⟨relative, (hunder relative).mp hbind, h⟩
        · rintro ⟨other, hpath, h⟩
          rw [(hunder other).mpr hpath] at hbind
          cases hbind
          exact h

/-- Any other rule matches the path, or what follows one of its slashes. -/
theorem globMatchesPath_floating {pattern : List UInt8}
    (hpattern : (normalizePath pattern).head? ≠ some slash)
    (filePath baseDirectory : List UInt8) :
    ∃ matched, globMatchesPath pattern filePath baseDirectory = some matched ∧
      (matched = true ↔ GlobMatches (normalizePath pattern) (normalizePath filePath) ∨
        ∃ before suffix, normalizePath filePath = before ++ slash :: suffix ∧
          GlobMatches (normalizePath pattern) suffix) := by
  have hnone : [slash].isPrefixOf? (normalizePath pattern) = none := by
    cases h : [slash].isPrefixOf? (normalizePath pattern) with
    | none => rfl
    | some anchored =>
        rw [isPrefixOf?_eq_some.mp h] at hpattern
        exact absurd rfl hpattern
  let matchesPlain := fun value => globMatchesPlain (normalizePath pattern) value 0 0
  refine ⟨matchesPlain (normalizePath filePath) ||
    (suffixesAfterSlashes (normalizePath filePath)).any matchesPlain, ?_, ?_⟩
  · unfold globMatchesPath
    simp only [hnone]
    rw [globMatchesExact_eq, Option.bind_some,
      anyM_of_total (globMatchesExact_eq (normalizePath pattern))]
    show _ = some (globMatchesPlain (normalizePath pattern) (normalizePath filePath) 0 0 || _)
    cases globMatchesPlain (normalizePath pattern) (normalizePath filePath) 0 0 <;> rfl
  · rw [Bool.or_eq_true, List.any_eq_true, globMatchesPlain_zero_iff]
    simp only [mem_suffixesAfterSlashes, matchesPlain, globMatchesPlain_zero_iff]
    constructor
    · rintro (h | ⟨suffix, ⟨before, hpath⟩, h⟩)
      · exact .inl h
      · exact .inr ⟨before, suffix, hpath, h⟩
    · rintro (h | ⟨before, suffix, hpath, h⟩)
      · exact .inl h
      · exact .inr ⟨suffix, ⟨before, hpath⟩, h⟩

/-- The matcher computes what its pattern means, with and without its table, and a
path rule is matched under the base directory or at any slash. -/
theorem glob_matching :
    (∀ pattern value,
      globMatchesExact pattern value = some (globMatchesPlain pattern value 0 0) ∧
        (globMatchesExact pattern value = some true ↔ Matches slash (tokenize pattern) value)) ∧
    ∀ pattern filePath baseDirectory,
      ∃ matched, globMatchesPath pattern filePath baseDirectory = some matched ∧
        ((normalizePath pattern).head? ≠ some slash →
          (matched = true ↔ Matches slash (tokenize (normalizePath pattern))
              (normalizePath filePath) ∨
            ∃ before suffix, normalizePath filePath = before ++ slash :: suffix ∧
              Matches slash (tokenize (normalizePath pattern)) suffix)) ∧
        ∀ anchored, normalizePath pattern = slash :: anchored →
          (matched = true ↔ ∃ relative,
            normalizePath filePath = trimmedBase baseDirectory ++ slash :: relative ∧
              Matches slash (tokenize anchored) relative) := by
  refine ⟨fun pattern value => ⟨globMatchesExact_eq pattern value, ?_⟩, ?_⟩
  · rw [globMatchesExact_eq, Option.some.injEq]
    exact globMatchesPlain_zero_iff pattern value
  · intro pattern filePath baseDirectory
    by_cases hpattern : (normalizePath pattern).head? = some slash
    · obtain ⟨anchored, heq⟩ : ∃ anchored, normalizePath pattern = slash :: anchored := by
        obtain ⟨rest, hrest⟩ := List.head?_eq_some_iff.mp hpattern
        exact ⟨rest, hrest⟩
      obtain ⟨matched, hrun, hiff⟩ := globMatchesPath_anchored heq filePath baseDirectory
      refine ⟨matched, hrun, fun hfloating => absurd hpattern hfloating, fun other hother => ?_⟩
      rw [heq] at hother
      cases hother
      exact hiff
    · obtain ⟨matched, hrun, hiff⟩ := globMatchesPath_floating hpattern filePath baseDirectory
      refine ⟨matched, hrun, fun _ => hiff, fun anchored hanchored => ?_⟩
      exact absurd (by rw [hanchored]; rfl) hpattern

end ImportLens.Document
