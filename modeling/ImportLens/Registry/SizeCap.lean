import ImportLens.Registry.Cache
import ImportLens.Support.Bytes
import Mathlib.Data.String.Basic

/-!
# The size cap of the registry snapshot

The snapshot is JSON text.  An eviction takes the oldest entries, as many as an estimate of
the text asks for, and then measures.  The estimate is exact as long as an entry is left,
unless a key has to be escaped, and then it is too large: what the first phase leaves needs
no second one.
-/

namespace ImportLens.Registry

open ImportLens.Support

/-! ## The text -/

/-- What `serde_json` writes for a character of a string. -/
def jsonChar (c : Char) : List Char :=
  if c = '"' then ['\\', '"']
  else if c = '\\' then ['\\', '\\']
  else if c = '\n' then ['\\', 'n']
  else if c = '\r' then ['\\', 'r']
  else if c = '\t' then ['\\', 't']
  else if c.toNat = 8 then ['\\', 'b']
  else if c.toNat = 12 then ['\\', 'f']
  else if c.toNat < 32 then
    ['\\', 'u', '0', '0', Nat.digitChar (c.toNat / 16), Nat.digitChar (c.toNat % 16)]
  else [c]

def needsNoEscape (c : Char) : Bool := c ≠ '"' && c ≠ '\\' && 32 ≤ c.toNat

def jsonString (s : String) : List UInt8 := utf8 ('"' :: (s.toList.flatMap jsonChar ++ ['"']))

def jsonNumber (n : Nat) : List UInt8 := utf8 (Nat.toDigits 10 n)

def jsonObject (fields : List (String × List UInt8)) : List UInt8 :=
  byteOf '\x7b' :: [byteOf ','].intercalate
      (fields.map fun field => jsonString field.1 ++ byteOf ':' :: field.2) ++ [byteOf '\x7d']

def metadataJson (metadata : RegistryPackageMetadata) : List UInt8 :=
  jsonObject
    ((metadata.latestVersion.map fun version => ("latest_version", jsonString version)).toList ++
    (metadata.latestPublishedAt.map fun date => ("latest_published_at", jsonString date)).toList ++
    [("deprecated_versions", byteOf '[' ::
      [byteOf ','].intercalate (metadata.deprecatedVersions.map jsonString) ++ [byteOf ']'])])

/-- What `serde_json` writes for an entry; an absent field is skipped. -/
def entryJson (entry : RegistryPackageMetadataEntry) : List UInt8 :=
  jsonObject ((entry.metadata.map fun metadata => ("metadata", metadataJson metadata)).toList ++
    [("updated_at", jsonNumber entry.updatedAt)] ++
    (entry.retryAfter.map fun retryAt => ("retry_after", jsonNumber retryAt)).toList ++
    (entry.error.map fun error => ("error", jsonString error)).toList ++
    [("not_found", utf8 (if entry.notFound then "true" else "false").toList)])

section

variable (toVec : RegistryPackageMetadataEntry → List UInt8)

def entryText (row : String × RegistryPackageMetadataEntry) : List UInt8 :=
  jsonString row.1 ++ byteOf ':' :: toVec row.2

def snapshotHead : List UInt8 :=
  utf8 "\x7b\"schema_version\":1,\"entries\":\x7b".toList

/-- The text behind the entries: the widest `cleared_at`. -/
def snapshotTail : List UInt8 := utf8 "\x7d,\"cleared_at\":18446744073709551615\x7d".toList

def snapshotText (entries : Entries) : List UInt8 :=
  snapshotHead ++ [byteOf ','].intercalate (entries.rows.map (entryText toVec)) ++ snapshotTail

def snapshotBytes (entries : Entries) : Nat := (snapshotText toVec entries).length

def entryFootprint (key : String) (entry : RegistryPackageMetadataEntry) : Nat :=
  (utf8 key.toList).length + (toVec entry).length + 4

/-! ## The length of the text -/

def entryCost (row : String × RegistryPackageMetadataEntry) : Nat :=
  (entryText toVec row).length + 1

def costOf (rows : List (String × RegistryPackageMetadataEntry)) : Nat :=
  (rows.map (entryCost toVec)).sum

end

theorem jsonChar_of_needsNoEscape {c : Char} (h : needsNoEscape c = true) : jsonChar c = [c] := by
  simp only [needsNoEscape, Bool.and_eq_true, decide_eq_true_eq] at h
  obtain ⟨⟨hquote, hbackslash⟩, hprintable⟩ := h
  have hne : ∀ d : Char, d.toNat < 32 → c ≠ d := by
    rintro d hd rfl
    omega
  unfold jsonChar
  rw [if_neg hquote, if_neg hbackslash, if_neg (hne _ (by decide)), if_neg (hne _ (by decide)),
    if_neg (hne _ (by decide)), if_neg (by omega), if_neg (by omega), if_neg (by omega)]

theorem toNat_lt_of_needsEscape {c : Char} (h : needsNoEscape c = false) : c.toNat < 128 := by
  by_contra hlarge
  have hplain : needsNoEscape c = true := by
    simp only [needsNoEscape, Bool.and_eq_true, decide_eq_true_eq]
    refine ⟨⟨?_, ?_⟩, by omega⟩
    · rintro rfl
      exact hlarge (by decide)
    · rintro rfl
      exact hlarge (by decide)
  rw [hplain] at h
  cases h

theorem length_utf8_jsonChar (c : Char) :
    (String.utf8EncodeChar c).length ≤ (utf8 (jsonChar c)).length := by
  cases hplain : needsNoEscape c with
  | true =>
    rw [jsonChar_of_needsNoEscape hplain, utf8_cons, utf8_nil, List.append_nil]
  | false =>
    have hone : (String.utf8EncodeChar c).length = 1 := by
      rw [utf8EncodeChar_of_lt (toNat_lt_of_needsEscape hplain)]
      rfl
    have hsome : ∃ d rest, jsonChar c = d :: rest := by
      unfold jsonChar
      repeat' split
      all_goals exact ⟨_, _, rfl⟩
    obtain ⟨d, rest, hchar⟩ := hsome
    have hpos : 0 < (String.utf8EncodeChar d).length := by
      rw [String.length_utf8EncodeChar]
      exact Char.utf8Size_pos d
    rw [hone, hchar, utf8_cons, List.length_append]
    omega

theorem length_jsonString (s : String) :
    (utf8 s.toList).length + 2 ≤ (jsonString s).length ∧
      (s.toList.all needsNoEscape = true → (jsonString s).length = (utf8 s.toList).length + 2) := by
  have hquote : (String.utf8EncodeChar '"').length = 1 := by decide
  have hbody : ∀ cs : List Char,
      (utf8 cs).length ≤ (utf8 (cs.flatMap jsonChar)).length ∧
        (cs.all needsNoEscape = true →
          (utf8 (cs.flatMap jsonChar)).length = (utf8 cs).length) := by
    intro cs
    induction cs with
    | nil => exact ⟨Nat.le_refl _, fun _ => rfl⟩
    | cons c cs ih =>
      have hchar := length_utf8_jsonChar c
      rw [List.flatMap_cons, utf8_append, utf8_cons, List.length_append, List.length_append]
      refine ⟨by omega, fun hall => ?_⟩
      rw [List.all_cons, Bool.and_eq_true] at hall
      rw [ih.2 hall.2, jsonChar_of_needsNoEscape hall.1, utf8_cons, utf8_nil, List.append_nil]
  have hlength : (jsonString s).length = (utf8 (s.toList.flatMap jsonChar)).length + 2 := by
    rw [jsonString, utf8_cons, utf8_append, utf8_cons, utf8_nil, List.append_nil,
      List.length_append, List.length_append, hquote]
    omega
  rw [hlength]
  refine ⟨by have := (hbody s.toList).1; omega, fun hall => ?_⟩
  rw [(hbody s.toList).2 hall]

section

variable {toVec : RegistryPackageMetadataEntry → List UInt8} {maxBytes : Nat}
  {entries : Entries} {row : String × RegistryPackageMetadataEntry}
  {rows : List (String × RegistryPackageMetadataEntry)}

/-- The footprint is what the entry takes of the text, unless its key is escaped. -/
theorem entryFootprint_le (toVec : RegistryPackageMetadataEntry → List UInt8)
    (row : String × RegistryPackageMetadataEntry) :
    entryFootprint toVec row.1 row.2 ≤ entryCost toVec row ∧
      (row.1.toList.all needsNoEscape = true →
        entryFootprint toVec row.1 row.2 = entryCost toVec row) := by
  obtain ⟨hle, heq⟩ := length_jsonString row.1
  rw [entryFootprint, entryCost, entryText, List.length_append, List.length_cons]
  refine ⟨by omega, fun hall => ?_⟩
  rw [heq hall]
  omega

theorem length_intercalate_comma (texts : List (List UInt8)) (hne : texts ≠ []) :
    ([byteOf ','].intercalate texts).length + 1 = (texts.map fun text => text.length + 1).sum := by
  induction texts with
  | nil => exact absurd rfl hne
  | cons text rest ih =>
    cases rest with
    | nil => rw [List.intercalate_singleton, List.map_singleton, List.sum_singleton]
    | cons next rest =>
      have hrest := ih (List.cons_ne_nil _ _)
      rw [List.intercalate_cons_cons, List.map_cons, List.sum_cons, ← hrest, List.length_append,
        List.length_append, List.length_singleton]
      omega

def envelopeBytes : Nat := snapshotHead.length + snapshotTail.length

theorem snapshotBytes_eq (hrows : entries.rows.Perm rows) :
    snapshotBytes toVec entries = envelopeBytes + (costOf toVec rows - 1) := by
  have hcost : costOf toVec rows = costOf toVec entries.rows :=
    (hrows.symm.map _).sum_nat
  rw [hcost, snapshotBytes, snapshotText, List.length_append, List.length_append, envelopeBytes]
  have hlength : ([byteOf ','].intercalate (entries.rows.map (entryText toVec))).length =
      costOf toVec entries.rows - 1 := by
    cases hentries : entries.rows with
    | nil => rfl
    | cons first rest =>
      have hcomma := length_intercalate_comma ((first :: rest).map (entryText toVec))
        (List.cons_ne_nil _ _)
      rw [List.map_map] at hcomma
      have hsum : costOf toVec (first :: rest) = (((first :: rest).map
          ((fun text => text.length + 1) ∘ entryText toVec))).sum := rfl
      rw [hsum]
      omega
  rw [hlength]
  omega

/-! ## Evictions -/

theorem rows_erase_perm (hrows : entries.rows.Perm (row :: rows)) :
    (Keyed.rows (entries.erase row.1)).Perm rows := by
  have hkeys : (row.1 :: rows.map Prod.fst).Nodup :=
    (hrows.map Prod.fst).nodup_iff.mp entries.nodup_rows_keys
  obtain ⟨hnew, hrest⟩ := List.nodup_cons.mp hkeys
  apply (List.perm_ext_iff_of_nodup (Keyed.nodup_rows_keys _).of_map hrest.of_map).mpr
  rintro ⟨key, entry⟩
  rw [Keyed.mem_rows, Keyed.lookup_erase_eq]
  by_cases hkey : key = row.1
  · rw [if_pos hkey]
    constructor
    · intro h
      cases h
    · intro hmem
      have hin : key ∈ rows.map Prod.fst := List.mem_map_of_mem hmem
      exact absurd (hkey ▸ hin) hnew
  · rw [if_neg hkey, ← Keyed.mem_rows, hrows.mem_iff, List.mem_cons]
    constructor
    · rintro (hrow | hmem)
      · exact absurd (congrArg Prod.fst hrow) hkey
      · exact hmem
    · exact .inr

theorem rows_eraseAll_perm {gone left : List (String × RegistryPackageMetadataEntry)}
    (hrows : entries.rows.Perm (gone ++ left)) :
    (Keyed.rows (Keyed.eraseAll (gone.map Prod.fst) entries)).Perm left := by
  induction gone generalizing entries with
  | nil => exact hrows
  | cons row gone ih => exact ih (rows_erase_perm hrows)

/-- The key of every row is written as it is. -/
def NeedNoEscape (rows : List (String × RegistryPackageMetadataEntry)) : Prop :=
  ∀ row ∈ rows, row.1.toList.all needsNoEscape = true

/-- Taking an entry away that is not the last lowers the estimate no more than the text. -/
theorem estimate_step {estimated : Nat} (hrows : entries.rows.Perm (row :: rows))
    (hmore : rows ≠ []) (hle : snapshotBytes toVec entries ≤ estimated) :
    snapshotBytes toVec (entries.erase row.1) ≤
      estimated - entryFootprint toVec row.1 row.2 ∧
    (row.1.toList.all needsNoEscape = true → estimated = snapshotBytes toVec entries →
      estimated - entryFootprint toVec row.1 row.2 =
        snapshotBytes toVec (entries.erase row.1)) := by
  obtain ⟨hfootprint, hexact⟩ := entryFootprint_le toVec row
  have hpos : 0 < costOf toVec rows := by
    cases rows with
    | nil => exact absurd rfl hmore
    | cons first rest =>
      rw [costOf, List.map_cons, List.sum_cons, entryCost]
      omega
  have hcost : costOf toVec (row :: rows) = entryCost toVec row + costOf toVec rows := by
    rw [costOf, List.map_cons, List.sum_cons]
    rfl
  rw [snapshotBytes_eq hrows, hcost] at hle
  rw [snapshotBytes_eq hrows, snapshotBytes_eq (rows_erase_perm hrows), hcost]
  refine ⟨by omega, fun hplain heq => ?_⟩
  rw [hexact hplain]
  omega

/-- What the first phase does: it takes the first rows away, and where it stops before the
last one, the text fits. -/
theorem evictEstimated_spec (maxBytes : Nat) {estimated : Nat} (evicted : Nat)
    (hrows : entries.rows.Perm rows)
    (hle : rows ≠ [] → snapshotBytes toVec entries ≤ estimated) :
    ∃ gone left rest, rows = gone ++ left ∧
      evictEstimated (entryFootprint toVec) maxBytes rows estimated evicted entries =
        (evicted + gone.length, Keyed.eraseAll (gone.map Prod.fst) entries, rest) ∧
      (left = [] ∧ rest = [] ∨
        snapshotBytes toVec (Keyed.eraseAll (gone.map Prod.fst) entries) ≤ maxBytes) ∧
      (NeedNoEscape rows → (rows ≠ [] → estimated = snapshotBytes toVec entries) →
        ∀ k < gone.length, maxBytes <
          snapshotBytes toVec (Keyed.eraseAll ((rows.take k).map Prod.fst) entries)) := by
  induction rows generalizing estimated evicted entries with
  | nil =>
    refine ⟨[], [], [], rfl, rfl, .inl ⟨rfl, rfl⟩, ?_⟩
    intro _ _ k hk
    cases hk
  | cons row rows ih =>
    have hfits := hle (List.cons_ne_nil _ _)
    rw [evictEstimated]
    by_cases hstop : estimated ≤ maxBytes
    · rw [if_pos hstop]
      refine ⟨[], row :: rows, rows, rfl, rfl, .inr (hfits.trans hstop), ?_⟩
      intro _ _ k hk
      cases hk
    · rw [if_neg hstop]
      have hstep : rows ≠ [] → _ := fun hmore => estimate_step hrows hmore hfits
      obtain ⟨gone, left, rest, hsplit, hrun, hend, hleast⟩ :=
        ih (evicted + 1) (rows_erase_perm hrows) fun hmore => (hstep hmore).1
      refine ⟨row :: gone, left, rest, by rw [hsplit]; rfl, ?_, hend, ?_⟩
      · rw [hrun, List.length_cons, Nat.add_right_comm, Nat.add_assoc]
        rfl
      · intro hplain hexact k hk
        obtain ⟨hrow, hrest⟩ := List.forall_mem_cons.mp hplain
        cases k with
        | zero =>
          have hestimated := hexact (List.cons_ne_nil _ _)
          have hnone : Keyed.eraseAll (((row :: rows).take 0).map Prod.fst) entries = entries := rfl
          rw [hnone]
          omega
        | succ k =>
          apply hleast hrest (fun hmore => (hstep hmore).2 hrow (hexact (List.cons_ne_nil _ _)))
          rw [List.length_cons] at hk
          omega

theorem evictExact_of_fits {evicted : Nat}
    (h : rows = [] ∨ snapshotBytes toVec entries ≤ maxBytes) :
    evictExact (snapshotBytes toVec) maxBytes rows evicted entries = (evicted, entries) := by
  cases rows with
  | nil => rfl
  | cons row rest =>
    have hle : snapshotBytes toVec entries ≤ maxBytes := h.resolve_left (List.cons_ne_nil _ _)
    rw [evictExact, if_neg (Nat.not_lt.mpr hle)]

end

/-! ## The cap -/

/-- By the time of the update, then by the key. -/
def Older (a b : String × RegistryPackageMetadataEntry) : Prop :=
  a.2.updatedAt < b.2.updatedAt ∨ a.2.updatedAt = b.2.updatedAt ∧ a.1 < b.1

theorem oldestFirst_order (a b : String × RegistryPackageMetadataEntry) :
    ((compare a.2.updatedAt b.2.updatedAt).then (compare a.1 b.1)).isLE = true ↔
      a.2.updatedAt < b.2.updatedAt ∨ a.2.updatedAt = b.2.updatedAt ∧ a.1 ≤ b.1 := by
  have hkey : (compare a.1 b.1).isLE = true ↔ a.1 ≤ b.1 :=
    Ordering.ne_gt_iff_isLE.symm.trans compare_le_iff_le
  rw [Ordering.isLE_then_iff_or, compare_lt_iff_lt, compare_eq_iff_eq, hkey]

theorem oldestFirst_perm (entries : Entries) : (oldestFirst entries).Perm entries.rows :=
  List.mergeSort_perm _ _

theorem oldestFirst_pairwise (entries : Entries) : (oldestFirst entries).Pairwise Older := by
  have hsorted : (oldestFirst entries).Pairwise fun a b =>
      ((compare a.2.updatedAt b.2.updatedAt).then (compare a.1 b.1)).isLE = true := by
    apply List.pairwise_mergeSort
    · intro a b c hab hbc
      rw [oldestFirst_order] at hab hbc ⊢
      rcases hab with hab | ⟨hab, hkey⟩
      · exact .inl (by omega)
      · rcases hbc with hbc | ⟨hbc, hkey'⟩
        · exact .inl (by omega)
        · exact .inr ⟨hab.trans hbc, le_trans hkey hkey'⟩
    · intro a b
      rw [Bool.or_eq_true, oldestFirst_order, oldestFirst_order]
      rcases lt_trichotomy a.2.updatedAt b.2.updatedAt with hlt | heq | hgt
      · exact .inl (.inl hlt)
      · rcases le_total a.1 b.1 with hle | hle
        · exact .inl (.inr ⟨heq, hle⟩)
        · exact .inr (.inr ⟨heq.symm, hle⟩)
      · exact .inr (.inl hgt)
  have hkeys : ((oldestFirst entries).map Prod.fst).Nodup :=
    ((oldestFirst_perm entries).map Prod.fst).nodup_iff.mpr entries.nodup_rows_keys
  apply (hsorted.and (List.pairwise_map.mp hkeys)).imp
  rintro a b ⟨hle, hne⟩
  rw [oldestFirst_order] at hle
  exact hle.imp_right fun hkey => ⟨hkey.1, lt_of_le_of_ne hkey.2 hne⟩

/-- The snapshot is within the budget, or nothing is left to evict. -/
def Capped (toVec : RegistryPackageMetadataEntry → List UInt8) (maxBytes : Nat)
    (entries : Entries) : Prop :=
  snapshotBytes toVec entries ≤ maxBytes ∨ entries.rows = []

/-- An eviction takes the oldest entries away, and says how many.  It takes none where there is
no cap or the snapshot fits; otherwise what is left is capped.  Where no key has to be escaped it
takes no more than that needs. -/
theorem registry_size_cap (toVec : RegistryPackageMetadataEntry → List UInt8) (maxBytes : Nat)
    (entries : Entries) :
    ∃ gone left, oldestFirst entries = gone ++ left ∧
      evictOldestOverBudget (snapshotBytes toVec) (entryFootprint toVec) maxBytes entries =
        (gone.length, Keyed.eraseAll (gone.map Prod.fst) entries) ∧
      (Keyed.rows (Keyed.eraseAll (gone.map Prod.fst) entries)).Perm left ∧
      (oldestFirst entries).Pairwise Older ∧
      (maxBytes = 0 ∨ snapshotBytes toVec entries ≤ maxBytes → gone = []) ∧
      (maxBytes ≠ 0 → Capped toVec maxBytes (Keyed.eraseAll (gone.map Prod.fst) entries)) ∧
      (NeedNoEscape entries.rows → ∀ k < gone.length,
        ¬ Capped toVec maxBytes
          (Keyed.eraseAll (((oldestFirst entries).take k).map Prod.fst) entries)) := by
  have hperm := (oldestFirst_perm entries).symm
  rw [evictOldestOverBudget]
  by_cases hidle : maxBytes = 0 ∨ snapshotBytes toVec entries ≤ maxBytes
  · rw [if_pos hidle]
    refine ⟨[], oldestFirst entries, rfl, rfl, hperm, oldestFirst_pairwise entries, fun _ => rfl,
      fun hcap => .inl (hidle.resolve_left hcap), ?_⟩
    intro _ k hk
    cases hk
  · obtain ⟨gone, left, rest, hsplit, hrun, hend, hleast⟩ :=
      evictEstimated_spec maxBytes 0 hperm fun _ => Nat.le_refl _
    have hleft := rows_eraseAll_perm (hsplit ▸ hperm)
    have hfits := hend.imp_left And.right
    rw [if_neg hidle, hrun]
    dsimp only
    rw [evictExact_of_fits hfits, Nat.zero_add]
    refine ⟨gone, left, hsplit, rfl, hleft, oldestFirst_pairwise entries,
      fun h => absurd h hidle, fun _ => ?_, ?_⟩
    · rcases hend with ⟨hnone, -⟩ | hfits
      · rw [hnone] at hleft
        exact .inr hleft.eq_nil
      · exact .inl hfits
    · intro hplain k hk hcapped
      have hlarge :=
        hleast (fun row hrow => hplain row (hperm.mem_iff.mpr hrow)) (fun _ => rfl) k hk
      rcases hcapped with hle | hempty
      · omega
      · have hrows : entries.rows.Perm
            ((oldestFirst entries).take k ++ (oldestFirst entries).drop k) := by
          rw [List.take_append_drop]
          exact hperm
        have hdrop := rows_eraseAll_perm hrows
        rw [hempty] at hdrop
        have hlength := congrArg List.length hdrop.symm.eq_nil
        rw [hsplit, List.length_drop, List.length_append, List.length_nil] at hlength
        omega

end ImportLens.Registry
