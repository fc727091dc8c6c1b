import ImportLens.Document.Imports
import ImportLens.Support.Checked
import Mathlib.Data.Nat.Find

/-!
# Member completion in import statements

Which import statement a cursor completes the members of.  The statement is looked up by
the text between its first brace and the next closing one, so the answer is right where
no other brace stands in front of, or in, the list of its specifiers.  The parser is a
parameter: what it promises of a module record is a field of `Parsed`.
-/

namespace ImportLens.Document

open ImportLens.Support ImportLens.Daemon

/-! ## Looking for the braces -/

structure OffsetRange where
  start : Nat
  finish : Nat
  deriving DecidableEq, Repr

def openBrace : UInt8 := byteOf '{'

def closeBrace : UInt8 := byteOf '}'

def namedImportMemberRange (source : List UInt8) (statementSpan : Span) : Option OffsetRange :=
  -- `str::get` has no answer where the slice of the same range panics
  (strSlice source statementSpan.start statementSpan.finish).bind fun statement =>
    (statement.findIdx? (· = openBrace)).bind fun opens =>
      ((statement.drop (opens + 1)).findIdx? (· = closeBrace)).map fun closes =>
        ⟨statementSpan.start + opens + 1, statementSpan.start + (closes + opens + 1)⟩

/-- The first opening brace of a statement, and the first closing one behind it. -/
structure Braces (source : List UInt8) (span : Span) (opens closes : Nat) : Prop where
  start_le : span.start ≤ opens
  lt : opens < closes
  lt_finish : closes < span.finish
  opening : source[opens]? = some openBrace
  no_opening : ∀ j, span.start ≤ j → j < opens → source[j]? ≠ some openBrace
  closing : source[closes]? = some closeBrace
  no_closing : ∀ j, opens < j → j < closes → source[j]? ≠ some closeBrace

section

variable {source : List UInt8} {span : Span} {range : OffsetRange}

theorem getElem?_slice (bytes : List UInt8) (start finish i : Nat) :
    (slice bytes start finish)[i]? = if start + i < finish then bytes[start + i]? else none := by
  rw [slice, List.getElem?_drop, List.getElem?_take]

theorem findIdx?_byte {bytes : List UInt8} {byte : UInt8} {i : Nat} :
    bytes.findIdx? (· = byte) = some i ↔
      bytes[i]? = some byte ∧ ∀ j, j < i → bytes[j]? ≠ some byte := by
  rw [List.findIdx?_eq_some_iff_getElem]
  constructor
  · rintro ⟨hlt, hat, hfirst⟩
    refine ⟨?_, fun j hj hsome => ?_⟩
    · rw [List.getElem?_eq_getElem hlt, of_decide_eq_true hat]
    · obtain ⟨hlength, hbyte⟩ := List.getElem?_eq_some_iff.mp hsome
      exact hfirst j hj (decide_eq_true hbyte)
  · rintro ⟨hat, hfirst⟩
    obtain ⟨hlt, hbyte⟩ := List.getElem?_eq_some_iff.mp hat
    refine ⟨hlt, decide_eq_true hbyte, fun j hj hdecide => hfirst j hj ?_⟩
    rw [List.getElem?_eq_getElem (by omega), of_decide_eq_true hdecide]

/-- What is found is the first pair of braces. -/
theorem namedImportMemberRange_eq_some
    (hslice : strSlice source span.start span.finish = some (slice source span.start span.finish)) :
    namedImportMemberRange source span = some range ↔
      ∃ opens closes, Braces source span opens closes ∧ range = ⟨opens + 1, closes⟩ := by
  rw [namedImportMemberRange, hslice, Option.bind_some, Option.bind_eq_some_iff]
  constructor
  · rintro ⟨opens, hopens, hmap⟩
    obtain ⟨closes, hcloses, rfl⟩ := Option.map_eq_some_iff.mp hmap
    obtain ⟨hopening, hfirst⟩ := findIdx?_byte.mp hopens
    obtain ⟨hclosing, hnext⟩ := findIdx?_byte.mp hcloses
    rw [getElem?_slice] at hopening
    rw [List.getElem?_drop, getElem?_slice] at hclosing
    split at hopening
    · split at hclosing
      · refine ⟨span.start + opens, span.start + (closes + opens + 1), ⟨by omega, by omega,
          by omega, hopening, fun j hstart hj hat => ?_, ?_, fun j hj hcloses hat => ?_⟩, rfl⟩
        · apply hfirst (j - span.start) (by omega)
          rw [getElem?_slice, if_pos (by omega), Nat.add_sub_cancel' hstart, hat]
        · rw [← hclosing]
          congr 1
          omega
        · apply hnext (j - span.start - opens - 1) (by omega)
          have hindex : span.start + (opens + 1 + (j - span.start - opens - 1)) = j := by omega
          rw [List.getElem?_drop, getElem?_slice, hindex, if_pos (by omega), hat]
      · cases hclosing
    · cases hopening
  · rintro ⟨opens, closes, hbraces, rfl⟩
    obtain ⟨hstart, hlt, hfinish, hopening, hfirst, hclosing, hnext⟩ := hbraces
    refine ⟨opens - span.start, findIdx?_byte.mpr ⟨?_, fun j hj hat => ?_⟩,
      Option.map_eq_some_iff.mpr
        ⟨closes - opens - 1, findIdx?_byte.mpr ⟨?_, fun j hj hat => ?_⟩, ?_⟩⟩
    · rw [getElem?_slice, Nat.add_sub_cancel' hstart, if_pos (by omega), hopening]
    · rw [getElem?_slice] at hat
      split at hat
      · exact hfirst _ (by omega) (by omega) hat
      · cases hat
    · have hindex :
          span.start + (opens - span.start + 1 + (closes - opens - 1)) = closes := by omega
      rw [List.getElem?_drop, getElem?_slice, hindex, if_pos hfinish, hclosing]
    · rw [List.getElem?_drop, getElem?_slice] at hat
      split at hat
      · exact hnext _ (by omega) (by omega) hat
      · cases hat
    · rw [OffsetRange.mk.injEq]
      omega

end

/-! ## The context at a cursor -/

structure NamedImportCompletionContext where
  specifier : String
  importedNames : List String
  runtime : ImportRuntime
  deriving DecidableEq, Repr

structure NamedImportGroup where
  specifier : String
  statementSpan : Span
  importedNames : List String
  deriving DecidableEq, Repr

def spanKey (span : Span) : Nat × Nat := (span.start, span.finish)

def NamedImportGroup.key (group : NamedImportGroup) : Nat × Nat := spanKey group.statementSpan

def ImportEntry.completionGroup (entry : ImportEntry) : NamedImportGroup where
  specifier := entry.specifier
  statementSpan := entry.statementSpan
  importedNames := []

def addImportedName (entry : ImportEntry) (group : NamedImportGroup) : NamedImportGroup :=
  { group with importedNames := group.importedNames ++ entry.importedName.toList }

def completionGroups (record : ModuleRecord) : List NamedImportGroup :=
  ((record.importEntries.filter fun entry => !entry.isType).foldl
    (fun groups entry => groups.upsert (spanKey entry.statementSpan) entry.completionGroup
      (addImportedName entry)) ({} : Groups (Nat × Nat) NamedImportGroup)).groups

def sortedNames (names : List String) : List String :=
  dedup (names.mergeSort fun a b => decide (a ≤ b))

def NamedImportGroup.context (group : NamedImportGroup) : NamedImportCompletionContext where
  specifier := group.specifier
  importedNames := sortedNames group.importedNames
  runtime := .component

def contextIn (source : List UInt8) (offset : Nat) (statementSpan : Span)
    (context : NamedImportCompletionContext) : Option NamedImportCompletionContext :=
  (namedImportMemberRange source statementSpan).bind fun range =>
    if range.start ≤ offset ∧ offset ≤ range.finish then some context else none

def requestContext (source : List UInt8) (offset : Nat)
    (requested : String × List RequestedModule) :
    Option NamedImportCompletionContext :=
  (requested.2.filter fun request => request.isImport && !request.isType).findSome? fun request =>
    contextIn source offset request.statementSpan ⟨requested.1, [], .component⟩

def completionContextFromModuleRecord (source : List UInt8) (offset : Nat) (record : ModuleRecord) :
    Option NamedImportCompletionContext :=
  let groups := (completionGroups record).mergeSort fun a b =>
    decide (a.statementSpan.start ≤ b.statementSpan.start)
  (groups.findSome? fun group => contextIn source offset group.statementSpan group.context).or
    (record.requestedModules.findSome? (requestContext source offset))

/-! ## What the parser promises -/

structure ImportBinding where
  importName : ImportImportName
  localSpan : Span
  isType : Bool
  deriving DecidableEq, Repr

/-- An import declaration of the syntax tree. -/
structure ImportDeclaration where
  span : Span
  specifier : String
  moduleSpan : Span
  isType : Bool
  /-- The braces of the list of its specifiers, if it has one. -/
  braces : Option Span
  bindings : List ImportBinding
  deriving DecidableEq, Repr

namespace ImportDeclaration

def entry (d : ImportDeclaration) (binding : ImportBinding) : ImportEntry where
  specifier := d.specifier
  moduleRequestSpan := d.moduleSpan
  statementSpan := d.span
  importName := binding.importName
  localSpan := binding.localSpan
  isType := d.isType || binding.isType

def entries (d : ImportDeclaration) : List ImportEntry := d.bindings.map d.entry

def request (d : ImportDeclaration) : RequestedModule where
  span := d.moduleSpan
  statementSpan := d.span
  isType := d.isType
  isImport := true

def values (d : ImportDeclaration) : List ImportEntry := d.entries.filter fun entry => !entry.isType

def names (d : ImportDeclaration) : List String := d.values.filterMap ImportEntry.importedName

/-- A position between the braces of the list. -/
def Lists (d : ImportDeclaration) (offset : Nat) : Prop :=
  ∃ braces, d.braces = some braces ∧ braces.start + 1 ≤ offset ∧ offset ≤ braces.finish

end ImportDeclaration

/-- Where the parser puts a declaration in a text. -/
structure Placed (source : List UInt8) (d : ImportDeclaration) : Prop where
  slice : strSlice source d.span.start d.span.finish =
    some (slice source d.span.start d.span.finish)
  lt : d.span.start < d.span.finish
  braces : ∀ braces, d.braces = some braces →
    d.span.start ≤ braces.start ∧ braces.start < braces.finish ∧ braces.finish < d.span.finish ∧
      source[braces.start]? = some openBrace ∧ source[braces.finish]? = some closeBrace

/-- A parsed text: its import declarations and its module record.  The requested modules come
in any order, together with those of exports. -/
structure Parsed (source : List UInt8) where
  declarations : List ImportDeclaration
  record : ModuleRecord
  placed : ∀ d ∈ declarations, Placed source d
  ordered : declarations.Pairwise fun a b => a.span.finish ≤ b.span.start
  entries_eq : record.importEntries = declarations.flatMap ImportDeclaration.entries
  requests_iff : ∀ specifier request,
    (∃ requests, (specifier, requests) ∈ record.requestedModules ∧ request ∈ requests ∧
      request.isImport = true) ↔
        ∃ d ∈ declarations, specifier = d.specifier ∧ request = d.request

/-! ## The group of a declaration -/

section

variable {source : List UInt8} {offset : Nat} {d e : ImportDeclaration}

/-- The text search finds the braces of the statement the cursor is between. -/
def Covers (source : List UInt8) (d : ImportDeclaration) (offset : Nat) : Prop :=
  ∃ opens closes, Braces source d.span opens closes ∧ opens + 1 ≤ offset ∧ offset ≤ closes

theorem Covers.inside (h : Covers source d offset) :
    d.span.start < offset ∧ offset < d.span.finish := by
  obtain ⟨opens, closes, hbraces, hstart, hfinish⟩ := h
  have := hbraces.start_le
  have := hbraces.lt_finish
  omega

theorem Placed.inside (h : Placed source d) (hlists : d.Lists offset) :
    d.span.start < offset ∧ offset < d.span.finish := by
  obtain ⟨braces, hbraces, hstart, hfinish⟩ := hlists
  obtain ⟨hle, _, hlt, _⟩ := h.braces braces hbraces
  omega

theorem Parsed.apart (parsed : Parsed source) (hd : d ∈ parsed.declarations)
    (he : e ∈ parsed.declarations) (hne : d ≠ e) :
    d.span.finish ≤ e.span.start ∨ e.span.finish ≤ d.span.start := by
  let R := fun a b : ImportDeclaration =>
    a.span.finish ≤ b.span.start ∨ b.span.finish ≤ a.span.start
  have hsymm : Std.Symm R := ⟨fun _ _ => Or.symm⟩
  have hpairs : parsed.declarations.Pairwise R := parsed.ordered.imp .inl
  exact hpairs.forall hd he hne

theorem Parsed.eq_of_inside (parsed : Parsed source) (hd : d ∈ parsed.declarations)
    (he : e ∈ parsed.declarations) (hinD : d.span.start < offset ∧ offset < d.span.finish)
    (hinE : e.span.start < offset ∧ offset < e.span.finish) : d = e := by
  by_contra hne
  have hapart := parsed.apart hd he hne
  omega

theorem Parsed.eq_of_spanKey (parsed : Parsed source) (hd : d ∈ parsed.declarations)
    (he : e ∈ parsed.declarations) (hkey : spanKey d.span = spanKey e.span) : d = e := by
  by_contra hne
  have hapart := parsed.apart hd he hne
  have hltD := (parsed.placed d hd).lt
  have hltE := (parsed.placed e he).lt
  rw [spanKey, spanKey, Prod.mk.injEq] at hkey
  omega

end

/-! ## The groups of the record -/

def addName (found : Option NamedImportGroup) (entry : ImportEntry) : Option NamedImportGroup :=
  some (addImportedName entry (found.getD entry.completionGroup))

theorem foldl_addName (entries : List ImportEntry) (group : NamedImportGroup) :
    entries.foldl addName (some group) =
      some { group with
        importedNames := group.importedNames ++ entries.filterMap ImportEntry.importedName } := by
  induction entries generalizing group with
  | nil => simp
  | cons entry entries ih =>
    rw [List.foldl_cons, addName, ih, Option.getD_some, List.filterMap_cons]
    cases hname : entry.importedName with
    | none => simp [addImportedName, hname]
    | some name => simp [addImportedName, hname]

/-- One entry reaches the group of its own statement. -/
theorem find_foldl_upsert {s : Groups (Nat × Nat) NamedImportGroup}
    (hs : s.Indexed NamedImportGroup.key) (entries : List ImportEntry) (k : Nat × Nat) :
    (entries.foldl (fun groups entry => groups.upsert (spanKey entry.statementSpan)
      entry.completionGroup (addImportedName entry)) s).Indexed NamedImportGroup.key ∧
    (entries.foldl (fun groups entry => groups.upsert (spanKey entry.statementSpan)
      entry.completionGroup (addImportedName entry)) s).find k =
        (entries.filter fun entry => spanKey entry.statementSpan = k).foldl addName (s.find k) := by
  induction entries generalizing s with
  | nil => exact ⟨hs, rfl⟩
  | cons entry entries ih =>
    have hindexed : (s.upsert (spanKey entry.statementSpan) entry.completionGroup
        (addImportedName entry)).Indexed NamedImportGroup.key :=
      hs.upsert rfl fun _ => rfl
    obtain ⟨hrest, hfind⟩ := ih hindexed
    refine ⟨hrest, ?_⟩
    rw [List.foldl_cons, hfind, hs.find_upsert, List.filter_cons]
    by_cases hk : k = spanKey entry.statementSpan
    · subst hk
      rw [if_pos rfl, if_pos (decide_eq_true rfl), List.foldl_cons]
      rfl
    · rw [if_neg hk, if_neg (by simpa using Ne.symm hk)]

section

variable {source : List UInt8} (parsed : Parsed source) {d : ImportDeclaration}

def ImportDeclaration.group (d : ImportDeclaration) : NamedImportGroup where
  specifier := d.specifier
  statementSpan := d.span
  importedNames := d.names

theorem mem_entries {entry : ImportEntry} (h : entry ∈ d.entries) :
    entry.specifier = d.specifier ∧ entry.statementSpan = d.span := by
  obtain ⟨binding, _, rfl⟩ := List.mem_map.mp h
  exact ⟨rfl, rfl⟩

theorem filter_entries (hd : d ∈ parsed.declarations) :
    ((parsed.record.importEntries.filter fun entry => !entry.isType).filter fun entry =>
      spanKey entry.statementSpan = spanKey d.span) = d.values := by
  have hothers : ∀ declarations : List ImportDeclaration,
      (∀ e ∈ declarations, e ∈ parsed.declarations) → declarations.Nodup →
      (declarations.flatMap ImportDeclaration.entries).filter
          (fun entry => spanKey entry.statementSpan = spanKey d.span) =
        if d ∈ declarations then d.entries else [] := by
    intro declarations hmem hnodup
    induction declarations with
    | nil => rfl
    | cons e rest ih =>
      rw [List.nodup_cons] at hnodup
      rw [List.flatMap_cons, List.filter_append, ih (fun f hf => hmem f (.tail _ hf)) hnodup.2]
      by_cases hde : d = e
      · subst hde
        have hall : d.entries.filter (fun entry => spanKey entry.statementSpan = spanKey d.span) =
            d.entries := by
          rw [List.filter_eq_self]
          intro entry hentry
          rw [(mem_entries hentry).2]
          exact decide_eq_true rfl
        rw [hall, if_neg hnodup.1, if_pos List.mem_cons_self, List.append_nil]
      · have hnone : e.entries.filter (fun entry => spanKey entry.statementSpan = spanKey d.span) =
            [] := by
          rw [List.filter_eq_nil_iff]
          intro entry hentry hkey
          rw [(mem_entries hentry).2] at hkey
          exact hde (parsed.eq_of_spanKey hd (hmem e List.mem_cons_self)
            (of_decide_eq_true hkey).symm)
        have hiff : d ∈ e :: rest ↔ d ∈ rest := by simp [hde]
        rw [hnone, List.nil_append]
        simp only [hiff]
  have hnodup : parsed.declarations.Nodup := by
    apply parsed.ordered.imp_of_mem
    intro a b ha hb hle hab
    have := (parsed.placed a ha).lt
    subst hab
    omega
  rw [List.filter_filter, ImportDeclaration.values]
  have hcomm : (fun entry : ImportEntry =>
      decide (spanKey entry.statementSpan = spanKey d.span) && !entry.isType) =
      fun entry => !entry.isType && decide (spanKey entry.statementSpan = spanKey d.span) := by
    funext entry
    exact Bool.and_comm _ _
  rw [hcomm, ← List.filter_filter, parsed.entries_eq, hothers _ (fun _ => id) hnodup, if_pos hd]

theorem mem_completionGroups {group : NamedImportGroup} :
    group ∈ completionGroups parsed.record ↔
      ∃ d ∈ parsed.declarations, d.values ≠ [] ∧ group = d.group := by
  have hfold : ∀ k, _ := fun k => find_foldl_upsert (Groups.indexed_empty NamedImportGroup.key)
    (parsed.record.importEntries.filter fun entry => !entry.isType) k
  have hgroup : ∀ d ∈ parsed.declarations, d.values ≠ [] →
      d.values.foldl addName none = some d.group := by
    intro d hd hvalues
    obtain ⟨entry, rest, hcons⟩ := List.exists_cons_of_ne_nil hvalues
    have hentry : entry ∈ d.entries :=
      (List.mem_filter.mp (hcons ▸ List.mem_cons_self : entry ∈ d.values)).1
    obtain ⟨hspecifier, hspan⟩ := mem_entries hentry
    rw [hcons, List.foldl_cons, addName, foldl_addName]
    congr 1
    rw [ImportDeclaration.group, NamedImportGroup.mk.injEq]
    refine ⟨hspecifier, hspan, ?_⟩
    rw [ImportDeclaration.names, hcons, List.filterMap_cons]
    cases hname : entry.importedName with
    | none => simp [addImportedName, ImportEntry.completionGroup, hname]
    | some name => simp [addImportedName, ImportEntry.completionGroup, hname]
  have hfind : ∀ k, ((parsed.record.importEntries.filter fun entry => !entry.isType).foldl
      (fun groups entry => groups.upsert (spanKey entry.statementSpan) entry.completionGroup
        (addImportedName entry)) ({} : Groups (Nat × Nat) NamedImportGroup)).find k = some group ↔
      ∃ d ∈ parsed.declarations, k = spanKey d.span ∧ d.values ≠ [] ∧ group = d.group := by
    intro k
    rw [(hfold k).2]
    constructor
    · intro hsome
      cases hcases : (parsed.record.importEntries.filter fun entry => !entry.isType).filter
          fun entry => spanKey entry.statementSpan = k with
      | nil =>
        rw [hcases] at hsome
        cases hsome
      | cons entry rest =>
        have hentry : entry ∈ (parsed.record.importEntries.filter fun entry =>
            !entry.isType).filter fun entry => spanKey entry.statementSpan = k :=
          hcases ▸ List.mem_cons_self
        obtain ⟨hvalue, hkey⟩ := List.mem_filter.mp hentry
        obtain ⟨hmem, _⟩ := List.mem_filter.mp hvalue
        rw [parsed.entries_eq] at hmem
        obtain ⟨d, hd, hin⟩ := List.mem_flatMap.mp hmem
        have hk : k = spanKey d.span := by
          rw [← of_decide_eq_true hkey, (mem_entries hin).2]
        subst hk
        rw [filter_entries parsed hd] at hsome hcases
        have hvalues : d.values ≠ [] := by
          rw [hcases]
          exact List.cons_ne_nil _ _
        have hsame := hgroup d hd hvalues
        exact ⟨d, hd, rfl, hvalues, Option.some.inj (hsome.symm.trans hsame)⟩
    · rintro ⟨d, hd, rfl, hvalues, rfl⟩
      rw [filter_entries parsed hd]
      exact hgroup d hd hvalues
  constructor
  · intro hmem
    have hkey : group ∈ (completionGroups parsed.record).filter fun other =>
        other.key = group.key := List.mem_filter.mpr ⟨hmem, decide_eq_true rfl⟩
    rw [completionGroups, (hfold group.key).1.filter_key, Option.mem_toList] at hkey
    obtain ⟨d, hd, _, hvalues, hgroup⟩ := (hfind _).mp hkey
    exact ⟨d, hd, hvalues, hgroup⟩
  · rintro ⟨d, hd, hvalues, hgroup⟩
    have hsome := (hfind _).mpr ⟨d, hd, rfl, hvalues, hgroup⟩
    have hkey := Option.mem_toList.mpr hsome
    rw [← (hfold (spanKey d.span)).1.filter_key] at hkey
    exact (List.mem_filter.mp hkey).1

/-! ## The statement that is completed -/

def ImportDeclaration.context (d : ImportDeclaration) : NamedImportCompletionContext where
  specifier := d.specifier
  importedNames := sortedNames d.names
  runtime := .component

variable {offset : Nat} {context : NamedImportCompletionContext} {e : ImportDeclaration}

theorem contextIn_eq_some (hd : d ∈ parsed.declarations) :
    contextIn source offset d.span context = some context ↔ Covers source d offset := by
  rw [contextIn, Option.bind_eq_some_iff]
  constructor
  · rintro ⟨range, hrange, hin⟩
    obtain ⟨opens, closes, hbraces, rfl⟩ :=
      (namedImportMemberRange_eq_some (parsed.placed d hd).slice).mp hrange
    split at hin
    · rename_i hoffset
      exact ⟨opens, closes, hbraces, hoffset.1, hoffset.2⟩
    · cases hin
  · rintro ⟨opens, closes, hbraces, hstart, hfinish⟩
    refine ⟨⟨opens + 1, closes⟩, ?_, if_pos ⟨hstart, hfinish⟩⟩
    exact (namedImportMemberRange_eq_some (parsed.placed d hd).slice).mpr
      ⟨opens, closes, hbraces, rfl⟩

theorem contextIn_eq {found : NamedImportCompletionContext}
    (h : contextIn source offset d.span context = some found) : found = context := by
  obtain ⟨range, _, hin⟩ := Option.bind_eq_some_iff.mp h
  split at hin
  · exact (Option.some.inj hin).symm
  · cases hin

theorem context_of_covers
    (h : completionContextFromModuleRecord source offset parsed.record = some context) :
    ∃ d ∈ parsed.declarations, d.isType = false ∧ Covers source d offset ∧ context = d.context := by
  rw [completionContextFromModuleRecord, Option.or_eq_some_iff] at h
  rcases h with hgroups | ⟨hnone, hrequests⟩
  · obtain ⟨group, hgroup, hcontext⟩ := List.exists_of_findSome?_eq_some hgroups
    obtain ⟨d, hd, hvalues, rfl⟩ :=
      (mem_completionGroups parsed).mp (List.mem_mergeSort.mp hgroup)
    have hfound := contextIn_eq hcontext
    subst hfound
    refine ⟨d, hd, ?_, (contextIn_eq_some parsed hd).mp hcontext, rfl⟩
    obtain ⟨entry, hentry⟩ := List.exists_mem_of_ne_nil _ hvalues
    obtain ⟨hin, hvalue⟩ := List.mem_filter.mp hentry
    obtain ⟨binding, _, rfl⟩ := List.mem_map.mp hin
    simp only [ImportDeclaration.entry, Bool.not_eq_true', Bool.or_eq_false_iff] at hvalue
    exact hvalue.1
  · obtain ⟨requested, hrequested, hcontext⟩ := List.exists_of_findSome?_eq_some hrequests
    obtain ⟨request, hrequest, hin⟩ := List.exists_of_findSome?_eq_some hcontext
    obtain ⟨hmem, hvalue⟩ := List.mem_filter.mp hrequest
    rw [Bool.and_eq_true, Bool.not_eq_true'] at hvalue
    obtain ⟨d, hd, hspecifier, rfl⟩ := (parsed.requests_iff requested.1 request).mp
      ⟨requested.2, hrequested, hmem, hvalue.1⟩
    have hfound := contextIn_eq hin
    subst hfound
    have hcovers := (contextIn_eq_some parsed hd).mp hin
    refine ⟨d, hd, hvalue.2, hcovers, ?_⟩
    -- A statement that binds a value has been found in the first pass.
    have hvalues : d.values = [] := by
      by_contra hne
      have hgroup : d.group ∈ (completionGroups parsed.record).mergeSort fun a b =>
          decide (a.statementSpan.start ≤ b.statementSpan.start) :=
        List.mem_mergeSort.mpr ((mem_completionGroups parsed).mpr ⟨d, hd, hne, rfl⟩)
      have hfirst : contextIn source offset d.span d.context = none :=
        List.findSome?_eq_none_iff.mp hnone _ hgroup
      rw [(contextIn_eq_some parsed hd).mpr hcovers] at hfirst
      cases hfirst
    rw [ImportDeclaration.context, ImportDeclaration.names, hvalues, hspecifier]
    simp [sortedNames, dedup]

theorem isSome_of_covers (hd : d ∈ parsed.declarations) (hvalue : d.isType = false)
    (hcovers : Covers source d offset) :
    (completionContextFromModuleRecord source offset parsed.record).isSome := by
  obtain ⟨requests, hrequests, hrequest, _⟩ :=
    (parsed.requests_iff d.specifier d.request).mpr ⟨d, hd, rfl, rfl⟩
  have hfound : (requestContext source offset (d.specifier, requests)).isSome := by
    rw [requestContext, List.findSome?_isSome_iff]
    refine ⟨d.request, List.mem_filter.mpr ⟨hrequest, ?_⟩, ?_⟩
    · simp [ImportDeclaration.request, hvalue]
    · have hin : contextIn source offset d.span ⟨d.specifier, [], .component⟩ = _ :=
        (contextIn_eq_some parsed hd).mpr hcovers
      exact Option.isSome_of_eq_some hin
  rw [completionContextFromModuleRecord, Option.isSome_or, Bool.or_eq_true]
  exact .inr (List.findSome?_isSome_iff.mpr ⟨_, hrequests, hfound⟩)

end

/-! ## Where the text search is right -/

/-- No brace of a statement misleads the text search: none stands in front of the list of its
specifiers or closes it early, and without a list there is no pair of braces. -/
structure PlainBraces (source : List UInt8) (d : ImportDeclaration) : Prop where
  listed : ∀ braces, d.braces = some braces →
    (∀ j, d.span.start ≤ j → j < braces.start → source[j]? ≠ some openBrace) ∧
      ∀ j, braces.start < j → j < braces.finish → source[j]? ≠ some closeBrace
  unlisted : d.braces = none → ∀ opens closes, d.span.start ≤ opens → opens < closes →
    closes < d.span.finish → source[opens]? = some openBrace → source[closes]? ≠ some closeBrace

/-- A position right behind an opening brace, or at a closing one. -/
def AtBrace (source : List UInt8) (offset : Nat) : Prop :=
  0 < offset ∧ offset < source.length ∧
    (source[offset - 1]? = some openBrace ∨ source[offset]? = some closeBrace)

section

variable {source : List UInt8} {d : ImportDeclaration} {offset : Nat}

theorem Braces.unique {span : Span} {opens closes opens' closes' : Nat}
    (h : Braces source span opens closes) (h' : Braces source span opens' closes') :
    opens = opens' ∧ closes = closes' := by
  have hopens : opens = opens' := by
    rcases Nat.lt_trichotomy opens opens' with hlt | heq | hlt
    · exact absurd h.opening (h'.no_opening opens h.start_le hlt)
    · exact heq
    · exact absurd h'.opening (h.no_opening opens' h'.start_le hlt)
  subst hopens
  refine ⟨rfl, ?_⟩
  rcases Nat.lt_trichotomy closes closes' with hlt | heq | hlt
  · exact absurd h.closing (h'.no_closing closes h.lt hlt)
  · exact heq
  · exact absurd h'.closing (h.no_closing closes' h'.lt hlt)

theorem Braces.atBrace {span : Span} {opens closes : Nat} (h : Braces source span opens closes) :
    AtBrace source (opens + 1) ∧ AtBrace source closes := by
  have hlength := (List.getElem?_eq_some_iff.mp h.closing).1
  have := h.lt
  refine ⟨⟨by omega, by omega, .inl ?_⟩, ⟨by omega, hlength, .inr h.closing⟩⟩
  rw [Nat.add_sub_cancel]
  exact h.opening

/-- A pair of braces in a statement leaves a first one. -/
theorem exists_braces {span : Span} {opens closes : Nat} (hstart : span.start ≤ opens)
    (hlt : opens < closes) (hfinish : closes < span.finish)
    (hopening : source[opens]? = some openBrace) (hclosing : source[closes]? = some closeBrace) :
    ∃ first next, Braces source span first next := by
  have hexists : ∃ j, span.start ≤ j ∧ source[j]? = some openBrace := ⟨opens, hstart, hopening⟩
  obtain ⟨hfirstLe, hfirst⟩ := Nat.find_spec hexists
  have hfirstOpens : Nat.find hexists ≤ opens := Nat.find_min' hexists ⟨hstart, hopening⟩
  have hexists' : ∃ j, Nat.find hexists < j ∧ source[j]? = some closeBrace :=
    ⟨closes, by omega, hclosing⟩
  obtain ⟨hnextLt, hnext⟩ := Nat.find_spec hexists'
  have hnextCloses : Nat.find hexists' ≤ closes := Nat.find_min' hexists' ⟨by omega, hclosing⟩
  refine ⟨Nat.find hexists, Nat.find hexists', hfirstLe, hnextLt, by omega, hfirst, ?_, hnext, ?_⟩
  · exact fun j hj hbefore hat => Nat.find_min hexists hbefore ⟨hj, hat⟩
  · exact fun j hj hbefore hat => Nat.find_min hexists' hbefore ⟨hj, hat⟩

theorem covers_iff_lists (hplaced : Placed source d) (hplain : PlainBraces source d) :
    Covers source d offset ↔ d.Lists offset := by
  cases hbraces : d.braces with
  | none =>
    constructor
    · rintro ⟨opens, closes, hfound, _⟩
      exact absurd hfound.closing (hplain.unlisted hbraces opens closes hfound.start_le hfound.lt
        hfound.lt_finish hfound.opening)
    · rintro ⟨braces, hsome, _⟩
      rw [hbraces] at hsome
      cases hsome
  | some braces =>
    obtain ⟨hstart, hlt, hfinish, hopening, hclosing⟩ := hplaced.braces braces hbraces
    obtain ⟨hbefore, hwithin⟩ := hplain.listed braces hbraces
    have hlist : Braces source d.span braces.start braces.finish :=
      ⟨hstart, hlt, hfinish, hopening, hbefore, hclosing, hwithin⟩
    constructor
    · rintro ⟨opens, closes, hfound, hin⟩
      obtain ⟨rfl, rfl⟩ := hfound.unique hlist
      exact ⟨braces, hbraces, hin⟩
    · rintro ⟨braces', hsome, hin⟩
      rw [hbraces, Option.some.injEq] at hsome
      subst hsome
      exact ⟨_, _, hlist, hin⟩

theorem plainBraces_of_agrees (hplaced : Placed source d)
    (hagrees : ∀ offset, AtBrace source offset → (Covers source d offset ↔ d.Lists offset)) :
    PlainBraces source d := by
  have hlists : ∀ {opens closes}, Braces source d.span opens closes →
      d.Lists (opens + 1) ∧ d.Lists closes := by
    intro opens closes hfound
    obtain ⟨hopening, hclosing⟩ := hfound.atBrace
    have hlt := hfound.lt
    exact ⟨(hagrees _ hopening).mp ⟨opens, closes, hfound, Nat.le_refl _, hlt⟩,
      (hagrees _ hclosing).mp ⟨opens, closes, hfound, hlt, Nat.le_refl _⟩⟩
  constructor
  · intro braces hbraces
    obtain ⟨hstart, hlt, hfinish, hopening, hclosing⟩ := hplaced.braces braces hbraces
    have hlength := (List.getElem?_eq_some_iff.mp hclosing).1
    have hbehind : AtBrace source (braces.start + 1) :=
      ⟨by omega, by omega, .inl (by rw [Nat.add_sub_cancel, hopening])⟩
    have hat : AtBrace source braces.finish := ⟨by omega, hlength, .inr hclosing⟩
    obtain ⟨opens, closes, hfound, hopens, -⟩ :=
      (hagrees _ hbehind).mpr ⟨braces, hbraces, Nat.le_refl _, hlt⟩
    obtain ⟨opens', closes', hfound', -, hcloses⟩ :=
      (hagrees _ hat).mpr ⟨braces, hbraces, hlt, Nat.le_refl _⟩
    obtain ⟨rfl, rfl⟩ := hfound.unique hfound'
    obtain ⟨⟨first, hfirst, hafter, -⟩, ⟨last, hlast, -, hbefore⟩⟩ := hlists hfound
    rw [hbraces, Option.some.injEq] at hfirst hlast
    subst hfirst
    subst hlast
    have hsameOpens : opens = braces.start := by omega
    have hsameCloses : closes = braces.finish := by omega
    subst hsameOpens
    subst hsameCloses
    exact ⟨hfound.no_opening, hfound.no_closing⟩
  · intro hnone opens closes hstart hlt hfinish hopening hclosing
    obtain ⟨first, next, hfound⟩ := exists_braces hstart hlt hfinish hopening hclosing
    obtain ⟨⟨braces, hsome, -⟩, -⟩ := hlists hfound
    rw [hnone] at hsome
    cases hsome

end

/-! ## Documents -/

abbrev ModuleParser : Type := String → (source : List UInt8) → Option (Parsed source)

def regionCompletionContext (parse : ModuleParser) (region : ScriptRegion) (offset : Nat) :
    Option NamedImportCompletionContext :=
  (parse region.filename region.source).bind fun parsed =>
    (completionContextFromModuleRecord region.source offset parsed.record).map fun context =>
      { context with runtime := region.runtime }

def namedImportCompletionContext (parse : ModuleParser) (filename : String) (text : List Char)
    (utf16CursorOffset : Nat) : Option NamedImportCompletionContext :=
  let offset := byteOffsetForUtf16 text utf16CursorOffset
  (scriptRegionsForDocument filename text).findSome? fun region =>
    if region.holds offset then regionCompletionContext parse region (offset - region.offset)
    else none

/-- An import declaration of a region that parses. -/
def Declares (parse : ModuleParser) (regions : List ScriptRegion) (region : ScriptRegion)
    (d : ImportDeclaration) : Prop :=
  region ∈ regions ∧ ∃ parsed, parse region.filename region.source = some parsed ∧
    d ∈ parsed.declarations

/-- The cursor is between the braces of the list of a declaration. -/
def ListsAt (region : ScriptRegion) (d : ImportDeclaration) (offset : Nat) : Prop :=
  region.offset ≤ offset ∧ d.Lists (offset - region.offset)

/-- Members are offered at a cursor where they should be, and nowhere else. -/
structure Offers (parse : ModuleParser) (filename : String) (text : List Char) (cursor : Nat) :
    Prop where
  only : ∀ context, namedImportCompletionContext parse filename text cursor = some context →
    ∃ region d, Declares parse (scriptRegionsForDocument filename text) region d ∧
      ListsAt region d (byteOffsetForUtf16 text cursor) ∧ context.specifier = d.specifier ∧
      ∀ name, name ∈ context.importedNames ↔ name ∈ d.names
  always : ∀ region d, Declares parse (scriptRegionsForDocument filename text) region d →
    d.isType = false → ListsAt region d (byteOffsetForUtf16 text cursor) →
      (namedImportCompletionContext parse filename text cursor).isSome

/-- No value import of the document has a brace that misleads the text search. -/
def PlainImports (parse : ModuleParser) (filename : String) (text : List Char) : Prop :=
  ∀ region d, Declares parse (scriptRegionsForDocument filename text) region d →
    d.isType = false → PlainBraces region.source d

section

variable {parse : ModuleParser} {filename : String} {text : List Char} {cursor offset : Nat}
variable {region : ScriptRegion} {d e : ImportDeclaration} {regions : List ScriptRegion}
variable {context : NamedImportCompletionContext}

theorem mem_sortedNames {names : List String} {name : String} :
    name ∈ sortedNames names ↔ name ∈ names := by
  rw [sortedNames, mem_dedup, List.mem_mergeSort]

theorem holds_of_inside {span : Span} {position : Nat}
    (hslice : strSlice region.source span.start span.finish =
      some (slice region.source span.start span.finish))
    (hposition : position < span.finish) : position < region.source.length := by
  have hfinish : span.finish ≤ region.source.length := by
    unfold strSlice at hslice
    split at hslice
    · rename_i hboundaries
      simp only [isCharBoundary, Bool.and_eq_true, Bool.or_eq_true, decide_eq_true_eq]
        at hboundaries
      obtain ⟨-, (hzero | hlength) | hbyte⟩ := hboundaries
      · omega
      · omega
      · cases hat : region.source[span.finish]? with
        | none =>
          rw [hat] at hbyte
          cases hbyte
        | some byte =>
          have := (List.getElem?_eq_some_iff.mp hat).1
          omega
    · cases hslice
  omega

theorem ListsAt.inside (hdeclares : Declares parse regions region d)
    (hlists : ListsAt region d offset) : region.offset < offset ∧ offset < region.finish := by
  obtain ⟨hle, hin⟩ := hlists
  obtain ⟨_, parsed, _, hd⟩ := hdeclares
  have hplaced := parsed.placed d hd
  obtain ⟨hstart, hfinish⟩ := hplaced.inside hin
  have := holds_of_inside hplaced.slice hfinish
  unfold ScriptRegion.finish
  omega

theorem holds_of_strict (hstrict : region.offset < offset ∧ offset < region.finish) :
    region.holds offset = true := by
  simp only [ScriptRegion.holds, Bool.and_eq_true, decide_eq_true_eq]
  omega

theorem regionCompletionContext_eq_some
    (h : regionCompletionContext parse region offset = some context) :
    ∃ d, (∃ parsed, parse region.filename region.source = some parsed ∧ d ∈ parsed.declarations) ∧
      d.isType = false ∧ Covers region.source d offset ∧
      context = { d.context with runtime := region.runtime } := by
  obtain ⟨parsed, hparsed, hmap⟩ := Option.bind_eq_some_iff.mp h
  obtain ⟨found, hfound, rfl⟩ := Option.map_eq_some_iff.mp hmap
  obtain ⟨d, hd, hvalue, hcovers, rfl⟩ := context_of_covers parsed hfound
  exact ⟨d, ⟨parsed, hparsed, hd⟩, hvalue, hcovers, rfl⟩

theorem isSome_regionCompletionContext {parsed : Parsed region.source}
    (hparsed : parse region.filename region.source = some parsed) (hd : d ∈ parsed.declarations)
    (hvalue : d.isType = false) (hcovers : Covers region.source d offset) :
    (regionCompletionContext parse region offset).isSome := by
  rw [regionCompletionContext, hparsed, Option.bind_some, Option.isSome_map]
  exact isSome_of_covers parsed hd hvalue hcovers

theorem offers_of_plain (hplain : PlainImports parse filename text) (cursor : Nat) :
    Offers parse filename text cursor := by
  constructor
  · intro context hcontext
    obtain ⟨region, hregion, hfound⟩ := List.exists_of_findSome?_eq_some hcontext
    split at hfound
    · rename_i hholds
      obtain ⟨d, ⟨parsed, hparsed, hd⟩, hvalue, hcovers, rfl⟩ :=
        regionCompletionContext_eq_some hfound
      have hdeclares : Declares parse (scriptRegionsForDocument filename text) region d :=
        ⟨hregion, parsed, hparsed, hd⟩
      have hlists := (covers_iff_lists (parsed.placed d hd)
        (hplain region d hdeclares hvalue)).mp hcovers
      simp only [ScriptRegion.holds, Bool.and_eq_true, decide_eq_true_eq] at hholds
      exact ⟨region, d, hdeclares, ⟨hholds.1, hlists⟩, rfl, fun name => mem_sortedNames⟩
    · cases hfound
  · intro region d hdeclares hvalue hlists
    obtain ⟨hregion, parsed, hparsed, hd⟩ := hdeclares
    have hstrict := hlists.inside ⟨hregion, parsed, hparsed, hd⟩
    have hcovers := (covers_iff_lists (parsed.placed d hd)
      (hplain region d ⟨hregion, parsed, hparsed, hd⟩ hvalue)).mpr hlists.2
    rw [namedImportCompletionContext, List.findSome?_isSome_iff]
    refine ⟨region, hregion, ?_⟩
    rw [if_pos (holds_of_strict hstrict)]
    exact isSome_regionCompletionContext hparsed hd hvalue hcovers

/-! ## Regions in order -/

theorem eq_of_strict {a b : ScriptRegion}
    (hordered : regions.Pairwise fun a b => a.finish ≤ b.offset) (ha : a ∈ regions)
    (hb : b ∈ regions) (hinA : a.offset < offset ∧ offset < a.finish)
    (hinB : b.offset < offset ∧ offset < b.finish) : a = b := by
  by_contra hne
  let R := fun a b : ScriptRegion => a.finish ≤ b.offset ∨ b.finish ≤ a.offset
  have hsymm : Std.Symm R := ⟨fun _ _ => Or.symm⟩
  have hpairs : regions.Pairwise R := hordered.imp .inl
  have hapart : R a b := hpairs.forall ha hb hne
  rcases hapart with hle | hle <;> omega

/-- A position strictly inside a region is answered by that region. -/
theorem findSome?_strict {answer : ScriptRegion → Option NamedImportCompletionContext}
    (hordered : regions.Pairwise fun a b => a.finish ≤ b.offset) (hregion : region ∈ regions)
    (hstrict : region.offset < offset ∧ offset < region.finish) :
    (regions.findSome? fun region => if region.holds offset then answer region else none) =
      answer region := by
  induction regions with
  | nil => cases hregion
  | cons first rest ih =>
    obtain ⟨hfirst, hrest⟩ := List.pairwise_cons.mp hordered
    rcases List.mem_cons.mp hregion with rfl | hlater
    · rw [List.findSome?_cons, if_pos (holds_of_strict hstrict)]
      cases answer region with
      | some context => rfl
      | none =>
        rw [List.findSome?_eq_none_iff]
        intro other hother
        have hbehind := hfirst other hother
        rw [if_neg]
        simp only [ScriptRegion.holds, Bool.and_eq_true, decide_eq_true_eq]
        omega
    · have hbefore := hfirst region hlater
      have hnot : ¬ first.holds offset = true := by
        simp only [ScriptRegion.holds, Bool.and_eq_true, decide_eq_true_eq]
        omega
      rw [List.findSome?_cons, if_neg hnot]
      exact ih hrest hlater

theorem scriptRegionsForDocument_parts (filename : String) (text : List Char) :
    ∀ region ∈ scriptRegionsForDocument filename text,
      IsPart text region.offset region.source := by
  unfold scriptRegionsForDocument
  split
  · exact componentScriptRegions_apart.parts
  · split
    · exact astroRegions_parts
    · exact (wholeDocument_apart _ rfl rfl).parts

theorem isAscii_openBrace : IsAscii openBrace := by
  unfold IsAscii
  decide

theorem isAscii_closeBrace : IsAscii closeBrace := by
  unfold IsAscii
  decide

theorem exists_cursor (hpart : IsPart text region.offset region.source)
    (hat : AtBrace region.source offset) :
    ∃ cursor, byteOffsetForUtf16 text cursor = region.offset + offset := by
  obtain ⟨hpos, hlength, hbrace⟩ := hat
  have hbyte : ∀ i byte, region.source[i]? = some byte →
      (utf8 text)[region.offset + i]? = some byte := by
    intro i byte hsome
    rw [hpart.eq_slice, getElem?_slice] at hsome
    split at hsome
    · exact hsome
    · cases hsome
  have hboundary : CharBoundary text (region.offset + offset) := by
    rcases hbrace with hopening | hclosing
    · have hafter := (boundaries_of_isAscii (hbyte _ _ hopening) isAscii_openBrace).2
      have hindex : region.offset + (offset - 1) + 1 = region.offset + offset := by omega
      rwa [hindex] at hafter
    · exact (boundaries_of_isAscii (hbyte _ _ hclosing) isAscii_closeBrace).1
  obtain ⟨before, after, rfl, hposition⟩ := hboundary
  exact ⟨utf16Length before, by rw [byteOffsetForUtf16_append, hposition]⟩

theorem plain_of_offers
    (hordered : (scriptRegionsForDocument filename text).Pairwise fun a b => a.finish ≤ b.offset)
    (hoffers : ∀ cursor, Offers parse filename text cursor) : PlainImports parse filename text := by
  intro region d hdeclares hvalue
  obtain ⟨hregion, parsed, hparsed, hd⟩ := hdeclares
  apply plainBraces_of_agrees (parsed.placed d hd)
  intro offset hat
  obtain ⟨cursor, hcursor⟩ := exists_cursor (scriptRegionsForDocument_parts filename text region
    hregion) hat
  have hstrict : region.offset < region.offset + offset ∧
      region.offset + offset < region.finish := by
    obtain ⟨hpos, hlength, -⟩ := hat
    unfold ScriptRegion.finish
    omega
  have hanswer : namedImportCompletionContext parse filename text cursor =
      regionCompletionContext parse region offset := by
    rw [namedImportCompletionContext, hcursor, findSome?_strict hordered hregion hstrict,
      Nat.add_sub_cancel_left]
  have hright := hoffers cursor
  constructor
  · intro hcovers
    have hsome := isSome_regionCompletionContext hparsed hd hvalue hcovers
    rw [← hanswer] at hsome
    obtain ⟨context, hcontext⟩ := Option.isSome_iff_exists.mp hsome
    obtain ⟨region', e, hdeclares, hlists, -⟩ := hright.only context hcontext
    rw [hcursor] at hlists
    have hsame : region' = region :=
      eq_of_strict hordered hdeclares.1 hregion (hlists.inside hdeclares) hstrict
    subst hsame
    obtain ⟨-, parsed', hparsed', he⟩ := hdeclares
    rw [hparsed, Option.some.injEq] at hparsed'
    subst hparsed'
    have hin := hlists.2
    rw [Nat.add_sub_cancel_left] at hin
    have hequal := parsed.eq_of_inside hd he hcovers.inside ((parsed.placed e he).inside hin)
    rw [hequal]
    exact hin
  · intro hlists
    have hsome := hright.always region d ⟨hregion, parsed, hparsed, hd⟩ hvalue
      ⟨by omega, by rw [hcursor, Nat.add_sub_cancel_left]; exact hlists⟩
    rw [hanswer] at hsome
    obtain ⟨context, hcontext⟩ := Option.isSome_iff_exists.mp hsome
    obtain ⟨e, ⟨parsed', hparsed', he⟩, -, hcovers, -⟩ := regionCompletionContext_eq_some hcontext
    rw [hparsed, Option.some.injEq] at hparsed'
    subst hparsed'
    have hequal := parsed.eq_of_inside hd he ((parsed.placed d hd).inside hlists) hcovers.inside
    rw [hequal]
    exact hcovers

/-- Members are offered exactly inside the lists of value imports if no value import has a brace
that misleads the text search.  The condition is needed wherever the regions are in order. -/
theorem completion_offers (parse : ModuleParser) (filename : String) (text : List Char) :
    (PlainImports parse filename text → ∀ cursor, Offers parse filename text cursor) ∧
      ((scriptRegionsForDocument filename text).Pairwise (fun a b => a.finish ≤ b.offset) →
        (∀ cursor, Offers parse filename text cursor) → PlainImports parse filename text) :=
  ⟨offers_of_plain, plain_of_offers⟩

end

/-! ## Texts with one declaration -/

def parsedOne {source : List UInt8} (d : ImportDeclaration) (hplaced : Placed source d) :
    Parsed source where
  declarations := [d]
  record := ⟨d.entries, [(d.specifier, [d.request])]⟩
  placed e he := by
    rw [List.mem_singleton.mp he]
    exact hplaced
  ordered := List.pairwise_singleton _ _
  entries_eq := (List.append_nil _).symm
  requests_iff specifier request := by
    constructor
    · rintro ⟨requests, hrequests, hrequest, -⟩
      cases List.mem_singleton.mp hrequests
      exact ⟨d, List.mem_singleton_self d, rfl, List.mem_singleton.mp hrequest⟩
    · rintro ⟨e, he, rfl, rfl⟩
      cases List.mem_singleton.mp he
      exact ⟨[d.request], List.mem_singleton_self _, List.mem_singleton_self _, rfl⟩

def parserOf {source : List UInt8} (parsed : Parsed source) : ModuleParser := fun _ text =>
  if h : text = source then some (h ▸ parsed) else none

theorem declares_parserOf {source : List UInt8} {d e : ImportDeclaration}
    {hplaced : Placed source d} {regions : List ScriptRegion} {region : ScriptRegion}
    (h : Declares (parserOf (parsedOne d hplaced)) regions region e) :
    region.source = source ∧ e = d := by
  obtain ⟨-, parsed, hparsed, he⟩ := h
  unfold parserOf at hparsed
  split at hparsed
  · rename_i hsource
    obtain ⟨filename, text, offset, runtime, shares⟩ := region
    dsimp only at hsource
    subst hsource
    cases hparsed
    exact ⟨rfl, List.mem_singleton.mp he⟩
  · cases hparsed

def mapImport : List Char := "import \x7b map \x7d from 'lodash';".toList

def mapDeclaration : ImportDeclaration where
  span := ⟨0, 29⟩
  specifier := "lodash"
  moduleSpan := ⟨20, 28⟩
  isType := false
  braces := some ⟨7, 13⟩
  bindings := [⟨.name "map", ⟨9, 12⟩, false⟩]

theorem mapDeclaration_placed : Placed (utf8 mapImport) mapDeclaration where
  slice := rfl
  lt := by decide
  braces braces hbraces := by
    cases hbraces
    decide

theorem completion_offers_map (cursor : Nat) :
    Offers (parserOf (parsedOne mapDeclaration mapDeclaration_placed)) "main.ts" mapImport
      cursor := by
  refine (completion_offers _ _ _).1 (fun region d hdeclares _ => ?_) cursor
  obtain ⟨hsource, rfl⟩ := declares_parserOf hdeclares
  rw [hsource]
  constructor
  · intro braces hbraces
    cases hbraces
    have hbefore : ∀ j, j < 7 → (utf8 mapImport)[j]? ≠ some openBrace := by decide
    have hwithin : ∀ j, j < 13 → (utf8 mapImport)[j]? ≠ some closeBrace := by decide
    exact ⟨fun j _ hj => hbefore j hj, fun j _ hj => hwithin j hj⟩
  · intro hnone
    cases hnone

def attributeImport : List Char := "import d from 'd' with \x7b type: 'json' \x7d;".toList

def attributeDeclaration : ImportDeclaration where
  span := ⟨0, 40⟩
  specifier := "d"
  moduleSpan := ⟨14, 17⟩
  isType := false
  braces := none
  bindings := [⟨.default, ⟨7, 8⟩, false⟩]

theorem attributeDeclaration_placed : Placed (utf8 attributeImport) attributeDeclaration where
  slice := rfl
  lt := by decide
  braces _ hnone := by cases hnone

/-- The exports of the module are offered between the braces of its attributes. -/
theorem attributes_completed :
    ¬ ∀ (parse : ModuleParser) (filename : String) (text : List Char) (cursor : Nat),
      Offers parse filename text cursor := by
  intro hoffers
  have hcontext : namedImportCompletionContext
      (parserOf (parsedOne attributeDeclaration attributeDeclaration_placed)) "main.ts"
        attributeImport 24 = some ⟨"d", [], .component⟩ := by
    decide +kernel
  obtain ⟨region, d, hdeclares, ⟨_, braces, hsome, _⟩, _⟩ :=
    (hoffers _ "main.ts" attributeImport 24).only _ hcontext
  obtain ⟨_, rfl⟩ := declares_parserOf hdeclares
  cases hsome

end ImportLens.Document
