import ImportLens.Document.PackageJsonWalk

/-!
# The entries of a manifest

What the scanner answers is read off the syntax tree of the manifest: an entry for every
member with a string value of every dependency section that is an object.
-/

namespace ImportLens.Document.PackageJson

open ImportLens.Support ImportLens.Support.Json

/-! ## What the tree says -/

def positionOf (before after : List Token) : SourcePosition :=
  ⟨asU32 (lineAndColumn (render before) (render after)).1,
    asU32 (lineAndColumn (render before) (render after)).2⟩

def rangeOf (before : List Token) (token : Token) (after : List Token) : SourceRange :=
  ⟨positionOf before (token :: after), positionOf (before ++ [token]) after⟩

def sectionObject (p : Place) : DependencySectionObject :=
  ⟨p.member.key.decode, width p.keyFront, width (p.keyFront ++ [.string p.member.key]),
    width p.treeFront, width (p.treeFront ++ p.member.tree.tokens)⟩

def entryOf (sectionName : String) (p : Place) : Option PackageJsonDependencyEntry :=
  match p.member.tree with
  | .string version => some {
      name := p.member.key.decode
      version := version.decode
      sectionName := sectionName
      range := rangeOf p.keyFront (.string p.member.key) p.keyBack
      nameRange := rangeOf p.keyFront (.string p.member.key) p.keyBack
      valueRange := rangeOf p.treeFront (.string version) p.treeBack }
  | _ => none

def dependencyEntries (doc : Json.Document) : List PackageJsonDependencyEntry :=
  doc.places.flatMap fun row =>
    if isDependencySectionName row.member.key.decode then
      row.inside.filterMap (entryOf row.member.key.decode)
    else []

/-! ## Positions -/

theorem rangeFromOffsets_token {tokens before after : List Token} {token : Token}
    (htokens : tokens = before ++ token :: after) :
    (LineIndex.new (render tokens)).rangeFromOffsets (render tokens) (width before)
      (width (before ++ [token])) = some (rangeOf before token after) := by
  have hstart := positionAt_boundary (render before) (render (token :: after))
  have hfinish := positionAt_boundary (render (before ++ [token])) (render after)
  have hall : before ++ token :: after = before ++ [token] ++ after := by simp
  rw [← render_append, ← htokens] at hstart
  rw [← render_append, ← hall, ← htokens] at hfinish
  rw [LineIndex.rangeFromOffsets, width, width, hstart, hfinish]
  rfl

/-! ## What a tree starts with -/

/-- The first character of a tree tells a string and an object. -/
structure StartsWith (tree : Tree) (t : Token) : Prop where
  space : isJsonWhitespace (byteOf t.first) = false
  quote : byteOf t.first = byteOf '"' ↔ ∃ s, tree = .string s
  brace : byteOf t.first = byteOf '\x7b' ↔ ∃ rows, tree.value = .object rows

theorem startsWith_atom {tree : Tree} (c : Atom) (hstring : ∀ s, tree ≠ .string s)
    (hobject : ∀ rows, tree.value ≠ .object rows) : StartsWith tree (.atom c) := by
  have hne : ∀ d : Char, isAtom d = false → d.toNat < 128 → byteOf c.val ≠ byteOf d :=
    fun d => isAtom_ne c
  constructor
  · simp [isJsonWhitespace, Token.first, hne ' ' (by decide) (by decide),
      hne '\n' (by decide) (by decide), hne '\r' (by decide) (by decide),
      hne '\t' (by decide) (by decide)]
  · constructor
    · intro h
      exact absurd h (hne '"' (by decide) (by decide))
    · rintro ⟨s, hs⟩
      exact absurd hs (hstring s)
  · constructor
    · intro h
      exact absurd h (hne '\x7b' (by decide) (by decide))
    · rintro ⟨rows, hrows⟩
      exact absurd hrows (hobject rows)

theorem exists_startsWith (tree : Tree) :
    ∃ t rest, tree.tokens = t :: rest ∧ StartsWith tree t := by
  cases tree with
  | name name =>
    have hobject : ∀ rows, (Tree.name name).value ≠ .object rows := by
      cases name <;> rintro _ ⟨⟩
    cases name <;>
      exact ⟨_, _, rfl, startsWith_atom _ (by rintro _ ⟨⟩) hobject⟩
  | number number =>
    have hatoms : ∃ c rest, number.atoms = c :: rest := by
      obtain ⟨negative, integer, fraction, exponent⟩ := number
      cases negative <;> cases integer <;> exact ⟨_, _, rfl⟩
    obtain ⟨c, rest, hrest⟩ := hatoms
    refine ⟨.atom c, rest.map Token.atom, ?_, ?_⟩
    · rw [Tree.tokens, hrest]
      rfl
    · exact startsWith_atom c (by rintro _ ⟨⟩) (by rintro _ ⟨⟩)
  | string s =>
    have hspace : isJsonWhitespace (byteOf '"') = false := by decide
    have hbrace : byteOf '"' ≠ byteOf '\x7b' := by decide
    refine ⟨.string s, [], rfl, hspace, ?_, ?_⟩
    · exact ⟨fun _ => ⟨s, rfl⟩, fun _ => rfl⟩
    · exact ⟨fun h => absurd h hbrace, by rintro ⟨_, ⟨⟩⟩⟩
  | emptyArray inside =>
    refine ⟨_, _, rfl, by decide, ?_, ?_⟩
    · exact ⟨fun h => absurd h (by decide), by rintro ⟨_, ⟨⟩⟩⟩
    · exact ⟨fun h => absurd h (by decide), by rintro ⟨_, ⟨⟩⟩⟩
  | array elements =>
    refine ⟨_, _, rfl, by decide, ?_, ?_⟩
    · exact ⟨fun h => absurd h (by decide), by rintro ⟨_, ⟨⟩⟩⟩
    · exact ⟨fun h => absurd h (by decide), by rintro ⟨_, ⟨⟩⟩⟩
  | emptyObject inside =>
    refine ⟨_, _, rfl, by decide, ?_, ?_⟩
    · exact ⟨fun h => absurd h (by decide), by rintro ⟨_, ⟨⟩⟩⟩
    · exact ⟨fun _ => ⟨_, rfl⟩, fun _ => rfl⟩
  | object members =>
    refine ⟨_, _, rfl, by decide, ?_, ?_⟩
    · exact ⟨fun h => absurd h (by decide), by rintro ⟨_, ⟨⟩⟩⟩
    · exact ⟨fun _ => ⟨_, rfl⟩, fun _ => rfl⟩

theorem asObject_eq_none {value : Value} (h : ∀ rows, value ≠ .object rows) :
    asObject value = none := by
  cases value with
  | object rows => exact absurd rfl (h rows)
  | _ => rfl

/-! ## What the walks make of a key -/

variable {serde : SerdeJson} {text : List Char}

theorem keyVisit_visitSection (serde : SerdeJson) (text : List Char) :
    KeyVisit text (visitSection serde text) := by
  constructor
  · intro depth token hdepth
    simp [visitSection, hdepth]
  · intro depth token hcolon
    simp [visitSection, hcolon]

theorem keyVisit_visitDependency (serde : SerdeJson) (text : List Char) (lineIndex : LineIndex)
    (sectionName : String) : KeyVisit text (visitDependency serde text lineIndex sectionName) := by
  constructor
  · intro depth token hdepth
    simp [visitDependency, hdepth]
  · intro depth token hcolon
    simp [visitDependency, hcolon]

/-- Behind a key stands the colon, and behind it the tree. -/
structure KeyAt (text : List Char) (p : Place) (colonOffset : Nat) : Prop where
  skip : skipWhitespace (utf8 text) (tokenAt p.keyFront p.member.key).finish = colonOffset
  colon : (utf8 text)[colonOffset]? = some (byteOf ':')
  tree : skipWhitespace (utf8 text) (colonOffset + 1) = width p.treeFront

theorem exists_keyAt {tokens : List Token} (p : Place)
    (htokens : p.before ++ p.member.tokens ++ p.after = tokens) :
    ∃ colonOffset, KeyAt (render tokens) p colonOffset := by
  obtain ⟨t, rest, htree, hstarts⟩ := exists_startsWith p.member.tree
  let colon := p.keyFront ++ [.string p.member.key] ++ spaces p.member.afterKey
  have hcolon : tokens = colon ++ .mark .colon :: (spaces p.member.beforeTree ++
      p.member.tree.tokens ++ spaces p.member.after ++ p.after) := by
    rw [← htokens, p.key_tokens, Place.keyBack]
    simp [colon]
  have hvalue : tokens = colon ++ [.mark .colon] ++ spaces p.member.beforeTree ++
      t :: (rest ++ p.treeBack) := by
    rw [hcolon, htree, Place.treeBack]
    simp
  have hfront : colon ++ [.mark .colon] ++ spaces p.member.beforeTree = p.treeFront := by
    simp [colon, Place.treeFront, Place.keyFront, Member.head]
  have hskip := skipWhitespace_spaces (congrArg render hcolon) (by decide)
  have hskipTree := skipWhitespace_spaces (congrArg render hvalue) hstarts.space
  refine ⟨width colon, hskip, ?_, ?_⟩
  · rw [hcolon]
    exact byteAt colon (.mark .colon) _
  · rw [← hfront, ← hskipTree, width_append colon, width_mark]

theorem byteAt_tree {tokens : List Token} (p : Place)
    (htokens : p.before ++ p.member.tokens ++ p.after = tokens) :
    ∃ t, (utf8 (render tokens))[width p.treeFront]? = some (byteOf t.first) ∧
      StartsWith p.member.tree t := by
  obtain ⟨t, rest, htree, hstarts⟩ := exists_startsWith p.member.tree
  have hvalue : tokens = p.treeFront ++ t :: (rest ++ p.treeBack) := by
    rw [← htokens, p.tree_tokens, htree]
    simp
  refine ⟨t, ?_, hstarts⟩
  rw [hvalue]
  exact byteAt _ t _

section

variable {tokens : List Token} (hstrings : ∀ s, .string s ∈ tokens →
  serde.fromStrString s.text = some s.decode)

include hstrings

/-- The walk through a section makes an entry of a member. -/
theorem visitDependency_place (sectionName : String) (p : Place)
    (htokens : p.before ++ p.member.tokens ++ p.after = tokens) :
    visitDependency serde (render tokens) (LineIndex.new (render tokens)) sectionName 1
      (tokenAt p.keyFront p.member.key) = (entryOf sectionName p).map some := by
  obtain ⟨colonOffset, hskip, hcolon, htree⟩ := exists_keyAt p htokens
  have hname := rangeFromOffsets_token (htokens.symm.trans p.key_tokens)
  rw [visitDependency, hskip, htree, if_pos rfl, if_pos hcolon]
  by_cases hstring : ∃ version, p.member.tree = .string version
  · obtain ⟨version, hversion⟩ := hstring
    have hvalue : tokens = p.treeFront ++ .string version :: p.treeBack := by
      rw [← htokens, p.tree_tokens, hversion, Tree.tokens]
      simp
    have hread := readJsonString_token (congrArg render hvalue)
      (hstrings version (by rw [hvalue]; simp))
    have hrange := rangeFromOffsets_token hvalue
    have hentry : entryOf sectionName p = some {
        name := p.member.key.decode
        version := version.decode
        sectionName := sectionName
        range := rangeOf p.keyFront (.string p.member.key) p.keyBack
        nameRange := rangeOf p.keyFront (.string p.member.key) p.keyBack
        valueRange := rangeOf p.treeFront (.string version) p.treeBack } := by
      rw [entryOf, hversion]
    rw [hread, Option.map_some, hentry, Option.map_some, tokenAt]
    dsimp only
    rw [hname, hrange]
    rfl
  · have hentry : entryOf sectionName p = none := by
      unfold entryOf
      split
      · rename_i version hversion
        exact absurd ⟨version, hversion⟩ hstring
      · rfl
    obtain ⟨t, hat, hstarts⟩ := byteAt_tree p htokens
    have hquote : (utf8 (render tokens))[width p.treeFront]? ≠ some (byteOf '"') := by
      rw [hat]
      intro hsame
      exact hstring (hstarts.quote.mp (Option.some.inj hsame))
    rw [readJsonString, if_neg hquote, hentry]
    rfl

theorem matchingObjectEnd_tree {tree : Tree} {rows : List (String × Value)}
    (h : tree.value = .object rows) {before rest : List Token}
    (htokens : tokens = before ++ tree.tokens ++ rest) :
    matchingObjectEnd serde (render tokens) (width before) =
      some (width (before ++ tree.tokens)) := by
  cases tree with
  | object members =>
    rw [Tree.tokens] at htokens ⊢
    exact matchingObjectEnd_object hstrings htokens (balanced_members counts_braces members)
  | emptyObject inside =>
    rw [Tree.tokens] at htokens ⊢
    exact matchingObjectEnd_object hstrings htokens (balanced_spaces counts_braces inside)
  | name name => cases name <;> cases h
  | _ => cases h

/-- The walk through the text makes a section of a member. -/
theorem visitSection_place (p : Place)
    (htokens : p.before ++ p.member.tokens ++ p.after = tokens) :
    visitSection serde (render tokens) 1 (tokenAt p.keyFront p.member.key) =
      if isDependencySectionName p.member.key.decode then
        (asObject p.member.tree.value).map fun _ => sectionObject p
      else none := by
  obtain ⟨colonOffset, hskip, hcolon, htree⟩ := exists_keyAt p htokens
  obtain ⟨t, hat, hstarts⟩ := byteAt_tree p htokens
  have hdecode : (tokenAt p.keyFront p.member.key).value = p.member.key.decode := rfl
  rw [visitSection, hskip, htree, hcolon, hdecode]
  by_cases hname : isDependencySectionName p.member.key.decode = true
  · rw [if_pos hname, if_pos (by simp [hname])]
    dsimp only
    by_cases hobject : ∃ rows, p.member.tree.value = .object rows
    · obtain ⟨rows, hrows⟩ := hobject
      have hend := matchingObjectEnd_tree hstrings hrows (htokens.symm.trans p.tree_tokens)
      have hbrace : (utf8 (render tokens))[width p.treeFront]? = some (byteOf '\x7b') := by
        rw [hat, hstarts.brace.mpr ⟨rows, hrows⟩]
      rw [if_pos hbrace, hend, hrows]
      rfl
    · have hbrace : (utf8 (render tokens))[width p.treeFront]? ≠ some (byteOf '\x7b') := by
        rw [hat]
        intro hsame
        exact hobject (hstarts.brace.mp (Option.some.inj hsame))
      rw [if_neg hbrace, asObject_eq_none (not_exists.mp hobject)]
      rfl
  · rw [if_neg hname, if_neg (by simp [hname])]

/-! ## The walks -/

/-- The walk through the text finds the sections among the members of the root. -/
theorem dependencySectionObjects_eq {doc : Json.Document} (hdoc : doc.tokens = tokens)
    {rows : List (String × Value)} (hroot : doc.root.value = .object rows) :
    dependencySectionObjects serde (render tokens) = doc.places.filterMap fun p =>
      if isDependencySectionName p.member.key.decode then
        (asObject p.member.tree.value).map fun _ => sectionObject p
      else none := by
  have htokens : tokens = spaces doc.leading ++ doc.root.tokens ++ spaces doc.trailing := hdoc.symm
  have hvisit := keyVisit_visitSection serde (render tokens)
  have hlimit : width (spaces doc.leading ++ doc.root.tokens) ≤ width tokens := by
    rw [htokens, width_append _ (spaces doc.trailing)]
    exact Nat.le_add_right _ _
  have hleadingLimit : width (spaces doc.leading) ≤ width tokens := by
    rw [width_append] at hlimit
    omega
  have hleading : tokens = [] ++ spaces doc.leading ++
      (doc.root.tokens ++ spaces doc.trailing) := by
    rw [htokens, List.append_assoc]
    rfl
  have hstart := leads_still serde (visitSection serde (render tokens)) (still_spaces doc.leading) 0
    [] hleading hleadingLimit
  have hwalk := leads_places hstrings hvisit doc.root [] ⟨rows, hroot⟩ htokens hlimit
  have hfound : doc.places.filterMap (fun p =>
      visitSection serde (render tokens) 1 (tokenAt p.keyFront p.member.key)) =
        doc.places.filterMap fun p =>
          if isDependencySectionName p.member.key.decode then
            (asObject p.member.tree.value).map fun _ => sectionObject p
          else none := by
    apply List.filterMap_congr
    intro p hp
    exact visitSection_place hstrings p ((Tree.place_tokens hp).trans hdoc)
  have hall : width (spaces doc.leading ++ doc.root.tokens ++ spaces doc.trailing) ≤
      width tokens := by
    rw [← htokens]
  have htrailing := leads_still serde (visitSection serde (render tokens))
    (still_spaces doc.trailing) 0 ([] ++ doc.places.filterMap fun p =>
      visitSection serde (render tokens) 1 (tokenAt p.keyFront p.member.key))
    (htokens.trans (List.append_nil _).symm) hall
  have hleads := (hstart.trans hwalk).trans htrailing
  rw [← htokens, List.nil_append, hfound] at hleads
  exact walkStrings_eq hleads

/-- The walk through a section finds the entries of its members. -/
theorem dependencyEntriesForSection_eq {p : Place}
    (htokens : p.before ++ p.member.tokens ++ p.after = tokens)
    {rows : List (String × Value)} (hobject : p.member.tree.value = .object rows) :
    dependencyEntriesForSection serde (render tokens) (LineIndex.new (render tokens))
      (sectionObject p) = (p.inside.filterMap (entryOf p.member.key.decode)).map some := by
  have htree : tokens = p.treeFront ++ p.member.tree.tokens ++ p.treeBack :=
    htokens.symm.trans p.tree_tokens
  have hvisit := keyVisit_visitDependency serde (render tokens) (LineIndex.new (render tokens))
    p.member.key.decode
  have hwalk := leads_places hstrings hvisit p.member.tree [] ⟨rows, hobject⟩ htree
    (Nat.le_refl _)
  have hfound : p.inside.filterMap (fun q =>
      visitDependency serde (render tokens) (LineIndex.new (render tokens)) p.member.key.decode 1
        (tokenAt q.keyFront q.member.key)) =
      (p.inside.filterMap (entryOf p.member.key.decode)).map some := by
    rw [List.map_filterMap]
    apply List.filterMap_congr
    intro q hq
    exact visitDependency_place hstrings _ q ((Tree.place_tokens hq).trans htree.symm)
  rw [← hfound]
  exact walkStrings_eq hwalk

end

/-! ## The entries -/

theorem lookup_of_nodup {rows : List (String × Value)} (h : (rows.map Prod.fst).Nodup)
    {key : String} {value : Value} (hmem : (key, value) ∈ rows) : rows.lookup key = some value := by
  induction rows with
  | nil => cases hmem
  | cons row rows ih =>
    obtain ⟨hnew, hrows⟩ := List.nodup_cons.mp h
    rcases List.mem_cons.mp hmem with heq | hlater
    · rw [← heq, List.lookup_cons_self]
    · have hkey : key ∈ rows.map Prod.fst := List.mem_map_of_mem hlater
      have hne : (key == row.1) = false := by
        apply beq_false_of_ne
        rintro rfl
        exact hnew hkey
      rw [List.lookup_cons, hne]
      exact ih hrows hlater

/-- What is taken of `serde_json` for one document: it reads the text, and the strings. -/
structure Parses (serde : SerdeJson) (doc : Json.Document) : Prop where
  value : serde.fromStrValue doc.text = some doc.root.value
  string : ∀ s, .string s ∈ doc.tokens → serde.fromStrString s.text = some s.decode

theorem entriesOf_sectionObject {doc : Json.Document} (hparses : Parses serde doc)
    (hkeys : doc.root.KeysDistinct) {rows : List (String × Value)}
    (hroot : doc.root.value = .object rows) {p : Place} (hp : p ∈ doc.places)
    {inner : List (String × Value)} (hobject : p.member.tree.value = .object inner) :
    entriesOf serde doc.text (LineIndex.new doc.text) rows (sectionObject p) =
      (p.inside.filterMap (entryOf p.member.key.decode)).map some := by
  have hrows := Tree.map_places hroot (spaces doc.leading) (spaces doc.trailing)
  have hnodup : (rows.map Prod.fst).Nodup := by
    cases hdoc : doc.root with
    | object members =>
      rw [hdoc, Tree.KeysDistinct] at hkeys
      rw [hdoc, Tree.value, Value.object.injEq] at hroot
      rw [← hroot]
      exact hkeys.1
    | emptyObject inside =>
      rw [hdoc, Tree.value, Value.object.injEq] at hroot
      rw [← hroot]
      exact List.nodup_nil
    | name name =>
      rw [hdoc] at hroot
      cases name <;> cases hroot
    | _ =>
      rw [hdoc] at hroot
      cases hroot
  have hmem : (p.member.key.decode, p.member.tree.value) ∈ rows := by
    rw [← hrows]
    exact List.mem_map_of_mem hp
  have hlookup : rows.lookup (sectionObject p).sectionName = some (.object inner) := by
    rw [← hobject]
    exact lookup_of_nodup hnodup hmem
  have hinside := Tree.map_places hobject p.treeFront p.treeBack
  rw [entriesOf, hlookup, Option.bind_some, asObject]
  cases inner with
  | nil =>
    have hempty : p.inside = [] := List.map_eq_nil_iff.mp hinside
    rw [hempty]
    rfl
  | cons row inner =>
    exact dependencyEntriesForSection_eq hparses.string (Tree.place_tokens hp) hobject

theorem packageJsonDependencyEntries_eq {doc : Json.Document} (hparses : Parses serde doc)
    (hkeys : doc.root.KeysDistinct) :
    packageJsonDependencyEntries serde doc.text =
      some ((dependencyEntries doc).mergeSort entryOrder) := by
  by_cases hobject : ∃ rows, doc.root.value = .object rows
  · obtain ⟨rows, hroot⟩ := hobject
    have hentries : (dependencySectionObjects serde doc.text).flatMap
        (entriesOf serde doc.text (LineIndex.new doc.text) rows) =
        (dependencyEntries doc).map some := by
      rw [Json.Document.text, dependencySectionObjects_eq hparses.string rfl hroot,
        dependencyEntries, List.map_flatMap, List.filterMap_eq_flatMap_toList, List.flatMap_assoc]
      apply List.flatMap_congr
      intro p hp
      by_cases hname : isDependencySectionName p.member.key.decode = true
      · rw [if_pos hname, if_pos hname]
        by_cases hvalue : ∃ inner, p.member.tree.value = .object inner
        · obtain ⟨inner, hinner⟩ := hvalue
          have hsection := entriesOf_sectionObject hparses hkeys hroot hp hinner
          rw [hinner, asObject, Option.map_some, Option.toList_some, List.flatMap_singleton]
          exact hsection
        · have hnone := not_exists.mp hvalue
          have hinside : p.inside = [] := Tree.places_eq_nil hnone _ _
          rw [asObject_eq_none hnone, hinside]
          rfl
      · rw [if_neg hname, if_neg hname]
        rfl
    have hall : ((dependencyEntries doc).map some).mapM id = some (dependencyEntries doc) := by
      rw [List.mapM_map]
      exact List.mapM_pure.trans (congrArg some (List.map_id _))
    rw [packageJsonDependencyEntries, hparses.value, Option.bind_some, hroot, asObject]
    dsimp only
    rw [hentries, hall]
    rfl
  · have hnone := not_exists.mp hobject
    have hplaces : doc.places = [] := Tree.places_eq_nil hnone _ _
    rw [packageJsonDependencyEntries, hparses.value, Option.bind_some, asObject_eq_none hnone,
      dependencyEntries, hplaces, List.flatMap_nil, List.mergeSort_nil]

/-- The scanner finds exactly the members with a string value of the dependency sections, each
with what its strings say and with where its key and its value stand. -/
theorem package_json_entries_of_tree {doc : Json.Document} (hparses : Parses serde doc)
    (hkeys : doc.root.KeysDistinct) :
    ∃ entries, packageJsonDependencyEntries serde doc.text = some entries ∧
      entries.Perm (dependencyEntries doc) :=
  ⟨_, packageJsonDependencyEntries_eq hparses hkeys, List.mergeSort_perm _ _⟩

/-! A manifest with a section name and braces inside a string. -/

def letters (s : String) (h : ∀ c ∈ s.toList, c ≠ '"' ∧ c ≠ '\\' ∧ 32 ≤ c.toNat) : StringToken :=
  s.toList.attach.map fun c => .plain c.val (h c.val c.property)

def noteKey : StringToken := letters "note" (by simp)

def noteValue : StringToken :=
  [.escape .quote] ++ letters "dependencies" (by simp) ++ [.escape .quote] ++
    letters ":\x7b\x7d" (by simp)

def sectionKey : StringToken := letters "dependencies" (by simp)

def nameKey : StringToken := letters "a" (by simp)

def versionValue : StringToken := letters "1" (by simp)

def notedManifest : Json.Document :=
  ⟨[], .object (.cons [] noteKey [] [] (.string noteValue) []
    (.last [.lineFeed] sectionKey [] [] (.object (.last [] nameKey [] [] (.string versionValue) []))
      [])), []⟩

def notedSerde : SerdeJson where
  fromStrValue text := if text = notedManifest.text then some notedManifest.root.value else none
  fromStrString text :=
    if text = noteKey.text then some noteKey.decode
    else if text = noteValue.text then some noteValue.decode
    else if text = sectionKey.text then some sectionKey.decode
    else if text = nameKey.text then some nameKey.decode
    else if text = versionValue.text then some versionValue.decode
    else none

def stringOf : Token → Option StringToken
  | .string s => some s
  | _ => none

theorem package_json_entries_of_noted_manifest :
    (∃ entries, packageJsonDependencyEntries notedSerde notedManifest.text = some entries ∧
      entries.Perm (dependencyEntries notedManifest)) ∧
    dependencyEntries notedManifest = [{
      name := "a"
      version := "1"
      sectionName := "dependencies"
      range := ⟨⟨1, 16⟩, ⟨1, 19⟩⟩
      nameRange := ⟨⟨1, 16⟩, ⟨1, 19⟩⟩
      valueRange := ⟨⟨1, 20⟩, ⟨1, 23⟩⟩ }] := by
  constructor
  · apply package_json_entries_of_tree
    · constructor
      · simp [notedSerde]
      · have hall : ∀ s ∈ notedManifest.tokens.filterMap stringOf,
            notedSerde.fromStrString s.text = some s.decode := by
          decide
        exact fun s hs => hall s (List.mem_filterMap.mpr ⟨_, hs, rfl⟩)
    · rw [notedManifest, Tree.KeysDistinct, Members.KeysDistinct, Members.KeysDistinct,
        Tree.KeysDistinct, Members.KeysDistinct]
      have hroot : [noteKey.decode, sectionKey.decode].Nodup := by decide
      exact ⟨hroot, trivial, List.nodup_singleton _, trivial⟩
  · decide

end ImportLens.Document.PackageJson
