import ImportLens.Pipeline.AssetCounting
import ImportLens.Support.PosixPath

/-!
# The resources of a stylesheet

`collect_referenced_assets` of `css_dependencies.rs`: every `url()` of a bundled
stylesheet is counted, disclosed with its size, or named as an omission or as external.

The file system and the deadline answer as they like, at every dependency anew.
-/

namespace ImportLens.Pipeline.CssDependencies

open ImportLens.Daemon ImportLens.Support AssetBudget AssetCounting PosixPath

/-! ## Dependencies -/

structure UrlDependency where
  url : String
  filePath : String
  deriving DecidableEq, Repr

structure ImportDependency where
  url : String
  filePath : String
  deriving DecidableEq, Repr

inductive Dependency
  | url (dependency : UrlDependency)
  | import (dependency : ImportDependency)
  deriving DecidableEq, Repr

/-! ## Specifiers -/

def isWhitespace (c : Char) : Bool :=
  (9 ≤ c.toNat && c.toNat ≤ 13) || (8192 ≤ c.toNat && c.toNat ≤ 8202) ||
    [32, 133, 160, 5760, 8232, 8233, 8239, 8287, 12288].contains c.toNat

def trim (value : List Char) : List Char :=
  ((value.dropWhile isWhitespace).reverse.dropWhile isWhitespace).reverse

/-- `to_ascii_lowercase().starts_with("data:")` -/
def isData (specifier : List Char) : Bool := "data:".toList.isPrefixOf (specifier.map Char.toLower)

def isSilent (specifier : List Char) : Bool :=
  specifier.isEmpty || specifier.head? == some '#' || isData specifier

def isSchemeCharacter (c : Char) : Bool := c.isAlphanum || c == '+' || c == '-' || c == '.'

def hasUrlScheme (value : List Char) : Bool :=
  if ':' ∈ value then
    match value.takeWhile fun c => c ≠ ':' with
    | [] => false
    | first :: characters =>
        !characters.isEmpty && first.isAlpha && characters.all isSchemeCharacter
  else false

def isRemoteReference (value : List Char) : Bool :=
  let value := trim value
  ['/', '/'].isPrefixOf value || hasUrlScheme value

def hexValue (value : UInt8) : Option UInt8 :=
  if 48 ≤ value ∧ value ≤ 57 then some (value - 48)
  else if 97 ≤ value ∧ value ≤ 102 then some (value - 97 + 10)
  else if 65 ≤ value ∧ value ≤ 70 then some (value - 65 + 10)
  else none

def percent : UInt8 := 37

def escapedByte (byte high low : UInt8) : Option UInt8 :=
  if byte = percent then do
    let high ← hexValue high
    let low ← hexValue low
    some (high <<< 4 ||| low)
  else none

/-- The loop of `decode_percent_encoded`. -/
def decodeBytes : List UInt8 → List UInt8
  | [] => []
  | [byte] => [byte]
  | [byte, next] => [byte, next]
  | byte :: high :: low :: rest =>
      match escapedByte byte high low with
      | some decoded => decoded :: decodeBytes rest
      | none => byte :: decodeBytes (high :: low :: rest)

def asBytes (value : String) : List UInt8 := value.toByteArray.data.toList

def decodePercentEncoded (value : String) : Option String :=
  String.fromUTF8? ⟨(decodeBytes (asBytes value)).toArray⟩

def resourcePath (specifier : List Char) : Option String :=
  let path := specifier.takeWhile fun c => c ≠ '?' ∧ c ≠ '#'
  (decodePercentEncoded (String.ofList path)).filter fun decoded => !decoded.isEmpty

/-! ## The kind of a file -/

def countedKind (path : String) : Option AssetKind :=
  (classifyAssetClass path).bind fun
    | .counted kind => if kind ∈ binaryKinds then some kind else none
    | .unmeasured => none

/-! ## The files of a dependency -/

/-- What the collection asks, at the dependency with a number. -/
structure Surroundings where
  shouldContinue : Nat → Bool
  canonicalize : Nat → String → Option String
  stat : Nat → String → Except String Nat
  readAsset : Nat → String → AssetKind → Except String CollectedAsset

inductive SupportedAsset
  | collected (asset : CollectedAsset)
  | unreadable (failure : CssDependencyFailure)
  | uncounted (asset : UncountedAsset)
  | omitted (message : String)
  | external (message : String)

def isNotInThisSize : String := " is fetched at runtime and is not in this size"

def externalImport (dependency : ImportDependency) : Option String :=
  if isData (trim dependency.url.toList) then none
  else some ("external CSS import `" ++ dependency.url ++ "` in " ++ dependency.filePath ++
    isNotInThisSize)

/-- What a `url()` is before any file is looked at: decided, or the path of a file. -/
inductive Reference
  | settled (outcome : Option SupportedAsset)
  | file (path : String)

def resourceMessage (dependency : UrlDependency) (what : String) : String :=
  "CSS resource `" ++ dependency.url ++ "` in " ++ dependency.filePath ++ what

def referenceOf (dependency : UrlDependency) : Reference :=
  let specifier := trim dependency.url.toList
  if isSilent specifier then .settled none
  else if isRemoteReference specifier then
    .settled (some (.external (resourceMessage dependency isNotInThisSize)))
  else
    match resourcePath specifier with
    | none =>
        .settled (some (.omitted (resourceMessage dependency
          (" could not be interpreted as a file name, so its shipped bytes are not in this " ++
            "size"))))
    | some resource =>
        if hasRoot resource || !hasRoot dependency.filePath then
          .settled (some (.omitted (resourceMessage dependency
            " is not package-relative, so its shipped bytes could not be located")))
        else
          match parent dependency.filePath with
          | none => .settled none
          | some directory => .file (join directory resource)

def canonicalPath (s : Surroundings) (time : Nat) (path : String) : String :=
  (s.canonicalize time path).getD
    ((do
      let directory ← parent path
      let name ← fileName path
      let canonical ← s.canonicalize time directory
      some (join canonical name)).getD path)

/-- `collect_supported_asset` from the canonical path on. -/
def examineFile (s : Surroundings) (time : Nat) (path : String) : SupportedAsset :=
  match s.stat time path with
  | .error _ =>
      .unreadable ⟨path, 0, "CSS resource " ++ path ++
        " could not be read, so its shipped bytes are not in this size"⟩
  | .ok rawBytes =>
      match countedKind path with
      | none => .uncounted ⟨path, rawBytes⟩
      | some kind =>
          match s.readAsset time path kind with
          | .ok asset => .collected asset
          | .error error =>
              .unreadable ⟨path, rawBytes, "failed to read CSS resource " ++ path ++ ": " ++ error⟩

def collectSupportedAsset (s : Surroundings) (time : Nat) (dependency : UrlDependency)
    (located : List (List Component)) : Option SupportedAsset × List (List Component) :=
  match referenceOf dependency with
  | .settled outcome => (outcome, located)
  | .file path =>
      if components path ∈ located then (none, located)
      else (some (examineFile s time (canonicalPath s time path)), components path :: located)

/-! ## The collection -/

structure Collection where
  assets : Keyed (List Component) CollectedAsset := ∅
  failures : Keyed (List Component) CssDependencyFailure := ∅
  uncounted : Keyed (List Component) UncountedAsset := ∅
  omissions : List String := []
  external : List String := []
  located : List (List Component) := []
  /-- History: what each examined dependency came to. -/
  outcomes : List (Option SupportedAsset) := []

def Collection.file (c : Collection) : Option SupportedAsset → Collection
  | some (.collected asset) => { c with assets := c.assets.orInsert (components asset.path) asset }
  | some (.unreadable failed) =>
      { c with failures := c.failures.insert (components failed.path) failed }
  | some (.uncounted asset) =>
      { c with uncounted := c.uncounted.orInsert (components asset.path) asset }
  | some (.omitted message) => { c with omissions := c.omissions.insert message }
  | some (.external message) => { c with external := c.external.insert message }
  | none => c

def Collection.record (c : Collection) (outcome : Option SupportedAsset) : Collection :=
  { c.file outcome with outcomes := c.outcomes ++ [outcome] }

def Collection.examine (s : Surroundings) (time : Nat) (c : Collection) :
    Dependency → Collection
  | .url dependency =>
      let (outcome, located) := collectSupportedAsset s time dependency c.located
      { c.record outcome with located := located }
  | .import dependency => c.record ((externalImport dependency).map SupportedAsset.external)

def examineAll (s : Surroundings) : Nat → List Dependency → Collection →
    Collection × List Dependency
  | _, [], c => (c, [])
  | time, dependency :: dependencies, c =>
      if s.shouldContinue time then
        examineAll s (time + 1) dependencies (c.examine s time dependency)
      else (c, dependency :: dependencies)

structure CssDependencyAssets where
  assets : List CollectedAsset
  failures : List CssDependencyFailure
  uncounted : List UncountedAsset
  omissions : List String
  external : List String

/-- `into_values` of a map that is ordered by its paths. -/
def intoValues {ν : Type} (table : Keyed (List Component) ν) : List ν :=
  (table.rows.mergeSort fun a b => (compare a.1 b.1).isLE).map Prod.snd

def intoMessages (messages : List String) : List String :=
  messages.mergeSort fun a b => (compare a b).isLE

def abandonedMessage (abandoned : Nat) : String :=
  toString abandoned ++ " CSS resource reference(s) were not examined because asset processing " ++
    "stopped early, so any bytes they ship are not in this size"

def collectReferencedAssets (s : Surroundings) (dependencies : List Dependency) :
    CssDependencyAssets :=
  let (c, rest) := examineAll s 0 dependencies {}
  let abandoned := rest.length
  let omissions :=
    if 0 < abandoned then c.omissions.insert (abandonedMessage abandoned) else c.omissions
  { assets := intoValues c.assets
    failures := intoValues c.failures
    uncounted := intoValues c.uncounted
    omissions := intoMessages omissions
    external := intoMessages c.external }

/-! ## Percent-encoding -/

/-- The second text encodes the first: a byte stands for itself, unless it is a percent
sign, or for its two hexadecimal digits in either case. -/
inductive PercentEncoded : List UInt8 → List UInt8 → Prop
  | nil : PercentEncoded [] []
  | plain {byte : UInt8} {value encoded : List UInt8} (hbyte : byte ≠ percent) :
      PercentEncoded value encoded → PercentEncoded (byte :: value) (byte :: encoded)
  | escaped {byte high low : UInt8} {value encoded : List UInt8}
      (hhigh : hexValue high = some (byte >>> 4)) (hlow : hexValue low = some (byte &&& 15)) :
      PercentEncoded value encoded →
        PercentEncoded (byte :: value) (percent :: high :: low :: encoded)

theorem nibbles (byte : UInt8) : (byte >>> 4) <<< 4 ||| byte &&& 15 = byte := by
  have hall : ∀ n : Fin 256, (UInt8.ofNat n.val >>> 4) <<< 4 ||| UInt8.ofNat n.val &&& 15 =
      UInt8.ofNat n.val := by
    decide +kernel
  have hbyte := hall ⟨byte.toNat, byte.toNat_lt⟩
  rw [UInt8.ofNat_toNat] at hbyte
  exact hbyte

theorem decodeBytes_cons {byte : UInt8} (h : byte ≠ percent) (rest : List UInt8) :
    decodeBytes (byte :: rest) = byte :: decodeBytes rest := by
  match rest with
  | [] => rfl
  | [_] => rfl
  | high :: low :: rest =>
    have hplain : escapedByte byte high low = none := by rw [escapedByte, if_neg h]
    rw [decodeBytes, hplain]

theorem decodeBytes_of_encoded {value encoded : List UInt8} (h : PercentEncoded value encoded) :
    decodeBytes encoded = value := by
  induction h with
  | nil => rfl
  | plain hbyte _ ih => rw [decodeBytes_cons hbyte, ih]
  | @escaped byte high low value encoded hhigh hlow _ ih =>
    have hescaped : escapedByte percent high low = some byte := by
      rw [escapedByte, if_pos rfl, hhigh, hlow]
      exact congrArg some (nibbles byte)
    rw [decodeBytes, hescaped]
    exact congrArg (byte :: ·) ih

theorem decodePercentEncoded_of_encoded {value encoded : String}
    (h : PercentEncoded (asBytes value) (asBytes encoded)) :
    decodePercentEncoded encoded = some value := by
  rw [decodePercentEncoded, decodeBytes_of_encoded h]
  exact dif_pos value.isValidUTF8

/-! ## What the collection says -/

/-- A table has a row of a path exactly if an outcome of its kind has the path. -/
structure Rows {ν : Type} (pathOf : ν → String) (kind : ν → SupportedAsset)
    (table : Keyed (List Component) ν) (outcomes : List (Option SupportedAsset)) : Prop where
  keys : table.All fun path row => components (pathOf row) = path
  lookup : ∀ path, (table.lookup path).isSome ↔
    ∃ row, some (kind row) ∈ outcomes ∧ components (pathOf row) = path

structure Messages (kind : String → SupportedAsset) (messages : List String)
    (outcomes : List (Option SupportedAsset)) : Prop where
  nodup : messages.Nodup
  mem : ∀ message, message ∈ messages ↔ some (kind message) ∈ outcomes

/-- The collection says what its dependencies came to. -/
structure Accounted (c : Collection) : Prop where
  assets : Rows FileSize.CollectedAsset.path .collected c.assets c.outcomes
  failures : Rows CssDependencyFailure.path .unreadable c.failures c.outcomes
  uncounted : Rows UncountedAsset.path .uncounted c.uncounted c.outcomes
  omissions : Messages .omitted c.omissions c.outcomes
  external : Messages .external c.external c.outcomes

section

variable {ν : Type} {pathOf : ν → String} {kind : ν → SupportedAsset}
  {table : Keyed (List Component) ν} {outcomes : List (Option SupportedAsset)}

theorem Rows.skip (h : Rows pathOf kind table outcomes) {outcome : Option SupportedAsset}
    (hother : ∀ row, outcome ≠ some (kind row)) :
    Rows pathOf kind table (outcomes ++ [outcome]) := by
  refine ⟨h.keys, fun path => (h.lookup path).trans ?_⟩
  constructor
  · rintro ⟨row, hmem, hpath⟩
    exact ⟨row, List.mem_append_left _ hmem, hpath⟩
  · rintro ⟨row, hmem, hpath⟩
    rcases List.mem_append.mp hmem with hmem | hmem
    · exact ⟨row, hmem, hpath⟩
    · exact absurd (List.mem_singleton.mp hmem).symm (hother row)

/-- A table that got a row for the path of an outcome. -/
theorem Rows.put (h : Rows pathOf kind table outcomes) (hkind : Function.Injective kind) {row : ν}
    {next : Keyed (List Component) ν}
    (hkeys : next.All fun path row => components (pathOf row) = path)
    (hlookup : ∀ path, (next.lookup path).isSome ↔
      path = components (pathOf row) ∨ (table.lookup path).isSome) :
    Rows pathOf kind next (outcomes ++ [some (kind row)]) := by
  refine ⟨hkeys, fun path => ?_⟩
  rw [hlookup, h.lookup]
  constructor
  · rintro (rfl | ⟨old, hmem, hpath⟩)
    · exact ⟨row, by simp, rfl⟩
    · exact ⟨old, List.mem_append_left _ hmem, hpath⟩
  · rintro ⟨old, hmem, hpath⟩
    rcases List.mem_append.mp hmem with hmem | hmem
    · exact Or.inr ⟨old, hmem, hpath⟩
    · cases hkind (Option.some.inj (List.mem_singleton.mp hmem))
      exact Or.inl hpath.symm

theorem isSome_lookup_insert (table : Keyed (List Component) ν) (key path : List Component)
    (row : ν) :
    ((table.insert key row).lookup path).isSome ↔ path = key ∨ (table.lookup path).isSome := by
  rw [Keyed.lookup_insert_eq]
  by_cases h : path = key
  · rw [if_pos h]
    exact iff_of_true rfl (Or.inl h)
  · rw [if_neg h]
    exact ⟨Or.inr, fun hor => hor.resolve_left h⟩

theorem isSome_lookup_orInsert (table : Keyed (List Component) ν) (key path : List Component)
    (row : ν) :
    ((table.orInsert key row).lookup path).isSome ↔ path = key ∨ (table.lookup path).isSome := by
  rw [Keyed.lookup_orInsert]
  by_cases h : path = key
  · rw [if_pos h]
    exact iff_of_true rfl (Or.inl h)
  · rw [if_neg h]
    exact ⟨Or.inr, fun hor => hor.resolve_left h⟩

theorem Messages.skip {kind : String → SupportedAsset} {messages : List String}
    (h : Messages kind messages outcomes) {outcome : Option SupportedAsset}
    (hother : ∀ message, outcome ≠ some (kind message)) :
    Messages kind messages (outcomes ++ [outcome]) := by
  refine ⟨h.nodup, fun message => ?_⟩
  rw [h.mem, List.mem_append, List.mem_singleton]
  exact ⟨Or.inl, fun hor => hor.resolve_right fun heq => hother message heq.symm⟩

theorem Messages.put {kind : String → SupportedAsset} {messages : List String}
    (h : Messages kind messages outcomes) (hkind : Function.Injective kind) (message : String) :
    Messages kind (messages.insert message) (outcomes ++ [some (kind message)]) := by
  refine ⟨h.nodup.insert, fun other => ?_⟩
  rw [List.mem_insert_iff, h.mem, List.mem_append, List.mem_singleton, Option.some_inj,
    hkind.eq_iff, or_comm]

end

theorem accounted_empty : Accounted {} := by
  have hrows : ∀ {ν : Type} {pathOf : ν → String} {kind : ν → SupportedAsset},
      Rows pathOf kind ∅ [] := by
    intro ν pathOf kind
    refine ⟨Keyed.all_empty _, fun path => ?_⟩
    simp
  exact ⟨hrows, hrows, hrows, ⟨List.nodup_nil, by simp⟩, ⟨List.nodup_nil, by simp⟩⟩

theorem accounted_record {c : Collection} (h : Accounted c) (outcome : Option SupportedAsset) :
    Accounted (c.record outcome) := by
  match outcome with
  | none =>
    exact ⟨h.assets.skip (by rintro _ ⟨⟩), h.failures.skip (by rintro _ ⟨⟩),
      h.uncounted.skip (by rintro _ ⟨⟩), h.omissions.skip (by rintro _ ⟨⟩),
      h.external.skip (by rintro _ ⟨⟩)⟩
  | some (.collected asset) =>
    refine ⟨?_, h.failures.skip (by rintro _ ⟨⟩), h.uncounted.skip (by rintro _ ⟨⟩),
      h.omissions.skip (by rintro _ ⟨⟩), h.external.skip (by rintro _ ⟨⟩)⟩
    exact h.assets.put (fun _ _ => SupportedAsset.collected.inj) (h.assets.keys.orInsert rfl)
      fun path => isSome_lookup_orInsert c.assets _ path asset
  | some (.unreadable failed) =>
    refine ⟨h.assets.skip (by rintro _ ⟨⟩), ?_, h.uncounted.skip (by rintro _ ⟨⟩),
      h.omissions.skip (by rintro _ ⟨⟩), h.external.skip (by rintro _ ⟨⟩)⟩
    exact h.failures.put (fun _ _ => SupportedAsset.unreadable.inj) (h.failures.keys.insert rfl)
      fun path => isSome_lookup_insert c.failures _ path failed
  | some (.uncounted asset) =>
    refine ⟨h.assets.skip (by rintro _ ⟨⟩), h.failures.skip (by rintro _ ⟨⟩), ?_,
      h.omissions.skip (by rintro _ ⟨⟩), h.external.skip (by rintro _ ⟨⟩)⟩
    exact h.uncounted.put (fun _ _ => SupportedAsset.uncounted.inj) (h.uncounted.keys.orInsert rfl)
      fun path => isSome_lookup_orInsert c.uncounted _ path asset
  | some (.omitted message) =>
    refine ⟨h.assets.skip (by rintro _ ⟨⟩), h.failures.skip (by rintro _ ⟨⟩),
      h.uncounted.skip (by rintro _ ⟨⟩), ?_, h.external.skip (by rintro _ ⟨⟩)⟩
    exact h.omissions.put (fun _ _ => SupportedAsset.omitted.inj) message
  | some (.external message) =>
    refine ⟨h.assets.skip (by rintro _ ⟨⟩), h.failures.skip (by rintro _ ⟨⟩),
      h.uncounted.skip (by rintro _ ⟨⟩), h.omissions.skip (by rintro _ ⟨⟩), ?_⟩
    exact h.external.put (fun _ _ => SupportedAsset.external.inj) message

theorem Accounted.relocate {c : Collection} (h : Accounted c) (located : List (List Component)) :
    Accounted { c with located := located } :=
  ⟨h.assets, h.failures, h.uncounted, h.omissions, h.external⟩

theorem accounted_examine (s : Surroundings) (time : Nat) {c : Collection} (h : Accounted c)
    (dependency : Dependency) : Accounted (c.examine s time dependency) := by
  cases dependency with
  | url dependency => exact (accounted_record h _).relocate _
  | «import» dependency => exact accounted_record h _

theorem accounted_examineAll (s : Surroundings) {time : Nat} {dependencies : List Dependency}
    {c : Collection} (h : Accounted c) : Accounted (examineAll s time dependencies c).1 := by
  induction dependencies generalizing time c with
  | nil => exact h
  | cons dependency dependencies ih =>
    rw [examineAll]
    split
    · exact ih (accounted_examine s time h dependency)
    · exact h

/-! ## What a dependency comes to -/

def examinedBy (s : Surroundings) : Nat → List Dependency → List Dependency
  | _, [] => []
  | time, dependency :: dependencies =>
      if s.shouldContinue time then dependency :: examinedBy s (time + 1) dependencies else []

/-- A local reference with a readable name that is not absolute, in a stylesheet that is
the root directory. -/
structure AtRoot (dependency : UrlDependency) : Prop where
  traced : isSilent (trim dependency.url.toList) = false
  shipped : isRemoteReference (trim dependency.url.toList) = false
  resource : ∃ name, resourcePath (trim dependency.url.toList) = some name ∧ hasRoot name = false
  root : components dependency.filePath = [.rootDir]

/-- The path is the one of an earlier `url()`. -/
def Examined (before : List Dependency) (path : List Component) : Prop :=
  ∃ earlier name, Dependency.url earlier ∈ before ∧ referenceOf earlier = .file name ∧
    components name = path

def Exempt (before : List Dependency) : Dependency → Prop
  | .url dependency =>
      isSilent (trim dependency.url.toList) = true ∨
        ∃ path, referenceOf dependency = .file path ∧ Examined before (components path)
  | .import dependency => isData (trim dependency.url.toList) = true

theorem referenceOf_eq_none_iff {dependency : UrlDependency} :
    referenceOf dependency = .settled none ↔
      isSilent (trim dependency.url.toList) = true ∨ AtRoot dependency := by
  simp only [referenceOf]
  split
  · rename_i hsilent
    exact iff_of_true rfl (Or.inl hsilent)
  · rename_i hsilent
    split
    · rename_i hremote
      refine iff_of_false (fun heq => by cases heq) ?_
      rintro (hsilent' | hroot)
      · exact hsilent hsilent'
      · rw [hroot.shipped] at hremote
        cases hremote
    · rename_i hremote
      split
      · rename_i hnone
        refine iff_of_false (fun heq => by cases heq) ?_
        rintro (hsilent' | hroot)
        · exact hsilent hsilent'
        · obtain ⟨name, hname, -⟩ := hroot.resource
          cases hnone.symm.trans hname
      · rename_i resource hresource
        split
        · rename_i hrooted
          refine iff_of_false (fun heq => by cases heq) ?_
          rintro (hsilent' | hroot)
          · exact hsilent hsilent'
          · obtain ⟨name, hname, hrelative⟩ := hroot.resource
            cases hresource.symm.trans hname
            rw [hrelative, hasRoot_of_components hroot.root] at hrooted
            cases hrooted
        · rename_i hplaced
          rw [Bool.or_eq_true, Bool.not_eq_true', not_or, Bool.not_eq_true, Bool.not_eq_false]
            at hplaced
          split
          · rename_i hparent
            refine iff_of_true rfl (Or.inr ⟨by simpa using hsilent, by simpa using hremote,
              ⟨resource, hresource, hplaced.1⟩, ?_⟩)
            exact (parent_eq_none_iff hplaced.2).mp hparent
          · rename_i directory hparent
            refine iff_of_false (fun heq => by cases heq) ?_
            rintro (hsilent' | hroot)
            · exact hsilent hsilent'
            · rw [(parent_eq_none_iff hplaced.2).mpr hroot.root] at hparent
              cases hparent

/-! ### Messages -/

def isFetched (message : String) : Bool :=
  isNotInThisSize.toList.reverse.isPrefixOf message.toList.reverse

theorem isFetched_append (start : String) : isFetched (start ++ isNotInThisSize) = true := by
  rw [isFetched, String.toList_append, List.reverse_append, List.isPrefixOf_iff_prefix]
  exact List.prefix_append _ _

theorem isFetched_append_of_ne {start finish : String} {units : List Char}
    (hunits : finish.toList.reverse = units)
    (h : ∀ rest, isNotInThisSize.toList.reverse.isPrefixOf (units ++ rest) = false) :
    isFetched (start ++ finish) = false := by
  rw [isFetched, String.toList_append, List.reverse_append, hunits]
  exact h _

theorem isFetched_abandonedMessage (abandoned : Nat) :
    isFetched (abandonedMessage abandoned) = false :=
  isFetched_append_of_ne rfl fun _ => rfl

/-- A reference that is decided without a file says so in a message of its kind. -/
theorem referenceOf_eq_some {dependency : UrlDependency} {outcome : SupportedAsset}
    (h : referenceOf dependency = .settled (some outcome)) :
    (∃ message, outcome = .omitted message ∧ isFetched message = false) ∨
      ∃ message, outcome = .external message ∧ isFetched message = true := by
  simp only [referenceOf] at h
  split at h
  · cases h
  · split at h
    · cases h
      exact Or.inr ⟨_, rfl, isFetched_append _⟩
    · split at h
      · cases h
        exact Or.inl ⟨_, rfl, isFetched_append_of_ne rfl fun _ => rfl⟩
      · split at h
        · cases h
          exact Or.inl ⟨_, rfl, isFetched_append_of_ne rfl fun _ => rfl⟩
        · split at h
          · cases h
          · cases h

/-! ### Runs -/

/-- A message of its kind, or what the file system said of a file. -/
def FromReference (s : Surroundings) (outcome : SupportedAsset) : Prop :=
  (∃ message, outcome = .omitted message ∧ isFetched message = false) ∨
    (∃ message, outcome = .external message ∧ isFetched message = true) ∨
    ∃ time path, outcome = examineFile s time path

/-- What is known when some dependencies have been examined. -/
structure Traced (s : Surroundings) (before : List Dependency) (c : Collection) : Prop where
  length : c.outcomes.length = before.length
  located : ∀ path, path ∈ c.located ↔ Examined before path
  outcome : ∀ (i : Nat) (dependency : Dependency), before[i]? = some dependency →
    (c.outcomes[i]? = some none ↔ Exempt (before.take i) dependency ∨
      ∃ root, dependency = .url root ∧ AtRoot root)
  sources : ∀ outcome, some outcome ∈ c.outcomes → FromReference s outcome

theorem examined_concat {before : List Dependency} {dependency : Dependency}
    {path : List Component} :
    Examined (before ++ [dependency]) path ↔ Examined before path ∨
      ∃ url name, dependency = .url url ∧ referenceOf url = .file name ∧
        components name = path := by
  constructor
  · rintro ⟨earlier, name, hmem, hfile, hpath⟩
    rcases List.mem_append.mp hmem with hmem | hmem
    · exact Or.inl ⟨earlier, name, hmem, hfile, hpath⟩
    · exact Or.inr ⟨earlier, name, (List.mem_singleton.mp hmem).symm, hfile, hpath⟩
  · rintro (⟨earlier, name, hmem, hfile, hpath⟩ | ⟨url, name, rfl, hfile, hpath⟩)
    · exact ⟨earlier, name, List.mem_append_left _ hmem, hfile, hpath⟩
    · exact ⟨url, name, by simp, hfile, hpath⟩

section

variable {s : Surroundings} {time : Nat} {before : List Dependency} {c : Collection}
  {dependency : Dependency}

def outcomeOf (s : Surroundings) (time : Nat) (located : List (List Component)) :
    Dependency → Option SupportedAsset
  | .url dependency => (collectSupportedAsset s time dependency located).1
  | .import dependency => (externalImport dependency).map SupportedAsset.external

theorem outcomes_examine : (c.examine s time dependency).outcomes =
    c.outcomes ++ [outcomeOf s time c.located dependency] := by
  cases dependency with
  | url dependency => rfl
  | «import» dependency => rfl

theorem located_file (c : Collection) (outcome : Option SupportedAsset) :
    (c.file outcome).located = c.located := by
  match outcome with
  | none => rfl
  | some (.collected _) => rfl
  | some (.unreadable _) => rfl
  | some (.uncounted _) => rfl
  | some (.omitted _) => rfl
  | some (.external _) => rfl

theorem located_examine_url (c : Collection) (dependency : UrlDependency) :
    (c.examine s time (.url dependency)).located =
      (collectSupportedAsset s time dependency c.located).2 := by
  simp only [Collection.examine]

theorem mem_located_examine {path : List Component} :
    path ∈ (c.examine s time dependency).located ↔ path ∈ c.located ∨
      ∃ url name, dependency = .url url ∧ referenceOf url = .file name ∧
        components name = path := by
  cases dependency with
  | «import» dependency =>
    rw [Collection.examine, Collection.record, located_file]
    simp
  | url dependency =>
    rw [located_examine_url, collectSupportedAsset]
    cases hreference : referenceOf dependency with
    | settled outcome => simp [hreference]
    | file name =>
      have hname : (∃ url other, Dependency.url dependency = .url url ∧
          referenceOf url = .file other ∧ components other = path) ↔ components name = path := by
        constructor
        · rintro ⟨url, other, heq, hother, rfl⟩
          cases heq
          cases hreference.symm.trans hother
          rfl
        · intro heq
          exact ⟨dependency, name, rfl, hreference, heq⟩
      rw [hname]
      change path ∈ (if components name ∈ c.located then _ else _ : _ × List (List Component)).2 ↔ _
      split
      · rename_i hmem
        exact ⟨Or.inl, fun hor => hor.elim id fun heq => heq ▸ hmem⟩
      · rw [List.mem_cons, or_comm, eq_comm]

theorem outcomeOf_eq_none_iff (h : Traced s before c) :
    outcomeOf s time c.located dependency = none ↔ Exempt before dependency ∨
      ∃ root, dependency = .url root ∧ AtRoot root := by
  cases dependency with
  | «import» dependency =>
    rw [outcomeOf, Option.map_eq_none_iff, externalImport, Exempt]
    split
    · rename_i hdata
      exact iff_of_true rfl (Or.inl hdata)
    · rename_i hdata
      refine iff_of_false (fun heq => by cases heq) ?_
      rintro (hdata' | ⟨root, heq, -⟩)
      · exact hdata hdata'
      · cases heq
  | url dependency =>
    have hroot : (∃ root, Dependency.url dependency = .url root ∧ AtRoot root) ↔
        AtRoot dependency := by
      constructor
      · rintro ⟨root, heq, hroot⟩
        cases heq
        exact hroot
      · exact fun hroot => ⟨dependency, rfl, hroot⟩
    rw [hroot, outcomeOf, collectSupportedAsset, Exempt, or_right_comm, ← referenceOf_eq_none_iff]
    cases hreference : referenceOf dependency with
    | settled outcome => simp
    | file name =>
      have hexamined : (∃ path, Reference.file name = .file path ∧
          Examined before (components path)) ↔ components name ∈ c.located := by
        rw [h.located]
        constructor
        · rintro ⟨path, heq, hpath⟩
          cases heq
          exact hpath
        · exact fun hpath => ⟨name, rfl, hpath⟩
      rw [hexamined]
      by_cases hmem : components name ∈ c.located
      · exact iff_of_true (by simp only [hmem, if_true]) (Or.inr hmem)
      · refine iff_of_false (by simp only [hmem, if_false, not_false_eq_true, reduceCtorEq]) ?_
        rintro (heq | hmem')
        · cases heq
        · exact hmem hmem'

theorem outcomeOf_eq_some {outcome : SupportedAsset}
    (h : outcomeOf s time c.located dependency = some outcome) : FromReference s outcome := by
  cases dependency with
  | «import» dependency =>
    obtain ⟨message, hmessage, rfl⟩ := Option.map_eq_some_iff.mp h
    rw [externalImport] at hmessage
    split at hmessage
    · cases hmessage
    · cases hmessage
      exact Or.inr (Or.inl ⟨_, rfl, isFetched_append _⟩)
  | url dependency =>
    rw [outcomeOf, collectSupportedAsset] at h
    cases hreference : referenceOf dependency with
    | settled settled =>
      rw [hreference] at h
      change settled = some outcome at h
      rw [h] at hreference
      rcases referenceOf_eq_some hreference with homitted | hexternal
      · exact Or.inl homitted
      · exact Or.inr (Or.inl hexternal)
    | file name =>
      rw [hreference] at h
      simp only at h
      split at h
      · cases h
      · cases h
        exact Or.inr (Or.inr ⟨time, _, rfl⟩)

theorem traced_empty : Traced s [] {} := by
  refine ⟨rfl, fun path => ?_, ?_, ?_⟩
  · simp [Examined]
  · intro i dependency hat
    cases hat
  · intro outcome hmem
    cases hmem

theorem traced_examine (h : Traced s before c) :
    Traced s (before ++ [dependency]) (c.examine s time dependency) := by
  refine ⟨?_, fun path => ?_, fun i other hat => ?_, fun outcome hmem => ?_⟩
  · rw [outcomes_examine, List.length_append, List.length_append, h.length]
    rfl
  · rw [mem_located_examine, examined_concat, h.located]
  · rw [outcomes_examine]
    by_cases hi : i < before.length
    · rw [List.getElem?_append_left hi] at hat
      rw [List.getElem?_append_left (by rw [h.length]; exact hi),
        List.take_append_of_le_length (by omega)]
      exact h.outcome i other hat
    · have hlast : i = before.length := by
        have hlt := (List.getElem?_eq_some_iff.mp hat).1
        rw [List.length_append, List.length_singleton] at hlt
        omega
      subst hlast
      rw [List.getElem?_concat_length] at hat
      cases hat
      rw [← h.length, List.getElem?_concat_length, Option.some_inj, h.length, List.take_left']
      · exact outcomeOf_eq_none_iff h
      · rfl
  · rw [outcomes_examine, List.mem_append, List.mem_singleton] at hmem
    rcases hmem with hmem | heq
    · exact h.sources outcome hmem
    · exact outcomeOf_eq_some heq.symm

theorem traced_examineAll {dependencies : List Dependency} (h : Traced s before c) :
    Traced s (before ++ examinedBy s time dependencies) (examineAll s time dependencies c).1 ∧
      dependencies = examinedBy s time dependencies ++ (examineAll s time dependencies c).2 := by
  induction dependencies generalizing time before c with
  | nil =>
    rw [examinedBy, List.append_nil]
    exact ⟨h, rfl⟩
  | cons dependency dependencies ih =>
    rw [examinedBy, examineAll]
    split
    · have hnext := @ih (time + 1) (before ++ [dependency]) (c.examine s time dependency)
        (traced_examine h)
      rw [List.append_assoc, List.singleton_append] at hnext
      exact ⟨hnext.1, congrArg (dependency :: ·) hnext.2⟩
    · rw [List.append_nil]
      exact ⟨h, rfl⟩

end

/-! ### Consistent answers -/

/-- The file system says of each file the same whenever it is asked. -/
structure Consistent (s : Surroundings) : Prop where
  stat : ∀ t t' path path', components path = components path' →
    (s.stat t path).isOk = (s.stat t' path').isOk
  read : ∀ t t' path path' kind, components path = components path' →
    (s.readAsset t path kind).isOk = (s.readAsset t' path' kind).isOk
  path : ∀ t path kind asset, s.readAsset t path kind = .ok asset →
    components asset.path = components path

inductive Field
  | assets
  | failures
  | uncounted
  | omissions
  | external
  deriving DecidableEq, Repr

def SupportedAsset.field : SupportedAsset → Field
  | .collected _ => .assets
  | .unreadable _ => .failures
  | .uncounted _ => .uncounted
  | .omitted _ => .omissions
  | .external _ => .external

def SupportedAsset.path : SupportedAsset → Option String
  | .collected asset => some asset.path
  | .unreadable failed => some failed.path
  | .uncounted asset => some asset.path
  | .omitted _ => none
  | .external _ => none

theorem countedKind_congr {path other : String} (h : components path = components other) :
    countedKind path = countedKind other := by
  rw [countedKind, countedKind, classifyAssetClass, classifyAssetClass, extension_congr h]

section

variable {s : Surroundings}

theorem field_examineFile (hs : Consistent s) {t t' : Nat} {path path' : String}
    (h : components path = components path') :
    (examineFile s t path).field = (examineFile s t' path').field := by
  have hstat := hs.stat t t' path path' h
  rw [examineFile, examineFile, countedKind_congr h]
  cases hfirst : s.stat t path with
  | error error =>
    cases hsecond : s.stat t' path' with
    | error error' => rfl
    | ok bytes =>
      rw [hfirst, hsecond] at hstat
      cases hstat
  | ok bytes =>
    cases hsecond : s.stat t' path' with
    | error error =>
      rw [hfirst, hsecond] at hstat
      cases hstat
    | ok bytes' =>
      cases hkind : countedKind path' with
      | none => rfl
      | some kind =>
        have hread := hs.read t t' path path' kind h
        cases hfirstRead : s.readAsset t path kind with
        | error error =>
          cases hsecondRead : s.readAsset t' path' kind with
          | error error' => simp only [hfirstRead, hsecondRead]; rfl
          | ok asset =>
            rw [hfirstRead, hsecondRead] at hread
            cases hread
        | ok asset =>
          cases hsecondRead : s.readAsset t' path' kind with
          | error error =>
            rw [hfirstRead, hsecondRead] at hread
            cases hread
          | ok asset' => simp only [hfirstRead, hsecondRead]; rfl

theorem path_examineFile (hs : Consistent s) {t : Nat} {path : String} :
    (examineFile s t path).path.map components = some (components path) := by
  rw [examineFile]
  split
  · rfl
  · split
    · rfl
    · split
      · rename_i asset hread
        exact congrArg some (hs.path t path _ asset hread)
      · rfl

theorem isSome_path_examineFile (t : Nat) (path : String) :
    (examineFile s t path).path.isSome = true := by
  rw [examineFile]
  split
  · rfl
  · split
    · rfl
    · split
      · rfl
      · rfl

/-- An outcome without a file is a message of its kind. -/
theorem FromReference.fetched {outcome : SupportedAsset} (h : FromReference s outcome)
    (hnone : outcome.path = none) :
    (∃ message, outcome = .omitted message ∧ isFetched message = false) ∨
      ∃ message, outcome = .external message ∧ isFetched message = true := by
  rcases h with homitted | hexternal | ⟨t, path, rfl⟩
  · exact Or.inl homitted
  · exact Or.inr hexternal
  · have hsome := @isSome_path_examineFile s t path
    rw [hnone] at hsome
    cases hsome

/-- Two outcomes of one path are in one field. -/
theorem field_eq_of_path (hs : Consistent s) {first second : SupportedAsset}
    (hfirst : FromReference s first) (hsecond : FromReference s second) {path : List Component}
    (hfirstPath : first.path.map components = some path)
    (hsecondPath : second.path.map components = some path) : first.field = second.field := by
  have hfile : ∀ outcome, FromReference s outcome → outcome.path.map components = some path →
      ∃ t name, outcome = examineFile s t name ∧ components name = path := by
    rintro outcome (⟨message, rfl, -⟩ | ⟨message, rfl, -⟩ | ⟨t, name, rfl⟩) hpath
    · cases hpath
    · cases hpath
    · rw [path_examineFile hs] at hpath
      exact ⟨t, name, rfl, Option.some.inj hpath⟩
  obtain ⟨t, name, rfl, rfl⟩ := hfile first hfirst hfirstPath
  obtain ⟨t', name', rfl, hname⟩ := hfile second hsecond hsecondPath
  exact field_examineFile hs hname.symm

end

/-! ## The result -/

theorem map_intoValues {ν : Type} {pathOf : ν → String} {table : Keyed (List Component) ν}
    (hkeys : table.All fun path row => components (pathOf row) = path) :
    ((intoValues table).map fun row => components (pathOf row)).Perm (table.rows.map Prod.fst) := by
  have hrows : (table.rows.map fun row => components (pathOf row.2)) = table.rows.map Prod.fst := by
    apply List.map_congr_left
    intro row hrow
    exact hkeys row.1 row.2 (Keyed.mem_rows.mp hrow)
  rw [intoValues, List.map_map, ← hrows]
  exact (List.mergeSort_perm table.rows _).map _

namespace CssDependencyAssets

variable (result : CssDependencyAssets)

def assetPaths : List (List Component) := result.assets.map fun row => components row.path

def failurePaths : List (List Component) := result.failures.map fun row => components row.path

def uncountedPaths : List (List Component) := result.uncounted.map fun row => components row.path

def Has : SupportedAsset → Prop
  | .collected asset => components asset.path ∈ result.assetPaths
  | .unreadable failed => components failed.path ∈ result.failurePaths
  | .uncounted asset => components asset.path ∈ result.uncountedPaths
  | .omitted message => message ∈ result.omissions
  | .external message => message ∈ result.external

/-- One row for each path or message, and no message that is both. -/
structure Single : Prop where
  assets : result.assetPaths.Nodup
  failures : result.failurePaths.Nodup
  uncounted : result.uncountedPaths.Nodup
  omissions : result.omissions.Nodup
  external : result.external.Nodup
  messages : result.omissions.Disjoint result.external

/-- No path is in two fields. -/
structure Apart : Prop where
  assetsFailures : result.assetPaths.Disjoint result.failurePaths
  assetsUncounted : result.assetPaths.Disjoint result.uncountedPaths
  failuresUncounted : result.failurePaths.Disjoint result.uncountedPaths

end CssDependencyAssets

section

variable {ν : Type} {pathOf : ν → String} {kind : ν → SupportedAsset}
  {table : Keyed (List Component) ν} {outcomes : List (Option SupportedAsset)}

theorem Rows.nodup (h : Rows pathOf kind table outcomes) :
    ((intoValues table).map fun row => components (pathOf row)).Nodup :=
  (map_intoValues h.keys).nodup_iff.mpr (Keyed.nodup_rows_keys table)

theorem Rows.mem (h : Rows pathOf kind table outcomes) {path : List Component} :
    (path ∈ (intoValues table).map fun row => components (pathOf row)) ↔
      ∃ row, some (kind row) ∈ outcomes ∧ components (pathOf row) = path := by
  rw [(map_intoValues h.keys).mem_iff, Keyed.mem_rows_keys, h.lookup]

end

section

variable (s : Surroundings) (dependencies : List Dependency)

def collected : Collection := (examineAll s 0 dependencies {}).1

theorem traced_collected : Traced s (examinedBy s 0 dependencies) (collected s dependencies) := by
  exact (@traced_examineAll s 0 [] {} dependencies traced_empty).1

theorem accounted_collected : Accounted (collected s dependencies) :=
  accounted_examineAll s accounted_empty

theorem length_examinedBy :
    (examineAll s 0 dependencies {}).2.length =
      dependencies.length - (examinedBy s 0 dependencies).length := by
  have h := (@traced_examineAll s 0 [] {} dependencies traced_empty).2
  have hlength := congrArg List.length h
  rw [List.length_append] at hlength
  omega

theorem omissions_perm :
    (collectReferencedAssets s dependencies).omissions.Perm
      (if 0 < (examineAll s 0 dependencies {}).2.length then
        (collected s dependencies).omissions.insert
          (abandonedMessage (examineAll s 0 dependencies {}).2.length)
      else (collected s dependencies).omissions) :=
  List.mergeSort_perm _ _

theorem mem_omissions {message : String} :
    message ∈ (collectReferencedAssets s dependencies).omissions ↔
      message ∈ (collected s dependencies).omissions ∨
        (examinedBy s 0 dependencies).length < dependencies.length ∧
          message = abandonedMessage
            (dependencies.length - (examinedBy s 0 dependencies).length) := by
  rw [(omissions_perm s dependencies).mem_iff, length_examinedBy]
  split
  · rename_i hpos
    rw [List.mem_insert_iff, or_comm]
    have hlt : (examinedBy s 0 dependencies).length < dependencies.length := by omega
    simp only [hlt, true_and]
  · rename_i hzero
    have hnot : ¬ (examinedBy s 0 dependencies).length < dependencies.length := by omega
    simp only [hnot, false_and, or_false]

theorem mem_external {message : String} :
    message ∈ (collectReferencedAssets s dependencies).external ↔
      message ∈ (collected s dependencies).external :=
  (List.mergeSort_perm _ _).mem_iff

theorem has_of_mem_outcomes {outcome : SupportedAsset}
    (h : some outcome ∈ (collected s dependencies).outcomes) :
    (collectReferencedAssets s dependencies).Has outcome := by
  have haccounted := accounted_collected s dependencies
  cases outcome with
  | collected asset => exact haccounted.assets.mem.mpr ⟨asset, h, rfl⟩
  | unreadable failed => exact haccounted.failures.mem.mpr ⟨failed, h, rfl⟩
  | uncounted asset => exact haccounted.uncounted.mem.mpr ⟨asset, h, rfl⟩
  | omitted message =>
    exact (mem_omissions s dependencies).mpr (Or.inl ((haccounted.omissions.mem message).mpr h))
  | external message =>
    exact (mem_external s dependencies).mpr ((haccounted.external.mem message).mpr h)

theorem single_collectReferencedAssets : (collectReferencedAssets s dependencies).Single := by
  have haccounted := accounted_collected s dependencies
  have hsources := (traced_collected s dependencies).sources
  refine ⟨haccounted.assets.nodup, haccounted.failures.nodup, haccounted.uncounted.nodup,
    ?_, ?_, ?_⟩
  · rw [(omissions_perm s dependencies).nodup_iff]
    split
    · exact haccounted.omissions.nodup.insert
    · exact haccounted.omissions.nodup
  · exact (List.mergeSort_perm _ _).nodup_iff.mpr haccounted.external.nodup
  · intro message homitted hexternal
    rw [mem_external, haccounted.external.mem] at hexternal
    have hfetched : isFetched message = true := by
      rcases (hsources _ hexternal).fetched rfl with ⟨_, heq, -⟩ | ⟨_, heq, hfetched⟩
      · cases heq
      · cases heq
        exact hfetched
    have hunfetched : isFetched message = false := by
      rcases (mem_omissions s dependencies).mp homitted with homitted | ⟨-, rfl⟩
      · rw [haccounted.omissions.mem] at homitted
        rcases (hsources _ homitted).fetched rfl with ⟨_, heq, hunfetched⟩ | ⟨_, heq, -⟩
        · cases heq
          exact hunfetched
        · cases heq
      · exact isFetched_abandonedMessage _
    rw [hfetched] at hunfetched
    cases hunfetched

theorem apart_collectReferencedAssets (hs : Consistent s) :
    (collectReferencedAssets s dependencies).Apart := by
  have haccounted := accounted_collected s dependencies
  have hsources := (traced_collected s dependencies).sources
  constructor
  · intro path hasset hfailure
    obtain ⟨asset, hasset, hassetPath⟩ := haccounted.assets.mem.mp hasset
    obtain ⟨failed, hfailed, hfailedPath⟩ := haccounted.failures.mem.mp hfailure
    have hfield := field_eq_of_path hs (hsources _ hasset) (hsources _ hfailed)
      (congrArg some hassetPath) (congrArg some hfailedPath)
    cases hfield
  · intro path hasset huncounted
    obtain ⟨asset, hasset, hassetPath⟩ := haccounted.assets.mem.mp hasset
    obtain ⟨media, hmedia, hmediaPath⟩ := haccounted.uncounted.mem.mp huncounted
    have hfield := field_eq_of_path hs (hsources _ hasset) (hsources _ hmedia)
      (congrArg some hassetPath) (congrArg some hmediaPath)
    cases hfield
  · intro path hfailure huncounted
    obtain ⟨failed, hfailed, hfailedPath⟩ := haccounted.failures.mem.mp hfailure
    obtain ⟨media, hmedia, hmediaPath⟩ := haccounted.uncounted.mem.mp huncounted
    have hfield := field_eq_of_path hs (hsources _ hfailed) (hsources _ hmedia)
      (congrArg some hfailedPath) (congrArg some hmediaPath)
    cases hfield

end

/-- Every reference that is examined lands in a field, exactly if none of them needs the
parent of the root directory. -/
theorem collect_referenced_assets_accounts_iff (s : Surroundings)
    (dependencies : List Dependency) :
    ((∀ (i : Nat) (dependency : Dependency),
        (examinedBy s 0 dependencies)[i]? = some dependency →
        ¬ Exempt ((examinedBy s 0 dependencies).take i) dependency →
          ∃ outcome, (collected s dependencies).outcomes[i]? = some (some outcome) ∧
            (collectReferencedAssets s dependencies).Has outcome) ↔
      ∀ dependency, Dependency.url dependency ∈ examinedBy s 0 dependencies →
        ¬ AtRoot dependency) ∧
    ((examinedBy s 0 dependencies).length < dependencies.length →
      abandonedMessage (dependencies.length - (examinedBy s 0 dependencies).length) ∈
        (collectReferencedAssets s dependencies).omissions) ∧
    (collectReferencedAssets s dependencies).Single ∧
    (Consistent s → (collectReferencedAssets s dependencies).Apart) ∧
    ∀ value encoded, PercentEncoded (asBytes value) (asBytes encoded) →
      decodePercentEncoded encoded = some value := by
  have htraced := traced_collected s dependencies
  refine ⟨⟨fun hall dependency hmem hroot => ?_, fun hall i dependency hat hexempt => ?_⟩,
    fun hlt => (mem_omissions s dependencies).mpr (Or.inr ⟨hlt, rfl⟩),
    single_collectReferencedAssets s dependencies, apart_collectReferencedAssets s dependencies,
    fun value encoded => decodePercentEncoded_of_encoded⟩
  · obtain ⟨i, hat⟩ := List.mem_iff_getElem?.mp hmem
    have hnone := (htraced.outcome i _ hat).mpr (Or.inr ⟨dependency, rfl, hroot⟩)
    have hexempt : ¬ Exempt ((examinedBy s 0 dependencies).take i) (.url dependency) := by
      rintro (hsilent | ⟨path, hpath, -⟩)
      · rw [hroot.traced] at hsilent
        cases hsilent
      · rw [referenceOf_eq_none_iff.mpr (Or.inr hroot)] at hpath
        cases hpath
    obtain ⟨outcome, houtcome, -⟩ := hall i _ hat hexempt
    rw [hnone] at houtcome
    cases houtcome
  · have hlt : i < (collected s dependencies).outcomes.length := by
      rw [htraced.length]
      exact (List.getElem?_eq_some_iff.mp hat).1
    have hget := List.getElem?_eq_getElem hlt
    cases houtcome : (collected s dependencies).outcomes[i] with
    | none =>
      rw [houtcome] at hget
      rcases (htraced.outcome i dependency hat).mp hget with hexempt' | ⟨root, rfl, hroot⟩
      · exact absurd hexempt' hexempt
      · exact absurd hroot (hall root (List.mem_iff_getElem?.mpr ⟨i, hat⟩))
    | some outcome =>
      rw [houtcome] at hget
      exact ⟨outcome, hget, has_of_mem_outcomes s dependencies
        (List.mem_iff_getElem?.mpr ⟨i, hget⟩)⟩

def onlySizes : Surroundings where
  shouldContinue := fun _ => true
  canonicalize := fun _ path => some path
  stat := fun _ _ => .ok 16
  readAsset := fun _ _ _ => .error "permission denied"

/-- `url(a.woff2)` in a stylesheet that is the root directory. -/
def fontOfRoot : UrlDependency := ⟨"a.woff2", "/"⟩

theorem fontOfRoot_leaves_no_trace :
    (examinedBy onlySizes 0 [.url fontOfRoot])[0]? = some (.url fontOfRoot) ∧
      ¬ Exempt ((examinedBy onlySizes 0 [.url fontOfRoot]).take 0) (.url fontOfRoot) ∧
      ¬ ∃ outcome, (collected onlySizes [.url fontOfRoot]).outcomes[0]? = some (some outcome) := by
  have hroot : AtRoot fontOfRoot :=
    ⟨by decide, by decide, ⟨"a.woff2", by decide, by decide⟩, by decide⟩
  refine ⟨rfl, ?_, ?_⟩
  · rintro (hsilent | ⟨path, hpath, -⟩)
    · rw [hroot.traced] at hsilent
      cases hsilent
    · rw [referenceOf_eq_none_iff.mpr (Or.inr hroot)] at hpath
      cases hpath
  · rintro ⟨outcome, houtcome⟩
    have hnone := ((traced_collected onlySizes [.url fontOfRoot]).outcome 0 (.url fontOfRoot)
      rfl).mpr (Or.inr ⟨fontOfRoot, rfl, hroot⟩)
    rw [hnone] at houtcome
    cases houtcome

end ImportLens.Pipeline.CssDependencies
