import ImportLens.Document.Imports
import ImportLens.Support.Json
import Mathlib.Data.String.Basic

/-!
# Dependencies of a manifest

The scanner of `document/package_json.rs` finds the tokens of the dependency members in
the text of a `package.json`.  The JSON parser tells it whether the text is JSON, which
sections there are, and what a string token says.
-/

namespace ImportLens.Document.PackageJson

open ImportLens.Support

/-! ## The parser -/

/-- `serde_json::from_str`, to a `Value` and to a `String`. -/
structure SerdeJson where
  fromStrValue : List Char → Option Json.Value
  fromStrString : List Char → Option String

def asObject : Json.Value → Option (List (String × Json.Value))
  | .object rows => some rows
  | _ => none

/-! ## Tokens -/

structure PackageJsonDependencyEntry where
  name : String
  version : String
  sectionName : String
  range : SourceRange
  nameRange : SourceRange
  valueRange : SourceRange
  deriving DecidableEq, Repr

def dependencySectionNames : List String :=
  ["dependencies", "devDependencies", "peerDependencies", "optionalDependencies"]

def isDependencySectionName (value : String) : Bool := dependencySectionNames.contains value

structure JsonStringToken where
  value : String
  start : Nat
  finish : Nat
  deriving DecidableEq, Repr

structure DependencySectionObject where
  sectionName : String
  keyStart : Nat
  keyEnd : Nat
  objectStart : Nat
  objectEnd : Nat
  deriving DecidableEq, Repr

def isJsonWhitespace (byte : UInt8) : Bool :=
  byte = byteOf ' ' || byte = byteOf '\n' || byte = byteOf '\r' || byte = byteOf '\t'

def skipWhitespace (bytes : List UInt8) (offset : Nat) : Nat :=
  offset + ((bytes.drop offset).takeWhile isJsonWhitespace).length

def stringRound (bytes : List UInt8) (current : Nat) : Option Nat :=
  bytes[current]?.bind fun byte =>
    if byte = byteOf '\\' then some (current + 2)
    else if byte = byteOf '"' then none
    else some (current + 1)

section

variable (serde : SerdeJson) (text : List Char)

def readJsonString (start : Nat) : Option JsonStringToken :=
  if (utf8 text)[start]? = some (byteOf '"') then
    (rounds (stringRound (utf8 text)) ((utf8 text).length + 1) (start + 1)).bind fun current =>
      if (utf8 text)[current]? = some (byteOf '"') then
        ((sliceText text start (current + 1)).bind serde.fromStrString).map fun value =>
          ⟨value, start, current + 1⟩
      else none
  else none

/-- The parser has refused what is nested too deep for an `i32`. -/
structure ObjectScan where
  current : Nat
  depth : Int := 0

/-- The loop stops at the brace that closes the object, at a string that cannot be read,
or at the end of the text. -/
def objectRound (scan : ObjectScan) : Option ObjectScan :=
  (utf8 text)[scan.current]?.bind fun byte =>
    if byte = byteOf '"' then
      (readJsonString serde text scan.current).map fun token =>
        { scan with current := token.finish }
    else if byte = byteOf '\x7b' then some ⟨scan.current + 1, scan.depth + 1⟩
    else if byte = byteOf '\x7d' then
      if scan.depth - 1 = 0 then none else some ⟨scan.current + 1, scan.depth - 1⟩
    else some ⟨scan.current + 1, scan.depth⟩

def matchingObjectEnd (objectStart : Nat) : Option Nat :=
  (rounds (objectRound serde text) ((utf8 text).length + 1) ⟨objectStart, 0⟩).bind fun scan =>
    if (utf8 text)[scan.current]? = some (byteOf '\x7d') then some (scan.current + 1) else none

/-! ## The two walks -/

structure Walk (β : Type) where
  current : Nat
  depth : Int := 0
  found : List β := []

/-- One round of a walk up to `limit`, which looks at every string at the depth it stands
at.  A string that cannot be read ends the walk. -/
def walkRound {β : Type} (limit : Nat) (visit : Int → JsonStringToken → Option β)
    (walk : Walk β) : Option (Walk β) :=
  if walk.current < limit then
    (utf8 text)[walk.current]?.bind fun byte =>
      if byte = byteOf '"' then
        (readJsonString serde text walk.current).map fun token =>
          { walk with
            current := token.finish
            found := walk.found ++ (visit walk.depth token).toList }
      else if byte = byteOf '\x7b' || byte = byteOf '[' then
        some { walk with current := walk.current + 1, depth := walk.depth + 1 }
      else if byte = byteOf '\x7d' || byte = byteOf ']' then
        some { walk with current := walk.current + 1, depth := walk.depth - 1 }
      else some { walk with current := walk.current + 1 }
  else none

def walkStrings {β : Type} (start limit : Nat) (visit : Int → JsonStringToken → Option β) :
    List β :=
  (rounds (walkRound serde text limit visit) (limit + 1) ⟨start, 0, []⟩).elim [] Walk.found

def visitSection (depth : Int) (token : JsonStringToken) : Option DependencySectionObject :=
  let colonOffset := skipWhitespace (utf8 text) token.finish
  if depth = 1 && (utf8 text)[colonOffset]? = some (byteOf ':') &&
      isDependencySectionName token.value then
    let objectStart := skipWhitespace (utf8 text) (colonOffset + 1)
    (if (utf8 text)[objectStart]? = some (byteOf '\x7b') then
      matchingObjectEnd serde text objectStart
      else none).map fun objectEnd =>
        ⟨token.value, token.start, token.finish, objectStart, objectEnd⟩
  else none

def dependencySectionObjects : List DependencySectionObject :=
  walkStrings serde text 0 (utf8 text).length (visitSection serde text)

/-- What the walk through one section makes of a string; the entry is `none` where
`range_from_offsets` has no position. -/
def visitDependency (lineIndex : LineIndex) (sectionName : String) (depth : Int)
    (token : JsonStringToken) : Option (Option PackageJsonDependencyEntry) :=
  let colonOffset := skipWhitespace (utf8 text) token.finish
  let valueStart := skipWhitespace (utf8 text) (colonOffset + 1)
  let valueToken :=
    if (utf8 text)[colonOffset]? = some (byteOf ':') then readJsonString serde text valueStart
    else none
  if depth = 1 then
    valueToken.map fun value => do
      let nameRange ← lineIndex.rangeFromOffsets text token.start token.finish
      let valueRange ← lineIndex.rangeFromOffsets text value.start value.finish
      return {
        name := token.value
        version := value.value
        sectionName := sectionName
        range := nameRange
        nameRange := nameRange
        valueRange := valueRange }
  else none

def dependencyEntriesForSection (lineIndex : LineIndex) (object : DependencySectionObject) :
    List (Option PackageJsonDependencyEntry) :=
  walkStrings serde text object.objectStart object.objectEnd
    (visitDependency serde text lineIndex object.sectionName)

def entryOrder (left right : PackageJsonDependencyEntry) : Bool :=
  left.range.start.line < right.range.start.line ||
    (left.range.start.line = right.range.start.line && left.name ≤ right.name)

def entriesOf (lineIndex : LineIndex) (root : List (String × Json.Value))
    (object : DependencySectionObject) : List (Option PackageJsonDependencyEntry) :=
  match (root.lookup object.sectionName).bind asObject with
  | none => []
  | some dependencies =>
      if dependencies.isEmpty then []
      else dependencyEntriesForSection serde text lineIndex object

/-- `none` is a panic. -/
def packageJsonDependencyEntries : Option (List PackageJsonDependencyEntry) :=
  match (serde.fromStrValue text).bind asObject with
  | none => some []
  | some root =>
      (((dependencySectionObjects serde text).flatMap
        (entriesOf serde text (LineIndex.new text) root)).mapM id).map fun entries =>
          entries.mergeSort entryOrder

end

end ImportLens.Document.PackageJson
