import Mathlib.Data.List.Basic

/-!
# JSON texts

The grammar of JSON as a type of its concrete syntax trees, so that every tree is a valid
text and every valid text is one of a tree.  A tree keeps the spaces and the spelling of
strings and numbers.  It has a value, and a text by way of tokens: the strings, and the
single characters outside them.
-/

namespace ImportLens.Support.Json

/-! ## Strings -/

inductive SimpleEscape
  | quote
  | backslash
  | slash
  | backspace
  | formFeed
  | lineFeed
  | carriageReturn
  | tab
  deriving DecidableEq, Repr

def SimpleEscape.letter : SimpleEscape → Char
  | .quote => '"'
  | .backslash => '\\'
  | .slash => '/'
  | .backspace => 'b'
  | .formFeed => 'f'
  | .lineFeed => 'n'
  | .carriageReturn => 'r'
  | .tab => 't'

def SimpleEscape.meaning : SimpleEscape → Char
  | .quote => '"'
  | .backslash => '\\'
  | .slash => '/'
  | .backspace => Char.ofNat 8
  | .formFeed => Char.ofNat 12
  | .lineFeed => '\n'
  | .carriageReturn => '\r'
  | .tab => '\t'

structure HexDigit where
  value : Fin 16
  upper : Bool
  deriving DecidableEq, Repr

def HexDigit.char (digit : HexDigit) : Char :=
  Char.ofNat <|
    if digit.value < 10 then 48 + digit.value
    else if digit.upper then 55 + digit.value
    else 87 + digit.value

/-- The four digits of a `\u` escape. -/
structure CodeUnit where
  first : HexDigit
  second : HexDigit
  third : HexDigit
  fourth : HexDigit
  deriving DecidableEq, Repr

def CodeUnit.value (unit : CodeUnit) : Nat :=
  ((unit.first.value * 16 + unit.second.value) * 16 + unit.third.value) * 16 + unit.fourth.value

def CodeUnit.text (unit : CodeUnit) : List Char :=
  ['\\', 'u', unit.first.char, unit.second.char, unit.third.char, unit.fourth.char]

/-- One character of a string.  A surrogate without its partner names no character. -/
inductive StringItem
  | plain (c : Char) (h : c ≠ '"' ∧ c ≠ '\\' ∧ 32 ≤ c.toNat)
  | escape (e : SimpleEscape)
  | unit (u : CodeUnit) (h : u.value < 0xD800 ∨ 0xE000 ≤ u.value)
  | pair (high low : CodeUnit) (hhigh : 0xD800 ≤ high.value ∧ high.value < 0xDC00)
      (hlow : 0xDC00 ≤ low.value ∧ low.value < 0xE000)
  deriving DecidableEq, Repr

def StringItem.text : StringItem → List Char
  | .plain c _ => [c]
  | .escape e => ['\\', e.letter]
  | .unit u _ => u.text
  | .pair high low _ _ => high.text ++ low.text

def StringItem.meaning : StringItem → Char
  | .plain c _ => c
  | .escape e => e.meaning
  | .unit u _ => Char.ofNat u.value
  | .pair high low _ _ => Char.ofNat (0x10000 + (high.value - 0xD800) * 1024 + (low.value - 0xDC00))

abbrev StringToken : Type := List StringItem

def StringToken.inside (s : StringToken) : List Char := s.flatMap StringItem.text

def StringToken.text (s : StringToken) : List Char := '"' :: (s.inside ++ ['"'])

def StringToken.decode (s : StringToken) : String := String.ofList (s.map StringItem.meaning)

/-! ## Numbers, names and spaces -/

inductive Space
  | space
  | tab
  | lineFeed
  | carriageReturn
  deriving DecidableEq, Repr

def Space.char : Space → Char
  | .space => ' '
  | .tab => '\t'
  | .lineFeed => '\n'
  | .carriageReturn => '\r'

def isAtom (c : Char) : Bool := c.isAlphanum || c = '+' || c = '-' || c = '.'

abbrev Atom : Type := { c : Char // isAtom c = Bool.true }

def digitAtom (digit : Fin 10) : Atom := ⟨Char.ofNat (48 + digit), by revert digit; decide⟩

structure Digits where
  first : Fin 10
  rest : List (Fin 10)
  deriving DecidableEq, Repr

def Digits.atoms (digits : Digits) : List Atom := (digits.first :: digits.rest).map digitAtom

inductive IntegerPart
  | zero
  | positive (first : Fin 9) (rest : List (Fin 10))
  deriving DecidableEq, Repr

def IntegerPart.atoms : IntegerPart → List Atom
  | .zero => [digitAtom 0]
  | .positive first rest => (first.succ :: rest).map digitAtom

structure Exponent where
  upper : Bool
  /-- `true` for a minus sign. -/
  sign : Option Bool
  digits : Digits
  deriving DecidableEq, Repr

def minus : Atom := ⟨'-', by decide⟩

def signAtoms : Option Bool → List Atom
  | none => []
  | some true => [minus]
  | some false => [⟨'+', by decide⟩]

def Exponent.atoms (exponent : Exponent) : List Atom :=
  (if exponent.upper then ⟨'E', by decide⟩ else ⟨'e', by decide⟩) ::
    (signAtoms exponent.sign ++ exponent.digits.atoms)

structure Number where
  negative : Bool
  integer : IntegerPart
  fraction : Option Digits
  exponent : Option Exponent
  deriving DecidableEq, Repr

def Number.atoms (number : Number) : List Atom :=
  (if number.negative then [minus] else []) ++ number.integer.atoms ++
    (number.fraction.elim [] fun digits => ⟨'.', by decide⟩ :: digits.atoms) ++
    number.exponent.elim [] Exponent.atoms

inductive Name
  | true
  | false
  | null
  deriving DecidableEq, Repr

def Name.atoms : Name → List Atom
  | .true => [⟨'t', by decide⟩, ⟨'r', by decide⟩, ⟨'u', by decide⟩, ⟨'e', by decide⟩]
  | .false =>
      [⟨'f', by decide⟩, ⟨'a', by decide⟩, ⟨'l', by decide⟩, ⟨'s', by decide⟩, ⟨'e', by decide⟩]
  | .null => [⟨'n', by decide⟩, ⟨'u', by decide⟩, ⟨'l', by decide⟩, ⟨'l', by decide⟩]

/-! ## Trees -/

mutual

inductive Tree
  | name (name : Name)
  | number (number : Number)
  | string (s : StringToken)
  | emptyArray (inside : List Space)
  | array (elements : Elements)
  | emptyObject (inside : List Space)
  | object (members : Members)

/-- The elements of an array, each with the spaces around it. -/
inductive Elements
  | last (before : List Space) (tree : Tree) (after : List Space)
  | cons (before : List Space) (tree : Tree) (after : List Space) (rest : Elements)

/-- The members of an object: a key and a tree, each with the spaces around it. -/
inductive Members
  | last (before : List Space) (key : StringToken) (afterKey beforeTree : List Space) (tree : Tree)
      (after : List Space)
  | cons (before : List Space) (key : StringToken) (afterKey beforeTree : List Space) (tree : Tree)
      (after : List Space) (rest : Members)

end

/-! ## Values -/

inductive Value
  | null
  | bool (b : Bool)
  | number (text : List Char)
  | string (s : String)
  | array (elements : List Value)
  | object (rows : List (String × Value))

def Name.value : Name → Value
  | .true => .bool Bool.true
  | .false => .bool Bool.false
  | .null => .null

mutual

def Tree.value : Tree → Value
  | .name name => name.value
  | .number number => .number (number.atoms.map Subtype.val)
  | .string s => .string s.decode
  | .emptyArray _ => .array []
  | .array elements => .array elements.values
  | .emptyObject _ => .object []
  | .object members => .object members.rows

def Elements.values : Elements → List Value
  | .last _ tree _ => [tree.value]
  | .cons _ tree _ rest => tree.value :: rest.values

def Members.rows : Members → List (String × Value)
  | .last _ key _ _ tree _ => [(key.decode, tree.value)]
  | .cons _ key _ _ tree _ rest => (key.decode, tree.value) :: rest.rows

end

mutual

def Tree.KeysDistinct : Tree → Prop
  | .array elements => elements.KeysDistinct
  | .object members => (members.rows.map Prod.fst).Nodup ∧ members.KeysDistinct
  | _ => True

def Elements.KeysDistinct : Elements → Prop
  | .last _ tree _ => tree.KeysDistinct
  | .cons _ tree _ rest => tree.KeysDistinct ∧ rest.KeysDistinct

def Members.KeysDistinct : Members → Prop
  | .last _ _ _ _ tree _ => tree.KeysDistinct
  | .cons _ _ _ _ tree _ rest => tree.KeysDistinct ∧ rest.KeysDistinct

end

/-! ## Tokens -/

inductive Mark
  | openBrace
  | closeBrace
  | openBracket
  | closeBracket
  | comma
  | colon
  deriving DecidableEq, Repr

def Mark.char : Mark → Char
  | .openBrace => '{'
  | .closeBrace => '}'
  | .openBracket => '['
  | .closeBracket => ']'
  | .comma => ','
  | .colon => ':'

inductive Token
  | string (s : StringToken)
  | space (s : Space)
  | mark (m : Mark)
  | atom (c : Atom)
  deriving DecidableEq, Repr

def Token.text : Token → List Char
  | .string s => s.text
  | .space s => [s.char]
  | .mark m => [m.char]
  | .atom c => [c.val]

def render (tokens : List Token) : List Char := tokens.flatMap Token.text

def spaces (ss : List Space) : List Token := ss.map Token.space

mutual

def Tree.tokens : Tree → List Token
  | .name name => name.atoms.map Token.atom
  | .number number => number.atoms.map Token.atom
  | .string s => [.string s]
  | .emptyArray inside => .mark .openBracket :: (spaces inside ++ [.mark .closeBracket])
  | .array elements => .mark .openBracket :: (elements.tokens ++ [.mark .closeBracket])
  | .emptyObject inside => .mark .openBrace :: (spaces inside ++ [.mark .closeBrace])
  | .object members => .mark .openBrace :: (members.tokens ++ [.mark .closeBrace])

def Elements.tokens : Elements → List Token
  | .last before tree after => spaces before ++ tree.tokens ++ spaces after
  | .cons before tree after rest =>
      spaces before ++ tree.tokens ++ spaces after ++ .mark .comma :: rest.tokens

def Members.tokens : Members → List Token
  | .last before key afterKey beforeTree tree after =>
      spaces before ++ .string key :: spaces afterKey ++ .mark .colon :: spaces beforeTree ++
        tree.tokens ++ spaces after
  | .cons before key afterKey beforeTree tree after rest =>
      spaces before ++ .string key :: spaces afterKey ++ .mark .colon :: spaces beforeTree ++
        tree.tokens ++ spaces after ++ .mark .comma :: rest.tokens

end

structure Member where
  before : List Space
  key : StringToken
  afterKey : List Space
  beforeTree : List Space
  tree : Tree
  after : List Space

def Member.head (m : Member) : List Token :=
  spaces m.before ++ .string m.key :: spaces m.afterKey ++ .mark .colon :: spaces m.beforeTree

def Member.tokens (m : Member) : List Token := m.head ++ m.tree.tokens ++ spaces m.after

/-- A member with the tokens of the document before and after it. -/
structure Place where
  before : List Token
  member : Member
  after : List Token

def Place.keyFront (p : Place) : List Token := p.before ++ spaces p.member.before

def Members.places : Members → List Token → List Token → List Place
  | .last b key afterKey beforeTree tree a, before, after =>
      [⟨before, ⟨b, key, afterKey, beforeTree, tree, a⟩, after⟩]
  | .cons b key afterKey beforeTree tree a rest, before, after =>
      ⟨before, ⟨b, key, afterKey, beforeTree, tree, a⟩, .mark .comma :: (rest.tokens ++ after)⟩ ::
        rest.places
          (before ++ Member.tokens ⟨b, key, afterKey, beforeTree, tree, a⟩ ++ [.mark .comma]) after

def Tree.places : Tree → List Token → List Token → List Place
  | .object members, before, after =>
      members.places (before ++ [.mark .openBrace]) (.mark .closeBrace :: after)
  | _, _, _ => []

def Place.keyBack (p : Place) : List Token :=
  spaces p.member.afterKey ++ .mark .colon :: spaces p.member.beforeTree ++ p.member.tree.tokens ++
    spaces p.member.after ++ p.after

def Place.treeFront (p : Place) : List Token := p.before ++ p.member.head

def Place.treeBack (p : Place) : List Token := spaces p.member.after ++ p.after

def Place.inside (p : Place) : List Place := p.member.tree.places p.treeFront p.treeBack

structure Document where
  leading : List Space
  root : Tree
  trailing : List Space

def Document.places (doc : Document) : List Place :=
  doc.root.places (spaces doc.leading) (spaces doc.trailing)

def Document.tokens (doc : Document) : List Token :=
  spaces doc.leading ++ doc.root.tokens ++ spaces doc.trailing

def Document.text (doc : Document) : List Char := render doc.tokens

/-! ## Nesting -/

/-- Tokens that leave a depth where it is and never fall below it: `δ` says how a token
changes the depth. -/
inductive Balanced {α : Type} (δ : α → Int) : List α → Prop
  | nil : Balanced δ []
  | neutral {a : α} (h : δ a = 0) : Balanced δ [a]
  | append {xs ys : List α} (hxs : Balanced δ xs) (hys : Balanced δ ys) : Balanced δ (xs ++ ys)
  | enclose {a b : α} {xs : List α} (ha : δ a = 1) (hxs : Balanced δ xs) (hb : δ b = -1) :
      Balanced δ (a :: (xs ++ [b]))

theorem Balanced.of_neutral {α : Type} {δ : α → Int} {xs : List α} (h : ∀ a ∈ xs, δ a = 0) :
    Balanced δ xs := by
  induction xs with
  | nil => exact .nil
  | cons a xs ih =>
    obtain ⟨ha, hxs⟩ := List.forall_mem_cons.mp h
    exact .append (.neutral ha) (ih hxs)

/-- A depth that counts braces, and brackets as well if it counts any of them. -/
structure Counts (δ : Token → Int) : Prop where
  string : ∀ s, δ (.string s) = 0
  space : ∀ s, δ (.space s) = 0
  atom : ∀ c, δ (.atom c) = 0
  comma : δ (.mark .comma) = 0
  colon : δ (.mark .colon) = 0
  braces : δ (.mark .openBrace) = 1 ∧ δ (.mark .closeBrace) = -1
  brackets : (δ (.mark .openBracket) = 1 ∧ δ (.mark .closeBracket) = -1) ∨
    (δ (.mark .openBracket) = 0 ∧ δ (.mark .closeBracket) = 0)

section

variable {δ : Token → Int} (hδ : Counts δ)

include hδ

theorem balanced_spaces (ss : List Space) : Balanced δ (spaces ss) := by
  apply Balanced.of_neutral
  intro token hmem
  obtain ⟨s, -, rfl⟩ := List.mem_map.mp hmem
  exact hδ.space s

theorem balanced_atoms (atoms : List Atom) : Balanced δ (atoms.map Token.atom) := by
  apply Balanced.of_neutral
  intro token hmem
  obtain ⟨c, -, rfl⟩ := List.mem_map.mp hmem
  exact hδ.atom c

theorem balanced_inBrackets {inside : List Token} (h : Balanced δ inside) :
    Balanced δ (.mark .openBracket :: (inside ++ [.mark .closeBracket])) := by
  rcases hδ.brackets with ⟨hopen, hclose⟩ | ⟨hopen, hclose⟩
  · exact .enclose hopen h hclose
  · exact .append (.neutral hopen) (.append h (.neutral hclose))

theorem balanced_inBraces {inside : List Token} (h : Balanced δ inside) :
    Balanced δ (.mark .openBrace :: (inside ++ [.mark .closeBrace])) :=
  .enclose hδ.braces.1 h hδ.braces.2

theorem balanced_head (m : Member) : Balanced δ m.head := by
  have hkey : Balanced δ [.string m.key] := .neutral (hδ.string m.key)
  have hcolon : Balanced δ [.mark .colon] := .neutral hδ.colon
  exact .append (.append (balanced_spaces hδ _) (.append hkey (balanced_spaces hδ _)))
    (.append hcolon (balanced_spaces hδ _))

mutual

theorem balanced_tree : (tree : Tree) → Balanced δ tree.tokens
  | .name name => by
      rw [Tree.tokens]
      exact balanced_atoms hδ _
  | .number number => by
      rw [Tree.tokens]
      exact balanced_atoms hδ _
  | .string s => by
      rw [Tree.tokens]
      exact .neutral (hδ.string s)
  | .emptyArray inside => by
      rw [Tree.tokens]
      exact balanced_inBrackets hδ (balanced_spaces hδ inside)
  | .array elements => by
      rw [Tree.tokens]
      exact balanced_inBrackets hδ (balanced_elements elements)
  | .emptyObject inside => by
      rw [Tree.tokens]
      exact balanced_inBraces hδ (balanced_spaces hδ inside)
  | .object members => by
      rw [Tree.tokens]
      exact balanced_inBraces hδ (balanced_members members)

theorem balanced_elements : (elements : Elements) → Balanced δ elements.tokens
  | .last before tree after => by
      rw [Elements.tokens]
      exact .append (.append (balanced_spaces hδ _) (balanced_tree tree)) (balanced_spaces hδ _)
  | .cons before tree after rest => by
      rw [Elements.tokens]
      exact .append
        (.append (.append (balanced_spaces hδ _) (balanced_tree tree)) (balanced_spaces hδ _))
        (.append (.neutral hδ.comma) (balanced_elements rest))

theorem balanced_members : (members : Members) → Balanced δ members.tokens
  | .last before key afterKey beforeTree tree after => by
      have hhead := balanced_head hδ ⟨before, key, afterKey, beforeTree, tree, after⟩
      exact .append (.append hhead (balanced_tree tree)) (balanced_spaces hδ _)
  | .cons before key afterKey beforeTree tree after rest => by
      have hhead := balanced_head hδ ⟨before, key, afterKey, beforeTree, tree, after⟩
      exact .append (.append (.append hhead (balanced_tree tree)) (balanced_spaces hδ _))
        (.append (.neutral hδ.comma) (balanced_members rest))

end

end

/-! ## Places -/

theorem Members.tokens_last (b : List Space) (key : StringToken) (afterKey beforeTree : List Space)
    (tree : Tree) (a : List Space) :
    (Members.last b key afterKey beforeTree tree a).tokens =
      Member.tokens ⟨b, key, afterKey, beforeTree, tree, a⟩ := by
  rw [Members.tokens]
  rfl

theorem Members.tokens_cons (b : List Space) (key : StringToken) (afterKey beforeTree : List Space)
    (tree : Tree) (a : List Space) (rest : Members) :
    (Members.cons b key afterKey beforeTree tree a rest).tokens =
      Member.tokens ⟨b, key, afterKey, beforeTree, tree, a⟩ ++ .mark .comma :: rest.tokens := by
  rw [Members.tokens]
  rfl

/-- Every place of an object is a place of its text. -/
theorem Members.place_tokens : (members : Members) → (before after : List Token) → (p : Place) →
    p ∈ members.places before after →
      p.before ++ p.member.tokens ++ p.after = before ++ members.tokens ++ after
  | .last b key afterKey beforeTree tree a, before, after, p, hp => by
      rw [Members.places] at hp
      rw [List.mem_singleton.mp hp, Members.tokens_last]
  | .cons b key afterKey beforeTree tree a rest, before, after, p, hp => by
      rw [Members.places] at hp
      rw [Members.tokens_cons]
      rcases List.mem_cons.mp hp with rfl | hrest
      · simp
      · rw [Members.place_tokens rest _ _ p hrest]
        simp

/-- The places of an object are its rows. -/
theorem Members.map_places : (members : Members) → (before after : List Token) →
    (members.places before after).map (fun p => (p.member.key.decode, p.member.tree.value)) =
      members.rows
  | .last _ _ _ _ _ _, _, _ => by
      rw [Members.places, Members.rows]
      rfl
  | .cons _ _ _ _ _ _ rest, _, _ => by
      rw [Members.places, Members.rows, List.map_cons, Members.map_places rest]

theorem Tree.map_places {tree : Tree} {rows : List (String × Value)} (h : tree.value = .object rows)
    (before after : List Token) :
    (tree.places before after).map (fun p => (p.member.key.decode, p.member.tree.value)) =
      rows := by
  cases tree with
  | object members =>
    rw [Tree.value, Value.object.injEq] at h
    rw [← h]
    exact Members.map_places members _ _
  | emptyObject inside =>
    rw [Tree.value, Value.object.injEq] at h
    rw [← h]
    rfl
  | name name => cases name <;> cases h
  | _ => cases h

theorem Tree.places_eq_nil {tree : Tree} (h : ∀ rows, tree.value ≠ .object rows)
    (before after : List Token) : tree.places before after = [] := by
  cases tree with
  | object members => exact absurd rfl (h members.rows)
  | _ => rfl

theorem Tree.place_tokens {tree : Tree} {before after : List Token} {p : Place}
    (hp : p ∈ tree.places before after) :
    p.before ++ p.member.tokens ++ p.after = before ++ tree.tokens ++ after := by
  cases tree with
  | object members =>
    rw [Members.place_tokens members _ _ p hp, Tree.tokens]
    simp
  | _ => cases hp

theorem Place.key_tokens (p : Place) :
    p.before ++ p.member.tokens ++ p.after = p.keyFront ++ .string p.member.key :: p.keyBack := by
  simp [Member.tokens, Member.head, keyFront, keyBack]

theorem Place.tree_tokens (p : Place) :
    p.before ++ p.member.tokens ++ p.after = p.treeFront ++ p.member.tree.tokens ++ p.treeBack := by
  simp [Member.tokens, treeFront, treeBack]

end ImportLens.Support.Json
