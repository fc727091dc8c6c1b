import ImportLens.Support.CssSyntax
import Mathlib.Data.List.Basic

/-!
# Module syntax

The import and export declarations of an ECMAScript module, with what they need of its
lexical grammar: names of ASCII letters, digits, `_` and `$`, string literals in double
quotes, and punctuators.  Any other text is not read at all.
-/

namespace ImportLens.Support.ModuleSyntax

open CssSyntax (hexDigit)

/-! ## Tokens -/

inductive Token
  | name (text : List Char)
  | string (value : List Char)
  | openBrace
  | closeBrace
  | star
  | comma
  | semicolon
  deriving DecidableEq, Repr

def isSpace (c : Char) : Bool := c == ' ' || c == '\t' || c == '\n' || c == '\r'

def isNameStart (c : Char) : Bool := c.isAlpha || c == '_' || c == '$'

def isNamePart (c : Char) : Bool := isNameStart c || c.isDigit

def isName : List Char → Bool
  | [] => false
  | c :: rest => isNameStart c && rest.all isNamePart

def punctuator (c : Char) : Option Token :=
  if c.toNat = 123 then some .openBrace
  else if c.toNat = 125 then some .closeBrace
  else if c = '*' then some .star
  else if c = ',' then some .comma
  else if c = ';' then some .semicolon
  else none

/-- The escapes of one character.  Digits, `x` and line terminators start other ones. -/
def singleEscape (c : Char) : Option Char :=
  if c = 'n' then some '\n'
  else if c = 'r' then some '\r'
  else if c = 't' then some '\t'
  else if c = 'b' then some (Char.ofNat 8)
  else if c = 'f' then some (Char.ofNat 12)
  else if c = 'v' then some (Char.ofNat 11)
  else if c.isDigit ∨ c = 'x' ∨ c = '\n' ∨ c = '\r' ∨ c.toNat = 8232 ∨ c.toNat = 8233 then none
  else some c

def codeUnit (a b c d : Char) : Option Char := do
  let a ← hexDigit a
  let b ← hexDigit b
  let c ← hexDigit c
  let d ← hexDigit d
  let value := 4096 * a + 256 * b + 16 * c + d
  if value.isValidChar then some (Char.ofNat value) else none

def prepend (c : Char) (read : List Char × List Char) : List Char × List Char :=
  (c :: read.1, read.2)

def escapedCharacter : List Char → Option (Char × Nat)
  | [] => none
  | c :: rest =>
      if c = 'u' then
        match rest with
        | a :: b :: c :: d :: _ => (codeUnit a b c d).map fun unit => (unit, 5)
        | _ => none
      else (singleEscape c).map fun character => (character, 1)

/-- A string literal behind its quotation mark, after some characters that were read
already: its value and the text behind it. -/
def readString : Nat → List Char → Option (List Char × List Char)
  | _, [] => none
  | skip + 1, _ :: rest => readString skip rest
  | 0, c :: rest =>
      if c = '"' then some ([], rest)
      else if c = '\n' ∨ c = '\r' then none
      else if c = '\\' then
        (escapedCharacter rest).bind fun escaped =>
          (readString escaped.2 rest).map (prepend escaped.1)
      else (readString 0 rest).map (prepend c)

def lex : Nat → List Char → Option (List Token)
  | _, [] => some []
  | 0, _ :: _ => none
  | fuel + 1, c :: rest =>
      if isSpace c then lex fuel rest
      else if c = '"' then
        (readString 0 rest).bind fun read => (lex fuel read.2).map (.string read.1 :: ·)
      else if isNameStart c then
        (lex fuel (rest.dropWhile isNamePart)).map (.name (c :: rest.takeWhile isNamePart) :: ·)
      else (punctuator c).bind fun token => (lex fuel rest).map (token :: ·)

/-! ## Declarations -/

structure ExportSpecifier where
  localName : List Char
  exportedName : List Char
  deriving DecidableEq, Repr

inductive ModuleItem
  | importNamespace (localName source : List Char)
  | exportFrom (specifiers : List ExportSpecifier) (source : List Char)
  | exportLocal (specifiers : List ExportSpecifier)
  deriving DecidableEq, Repr

def exact (token : Token) : List Token → Option (List Token)
  | [] => none
  | first :: rest => if first = token then some rest else none

def word (text : String) : List Token → Option (List Token) := exact (.name text.toList)

def moduleExportName : List Token → Option (List Char × List Token)
  | .name text :: rest => some (text, rest)
  | .string value :: rest => some (value, rest)
  | _ => none

def bindingIdentifier : List Token → Option (List Char × List Token)
  | .name text :: rest => some (text, rest)
  | _ => none

def fromClause (tokens : List Token) : Option (List Char × List Token) :=
  (word "from" tokens).bind fun
    | .string value :: rest => some (value, rest)
    | _ => none

def exportSpecifier (tokens : List Token) : Option (ExportSpecifier × List Token) := do
  let (localName, rest) ← moduleExportName tokens
  match word "as" rest with
  | none => some (⟨localName, localName⟩, rest)
  | some rest =>
      let (exportedName, rest) ← moduleExportName rest
      some (⟨localName, exportedName⟩, rest)

def exportSpecifiers : Nat → List Token → Option (List ExportSpecifier × List Token)
  | 0, _ => none
  | fuel + 1, tokens =>
      match exact .closeBrace tokens with
      | some rest => some ([], rest)
      | none => do
          let (specifier, rest) ← exportSpecifier tokens
          match exact .comma rest with
          | some rest =>
              let (specifiers, rest) ← exportSpecifiers fuel rest
              some (specifier :: specifiers, rest)
          | none =>
              let rest ← exact .closeBrace rest
              some ([specifier], rest)

def importDeclaration (tokens : List Token) : Option (ModuleItem × List Token) := do
  let tokens ← word "import" tokens
  let tokens ← exact .star tokens
  let tokens ← word "as" tokens
  let (localName, tokens) ← bindingIdentifier tokens
  let (source, tokens) ← fromClause tokens
  let tokens ← exact .semicolon tokens
  some (.importNamespace localName source, tokens)

def exportDeclaration (tokens : List Token) : Option (ModuleItem × List Token) := do
  let tokens ← word "export" tokens
  let tokens ← exact .openBrace tokens
  let (specifiers, tokens) ← exportSpecifiers tokens.length tokens
  match fromClause tokens with
  | some (source, tokens) =>
      let tokens ← exact .semicolon tokens
      some (.exportFrom specifiers source, tokens)
  | none =>
      let tokens ← exact .semicolon tokens
      some (.exportLocal specifiers, tokens)

def moduleItems : Nat → List Token → Option (List ModuleItem)
  | _, [] => some []
  | 0, _ :: _ => none
  | fuel + 1, tokens => do
      let (item, rest) ← (importDeclaration tokens).or (exportDeclaration tokens)
      let items ← moduleItems fuel rest
      some (item :: items)

def parseModule (text : List Char) : Option (List ModuleItem) := do
  let tokens ← lex text.length text
  moduleItems tokens.length tokens

/-! ## Exports -/

/-- An exported name, what it is bound to in the module it comes from (nothing for the whole
namespace), and that module. -/
structure ExportedBinding where
  exportedName : List Char
  imported : Option (List Char)
  source : List Char
  deriving DecidableEq, Repr

def importedNamespaces (items : List ModuleItem) : List (List Char × List Char) :=
  items.filterMap fun
    | .importNamespace localName source => some (localName, source)
    | .exportFrom _ _ => none
    | .exportLocal _ => none

def itemExports (namespaces : List (List Char × List Char)) :
    ModuleItem → Option (List ExportedBinding)
  | .importNamespace _ _ => some []
  | .exportFrom specifiers source =>
      some (specifiers.map fun specifier =>
        ⟨specifier.exportedName, some specifier.localName, source⟩)
  | .exportLocal specifiers =>
      specifiers.mapM fun specifier =>
        (namespaces.lookup specifier.localName).map fun source =>
          ⟨specifier.exportedName, none, source⟩

def moduleExports (items : List ModuleItem) : Option (List ExportedBinding) :=
  (items.mapM (itemExports (importedNamespaces items))).map List.flatten

/-! ## Texts and their tokens -/

/-- The text is read as the tokens, with as many steps as it has characters or more. -/
def Lexes (text : List Char) (tokens : List Token) : Prop :=
  ∀ fuel, text.length ≤ fuel → lex fuel text = some tokens

section

variable {text rest : List Char} {tokens : List Token} {c : Char}

theorem Lexes.nil : Lexes [] [] := by
  intro fuel _
  cases fuel <;> rfl

theorem Lexes.space (hc : isSpace c = true) (h : Lexes rest tokens) : Lexes (c :: rest) tokens := by
  intro fuel hfuel
  cases fuel with
  | zero => cases hfuel
  | succ fuel =>
    rw [lex, if_pos hc]
    exact h fuel (Nat.le_of_succ_le_succ hfuel)

theorem Lexes.string {value : List Char} (hread : readString 0 text = some (value, rest))
    (hlength : rest.length ≤ text.length) (h : Lexes rest tokens) :
    Lexes ('"' :: text) (.string value :: tokens) := by
  intro fuel hfuel
  cases fuel with
  | zero => cases hfuel
  | succ fuel =>
    have hrest : lex fuel rest = some tokens :=
      h fuel (hlength.trans (Nat.le_of_succ_le_succ hfuel))
    have hstep : lex (fuel + 1) ('"' :: text) =
        (readString 0 text).bind fun read => (lex fuel read.2).map (.string read.1 :: ·) := rfl
    rw [hstep, hread, Option.bind_some, hrest, Option.map_some]

theorem Lexes.punctuator {token : Token} (hc : ModuleSyntax.punctuator c = some token)
    (hspace : isSpace c = false) (hquote : c ≠ '"') (hname : isNameStart c = false)
    (h : Lexes rest tokens) : Lexes (c :: rest) (token :: tokens) := by
  intro fuel hfuel
  cases fuel with
  | zero => cases hfuel
  | succ fuel =>
    have hrest : lex fuel rest = some tokens := h fuel (Nat.le_of_succ_le_succ hfuel)
    rw [lex, hspace, if_neg Bool.false_ne_true, if_neg hquote, hname, if_neg Bool.false_ne_true,
      hc, Option.bind_some, hrest, Option.map_some]

theorem Lexes.name (htext : isName text = true)
    (hrest : ∀ d, rest.head? = some d → isNamePart d = false) (h : Lexes rest tokens) :
    Lexes (text ++ rest) (.name text :: tokens) := by
  cases text with
  | nil => cases htext
  | cons c text =>
    rw [isName, Bool.and_eq_true, List.all_eq_true] at htext
    obtain ⟨hstart, hparts⟩ := htext
    intro fuel hfuel
    cases fuel with
    | zero => cases hfuel
    | succ fuel =>
      have hspace : isSpace c = false := by
        rw [← Bool.not_eq_true]
        intro hspace
        simp only [isSpace, Bool.or_eq_true, beq_iff_eq] at hspace
        rcases hspace with ((rfl | rfl) | rfl) | rfl <;> cases hstart
      have hquote : c ≠ '"' := by
        rintro rfl
        cases hstart
      have htake : (text ++ rest).takeWhile isNamePart = text := by
        rw [List.takeWhile_append_of_pos hparts]
        cases rest with
        | nil => simp
        | cons d rest => rw [List.takeWhile_cons, hrest d rfl]; simp
      have hdrop : (text ++ rest).dropWhile isNamePart = rest := by
        rw [List.dropWhile_append_of_pos hparts]
        cases rest with
        | nil => rfl
        | cons d rest => rw [List.dropWhile_cons, hrest d rfl]; rfl
      have hlex : lex fuel rest = some tokens := by
        apply h
        rw [List.cons_append, List.length_cons, List.length_append] at hfuel
        omega
      rw [List.cons_append, lex, hspace, if_neg Bool.false_ne_true, if_neg hquote, if_pos hstart,
        htake, hdrop, hlex, Option.map_some]

end

/-- The tokens are parsed as the items, with as many steps as there are tokens or more. -/
def Parses (tokens : List Token) (items : List ModuleItem) : Prop :=
  ∀ fuel, tokens.length ≤ fuel → moduleItems fuel tokens = some items

theorem Parses.nil : Parses [] [] := by
  intro fuel _
  cases fuel <;> rfl

theorem Parses.item {tokens rest : List Token} {item : ModuleItem} {items : List ModuleItem}
    (hitem : (importDeclaration tokens).or (exportDeclaration tokens) = some (item, rest))
    (hlength : rest.length < tokens.length) (h : Parses rest items) :
    Parses tokens (item :: items) := by
  intro fuel hfuel
  have hrest : moduleItems (fuel - 1) rest = some items := h _ (by omega)
  cases fuel with
  | zero => omega
  | succ fuel =>
    cases tokens with
    | nil => cases hlength
    | cons token tokens =>
      rw [Nat.add_sub_cancel] at hrest
      have hstep : moduleItems (fuel + 1) (token :: tokens) =
          ((importDeclaration (token :: tokens)).or (exportDeclaration (token :: tokens))).bind
            fun read => (moduleItems fuel read.2).bind fun items => some (read.1 :: items) := rfl
      rw [hstep, hitem, Option.bind_some, hrest, Option.bind_some]

theorem parseModule_of_lexes {text : List Char} {tokens : List Token} {items : List ModuleItem}
    (htext : Lexes text tokens) (htokens : Parses tokens items) :
    parseModule text = some items := by
  rw [parseModule, htext _ le_rfl]
  exact htokens _ le_rfl

/-- What the parts of a module export is exported by the whole. -/
theorem mapM_exports_flatMap {ι : Type} (namespaces : List (List Char × List Char))
    (parts : List ι) (itemsOf : ι → List ModuleItem) (exportsOf : ι → List ExportedBinding)
    (h : ∀ part ∈ parts, ((itemsOf part).mapM (itemExports namespaces)).map List.flatten =
      some (exportsOf part)) :
    ((parts.flatMap itemsOf).mapM (itemExports namespaces)).map List.flatten =
      some (parts.flatMap exportsOf) := by
  induction parts with
  | nil => rfl
  | cons part parts ih =>
    obtain ⟨first, hfirst, hflatten⟩ := Option.map_eq_some_iff.mp (h part (by simp))
    obtain ⟨second, hsecond, hflatten'⟩ :=
      Option.map_eq_some_iff.mp (ih fun other hother => h other (by simp [hother]))
    rw [List.flatMap_cons, List.mapM_append, hfirst, hsecond, List.flatMap_cons, ← hflatten,
      ← hflatten', ← List.flatten_append]
    rfl

end ImportLens.Support.ModuleSyntax
