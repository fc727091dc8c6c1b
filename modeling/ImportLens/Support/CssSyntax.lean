import Mathlib.Data.List.TakeWhile

/-!
# CSS syntax

The tokens that an import rule is made of: whitespace, strings, at-keywords and
semicolons.  All other tokens belong to a parameter that says how many characters the one
which a character starts goes on for.
-/

namespace ImportLens.Support.CssSyntax

inductive Token
  | whitespace
  | string (value : List Char)
  | badString
  | atKeyword (name : List Char)
  | semicolon
  | other (text : List Char)
  deriving DecidableEq, Repr

/-! ## Code points -/

def isNewline (c : Char) : Bool := c == '\n' || c == '\r' || c.toNat == 12

def isWhitespace (c : Char) : Bool := c == ' ' || c == '\t' || isNewline c

def codePoint (c : Char) : Char := if c.toNat = 0 then '\uFFFD' else c

def isNameStart (c : Char) : Bool := c.isAlpha || c == '_' || 128 ≤ c.toNat

def isName (c : Char) : Bool := isNameStart c || c.isDigit || c == '-'

def hexDigit (c : Char) : Option Nat :=
  if c.isDigit then some (c.toNat - 48)
  else if 97 ≤ c.toNat ∧ c.toNat ≤ 102 then some (c.toNat - 87)
  else if 65 ≤ c.toNat ∧ c.toNat ≤ 70 then some (c.toNat - 55)
  else none

def whitespaceLength : List Char → Nat
  | [] => 0
  | [c] => if isWhitespace c then 1 else 0
  | c :: next :: _ => if c = '\r' ∧ next = '\n' then 2 else if isWhitespace c then 1 else 0

/-! ## Strings -/

def escapedCodePoint : List Char → Option Char × Nat
  | [] => (none, 0)
  | c :: rest =>
      if isNewline c then (none, whitespaceLength (c :: rest))
      else
        match hexDigit c with
        | none => (some (codePoint c), 1)
        | some _ =>
            let digits := ((c :: rest).take 6).takeWhile fun digit => (hexDigit digit).isSome
            let value := digits.foldl (fun value digit => 16 * value + (hexDigit digit).getD 0) 0
            (some (if value = 0 ∨ ¬ value.isValidChar then '\uFFFD' else Char.ofNat value),
              digits.length + whitespaceLength ((c :: rest).drop digits.length))

def prepend (c : Option Char) (consumed : Option (List Char) × List Char) :
    Option (List Char) × List Char :=
  (consumed.1.map (c.toList ++ ·), consumed.2)

/-- A string behind its quotation mark, after some characters that were read already: its
value, unless a newline ends it, and the text behind it. -/
def consumeString : Nat → List Char → Option (List Char) × List Char
  | _, [] => (some [], [])
  | skip + 1, _ :: rest => consumeString skip rest
  | 0, c :: rest =>
      if c = '"' then (some [], rest)
      else if isNewline c then (none, c :: rest)
      else if c = '\\' then
        prepend (escapedCodePoint rest).1 (consumeString (escapedCodePoint rest).2 rest)
      else prepend (some (codePoint c)) (consumeString 0 rest)

/-! ## Tokens -/

section

variable (others : Char → List Char → Nat)

def startsAtKeyword (rest : List Char) : Bool :=
  rest.head?.any isNameStart && (rest.dropWhile isName).head? != some '\\'

def consumeToken (c : Char) (rest : List Char) : Token × List Char :=
  if isWhitespace c then (.whitespace, rest.dropWhile isWhitespace)
  else if c = '"' then
    match consumeString 0 rest with
    | (some value, after) => (.string value, after)
    | (none, after) => (.badString, after)
  else if c = ';' then (.semicolon, rest)
  else if c = '@' ∧ startsAtKeyword rest then
    (.atKeyword (rest.takeWhile isName), rest.dropWhile isName)
  else (.other (c :: rest.take (others c rest)), rest.drop (others c rest))

def tokenize : Nat → List Char → List Token
  | 0, _ => []
  | _ + 1, [] => []
  | fuel + 1, c :: rest =>
      (consumeToken others c rest).1 :: tokenize fuel (consumeToken others c rest).2

def tokens (text : List Char) : List Token := tokenize others text.length text

end

def importRules : List Token → Option (List (List Char))
  | [] => some []
  | .whitespace :: rest => importRules rest
  | .atKeyword name :: .whitespace :: .string value :: .semicolon :: rest =>
      if name.map Char.toLower = "import".toList then (importRules rest).map (value :: ·) else none
  | _ => none

/-! ## What a string reads -/

section

variable {c : Char} {rest : List Char}

theorem consumeString_quote : consumeString 0 ('"' :: rest) = (some [], rest) := by
  rw [consumeString, if_pos rfl]

theorem consumeString_newline (h : isNewline c = true) :
    (consumeString 0 (c :: rest)).1 = none := by
  have hquote : c ≠ '"' := by
    rintro rfl
    cases h
  rw [consumeString, if_neg hquote, if_pos h]

theorem consumeString_plain (hquote : c ≠ '"') (hbackslash : c ≠ '\\') (h : isNewline c = false) :
    consumeString 0 (c :: rest) = prepend (some (codePoint c)) (consumeString 0 rest) := by
  rw [consumeString, if_neg hquote, h, if_neg Bool.false_ne_true, if_neg hbackslash]

theorem consumeString_escape (h : isNewline c = false) (hhex : hexDigit c = none) :
    consumeString 0 ('\\' :: c :: rest) =
      prepend (some (codePoint c)) (consumeString 0 rest) := by
  have hescape : escapedCodePoint (c :: rest) = (some (codePoint c), 1) := by
    simp only [escapedCodePoint, h, hhex, Bool.false_eq_true, if_false]
  have hbackslash : consumeString 0 ('\\' :: c :: rest) =
      prepend (escapedCodePoint (c :: rest)).1
        (consumeString (escapedCodePoint (c :: rest)).2 (c :: rest)) := rfl
  rw [hbackslash, hescape]
  rfl

theorem consumeToken_string (others : Char → List Char → Nat) {value after : List Char}
    (h : consumeString 0 rest = (some value, after)) :
    consumeToken others '"' rest = (.string value, after) := by
  have hwhitespace : isWhitespace '"' = false := by decide
  rw [consumeToken, hwhitespace, if_neg Bool.false_ne_true, if_pos rfl, h]

theorem consumeToken_badString (others : Char → List Char → Nat)
    (h : (consumeString 0 rest).1 = none) :
    consumeToken others '"' rest = (.badString, (consumeString 0 rest).2) := by
  have hwhitespace : isWhitespace '"' = false := by decide
  have hconsumed : consumeString 0 rest = (none, (consumeString 0 rest).2) := Prod.ext h rfl
  rw [consumeToken, hwhitespace, if_neg Bool.false_ne_true, if_pos rfl, hconsumed]

theorem prepend_fst_eq_none {c : Option Char} {consumed : Option (List Char) × List Char}
    (h : consumed.1 = none) : (prepend c consumed).1 = none := by
  rw [prepend, h]
  rfl

end

end ImportLens.Support.CssSyntax
