import ImportLens.Pipeline.FileSize
import ImportLens.Registry.SizeCap
import ImportLens.Support.CssSyntax
import ImportLens.Support.ModuleSyntax
import ImportLens.Support.PosixPath
import Mathlib.Tactic.SplitIfs

/-!
# Generated sources

The two texts that are written around names a package chooses: the stylesheet that
imports every sheet of a build (`synthetic_entry` of `assets.rs`), and the module that
exports what is measured (`virtual_entry_source` of the engine's `entry.rs`).
-/

namespace ImportLens.Pipeline.GeneratedSources

open ImportLens.Support FileSize

/-! ## The stylesheet of all stylesheets -/

def replaceChar (old : Char) (new value : List Char) : List Char :=
  value.flatMap fun c => if c = old then new else [c]

def cssStringEscape (value : List Char) : List Char :=
  replaceChar '"' ['\\', '"'] (replaceChar '\\' ['\\', '\\'] value)

def importRule (entry : List Char) : List Char :=
  "@import \"".toList ++ cssStringEscape entry ++ "\";".toList

/-- The virtual path and its text.  `entries[0]` panics when there is no entry. -/
def syntheticEntry : List String → Option (String × List Char)
  | [] => none
  | first :: rest =>
      let directory := (PosixPath.parent first).getD "."
      let path := PosixPath.join directory "__import_lens_combined_stylesheets__.css"
      let rules := (first :: rest).map fun entry => importRule entry.toList
      some (path, ['\n'].intercalate rules)

/-! ## The module of all selections -/

/-- `serde_json::to_string` of a string. -/
def jsString (value : List Char) : List Char := '"' :: (value.flatMap Registry.jsonChar ++ ['"'])

def decimal (n : Nat) : List Char := Nat.toDigits 10 n

def targetPrefix : List Char := "import-lens:target/".toList

def syntheticTarget (index : Nat) : List Char := targetPrefix ++ decimal index

def aliasStart : List Char := "__il_entry_".toList

/-- `__il_entry_{index}_{surface}` -/
def entryAlias (index : Nat) (surface : List Char) : List Char :=
  aliasStart ++ decimal index ++ '_' :: surface

def exportAlias (index nameIndex : Nat) : List Char :=
  entryAlias index ("export_".toList ++ decimal nameIndex)

def defaultAlias (index : Nat) : List Char := entryAlias index "default".toList

def namespaceAlias (index : Nat) : List Char := entryAlias index "namespace".toList

def entrySource (index : Nat) (entry : BundleEntry) : List Char :=
  let specifier := jsString (syntheticTarget index)
  match entry.selection with
  | .named names =>
      names.zipIdx.flatMap fun (name, nameIndex) =>
        "export \x7b ".toList ++ jsString name.toList ++ " as ".toList ++
          exportAlias index nameIndex ++ " \x7d from ".toList ++ specifier ++ ";\n".toList
  | .defaultExport =>
      "export \x7b default as ".toList ++ defaultAlias index ++ " \x7d from ".toList ++
        specifier ++ ";\n".toList
  | .namespaceExport | .full =>
      "import * as ".toList ++ namespaceAlias index ++ " from ".toList ++ specifier ++
        ";\n".toList ++ "export \x7b ".toList ++ namespaceAlias index ++ " \x7d;\n".toList

def virtualEntrySource (entries : List BundleEntry) : List Char :=
  entries.zipIdx.flatMap fun (entry, index) => entrySource index entry

/-! ## What should be read -/

open ModuleSyntax (ExportedBinding)

def requestedOf (index : Nat) (entry : BundleEntry) : List ExportedBinding :=
  let target := syntheticTarget index
  match entry.selection with
  | .named names =>
      names.zipIdx.map fun (name, nameIndex) =>
        ⟨exportAlias index nameIndex, some name.toList, target⟩
  | .defaultExport => [⟨defaultAlias index, some "default".toList, target⟩]
  | .namespaceExport | .full => [⟨namespaceAlias index, none, target⟩]

def requested (entries : List BundleEntry) : List ExportedBinding :=
  entries.zipIdx.flatMap fun (entry, index) => requestedOf index entry

/-! ## The import rules -/

section

open CssSyntax

variable {c : Char} {value rest : List Char}

theorem cssStringEscape_cons (c : Char) (value : List Char) :
    cssStringEscape (c :: value) =
      (if c = '"' then ['\\', '"'] else if c = '\\' then ['\\', '\\'] else [c]) ++
        cssStringEscape value := by
  rw [cssStringEscape, replaceChar, replaceChar, List.flatMap_cons, List.flatMap_append]
  apply congrArg (· ++ cssStringEscape value)
  by_cases hbackslash : c = '\\'
  · subst hbackslash
    rfl
  · by_cases hquote : c = '"'
    · subst hquote
      rfl
    · simp [hbackslash, hquote]

theorem consumeString_escape_cons (hc : isNewline c = false) :
    consumeString 0 (cssStringEscape (c :: value) ++ rest) =
      prepend (some (codePoint c)) (consumeString 0 (cssStringEscape value ++ rest)) := by
  rw [cssStringEscape_cons]
  by_cases hquote : c = '"'
  · subst hquote
    exact consumeString_escape rfl rfl
  · by_cases hbackslash : c = '\\'
    · subst hbackslash
      exact consumeString_escape rfl rfl
    · rw [if_neg hquote, if_neg hbackslash]
      exact consumeString_plain hquote hbackslash hc

theorem consumeString_cssStringEscape (hvalue : ∀ c ∈ value, isNewline c = false) :
    consumeString 0 (cssStringEscape value ++ '"' :: rest) =
      (some (value.map codePoint), rest) := by
  induction value with
  | nil => exact consumeString_quote
  | cons c value ih =>
    rw [consumeString_escape_cons (hvalue c (by simp)), ih fun d hd => hvalue d (by simp [hd])]
    rfl

theorem consumeString_of_newline (hvalue : ∃ c ∈ value, isNewline c = true) :
    (consumeString 0 (cssStringEscape value ++ rest)).1 = none := by
  induction value with
  | nil =>
    obtain ⟨c, hc, -⟩ := hvalue
    cases hc
  | cons c value ih =>
    by_cases hc : isNewline c = true
    · have hplain : cssStringEscape (c :: value) = c :: cssStringEscape value := by
        have hquote : c ≠ '"' := by
          rintro rfl
          cases hc
        have hbackslash : c ≠ '\\' := by
          rintro rfl
          cases hc
        rw [cssStringEscape_cons, if_neg hquote, if_neg hbackslash, List.singleton_append]
      rw [hplain, List.cons_append]
      exact consumeString_newline hc
    · rw [consumeString_escape_cons (by simpa using hc)]
      apply prepend_fst_eq_none
      apply ih
      obtain ⟨d, hd, hnewline⟩ := hvalue
      rcases List.mem_cons.mp hd with rfl | hd
      · exact absurd hnewline hc
      · exact ⟨d, hd, hnewline⟩

end

section

open CssSyntax

variable (others : Char → List Char → Nat)

def rulesText (paths : List (List Char)) : List Char := ['\n'].intercalate (paths.map importRule)

def furtherText : List (List Char) → List Char
  | [] => []
  | path :: paths => '\n' :: rulesText (path :: paths)

theorem rulesText_cons (path : List Char) (paths : List (List Char)) :
    rulesText (path :: paths) = importRule path ++ furtherText paths := by
  cases paths with
  | nil => rw [rulesText, furtherText, List.append_nil]; simp
  | cons next paths =>
    rw [rulesText, List.map_cons, List.map_cons, List.intercalate_cons_cons]
    simp [furtherText, rulesText]

theorem quoted_append {opening keyword closing : List Char} (value further : List Char)
    (hopening : opening = '@' :: (keyword ++ [' ', '"'])) (hclosing : closing = ['"', ';']) :
    opening ++ value ++ closing ++ further =
      '@' :: (keyword ++ ' ' :: '"' :: (value ++ '"' :: ';' :: further)) := by
  subst hopening hclosing
  simp only [List.append_assoc, List.cons_append, List.nil_append]

theorem importRule_append (path further : List Char) :
    importRule path ++ further =
      '@' :: ("import".toList ++ ' ' :: '"' ::
        (cssStringEscape path ++ '"' :: ';' :: further)) :=
  quoted_append (cssStringEscape path) further (by decide) (by decide)

/-- The tokens of a rule that can be read, and of what follows. -/
theorem importRules_rule {path : List Char} (hpath : ∀ c ∈ path, isNewline c = false)
    {further : List Char} {fuel : Nat} :
    importRules (tokenize others (fuel + 4) (importRule path ++ further)) =
      (importRules (tokenize others fuel further)).map (path.map codePoint :: ·) := by
  have hstring : consumeToken others '"' (cssStringEscape path ++ '"' :: ';' :: further) =
      (.string (path.map codePoint), ';' :: further) :=
    consumeToken_string others (consumeString_cssStringEscape hpath)
  have htokens : tokenize others (fuel + 4) (importRule path ++ further) =
      .atKeyword "import".toList :: .whitespace :: .string (path.map codePoint) :: .semicolon ::
        tokenize others fuel further := by
    rw [importRule_append]
    change Token.atKeyword "import".toList :: Token.whitespace ::
      tokenize others (fuel + 2) ('"' :: (cssStringEscape path ++ '"' :: ';' :: further)) = _
    rw [tokenize, hstring]
    rfl
  rw [htokens]
  rfl

theorem importRules_badRule {path : List Char} (hpath : ∃ c ∈ path, isNewline c = true)
    {further : List Char} {fuel : Nat} :
    importRules (tokenize others (fuel + 4) (importRule path ++ further)) = none := by
  have hstring := consumeToken_badString others
    (@consumeString_of_newline path ('"' :: ';' :: further) hpath)
  have htokens : tokenize others (fuel + 4) (importRule path ++ further) =
      .atKeyword "import".toList :: .whitespace :: .badString ::
        tokenize others (fuel + 1)
          (consumeString 0 (cssStringEscape path ++ '"' :: ';' :: further)).2 := by
    rw [importRule_append]
    change Token.atKeyword "import".toList :: Token.whitespace ::
      tokenize others (fuel + 2) ('"' :: (cssStringEscape path ++ '"' :: ';' :: further)) = _
    rw [tokenize, hstring]
  rw [htokens]
  rfl

theorem length_rulesText_le (paths : List (List Char)) :
    (rulesText paths).length ≤ (furtherText paths).length - 1 := by
  cases paths with
  | nil => exact Nat.le_refl 0
  | cons path paths =>
    rw [furtherText, List.length_cons]
    omega

theorem importRules_furtherText {paths : List (List Char)} {fuel : Nat}
    (hfuel : (furtherText paths).length ≤ fuel) :
    importRules (tokenize others fuel (furtherText paths)) =
      importRules (tokenize others (fuel - 1) (rulesText paths)) := by
  cases paths with
  | nil =>
    have hnil : ∀ steps, tokenize others steps [] = [] := by
      intro steps
      cases steps <;> rfl
    rw [furtherText, rulesText, List.map_nil, List.intercalate_nil, hnil, hnil]
  | cons path paths =>
    cases fuel with
    | zero => cases hfuel
    | succ fuel =>
      rw [furtherText, rulesText_cons, importRule_append]
      rfl

/-- The sheet is read as its rules exactly if no path holds a newline. -/
theorem importRules_rulesText {paths : List (List Char)} {fuel : Nat}
    (hfuel : (rulesText paths).length ≤ fuel) :
    ((∀ path ∈ paths, ∀ c ∈ path, isNewline c = false) →
      importRules (tokenize others fuel (rulesText paths)) =
        some (paths.map fun path => path.map codePoint)) ∧
    ((∃ path ∈ paths, ∃ c ∈ path, isNewline c = true) →
      importRules (tokenize others fuel (rulesText paths)) = none) := by
  induction paths generalizing fuel with
  | nil =>
    constructor
    · intro _
      cases fuel <;> rfl
    · rintro ⟨path, hpath, -⟩
      cases hpath
  | cons path paths ih =>
    rw [rulesText_cons] at hfuel ⊢
    have hlength : 4 ≤ (importRule path).length := by
      have happend := congrArg List.length (importRule_append path [])
      rw [List.append_nil] at happend
      simp only [List.length_cons, List.length_append] at happend
      omega
    rw [List.length_append] at hfuel
    obtain ⟨more, rfl⟩ : ∃ more, fuel = more + 4 := ⟨fuel - 4, by omega⟩
    have hmore : (rulesText paths).length ≤ more - 1 := by
      have hle := length_rulesText_le paths
      omega
    have hfurther : importRules (tokenize others more (furtherText paths)) =
        importRules (tokenize others (more - 1) (rulesText paths)) :=
      importRules_furtherText others (by omega)
    constructor
    · intro hall
      rw [importRules_rule others fun c hc => hall path (by simp) c hc, hfurther,
        (ih hmore).1 fun other hother => hall other (by simp [hother])]
      rfl
    · intro hbad
      by_cases hpath : ∃ c ∈ path, isNewline c = true
      · exact importRules_badRule others hpath
      · have hgood : ∀ c ∈ path, isNewline c = false := by
          intro c hc
          rw [← Bool.not_eq_true]
          exact fun hnewline => hpath ⟨c, hc, hnewline⟩
        rw [importRules_rule others hgood, hfurther, (ih hmore).2]
        · rfl
        · obtain ⟨other, hother, hnewline⟩ := hbad
          rcases List.mem_cons.mp hother with rfl | hother
          · exact absurd hnewline hpath
          · exact ⟨other, hother, hnewline⟩

theorem importRules_rulesText_iff (paths : List (List Char)) :
    importRules (tokens others (rulesText paths)) = some paths ↔
      ∀ path ∈ paths, ∀ c ∈ path, isNewline c = false ∧ c.toNat ≠ 0 := by
  have hread := @importRules_rulesText others paths _ (Nat.le_refl _)
  rw [tokens]
  by_cases hbad : ∃ path ∈ paths, ∃ c ∈ path, isNewline c = true
  · rw [hread.2 hbad]
    refine iff_of_false (fun heq => by cases heq) fun hall => ?_
    obtain ⟨path, hpath, c, hc, hnewline⟩ := hbad
    rw [(hall path hpath c hc).1] at hnewline
    cases hnewline
  · have hgood : ∀ path ∈ paths, ∀ c ∈ path, isNewline c = false := by
      intro path hpath c hc
      rw [← Bool.not_eq_true]
      exact fun hnewline => hbad ⟨path, hpath, c, hc, hnewline⟩
    rw [hread.1 hgood, Option.some_inj]
    constructor
    · intro heq path hpath c hc
      refine ⟨hgood path hpath c hc, fun hzero => ?_⟩
      have hsame : path.map codePoint = path := by
        have hmap : paths.map (fun path => path.map codePoint) = paths.map id := by
          rw [heq, List.map_id]
        exact List.map_inj_left.mp hmap path hpath
      have hcodePoint : codePoint c = c := by
        have hmap : path.map codePoint = path.map id := by rw [hsame, List.map_id]
        exact List.map_inj_left.mp hmap c hc
      rw [codePoint, if_pos hzero] at hcodePoint
      rw [← hcodePoint] at hzero
      exact absurd hzero (by decide)
    · intro hall
      have hid : ∀ path ∈ paths, path.map codePoint = path := by
        intro path hpath
        have hcodePoint : path.map codePoint = path.map id :=
          List.map_inj_left.mpr fun c hc => if_neg (hall path hpath c hc).2
        rw [hcodePoint, List.map_id]
      have hmap : paths.map (fun path => path.map codePoint) = paths.map id :=
        List.map_inj_left.mpr hid
      rw [hmap, List.map_id]

end

/-! ## Strings and aliases of the module -/

section

open ModuleSyntax

theorem readString_letter {letter c : Char} (hletter : letter ≠ 'u')
    (hsingle : singleEscape letter = some c) (rest : List Char) :
    readString 0 ('\\' :: letter :: rest) = (readString 0 rest).map (prepend c) := by
  have hescaped : escapedCharacter (letter :: rest) = some (c, 1) := by
    have hplain : escapedCharacter (letter :: rest) =
        (singleEscape letter).map fun character => (character, 1) := if_neg hletter
    rw [hplain, hsingle]
    rfl
  have hstep : readString 0 ('\\' :: letter :: rest) =
      (escapedCharacter (letter :: rest)).bind fun escaped =>
        (readString escaped.2 (letter :: rest)).map (prepend escaped.1) := rfl
  rw [hstep, hescaped]
  rfl

theorem readString_digits {a b d e c : Char} (hunit : codeUnit a b d e = some c)
    (rest : List Char) :
    readString 0 ('\\' :: 'u' :: a :: b :: d :: e :: rest) =
      (readString 0 rest).map (prepend c) := by
  have hstep : readString 0 ('\\' :: 'u' :: a :: b :: d :: e :: rest) =
      ((codeUnit a b d e).map fun unit => (unit, 5)).bind fun escaped =>
        (readString escaped.2 ('u' :: a :: b :: d :: e :: rest)).map (prepend escaped.1) := rfl
  rw [hstep, hunit]
  rfl

theorem codeUnit_control {c : Char} (hcontrol : c.toNat < 32) :
    codeUnit '0' '0' (Nat.digitChar (c.toNat / 16)) (Nat.digitChar (c.toNat % 16)) = some c := by
  have hall : ∀ n < 32, codeUnit '0' '0' (Nat.digitChar (n / 16)) (Nat.digitChar (n % 16)) =
      some (Char.ofNat n) := by
    decide
  rw [hall c.toNat hcontrol, Char.ofNat_toNat]

theorem readString_cons {c : Char} (rest : List Char) :
    readString 0 (Registry.jsonChar c ++ rest) = (readString 0 rest).map (prepend c) := by
  unfold Registry.jsonChar
  split_ifs with hquote hbackslash hnewline hreturn htab hbackspace hfeed hcontrol
  · subst hquote
    exact readString_letter (by decide) rfl rest
  · subst hbackslash
    exact readString_letter (by decide) rfl rest
  · subst hnewline
    exact readString_letter (by decide) rfl rest
  · subst hreturn
    exact readString_letter (by decide) rfl rest
  · subst htab
    exact readString_letter (by decide) rfl rest
  · have hsingle : singleEscape 'b' = some c := by
      rw [← Char.ofNat_toNat c, hbackspace]
      rfl
    exact readString_letter (by decide) hsingle rest
  · have hsingle : singleEscape 'f' = some c := by
      rw [← Char.ofNat_toNat c, hfeed]
      rfl
    exact readString_letter (by decide) hsingle rest
  · rw [List.cons_append, List.cons_append, List.cons_append, List.cons_append, List.cons_append,
      List.cons_append, List.nil_append]
    exact readString_digits (codeUnit_control hcontrol) rest
  · have hplain : readString 0 (c :: rest) = (readString 0 rest).map (prepend c) := by
      rw [readString, if_neg hquote, if_neg, if_neg hbackslash]
      rintro (h | h)
      · exact hnewline h
      · exact hreturn h
    exact hplain

theorem readString_jsonChars (value rest : List Char) :
    readString 0 (value.flatMap Registry.jsonChar ++ '"' :: rest) = some (value, rest) := by
  induction value with
  | nil => rw [List.flatMap_nil, List.nil_append, readString, if_pos rfl]
  | cons c value ih =>
    rw [List.flatMap_cons, List.append_assoc, readString_cons, ih]
    rfl

theorem lexes_jsString {rest : List Char} {tokens : List Token} (value : List Char)
    (h : Lexes rest tokens) : Lexes (jsString value ++ rest) (.string value :: tokens) := by
  have htext : jsString value ++ rest =
      '"' :: (value.flatMap Registry.jsonChar ++ '"' :: rest) := by
    rw [jsString, List.cons_append, List.append_assoc, List.singleton_append]
  rw [htext]
  apply Lexes.string (readString_jsonChars value rest) _ h
  rw [List.length_append, List.length_cons]
  omega

theorem isNamePart_of_mem_decimal {n : Nat} {c : Char} (h : c ∈ decimal n) :
    isNamePart c = true := by
  rw [isNamePart, Nat.isDigit_of_mem_toDigits (by decide) (by decide) h, Bool.or_true]

theorem isName_entryAlias {index : Nat} {surface : List Char}
    (hsurface : surface.all isNamePart = true) : isName (entryAlias index surface) = true := by
  obtain ⟨parts, hstart, hparts⟩ : ∃ parts, aliasStart = '_' :: parts ∧
      parts.all isNamePart = true :=
    ⟨"_il_entry_".toList, by decide, by decide⟩
  rw [List.all_eq_true] at hsurface hparts
  rw [entryAlias, hstart, List.cons_append, List.cons_append, isName, Bool.and_eq_true,
    List.all_eq_true]
  refine ⟨rfl, fun c hc => ?_⟩
  rw [List.mem_append, List.mem_append, List.mem_cons] at hc
  rcases hc with (hc | hc) | rfl | hc
  · exact hparts c hc
  · exact isNamePart_of_mem_decimal hc
  · rfl
  · exact hsurface c hc

theorem decimal_injective : Function.Injective decimal := by
  intro m n h
  have hm := Nat.ofDigitChars_ten_toDigits (n := m)
  rw [decimal, decimal] at h
  rw [h, Nat.ofDigitChars_ten_toDigits] at hm
  exact hm.symm

theorem entryAlias_inj {i j : Nat} {surface surface' : List Char}
    (h : entryAlias i surface = entryAlias j surface') : i = j ∧ surface = surface' := by
  rw [entryAlias, entryAlias, List.append_assoc, List.append_assoc] at h
  have htail := List.append_cancel_left h
  have hspan : ∀ (n : Nat) (rest : List Char),
      (decimal n ++ '_' :: rest).takeWhile (fun c => c ≠ '_') = decimal n := by
    intro n rest
    have hdigits : ∀ c ∈ decimal n, decide (c ≠ '_') = true := by
      intro c hc
      rw [decide_eq_true_eq]
      rintro rfl
      exact Nat.underscore_not_in_toDigits hc
    rw [List.takeWhile_append_of_pos hdigits]
    simp
  have hdecimal : decimal i = decimal j := by
    rw [← hspan i surface, ← hspan j surface', htail]
  have hindex := decimal_injective hdecimal
  subst hindex
  exact ⟨rfl, (List.cons.inj (List.append_cancel_left htail)).2⟩

theorem syntheticTarget_injective : Function.Injective syntheticTarget := by
  intro i j h
  exact decimal_injective (List.append_cancel_left h)

end

/-! ## The lines of the module -/

section

open ModuleSyntax

/-- A line of the module with the names it is written around. -/
inductive Line
  | exportName (name bound target : List Char)
  | exportDefault (bound target : List Char)
  | importNamespace (bound target : List Char)
  | exportNamespace (bound : List Char)

namespace Line

def text : Line → List Char
  | exportName name bound target =>
      "export \x7b ".toList ++ jsString name ++ " as ".toList ++ bound ++ " \x7d from ".toList ++
        jsString target ++ ";\n".toList
  | exportDefault bound target =>
      "export \x7b default as ".toList ++ bound ++ " \x7d from ".toList ++ jsString target ++
        ";\n".toList
  | importNamespace bound target =>
      "import * as ".toList ++ bound ++ " from ".toList ++ jsString target ++ ";\n".toList
  | exportNamespace bound => "export \x7b ".toList ++ bound ++ " \x7d;\n".toList

def bound : Line → List Char
  | exportName _ bound _ => bound
  | exportDefault bound _ => bound
  | importNamespace bound _ => bound
  | exportNamespace bound => bound

def tokens : Line → List Token
  | exportName name bound target =>
      [.name "export".toList, .openBrace, .string name, .name "as".toList, .name bound,
        .closeBrace, .name "from".toList, .string target, .semicolon]
  | exportDefault bound target =>
      [.name "export".toList, .openBrace, .name "default".toList, .name "as".toList, .name bound,
        .closeBrace, .name "from".toList, .string target, .semicolon]
  | importNamespace bound target =>
      [.name "import".toList, .star, .name "as".toList, .name bound, .name "from".toList,
        .string target, .semicolon]
  | exportNamespace bound =>
      [.name "export".toList, .openBrace, .name bound, .closeBrace, .semicolon]

def item : Line → ModuleItem
  | exportName name bound target => .exportFrom [⟨name, bound⟩] target
  | exportDefault bound target => .exportFrom [⟨"default".toList, bound⟩] target
  | importNamespace bound target => .importNamespace bound target
  | exportNamespace bound => .exportLocal [⟨bound, bound⟩]

end Line

def linesOf (index : Nat) (entry : BundleEntry) : List Line :=
  let target := syntheticTarget index
  match entry.selection with
  | .named names =>
      names.zipIdx.map fun (name, nameIndex) =>
        .exportName name.toList (exportAlias index nameIndex) target
  | .defaultExport => [.exportDefault (defaultAlias index) target]
  | .namespaceExport | .full =>
      [.importNamespace (namespaceAlias index) target, .exportNamespace (namespaceAlias index)]

theorem append_lines (opening name middle source closing reopening end' : List Char) :
    opening ++ name ++ middle ++ source ++ closing ++ reopening ++ name ++ end' =
      (opening ++ name ++ middle ++ source ++ closing) ++ ((reopening ++ name ++ end') ++ []) := by
  simp only [List.append_assoc, List.append_nil]

theorem entrySource_eq (index : Nat) (entry : BundleEntry) :
    entrySource index entry = (linesOf index entry).flatMap Line.text := by
  obtain ⟨entryPath, packageRoot, selection⟩ := entry
  cases selection with
  | named names =>
    change names.zipIdx.flatMap _ = (names.zipIdx.map _).flatMap Line.text
    rw [List.flatMap_map]
    rfl
  | defaultExport => exact (List.append_nil _).symm
  | namespaceExport => exact append_lines _ _ _ _ _ _ _
  | full => exact append_lines _ _ _ _ _ _ _

theorem parses_line (line : Line) {rest : List Token} {items : List ModuleItem}
    (h : Parses rest items) : Parses (line.tokens ++ rest) (line.item :: items) := by
  apply Parses.item _ _ h
  · cases line with
    | exportName name bound target => rfl
    | exportDefault bound target => rfl
    | importNamespace bound target => rfl
    | exportNamespace bound => rfl
  · rw [List.length_append]
    have hpos : 0 < line.tokens.length := by cases line <;> exact Nat.succ_pos _
    omega

theorem literal_append {literal text : List Char} (before after : List Char)
    (h : literal = before ++ text ++ after) (rest : List Char) :
    literal ++ rest = before ++ (text ++ (after ++ rest)) := by
  subst h
  simp only [List.append_assoc]

section

variable {rest : List Char} {tokens : List Token}

theorem lexes_word {text : List Char} (htext : isName text = true) (h : Lexes rest tokens) :
    Lexes (text ++ ' ' :: rest) (.name text :: tokens) := by
  apply Lexes.name htext _ (Lexes.space rfl h)
  intro d hd
  cases hd
  rfl

theorem lexes_openBrace (h : Lexes rest tokens) :
    Lexes ('\x7b' :: ' ' :: rest) (.openBrace :: tokens) :=
  Lexes.punctuator rfl rfl (by decide) rfl (Lexes.space rfl h)

theorem lexes_closeBrace (h : Lexes rest tokens) :
    Lexes ('\x7d' :: rest) (.closeBrace :: tokens) :=
  Lexes.punctuator rfl rfl (by decide) rfl h

theorem lexes_semicolon (h : Lexes rest tokens) :
    Lexes (';' :: '\n' :: rest) (.semicolon :: tokens) :=
  Lexes.punctuator rfl rfl (by decide) rfl (Lexes.space rfl h)

theorem lexes_from (target : List Char) (h : Lexes rest tokens) :
    Lexes ("from".toList ++ ' ' :: (jsString target ++ (";\n".toList ++ rest)))
      (.name "from".toList :: .string target :: .semicolon :: tokens) := by
  have hend := literal_append [] [] (show ";\n".toList = [] ++ [';', '\n'] ++ [] by decide) rest
  rw [hend]
  exact lexes_word (by decide) (lexes_jsString target (lexes_semicolon h))

/-- `as`, the name, and the brace behind it. -/
theorem lexes_as {bound : List Char} (hbound : isName bound = true) (target : List Char)
    (h : Lexes rest tokens) :
    Lexes ("as".toList ++ ' ' :: (bound ++ (" \x7d from ".toList ++
        (jsString target ++ (";\n".toList ++ rest)))))
      (.name "as".toList :: .name bound :: .closeBrace :: .name "from".toList :: .string target ::
        .semicolon :: tokens) := by
  have hfrom := literal_append [' ', '\x7d', ' '] [' ']
    (show " \x7d from ".toList = [' ', '\x7d', ' '] ++ "from".toList ++ [' '] by decide)
    (jsString target ++ (";\n".toList ++ rest))
  rw [hfrom]
  apply lexes_word (by decide)
  apply lexes_word hbound
  apply lexes_closeBrace
  exact Lexes.space rfl (lexes_from target h)

theorem append_six (a b c d e f rest : List Char) :
    a ++ b ++ c ++ d ++ e ++ f ++ rest = a ++ (b ++ (c ++ (d ++ (e ++ (f ++ rest))))) := by
  simp only [List.append_assoc]

theorem lexes_exportName {bound : List Char} (hbound : isName bound = true)
    (name target : List Char) (h : Lexes rest tokens) :
    Lexes ((Line.exportName name bound target).text ++ rest)
      ((Line.exportName name bound target).tokens ++ tokens) := by
  change Lexes (("export \x7b ".toList ++ jsString name ++ " as ".toList ++ bound ++
    " \x7d from ".toList ++ jsString target ++ ";\n".toList) ++ rest) _
  have hexport := literal_append [] [' ', '\x7b', ' ']
    (show "export \x7b ".toList = [] ++ "export".toList ++ [' ', '\x7b', ' '] by decide)
  have has :=
    literal_append [' '] [' '] (show " as ".toList = [' '] ++ "as".toList ++ [' '] by decide)
  rw [List.append_assoc _ (";\n".toList), append_six, hexport, has]
  apply lexes_word (by decide)
  apply lexes_openBrace
  apply lexes_jsString name
  exact Lexes.space rfl (lexes_as hbound target h)

theorem lexes_exportDefault {bound : List Char} (hbound : isName bound = true)
    (target : List Char) (h : Lexes rest tokens) :
    Lexes ((Line.exportDefault bound target).text ++ rest)
      ((Line.exportDefault bound target).tokens ++ tokens) := by
  change Lexes (("export \x7b default as ".toList ++ bound ++ " \x7d from ".toList ++
    jsString target ++ ";\n".toList) ++ rest) _
  have hexport := literal_append [] (" \x7b default as ".toList)
    (show "export \x7b default as ".toList = [] ++ "export".toList ++ " \x7b default as ".toList by
      decide)
  have hdefault := literal_append [' ', '\x7b', ' '] " as ".toList
    (show " \x7b default as ".toList = [' ', '\x7b', ' '] ++ "default".toList ++ " as ".toList by
      decide)
  have has :=
    literal_append [' '] [' '] (show " as ".toList = [' '] ++ "as".toList ++ [' '] by decide)
  rw [List.append_assoc _ (";\n".toList), List.append_assoc _ (jsString target),
    List.append_assoc _ (" \x7d from ".toList), List.append_assoc _ bound, hexport, hdefault, has]
  apply lexes_word (by decide)
  apply lexes_openBrace
  apply lexes_word (by decide)
  exact lexes_as hbound target h

theorem lexes_importNamespace {bound : List Char} (hbound : isName bound = true)
    (target : List Char) (h : Lexes rest tokens) :
    Lexes ((Line.importNamespace bound target).text ++ rest)
      ((Line.importNamespace bound target).tokens ++ tokens) := by
  change Lexes (("import * as ".toList ++ bound ++ " from ".toList ++ jsString target ++
    ";\n".toList) ++ rest) _
  have himport := literal_append [] (" * as ".toList)
    (show "import * as ".toList = [] ++ "import".toList ++ " * as ".toList by decide)
  have has := literal_append [' ', '*', ' '] [' ']
    (show " * as ".toList = [' ', '*', ' '] ++ "as".toList ++ [' '] by decide)
  have hfrom := literal_append [' '] [' ']
    (show " from ".toList = [' '] ++ "from".toList ++ [' '] by decide)
  rw [List.append_assoc _ (";\n".toList), List.append_assoc _ (jsString target),
    List.append_assoc _ (" from ".toList), List.append_assoc _ bound, himport, has, hfrom]
  apply lexes_word (by decide)
  apply Lexes.punctuator rfl rfl (by decide) rfl
  apply Lexes.space rfl
  apply lexes_word (by decide)
  apply lexes_word hbound
  exact lexes_from target h

theorem lexes_exportNamespace {bound : List Char} (hbound : isName bound = true)
    (h : Lexes rest tokens) :
    Lexes ((Line.exportNamespace bound).text ++ rest)
      ((Line.exportNamespace bound).tokens ++ tokens) := by
  change Lexes (("export \x7b ".toList ++ bound ++ " \x7d;\n".toList) ++ rest) _
  have hexport := literal_append [] [' ', '\x7b', ' ']
    (show "export \x7b ".toList = [] ++ "export".toList ++ [' ', '\x7b', ' '] by decide)
  have hend := literal_append [] []
    (show " \x7d;\n".toList = [] ++ [' ', '\x7d', ';', '\n'] ++ [] by decide) rest
  rw [List.append_assoc _ (" \x7d;\n".toList), List.append_assoc _ bound, hexport, hend]
  apply lexes_word (by decide)
  apply lexes_openBrace
  apply lexes_word hbound
  exact lexes_closeBrace (lexes_semicolon h)

theorem lexes_line (line : Line) (hbound : isName line.bound = true) (h : Lexes rest tokens) :
    Lexes (line.text ++ rest) (line.tokens ++ tokens) := by
  cases line with
  | exportName name bound target => exact lexes_exportName hbound name target h
  | exportDefault bound target => exact lexes_exportDefault hbound target h
  | importNamespace bound target => exact lexes_importNamespace hbound target h
  | exportNamespace bound => exact lexes_exportNamespace hbound h

end

theorem isName_exportAlias (index nameIndex : Nat) :
    isName (exportAlias index nameIndex) = true := by
  have hword : "export_".toList.all isNamePart = true := by decide
  apply isName_entryAlias
  rw [List.all_eq_true] at hword ⊢
  intro c hc
  rcases List.mem_append.mp hc with hc | hc
  · exact hword c hc
  · exact isNamePart_of_mem_decimal hc

theorem isName_of_mem_linesOf {index : Nat} {entry : BundleEntry} {line : Line}
    (h : line ∈ linesOf index entry) : isName line.bound = true := by
  have hdefault : isName (defaultAlias index) = true := isName_entryAlias (by decide)
  have hnamespace : isName (namespaceAlias index) = true := isName_entryAlias (by decide)
  have hlines : ∀ line ∈ [Line.importNamespace (namespaceAlias index) (syntheticTarget index),
      .exportNamespace (namespaceAlias index)], isName line.bound = true := by
    intro line hline
    rcases List.mem_pair.mp hline with rfl | rfl
    · exact hnamespace
    · exact hnamespace
  obtain ⟨entryPath, packageRoot, selection⟩ := entry
  cases selection with
  | named names =>
    obtain ⟨⟨name, nameIndex⟩, -, rfl⟩ := List.mem_map.mp h
    exact isName_exportAlias index nameIndex
  | defaultExport =>
    cases List.mem_singleton.mp h
    exact hdefault
  | namespaceExport => exact hlines line h
  | full => exact hlines line h

theorem lexes_lines {lines : List Line} (h : ∀ line ∈ lines, isName line.bound = true) :
    Lexes (lines.flatMap Line.text) (lines.flatMap Line.tokens) := by
  induction lines with
  | nil => exact Lexes.nil
  | cons line lines ih =>
    rw [List.flatMap_cons, List.flatMap_cons]
    exact lexes_line line (h line (by simp)) (ih fun other hother => h other (by simp [hother]))

theorem parses_lines (lines : List Line) :
    Parses (lines.flatMap Line.tokens) (lines.map Line.item) := by
  induction lines with
  | nil => exact Parses.nil
  | cons line lines ih =>
    rw [List.flatMap_cons, List.map_cons]
    exact parses_line line ih

def allLines (entries : List BundleEntry) : List Line :=
  entries.zipIdx.flatMap fun (entry, index) => linesOf index entry

theorem parseModule_virtualEntrySource (entries : List BundleEntry) :
    parseModule (virtualEntrySource entries) = some ((allLines entries).map Line.item) := by
  have htext : virtualEntrySource entries = (allLines entries).flatMap Line.text := by
    rw [virtualEntrySource, allLines, List.flatMap_assoc]
    apply congrArg (entries.zipIdx.flatMap ·)
    funext part
    exact entrySource_eq part.2 part.1
  rw [htext]
  apply parseModule_of_lexes (lexes_lines _) (parses_lines _)
  intro line hline
  obtain ⟨part, -, hpart⟩ := List.mem_flatMap.mp hline
  exact isName_of_mem_linesOf hpart

/-! ## The exports of the module -/

theorem importNamespace_mem_linesOf {index : Nat} {entry : BundleEntry}
    {bound target : List Char} (h : Line.importNamespace bound target ∈ linesOf index entry) :
    bound = namespaceAlias index ∧ target = syntheticTarget index := by
  have hlines : Line.importNamespace bound target ∈
      [Line.importNamespace (namespaceAlias index) (syntheticTarget index),
        .exportNamespace (namespaceAlias index)] →
      bound = namespaceAlias index ∧ target = syntheticTarget index := by
    intro hmem
    rcases List.mem_pair.mp hmem with heq | heq
    · exact Line.importNamespace.inj heq
    · cases heq
  obtain ⟨entryPath, packageRoot, selection⟩ := entry
  cases selection with
  | named names =>
    obtain ⟨part, -, heq⟩ := List.mem_map.mp h
    cases heq
  | defaultExport => cases List.mem_singleton.mp h
  | namespaceExport => exact hlines h
  | full => exact hlines h

theorem mem_importedNamespaces {entries : List BundleEntry} {bound target : List Char} :
    (bound, target) ∈ importedNamespaces ((allLines entries).map Line.item) ↔
      Line.importNamespace bound target ∈ allLines entries := by
  rw [importedNamespaces, List.mem_filterMap]
  constructor
  · rintro ⟨item, hitem, hread⟩
    obtain ⟨line, hline, rfl⟩ := List.mem_map.mp hitem
    cases line with
    | exportName name bound target => cases hread
    | exportDefault bound target => cases hread
    | importNamespace bound target =>
      cases hread
      exact hline
    | exportNamespace bound => cases hread
  · intro hline
    exact ⟨.importNamespace bound target, List.mem_map_of_mem hline, rfl⟩

/-- A namespace that is exported is found among the imported ones. -/
theorem lookup_namespaceAlias {entries : List BundleEntry} {index : Nat}
    (h : Line.importNamespace (namespaceAlias index) (syntheticTarget index) ∈ allLines entries) :
    (importedNamespaces ((allLines entries).map Line.item)).lookup (namespaceAlias index) =
      some (syntheticTarget index) := by
  have hmem := mem_importedNamespaces.mpr h
  have hone : ∀ target, (namespaceAlias index, target) ∈
      importedNamespaces ((allLines entries).map Line.item) → target = syntheticTarget index := by
    intro target htarget
    obtain ⟨⟨entry, place⟩, -, hline⟩ := List.mem_flatMap.mp (mem_importedNamespaces.mp htarget)
    obtain ⟨hbound, rfl⟩ := importNamespace_mem_linesOf hline
    rw [(entryAlias_inj hbound).1]
  generalize importedNamespaces ((allLines entries).map Line.item) = namespaces at hmem hone
  induction namespaces with
  | nil => cases hmem
  | cons row namespaces ih =>
    obtain ⟨bound, target⟩ := row
    rw [List.lookup_cons]
    by_cases heq : namespaceAlias index = bound
    · subst heq
      rw [beq_self_eq_true, hone target (by simp)]
    · rw [beq_eq_false_iff_ne.mpr heq]
      apply ih
      · rcases List.mem_cons.mp hmem with hrow | hmem
        · exact absurd (congrArg Prod.fst hrow) heq
        · exact hmem
      · exact fun other hother => hone other (by simp [hother])

theorem exports_namespaceLines {namespaces : List (List Char × List Char)}
    {bound target : List Char} (h : namespaces.lookup bound = some target) :
    ([ModuleItem.importNamespace bound target, .exportLocal [⟨bound, bound⟩]].mapM
        (itemExports namespaces)).map List.flatten = some [⟨bound, none, target⟩] := by
  simp [itemExports, h]

theorem exports_linesOf {entries : List BundleEntry} {index : Nat} {entry : BundleEntry}
    (hentry : (entry, index) ∈ entries.zipIdx) :
    (((linesOf index entry).map Line.item).mapM
        (itemExports (importedNamespaces ((allLines entries).map Line.item)))).map List.flatten =
      some (requestedOf index entry) := by
  have hnamespace : ∀ {line : Line}, line ∈ linesOf index entry → line ∈ allLines entries :=
    fun hline => List.mem_flatMap.mpr ⟨(entry, index), hentry, hline⟩
  obtain ⟨entryPath, packageRoot, selection⟩ := entry
  cases selection with
  | named names =>
    have hnames := mapM_exports_flatMap
      (importedNamespaces ((allLines entries).map Line.item)) names.zipIdx
      (fun part => [Line.item (.exportName part.1.toList (exportAlias index part.2)
        (syntheticTarget index))])
      (fun part => [⟨exportAlias index part.2, some part.1.toList, syntheticTarget index⟩])
      fun _ _ => rfl
    rw [← List.map_eq_flatMap, ← List.map_eq_flatMap] at hnames
    have hitems : (linesOf index ⟨entryPath, packageRoot, .named names⟩).map Line.item =
        names.zipIdx.map fun part => Line.item (.exportName part.1.toList
          (exportAlias index part.2) (syntheticTarget index)) := List.map_map
    rw [hitems]
    exact hnames
  | defaultExport => rfl
  | namespaceExport =>
    exact exports_namespaceLines (lookup_namespaceAlias (hnamespace (List.mem_cons_self ..)))
  | full =>
    exact exports_namespaceLines (lookup_namespaceAlias (hnamespace (List.mem_cons_self ..)))

theorem moduleExports_virtualEntrySource (entries : List BundleEntry) :
    moduleExports ((allLines entries).map Line.item) = some (requested entries) := by
  have hexports := mapM_exports_flatMap
    (importedNamespaces ((allLines entries).map Line.item)) entries.zipIdx
    (fun part => (linesOf part.2 part.1).map Line.item)
    (fun part => requestedOf part.2 part.1) fun part hpart => exports_linesOf hpart
  rw [moduleExports]
  have hitems : (allLines entries).map Line.item =
      entries.zipIdx.flatMap fun part => (linesOf part.2 part.1).map Line.item := by
    rw [allLines, List.map_flatMap]
  rw [← hitems] at hexports
  exact hexports

/-! ## The aliases -/

theorem requestedOf_aliases (index : Nat) (entry : BundleEntry) :
    ∃ surfaces : List (List Char), surfaces.Nodup ∧
      (requestedOf index entry).map ExportedBinding.exportedName =
        surfaces.map (entryAlias index) := by
  obtain ⟨entryPath, packageRoot, selection⟩ := entry
  cases selection with
  | named names =>
    refine ⟨names.zipIdx.map fun part => "export_".toList ++ decimal part.2, ?_, ?_⟩
    · have hindices : (names.zipIdx.map fun part => "export_".toList ++ decimal part.2) =
          (names.zipIdx.map Prod.snd).map fun nameIndex => "export_".toList ++ decimal nameIndex :=
        (List.map_map (f := Prod.snd)
          (g := fun nameIndex => "export_".toList ++ decimal nameIndex)).symm
      rw [hindices]
      apply (List.nodup_zipIdx_map_snd names).map
      intro i j heq
      exact decimal_injective (List.append_cancel_left heq)
    · change (names.zipIdx.map _).map _ = (names.zipIdx.map _).map _
      rw [List.map_map, List.map_map]
      rfl
  | defaultExport => exact ⟨["default".toList], List.nodup_singleton _, rfl⟩
  | namespaceExport => exact ⟨["namespace".toList], List.nodup_singleton _, rfl⟩
  | full => exact ⟨["namespace".toList], List.nodup_singleton _, rfl⟩

theorem nodup_aliases (entries : List BundleEntry) :
    ((requested entries).map ExportedBinding.exportedName).Nodup := by
  rw [requested, List.map_flatMap, List.nodup_flatMap]
  constructor
  · rintro ⟨entry, index⟩ -
    obtain ⟨surfaces, hnodup, hsurfaces⟩ := requestedOf_aliases index entry
    change ((requestedOf index entry).map ExportedBinding.exportedName).Nodup
    rw [hsurfaces]
    exact hnodup.map fun first second heq => (entryAlias_inj heq).2
  · have hindices : entries.zipIdx.Pairwise fun first second => first.2 ≠ second.2 :=
      List.pairwise_map.mp (List.nodup_zipIdx_map_snd entries)
    apply hindices.imp
    rintro ⟨first, i⟩ ⟨second, j⟩ hne bound hfirst hsecond
    obtain ⟨surfaces, -, hsurfaces⟩ := requestedOf_aliases i first
    obtain ⟨surfaces', -, hsurfaces'⟩ := requestedOf_aliases j second
    change bound ∈ (requestedOf i first).map ExportedBinding.exportedName at hfirst
    change bound ∈ (requestedOf j second).map ExportedBinding.exportedName at hsecond
    rw [hsurfaces] at hfirst
    rw [hsurfaces'] at hsecond
    obtain ⟨surface, -, rfl⟩ := List.mem_map.mp hfirst
    obtain ⟨surface', -, heq⟩ := List.mem_map.mp hsecond
    exact hne (entryAlias_inj heq).1.symm

end

/-- The stylesheet is read back exactly if no path ends a line; the module always is. -/
theorem generated_sources_read_back_iff (others : Char → List Char → Nat) (paths : List String)
    (entries : List BundleEntry) :
    ((∃ path content, syntheticEntry paths = some (path, content) ∧
        CssSyntax.importRules (CssSyntax.tokens others content) =
          some (paths.map String.toList)) ↔
      paths ≠ [] ∧ ∀ path ∈ paths, ∀ c ∈ path.toList,
        CssSyntax.isNewline c = false ∧ c.toNat ≠ 0) ∧
    (ModuleSyntax.parseModule (virtualEntrySource entries)).bind ModuleSyntax.moduleExports =
      some (requested entries) ∧
    ((requested entries).map ExportedBinding.exportedName).Nodup ∧
    ∀ i j, syntheticTarget i = syntheticTarget j → i = j := by
  refine ⟨?_, ?_, nodup_aliases entries, fun i j heq => syntheticTarget_injective heq⟩
  · cases paths with
    | nil =>
      refine iff_of_false ?_ fun h => h.1 rfl
      rintro ⟨path, content, heq, -⟩
      cases heq
    | cons first rest =>
      have hread := importRules_rulesText_iff others ((first :: rest).map String.toList)
      have hpaths : (∀ path ∈ (first :: rest).map String.toList, ∀ c ∈ path,
          CssSyntax.isNewline c = false ∧ c.toNat ≠ 0) ↔
          ∀ path ∈ first :: rest, ∀ c ∈ path.toList,
            CssSyntax.isNewline c = false ∧ c.toNat ≠ 0 := List.forall_mem_map
      rw [hpaths] at hread
      constructor
      · rintro ⟨path, content, heq, hrules⟩
        cases heq
        refine ⟨List.cons_ne_nil _ _, hread.mp ?_⟩
        rw [rulesText, List.map_map]
        exact hrules
      · rintro ⟨-, hall⟩
        refine ⟨_, _, rfl, ?_⟩
        have hrules := hread.mpr hall
        rw [rulesText, List.map_map] at hrules
        exact hrules
  · rw [parseModule_virtualEntrySource, Option.bind_some]
    exact moduleExports_virtualEntrySource entries

/-- The second line of the file's name is read outside of the string. -/
theorem newline_in_path_is_not_read_back :
    ∃ path content, syntheticEntry ["/p/a\nb.css"] = some (path, content) ∧
      CssSyntax.importRules (CssSyntax.tokens (fun _ _ => 0) content) ≠
        some ["/p/a\nb.css".toList] := by
  refine ⟨_, _, rfl, ?_⟩
  decide

end ImportLens.Pipeline.GeneratedSources
