import ImportLens.Document.CheckedScan
import ImportLens.Document.Completion

/-!
# References in the markup

The places in a component's markup that refer to the bindings of its scripts.  The
scanner works on the gaps between the script regions, byte by byte, and every slice it
takes is checked.  What it returns stands between two characters, outside every region.
-/

namespace ImportLens.Document

open ImportLens.Support

inductive TemplateSyntax
  | vue
  | braces
  deriving DecidableEq, Repr

/-- A slice of a text, with the position it stands at. -/
structure MarkupSlice where
  offset : Nat
  text : List UInt8
  deriving DecidableEq, Repr

def MarkupSlice.finish (reference : MarkupSlice) : Nat := reference.offset + reference.text.length

def markupSlice (markup : List UInt8) (start finish : Nat) : Checked MarkupSlice :=
  (strSlice markup start finish).map fun text => ⟨start, text⟩

/-! ## Expressions -/

/-- `until` -/
def untilStop (bytes : List UInt8) (start : Nat) (stop : UInt8 → Bool) : Checked Nat :=
  (bytesFrom bytes start).map fun rest =>
    (rest.findIdx? stop).elim bytes.length fun relative => start + relative

def findBytes (bytes : List UInt8) (start : Nat) (needle : List UInt8) : Option Nat :=
  if start ≤ bytes.length then findAt needle bytes start else none

def closingBrace (depth offset : Nat) : List UInt8 → Checked (Option Nat)
  | [] => some none
  | byte :: bytes =>
      if byte = openBrace then closingBrace (depth + 1) (offset + 1) bytes
      else if byte = closeBrace then
        (checkedSub depth 1).bind fun depth =>
          if depth = 0 then some (some (offset + 1)) else closingBrace depth (offset + 1) bytes
      else closingBrace depth (offset + 1) bytes

/-- The end of the interpolation at `index`, if one starts there. -/
def expressionEnd (bytes : List UInt8) (index : Nat) : TemplateSyntax → Checked (Option Nat)
  | .vue =>
      (bytesFrom bytes index).map fun rest =>
        if [openBrace, openBrace].isPrefixOf rest then
          some ((findBytes bytes (index + 2) [closeBrace, closeBrace]).elim bytes.length (· + 2))
        else none
  | .braces =>
      -- `bytes[index]`
      bytes[index]?.bind fun byte =>
        if byte = openBrace then
          (bytesFrom bytes index).bind fun rest =>
            (closingBrace 0 0 rest).map fun finish =>
              some (finish.elim bytes.length fun finish => index + finish)
        else some none

section

variable {bytes : List UInt8} {text : List Char} {start finish index : Nat}

theorem untilStop_of_le {stop : UInt8 → Bool} (h : start ≤ bytes.length) :
    untilStop bytes start stop = some (findByte bytes start stop) := by
  rw [untilStop, bytesFrom_of_le h]
  rfl

theorem findAt_of_findBytes {needle : List UInt8} (h : findBytes bytes start needle = some index) :
    findAt needle bytes start = some index := by
  unfold findBytes at h
  split at h
  · exact h
  · cases h

theorem closingBrace_returns {depth offset : Nat} (h : 0 < depth) :
    Returns (closingBrace depth offset bytes) fun closes => ∀ finish, closes = some finish →
      ∃ k, finish = offset + k + 1 ∧ bytes[k]? = some closeBrace := by
  induction bytes generalizing depth offset with
  | nil => exact returns_some fun _ hnone => by cases hnone
  | cons byte bytes ih =>
    have hlater {depth : Nat} (hdepth : 0 < depth) :
        Returns (closingBrace depth (offset + 1) bytes) fun closes =>
          ∀ finish, closes = some finish →
            ∃ k, finish = offset + k + 1 ∧ (byte :: bytes)[k]? = some closeBrace := by
      apply (ih hdepth).imp
      intro closes hcloses finish hfinish
      obtain ⟨k, hk, hat⟩ := hcloses finish hfinish
      exact ⟨k + 1, by omega, hat⟩
    rw [closingBrace]
    split
    · exact hlater (Nat.succ_pos _)
    · split
      · rename_i hclose
        rw [checkedSub, if_pos (Nat.succ_le_of_lt h), Option.bind_some]
        split
        · refine returns_some fun finish hfinish => ⟨0, ?_, ?_⟩
          · exact (Option.some.inj hfinish).symm
          · rw [hclose]
            rfl
        · exact hlater (by omega)
      · exact hlater h

/-- An expression starts and ends between two characters. -/
theorem expressionEnd_returns (templateSyntax : TemplateSyntax) (h : index < (utf8 text).length) :
    Returns (expressionEnd (utf8 text) index templateSyntax) fun found =>
      ∀ finish, found = some finish →
        CharBoundary text index ∧ CharBoundary text finish ∧ index < finish := by
  cases templateSyntax with
  | vue =>
    rw [expressionEnd, bytesFrom_of_le (Nat.le_of_lt h), Option.map_some]
    apply returns_some
    intro finish hfinish
    split at hfinish
    · rename_i hopens
      have hstart := (boundaries_of_isPrefix (List.isPrefixOf_iff_prefix.mp hopens)
        (by simp [isAscii_openBrace]) (by simp)).1
      refine ⟨hstart, ?_⟩
      rw [← Option.some.inj hfinish]
      cases hfind : findBytes (utf8 text) (index + 2) [closeBrace, closeBrace] with
      | none => exact ⟨.length, h⟩
      | some closes =>
        have hat := findAt_of_findBytes hfind
        have hle := (findAt_spec hat).1
        refine ⟨(boundaries_of_findAt hat (by simp [isAscii_closeBrace]) (by simp)).2, ?_⟩
        change index < closes + 2
        omega
    · cases hfinish
  | braces =>
    have hat := List.getElem?_eq_getElem h
    rw [expressionEnd, hat, Option.bind_some]
    split
    · rename_i hopens
      rw [hopens] at hat
      have hstart := (boundaries_of_isAscii hat isAscii_openBrace).1
      -- the first byte is the brace, and the depth behind it is one
      have hdrop : (utf8 text).drop index = openBrace :: (utf8 text).drop (index + 1) := by
        rw [List.drop_eq_getElem_cons h, hopens]
      rw [bytesFrom_of_le (Nat.le_of_lt h), Option.bind_some, hdrop, closingBrace, if_pos rfl]
      apply (closingBrace_returns (Nat.succ_pos 0)).map
      intro closes hcloses finish hfinish
      refine ⟨hstart, ?_⟩
      rw [← Option.some.inj hfinish]
      cases closes with
      | none => exact ⟨.length, h⟩
      | some closes =>
        obtain ⟨k, rfl, hclose⟩ := hcloses closes rfl
        rw [List.getElem?_drop] at hclose
        have hend := (boundaries_of_isAscii hclose isAscii_closeBrace).2
        rw [show index + 1 + k + 1 = index + (0 + 1 + k + 1) by omega] at hend
        refine ⟨hend, ?_⟩
        change index < index + (0 + 1 + k + 1)
        omega
    · exact returns_some fun _ hnone => by cases hnone

theorem markupSlice_returns (hstart : CharBoundary text start) (hfinish : CharBoundary text finish)
    (hle : start ≤ finish) :
    Returns (markupSlice (utf8 text) start finish) fun reference =>
      IsPart text reference.offset reference.text := by
  rw [markupSlice, strSlice_of_boundary hstart hfinish hle]
  exact returns_some (IsPart.of_slice hstart hfinish hle).1

end

/-! ## Attribute values -/

/-- The value at `index`, and the index after it. -/
def attributeValueAt (markup : List UInt8) (index : Nat) (templateSyntax : TemplateSyntax) :
    Checked (MarkupSlice × Nat) :=
  let bare :=
    (untilStop markup index fun byte => isAsciiWhitespace byte || byte = byteOf '>').bind
      fun finish => (markupSlice markup index finish).map fun value => (value, finish)
  match markup[index]? with
  | none => bare
  | some byte =>
      if byte = byteOf '"' || byte = byteOf '\'' then
        let finish := (findBytes markup (index + 1) [byte]).getD markup.length
        (markupSlice markup (index + 1) finish).map fun value =>
          (value, min (finish + 1) markup.length)
      else if byte = openBrace && templateSyntax = .braces then
        (expressionEnd markup index templateSyntax).bind fun finish =>
          (markupSlice markup index (finish.getD markup.length)).map fun value =>
            (value, finish.getD markup.length)
      else bare

section

variable {text : List Char} {index : Nat}

theorem expressionEnd_getD {templateSyntax : TemplateSyntax} (h : index < (utf8 text).length) :
    Returns (expressionEnd (utf8 text) index templateSyntax) fun found =>
      CharBoundary text (found.getD (utf8 text).length) ∧
        index < found.getD (utf8 text).length := by
  apply (expressionEnd_returns templateSyntax h).imp
  intro found hfound
  cases found with
  | none => exact ⟨.length, h⟩
  | some finish => exact (hfound finish rfl).2

/-- A value is a part of the text, and the scan goes on behind it. -/
def ReadsValue (text : List Char) (index : Nat) (read : MarkupSlice × Nat) : Prop :=
  IsPart text read.1.offset read.1.text ∧ CharBoundary text read.2 ∧ index ≤ read.2

theorem bareValue_returns (h : CharBoundary text index) :
    Returns ((untilStop (utf8 text) index fun byte =>
      isAsciiWhitespace byte || byte = byteOf '>').bind fun finish =>
        (markupSlice (utf8 text) index finish).map fun value => (value, finish))
      (ReadsValue text index) := by
  have hend : CharBoundary text (findByte (utf8 text) index fun byte =>
      isAsciiWhitespace byte || byte = byteOf '>') :=
    findByte_boundary (fun _ => isAscii_of_endsValue) index
  rw [untilStop_of_le h.le_length, Option.bind_some]
  apply (markupSlice_returns h hend (le_findByte h.le_length)).map
  exact fun value hvalue => ⟨hvalue, hend, le_findByte h.le_length⟩

theorem quotedValue_returns {byte : UInt8} (hat : (utf8 text)[index]? = some byte)
    (hascii : IsAscii byte) :
    Returns ((markupSlice (utf8 text) (index + 1)
      ((findBytes (utf8 text) (index + 1) [byte]).getD (utf8 text).length)).map fun value =>
        (value, min ((findBytes (utf8 text) (index + 1) [byte]).getD (utf8 text).length + 1)
          (utf8 text).length))
      (ReadsValue text index) := by
  have hlt := (List.getElem?_eq_some_iff.mp hat).1
  have hstart := (boundaries_of_isAscii hat hascii).2
  cases hfind : findBytes (utf8 text) (index + 1) [byte] with
  | none =>
    rw [Option.getD_none]
    apply (markupSlice_returns hstart .length hlt).map
    intro value hvalue
    rw [Nat.min_eq_right (Nat.le_succ _)]
    exact ⟨hvalue, .length, Nat.le_of_lt hlt⟩
  | some finish =>
    have hquote := findAt_of_findBytes hfind
    have hends := boundaries_of_isAscii (getElem?_of_findAt hquote) hascii
    have hle := (findAt_spec hquote).1
    rw [Option.getD_some, Nat.min_eq_left hends.2.le_length]
    apply (markupSlice_returns hstart hends.1 hle).map
    exact fun value hvalue => ⟨hvalue, hends.2, by omega⟩

theorem attributeValueAt_returns (templateSyntax : TemplateSyntax) (h : CharBoundary text index) :
    Returns (attributeValueAt (utf8 text) index templateSyntax) (ReadsValue text index) := by
  unfold attributeValueAt
  dsimp only
  cases hat : (utf8 text)[index]? with
  | none => exact bareValue_returns h
  | some byte =>
    dsimp only
    split
    · rename_i hquote
      apply quotedValue_returns hat
      simp only [Bool.or_eq_true, decide_eq_true_eq] at hquote
      unfold IsAscii
      rcases hquote with rfl | rfl <;> decide
    · split
      · have hlt := (List.getElem?_eq_some_iff.mp hat).1
        apply (expressionEnd_getD hlt).bind
        intro finish hfinish
        apply (markupSlice_returns h hfinish.1 (Nat.le_of_lt hfinish.2)).map
        exact fun value hvalue => ⟨hvalue, hfinish.1, Nat.le_of_lt hfinish.2⟩
      · exact bareValue_returns h

end

/-! ## Tags -/

structure MarkupScan where
  index : Nat
  references : List MarkupSlice
  deriving DecidableEq, Repr

def endsTagName (byte : UInt8) : Bool :=
  isAsciiWhitespace byte || byte = byteOf '/' || byte = byteOf '>'

def isAsciiAlphabetic (byte : UInt8) : Bool :=
  (65 ≤ byte.toNat && byte.toNat ≤ 90) || (97 ≤ byte.toNat && byte.toNat ≤ 122)

def endsAttribute (byte : UInt8) : Bool :=
  isAsciiWhitespace byte || byte = byteOf '=' || byte = byteOf '>'

def namesComponent (name : List UInt8) : Bool :=
  name.any fun byte =>
    (65 ≤ byte.toNat && byte.toNat ≤ 90) || byte = byteOf '-' || byte = byteOf '.'

/-- In Vue the name of an attribute makes its value an expression, elsewhere a brace does. -/
def isExpression (name value : List UInt8) : TemplateSyntax → Bool
  | .vue =>
      [ascii ":", ascii "@", ascii "#", ascii "v-"].any fun mark => mark.isPrefixOf name
  | .braces => value.contains openBrace

def tagAttributeRound (markup : List UInt8) (templateSyntax : TemplateSyntax)
    (scan : MarkupScan) : Checked (Option MarkupScan) :=
  let index := skipAsciiWhitespace markup scan.index
  match markup[index]? with
  | none => some none
  | some byte =>
      if byte = byteOf '>' then some none
      else if byte = openBrace && templateSyntax = .braces then
        (expressionEnd markup index templateSyntax).bind fun finish =>
          (markupSlice markup index (finish.getD markup.length)).map fun reference =>
            some ⟨finish.getD markup.length, scan.references ++ [reference]⟩
      else
        (untilStop markup index endsAttribute).bind fun found =>
          let attributeEnd := max found (index + 1)
          (strSlice markup index attributeEnd).bind fun name =>
            let equals := skipAsciiWhitespace markup attributeEnd
            if markup[equals]? ≠ some (byteOf '=') then some (some ⟨equals, scan.references⟩)
            else
              (attributeValueAt markup (skipAsciiWhitespace markup (equals + 1))
                templateSyntax).map fun read =>
                  some {
                    index := read.2
                    references :=
                      if isExpression name read.1.text templateSyntax then
                        scan.references ++ [read.1]
                      else scan.references }

/-- `<style>` and `<script>` have bodies that are not markup. -/
def isRawText (name : List UInt8) : Bool :=
  toAsciiLowercase name = ascii "style" || toAsciiLowercase name = ascii "script"

/-- The index after the open tag whose name starts at `nameStart`, or after its raw text. -/
def scanTag (markup : List UInt8) (nameStart : Nat) (templateSyntax : TemplateSyntax)
    (references : List MarkupSlice) : Checked MarkupScan :=
  (untilStop markup nameStart endsTagName).bind fun nameEnd =>
    (markupSlice markup nameStart nameEnd).bind fun name =>
      (checkedRounds (tagAttributeRound markup templateSyntax) (markup.length + 1) {
        index := nameEnd
        references := if namesComponent name.text then references ++ [name] else references }).bind
          fun scan =>
            let index := skipAsciiWhitespace markup scan.index
            -- the loop ends at a `>`, or at the end
            if markup[index]? = some (byteOf '>') then
              let afterTag := index + 1
              if isRawText name.text then
                (strFrom markup afterTag).map fun rest =>
                  { scan with
                    index :=
                      (find (ascii "</" ++ toAsciiLowercase name.text) (toAsciiLowercase rest)).elim
                        markup.length fun relative => afterTag + relative }
              else some { scan with index := afterTag }
            else some { scan with index := markup.length }

section

variable {text : List Char} {templateSyntax : TemplateSyntax} {limit : Nat}

/-- What a tag's loop keeps: it stands between two characters, behind the name, and its
references are parts of the text. -/
structure TagSound (text : List Char) (limit : Nat) (scan : MarkupScan) : Prop where
  boundary : CharBoundary text scan.index
  limit_le : limit ≤ scan.index
  parts : ∀ reference ∈ scan.references, IsPart text reference.offset reference.text

theorem forall_mem_concat {α : Type} {p : α → Prop} {xs : List α} {x : α} (h : ∀ y ∈ xs, p y)
    (hx : p x) : ∀ y ∈ xs ++ [x], p y := by
  intro y hin
  rcases List.mem_append.mp hin with hold | hnew
  · exact h y hold
  · rw [List.mem_singleton.mp hnew]
    exact hx

theorem isAscii_of_endsAttribute {byte : UInt8} (h : endsAttribute byte = true) :
    IsAscii byte := by
  apply isAscii_of_endsAttributeName
  simp only [endsAttribute, endsAttributeName, Bool.or_eq_true, decide_eq_true_eq] at h ⊢
  rcases h with (h | h) | h
  · exact .inl (.inl (.inl h))
  · exact .inl (.inl (.inr h))
  · exact .inr h

theorem isAscii_of_endsTagName {byte : UInt8} (h : endsTagName byte = true) : IsAscii byte := by
  apply isAscii_of_endsAttributeName
  simp only [endsTagName, endsAttributeName, Bool.or_eq_true, decide_eq_true_eq] at h ⊢
  rcases h with (h | h) | h
  · exact .inl (.inl (.inl h))
  · exact .inl (.inr h)
  · exact .inr h

theorem attributeEnd_boundary {index : Nat} {byte : UInt8} (h : CharBoundary text index)
    (hat : (utf8 text)[index]? = some byte) :
    CharBoundary text (max (findByte (utf8 text) index endsAttribute) (index + 1)) := by
  have hend : CharBoundary text (findByte (utf8 text) index endsAttribute) :=
    findByte_boundary (fun _ => isAscii_of_endsAttribute) index
  have hle : index ≤ findByte (utf8 text) index endsAttribute := le_findByte h.le_length
  by_cases hsame : findByte (utf8 text) index endsAttribute = index
  · rw [hsame, Nat.max_eq_right (Nat.le_succ _)]
    rcases findByte_spec (utf8 text) index endsAttribute with hlength | ⟨stop, hstop, hends⟩
    · have := (List.getElem?_eq_some_iff.mp hat).1
      omega
    · rw [hsame] at hstop
      exact (boundaries_of_isAscii hstop (isAscii_of_endsAttribute hends)).2
  · rw [Nat.max_eq_left (by omega)]
    exact hend

/-- Every round moves the loop over the attributes on. -/
theorem tagAttributeRound_returns {scan : MarkupScan} (h : TagSound text limit scan) :
    Returns (tagAttributeRound (utf8 text) templateSyntax scan) fun next =>
      ∀ later, next = some later → TagSound text limit later ∧ scan.index < later.index ∧
        scan.index < (utf8 text).length := by
  have hskip := le_skipAsciiWhitespace (utf8 text) scan.index
  have hboundary := skipAsciiWhitespace_boundary h.boundary
  have hlimit := h.limit_le
  unfold tagAttributeRound
  dsimp only
  generalize skipAsciiWhitespace (utf8 text) scan.index = index at hskip hboundary
  cases hat : (utf8 text)[index]? with
  | none => exact returns_some fun _ hnone => by cases hnone
  | some byte =>
    have hlt := (List.getElem?_eq_some_iff.mp hat).1
    dsimp only
    split
    · exact returns_some fun _ hnone => by cases hnone
    · split
      · apply (expressionEnd_getD hlt).bind
        intro finish hfinish
        apply (markupSlice_returns hboundary hfinish.1 (Nat.le_of_lt hfinish.2)).map
        intro reference hreference later hlater
        rw [← Option.some.inj hlater]
        have hnext := hfinish.2
        exact ⟨⟨hfinish.1, by dsimp only; omega, forall_mem_concat h.parts hreference⟩,
          by dsimp only; omega, by omega⟩
      · have hend := attributeEnd_boundary hboundary hat
        have hless : index < max (findByte (utf8 text) index endsAttribute) (index + 1) := by omega
        rw [untilStop_of_le hboundary.le_length, Option.bind_some,
          strSlice_of_boundary hboundary hend (Nat.le_of_lt hless), Option.bind_some]
        have hequals := skipAsciiWhitespace_boundary hend
        have hafter := le_skipAsciiWhitespace (utf8 text)
          (max (findByte (utf8 text) index endsAttribute) (index + 1))
        generalize skipAsciiWhitespace (utf8 text)
          (max (findByte (utf8 text) index endsAttribute) (index + 1)) = equals at hequals hafter
        split
        · apply returns_some
          intro later hlater
          rw [← Option.some.inj hlater]
          exact ⟨⟨hequals, by dsimp only; omega, h.parts⟩, by dsimp only; omega, by omega⟩
        · rename_i hsign
          have hascii : IsAscii (byteOf '=') := by
            unfold IsAscii
            decide
          have hvalue := (boundaries_of_isAscii (not_not.mp hsign) hascii).2
          have hstart := le_skipAsciiWhitespace (utf8 text) (equals + 1)
          apply (attributeValueAt_returns templateSyntax (skipAsciiWhitespace_boundary hvalue)).map
          intro read hread later hlater
          obtain ⟨hpart, hnext, hle⟩ := hread
          rw [← Option.some.inj hlater]
          refine ⟨⟨hnext, by dsimp only; omega, ?_⟩, by dsimp only; omega, by omega⟩
          dsimp only
          split
          · exact forall_mem_concat h.parts hpart
          · exact h.parts

theorem rawTextEnd {bytes name : List UInt8} {afterTag relative : Nat}
    (h : find (ascii "</" ++ name) (toAsciiLowercase (bytes.drop afterTag)) = some relative) :
    (toAsciiLowercase bytes)[afterTag + relative]? = some (byteOf '<') := by
  obtain ⟨rest, hrest⟩ := isPrefix_of_find h
  have hdrop : toAsciiLowercase (bytes.drop afterTag) = (toAsciiLowercase bytes).drop afterTag :=
    List.map_drop
  rw [hdrop, List.drop_drop] at hrest
  rw [← Nat.add_zero (afterTag + relative), ← List.getElem?_drop, ← hrest]
  rfl

/-- A tag ends behind its name, and its references are parts of the text. -/
theorem scanTag_returns {nameStart : Nat} {references : List MarkupSlice}
    (h : CharBoundary text nameStart)
    (hparts : ∀ reference ∈ references, IsPart text reference.offset reference.text) :
    Returns (scanTag (utf8 text) nameStart templateSyntax references)
      (TagSound text nameStart) := by
  have hname : CharBoundary text (findByte (utf8 text) nameStart endsTagName) :=
    findByte_boundary (fun _ => isAscii_of_endsTagName) nameStart
  have hle : nameStart ≤ findByte (utf8 text) nameStart endsTagName := le_findByte h.le_length
  rw [scanTag, untilStop_of_le h.le_length, Option.bind_some]
  apply (markupSlice_returns h hname hle).bind
  intro name hpart
  have hsound : TagSound text nameStart {
      index := findByte (utf8 text) nameStart endsTagName
      references := if namesComponent name.text then references ++ [name] else references } := by
    refine ⟨hname, hle, ?_⟩
    dsimp only
    split
    · exact forall_mem_concat hparts hpart
    · exact hparts
  apply (checkedRounds_returns MarkupScan.index (utf8 text).length
    (fun scan hscan => tagAttributeRound_returns hscan) hsound (by dsimp only; omega)).bind
  intro scan hscan
  have hskip := le_skipAsciiWhitespace (utf8 text) scan.index
  have hlimit := hscan.limit_le
  have hindex := skipAsciiWhitespace_boundary hscan.boundary
  dsimp only
  split
  · rename_i hgt
    have hafter := (boundaries_of_isAscii hgt isAscii_byteOf_gt).2
    split
    · rw [strFrom_of_boundary hafter, Option.map_some]
      apply returns_some
      cases hclose : find (ascii "</" ++ toAsciiLowercase name.text)
          (toAsciiLowercase
            ((utf8 text).drop (skipAsciiWhitespace (utf8 text) scan.index + 1))) with
      | none => exact ⟨.length, h.le_length, hscan.parts⟩
      | some relative =>
        have hlt := (boundaries_of_lower (rawTextEnd hclose) isAscii_byteOf_lt).1
        refine ⟨hlt, ?_, hscan.parts⟩
        change nameStart ≤ skipAsciiWhitespace (utf8 text) scan.index + 1 + relative
        omega
    · exact returns_some ⟨hafter, by dsimp only; omega, hscan.parts⟩
  · exact returns_some ⟨.length, h.le_length, hscan.parts⟩

/-! ## Markup -/

end

def templateRound (markup : List UInt8) (templateSyntax : TemplateSyntax) (scan : MarkupScan) :
    Checked (Option MarkupScan) :=
  if scan.index < markup.length then
    (bytesFrom markup scan.index).bind fun rest =>
      if commentOpen.isPrefixOf rest then
        some (some { scan with
          index := (findBytes markup (scan.index + 4) commentClose).elim markup.length (· + 3) })
      else if (ascii "</").isPrefixOf rest then
        some (some { scan with
          index := (findBytes markup scan.index [byteOf '>']).elim markup.length (· + 1) })
      else if rest[0]? = some (byteOf '<') && rest[1]?.any isAsciiAlphabetic then
        (scanTag markup (scan.index + 1) templateSyntax scan.references).map some
      else
        (expressionEnd markup scan.index templateSyntax).bind fun
          | some finish =>
              (markupSlice markup scan.index finish).map fun reference =>
                some ⟨finish, scan.references ++ [reference]⟩
          | none => some (some { scan with index := scan.index + 1 })
  else some none

def scanTemplate (markup : List UInt8) (templateSyntax : TemplateSyntax) :
    Checked (List MarkupSlice) :=
  (checkedRounds (templateRound markup templateSyntax) (markup.length + 1) ⟨0, []⟩).map
    MarkupScan.references

section

variable {text : List Char} {templateSyntax : TemplateSyntax}

/-- Every round moves the scan of a fragment on; only its slices need boundaries. -/
theorem templateRound_returns {scan : MarkupScan}
    (h : ∀ reference ∈ scan.references, IsPart text reference.offset reference.text) :
    Returns (templateRound (utf8 text) templateSyntax scan) fun next =>
      ∀ later, next = some later →
        (∀ reference ∈ later.references, IsPart text reference.offset reference.text) ∧
          scan.index < later.index ∧ scan.index < (utf8 text).length := by
  unfold templateRound
  split
  · rename_i hlt
    rw [bytesFrom_of_le (Nat.le_of_lt hlt), Option.bind_some]
    split
    · apply returns_some
      intro later hlater
      rw [← Option.some.inj hlater]
      refine ⟨h, ?_, hlt⟩
      cases hfind : findBytes (utf8 text) (scan.index + 4) commentClose with
      | none => exact hlt
      | some closes =>
        have hle := (findAt_spec (findAt_of_findBytes hfind)).1
        change scan.index < closes + 3
        omega
    · split
      · apply returns_some
        intro later hlater
        rw [← Option.some.inj hlater]
        refine ⟨h, ?_, hlt⟩
        cases hfind : findBytes (utf8 text) scan.index [byteOf '>'] with
        | none => exact hlt
        | some closes =>
          have hle := (findAt_spec (findAt_of_findBytes hfind)).1
          change scan.index < closes + 1
          omega
      · split
        · rename_i hopens
          simp only [Bool.and_eq_true, decide_eq_true_eq] at hopens
          have hat : (utf8 text)[scan.index]? = some (byteOf '<') := by
            have := hopens.1
            rwa [List.getElem?_drop] at this
          have hname := (boundaries_of_isAscii hat isAscii_byteOf_lt).2
          apply (scanTag_returns hname h).map
          intro tag htag later hlater
          rw [← Option.some.inj hlater]
          exact ⟨htag.parts, htag.limit_le, hlt⟩
        · apply (expressionEnd_returns templateSyntax hlt).bind
          intro found hfound
          cases found with
          | none =>
            apply returns_some
            intro later hlater
            rw [← Option.some.inj hlater]
            exact ⟨h, Nat.lt_succ_self _, hlt⟩
          | some finish =>
            obtain ⟨hstart, hend, hless⟩ := hfound finish rfl
            apply (markupSlice_returns hstart hend (Nat.le_of_lt hless)).map
            intro reference hreference later hlater
            rw [← Option.some.inj hlater]
            exact ⟨forall_mem_concat h hreference, hless, hlt⟩
  · exact returns_some fun _ hnone => by cases hnone

theorem scanTemplate_returns (text : List Char) (templateSyntax : TemplateSyntax) :
    Returns (scanTemplate (utf8 text) templateSyntax) fun references =>
      ∀ reference ∈ references, IsPart text reference.offset reference.text := by
  apply (checkedRounds_returns MarkupScan.index (utf8 text).length
    (fun scan hscan => templateRound_returns hscan) (fun _ hin => absurd hin List.not_mem_nil)
    (Nat.lt_succ_of_le (Nat.sub_le _ _))).map
  exact fun scan hscan => hscan

end

/-! ## Documents -/

def spanLe (a b : Nat × Nat) : Bool := a.1 < b.1 || (a.1 = b.1 && a.2 ≤ b.2)

def sortedSpans (regions : List ScriptRegion) : List (Nat × Nat) :=
  (regions.map fun region => (region.offset, region.finish)).mergeSort spanLe

def scanGap (source : List UInt8) (templateSyntax : TemplateSyntax) (start finish : Nat)
    (references : List MarkupSlice) : Checked (List MarkupSlice) :=
  (strSlice source start finish).bind fun markup =>
    (scanTemplate markup templateSyntax).map fun found =>
      references ++ found.map fun reference => { reference with offset := start + reference.offset }

def scanSpans (source : List UInt8) (templateSyntax : TemplateSyntax) (cursor : Nat)
    (references : List MarkupSlice) : List (Nat × Nat) → Checked (List MarkupSlice)
  | [] => scanGap source templateSyntax cursor source.length references
  | span :: spans =>
      if span.1 > cursor then
        (scanGap source templateSyntax cursor span.1 references).bind fun references =>
          scanSpans source templateSyntax (max cursor span.2) references spans
      else scanSpans source templateSyntax (max cursor span.2) references spans

def templateReferences (filename : String) (source : List UInt8) (regions : List ScriptRegion) :
    Checked (List MarkupSlice) :=
  if regions.any fun region => region.sharesBindingsWithMarkup then
    let templateSyntax : TemplateSyntax := if hasExtension filename ".vue" then .vue else .braces
    scanSpans source templateSyntax 0 [] (sortedSpans regions)
  else some []

section

variable {text : List Char} {templateSyntax : TemplateSyntax} {spans : List (Nat × Nat)}
  {cursor start finish : Nat} {references : List MarkupSlice}

theorem IsPart.within {before middle after : List Char} {offset : Nat} {source : List UInt8}
    (h : IsPart middle offset source) :
    IsPart (before ++ middle ++ after) ((utf8 before).length + offset) source := by
  have hshift {position : Nat} (hposition : CharBoundary middle position) :
      CharBoundary (before ++ middle ++ after) ((utf8 before).length + position) := by
    obtain ⟨front, back, rfl, rfl⟩ := hposition
    exact ⟨before ++ front, back ++ after, by simp only [List.append_assoc],
      (length_utf8_append _ _).symm⟩
  refine ⟨hshift h.starts, Nat.add_assoc _ _ _ ▸ hshift h.ends, ?_⟩
  have hle := h.ends.le_length
  have htake : (utf8 (before ++ middle ++ after)).take
      ((utf8 before).length + (offset + source.length)) =
        utf8 before ++ (utf8 middle).take (offset + source.length) := by
    rw [utf8_append, utf8_append, List.append_assoc, List.take_length_add_append,
      List.take_append_of_le_length hle]
  have hslice := h.eq_slice
  rw [slice] at hslice
  rw [slice, Nat.add_assoc, htake, List.drop_length_add_append]
  exact hslice

/-- A reference between `start` and `finish`. -/
structure InGap (text : List Char) (start finish : Nat) (reference : MarkupSlice) : Prop where
  part : IsPart text reference.offset reference.text
  start_le : start ≤ reference.offset
  le_finish : reference.finish ≤ finish

theorem scanGap_returns (hstart : CharBoundary text start) (hfinish : CharBoundary text finish)
    (hle : start ≤ finish) :
    Returns (scanGap (utf8 text) templateSyntax start finish references) fun all =>
      ∃ found, all = references ++ found ∧
        ∀ reference ∈ found, InGap text start finish reference := by
  rw [scanGap, strSlice_of_boundary hstart hfinish hle, Option.bind_some]
  obtain ⟨before, middle, after, rfl, rfl, rfl⟩ : ∃ before middle after,
      text = before ++ middle ++ after ∧ start = (utf8 before).length ∧
        finish = (utf8 (before ++ middle)).length := by
    rcases Nat.eq_or_lt_of_le hle with rfl | hlt
    · obtain ⟨before, after, rfl, rfl⟩ := hstart
      exact ⟨before, [], after, by rw [List.append_nil], rfl, by rw [List.append_nil]⟩
    · obtain ⟨before, middle, after, htext, -, hbefore, hmiddle⟩ := exists_middle hstart hfinish hlt
      exact ⟨before, middle, after, htext, hbefore, hmiddle⟩
  have hmarkup : slice (utf8 (before ++ middle ++ after)) (utf8 before).length
      (utf8 (before ++ middle)).length = utf8 middle := by
    rw [slice, utf8_append (before ++ middle), List.take_left, utf8_append, List.drop_left]
  rw [hmarkup]
  apply (scanTemplate_returns middle templateSyntax).map
  intro found hfound
  refine ⟨_, rfl, ?_⟩
  intro shifted hin
  obtain ⟨reference, hreference, rfl⟩ := List.mem_map.mp hin
  have hpart := hfound reference hreference
  have hend := hpart.ends.le_length
  refine ⟨hpart.within, Nat.le_add_right _ _, ?_⟩
  change (utf8 before).length + reference.offset + reference.text.length ≤ _
  rw [length_utf8_append]
  omega

/-- A reference is a part of the text that no span overlaps. -/
structure Outside (text : List Char) (all : List (Nat × Nat)) (reference : MarkupSlice) :
    Prop where
  part : IsPart text reference.offset reference.text
  apart : ∀ span ∈ all, reference.finish ≤ span.1 ∨ span.2 ≤ reference.offset

/-- The scan keeps behind the spans it has passed and in front of the others. -/
theorem scanSpans_returns {all : List (Nat × Nat)}
    (hsorted : spans.Pairwise fun a b => a.1 ≤ b.1)
    (hbounds : ∀ span ∈ spans, CharBoundary text span.1 ∧ CharBoundary text span.2)
    (hcursor : CharBoundary text cursor)
    (hall : ∀ span ∈ all, span ∈ spans ∨ span.2 ≤ cursor)
    (hreferences : ∀ reference ∈ references, Outside text all reference) :
    Returns (scanSpans (utf8 text) templateSyntax cursor references spans) fun found =>
      ∀ reference ∈ found, Outside text all reference := by
  induction spans generalizing cursor references with
  | nil =>
    rw [scanSpans]
    apply (scanGap_returns hcursor .length hcursor.le_length).imp
    rintro found ⟨later, rfl, hlater⟩ reference hin
    rcases List.mem_append.mp hin with hold | hnew
    · exact hreferences reference hold
    · refine ⟨(hlater reference hnew).part, fun span hspan => .inr ?_⟩
      have hbehind := (hall span hspan).resolve_left List.not_mem_nil
      exact Nat.le_trans hbehind (hlater reference hnew).start_le
  | cons span spans ih =>
    obtain ⟨hfirst, hrest⟩ := List.pairwise_cons.mp hsorted
    obtain ⟨hstart, hfinish⟩ := hbounds span List.mem_cons_self
    have hnext : CharBoundary text (max cursor span.2) := by
      rcases Nat.le_total cursor span.2 with hle | hle
      · rwa [Nat.max_eq_right hle]
      · rwa [Nat.max_eq_left hle]
    have hpassed : ∀ other ∈ all, other ∈ spans ∨ other.2 ≤ max cursor span.2 := by
      intro other hother
      rcases hall other hother with hin | hle
      · rcases List.mem_cons.mp hin with rfl | hlater
        · exact .inr (Nat.le_max_right _ _)
        · exact .inl hlater
      · exact .inr (Nat.le_trans hle (Nat.le_max_left _ _))
    have hlater (references : List MarkupSlice)
        (hreferences : ∀ reference ∈ references, Outside text all reference) :=
      ih hrest (fun other hother => hbounds other (List.mem_cons_of_mem _ hother)) hnext hpassed
        hreferences
    rw [scanSpans]
    split
    · rename_i hgap
      apply (scanGap_returns hcursor hstart (Nat.le_of_lt hgap)).bind
      rintro found ⟨later, rfl, hinside⟩
      apply hlater
      intro reference hin
      rcases List.mem_append.mp hin with hold | hnew
      · exact hreferences reference hold
      · have hgap := hinside reference hnew
        refine ⟨hgap.part, fun other hother => ?_⟩
        rcases hall other hother with hin | hle
        · have hbefore : span.1 ≤ other.1 := by
            rcases List.mem_cons.mp hin with rfl | hother
            · exact Nat.le_refl _
            · exact hfirst other hother
          exact .inl (Nat.le_trans hgap.le_finish hbefore)
        · exact .inr (Nat.le_trans hle hgap.start_le)
    · exact hlater references hreferences

theorem sortedSpans_sorted (regions : List ScriptRegion) :
    (sortedSpans regions).Pairwise fun a b => a.1 ≤ b.1 := by
  have hsorted := @List.pairwise_mergeSort _ spanLe
    (by
      intro a b c hab hbc
      simp only [spanLe, Bool.or_eq_true, Bool.and_eq_true, decide_eq_true_eq] at *
      omega)
    (by
      intro a b
      simp only [spanLe, Bool.or_eq_true, Bool.and_eq_true, decide_eq_true_eq]
      omega)
    (regions.map fun region => (region.offset, region.finish))
  apply hsorted.imp
  intro a b hle
  simp only [spanLe, Bool.or_eq_true, Bool.and_eq_true, decide_eq_true_eq] at hle
  omega

/-- References stand outside all the regions of the document. -/
theorem templateReferences_returns (filename : String) {regions : List ScriptRegion}
    (hparts : ∀ region ∈ regions, IsPart text region.offset region.source) :
    Returns (templateReferences filename (utf8 text) regions) fun found =>
      ∀ reference ∈ found, IsPart text reference.offset reference.text ∧
        ∀ region ∈ regions,
          reference.finish ≤ region.offset ∨ region.finish ≤ reference.offset := by
  unfold templateReferences
  split
  · have hmem {span : Nat × Nat} : span ∈ sortedSpans regions ↔
        ∃ region ∈ regions, (region.offset, region.finish) = span := by
      rw [sortedSpans, List.mem_mergeSort, List.mem_map]
    apply (scanSpans_returns (sortedSpans_sorted regions) _ .zero
      (fun span (hspan : span ∈ sortedSpans regions) => .inl hspan)
      (fun _ hin => absurd hin List.not_mem_nil)).imp
    · intro found hfound reference hin
      refine ⟨(hfound reference hin).part, fun region hregion => ?_⟩
      exact (hfound reference hin).apart _ (hmem.mpr ⟨region, hregion, rfl⟩)
    · intro span hspan
      obtain ⟨region, hregion, rfl⟩ := hmem.mp hspan
      exact ⟨(hparts region hregion).starts, (hparts region hregion).ends⟩
  · exact returns_some fun _ hin => absurd hin List.not_mem_nil

end

/-- The scanners of a document's markup and scripts do not panic and end, and what the
markup refers to bindings with stands outside every script region. -/
theorem markup_scanners_total (text : List Char) :
    (∀ filename documentName : String,
      ∃ references, templateReferences filename (utf8 text)
          (scriptRegionsForDocument documentName text) = some references ∧
        ∀ reference ∈ references, IsPart text reference.offset reference.text ∧
          ∀ region ∈ scriptRegionsForDocument documentName text,
            reference.finish ≤ region.offset ∨ region.finish ≤ reference.offset) ∧
    (∀ wanted, checkedAttributeValue (utf8 text) wanted =
      some (attributeValue (utf8 text) wanted)) ∧
    checkedIsProcessedAstroScript (utf8 text) = some (isProcessedAstroScript (utf8 text)) ∧
    checkedScriptBlocks (utf8 text) = some (scriptBlocks (utf8 text)) ∧
    checkedAstroFrontmatter (utf8 text) = some (astroFrontmatter (utf8 text)) :=
  ⟨fun filename documentName =>
      templateReferences_returns filename (scriptRegionsForDocument_parts documentName text),
    checkedAttributeValue_eq text, checkedIsProcessedAstroScript_eq text,
    checkedScriptBlocks_eq text, checkedAstroFrontmatter_eq text⟩

end ImportLens.Document
