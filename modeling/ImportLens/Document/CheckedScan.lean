import ImportLens.Document.ScriptRegions
import ImportLens.Support.Checked

/-!
# The script scanners, checked

The scanners for script blocks, frontmatter and attributes, with every slice they take
checked and their loops bounded by the length of the text.  Each of them answers what
its unchecked twin does: it does not panic, and it ends.
-/

namespace ImportLens.Document

open ImportLens.Support

/-- `text[offset..].find(stop)`, where only ASCII characters meet `stop`. -/
def checkedFindByte (bytes : List UInt8) (offset : Nat) (stop : UInt8 → Bool) : Checked Nat :=
  (strFrom bytes offset).map fun rest =>
    (rest.findIdx? stop).elim bytes.length fun relative => offset + relative

/-! ## Script blocks -/

def checkedTagRound (lower : List UInt8) (scan : TagScan) : Checked (Option TagScan) :=
  match lower[scan.index]? with
  | none => some none
  | some byte =>
      if byte = byteOf '>' then some none
      else if (byte = byteOf '"' || byte = byteOf '\'') && scan.afterEquals then
        (checkedFindAt [byte] lower (scan.index + 1)).map fun close =>
          close.map fun close => ⟨close + 1, false⟩
      else if byte = byteOf '=' then some (some ⟨scan.index + 1, true⟩)
      else if isAsciiWhitespace byte then some (some ⟨scan.index + 1, scan.afterEquals⟩)
      else some (some ⟨scan.index + 1, false⟩)

def checkedOpenTagEnd (lower : List UInt8) (start : Nat) : Checked (Option Nat) :=
  (checkedRounds (checkedTagRound lower) (lower.length + 1) ⟨start, false⟩).map fun scan =>
    if lower[scan.index]? = some (byteOf '>') then some scan.index else none

def checkedCloseRound (lower : List UInt8) (scan : Nat) : Checked (Option Nat) :=
  (checkedFindAt closeName lower scan).map fun found =>
    found.bind fun contentEnd =>
      let afterCloseName := contentEnd + closeName.length
      if isTagBoundary lower[afterCloseName]? then none else some afterCloseName

def checkedFindScriptClose (lower : List UInt8) (start : Nat) : Checked (Option (Nat × Nat)) :=
  (checkedRounds (checkedCloseRound lower) (lower.length + 1) start).bind fun scan =>
    (checkedFindAt closeName lower scan).bind fun
      | none => some none
      | some contentEnd =>
          (checkedFindAt [byteOf '>'] lower (contentEnd + closeName.length)).map fun close =>
            close.map fun close => (contentEnd, close + 1)

def checkedTakeBlock (bytes lower : List UInt8) (scan : BlockScan) (afterName : Nat) :
    Checked (Option BlockScan) :=
  (checkedOpenTagEnd lower afterName).bind fun
    | none => some none
    | some tagEnd =>
        (checkedFindScriptClose lower (tagEnd + 1)).bind fun
          | none => some none
          | some close =>
              (strSlice bytes afterName tagEnd).bind fun attributes =>
                (strSlice bytes (tagEnd + 1) close.1).map fun source =>
                  some {
                    searchOffset := close.2
                    blocks := scan.blocks ++ [⟨attributes, source, tagEnd + 1⟩] }

def checkedBlockRound (bytes lower : List UInt8) (scan : BlockScan) :
    Checked (Option BlockScan) :=
  (checkedFindAt openName lower scan.searchOffset).bind fun
    | none => some none
    | some tagStart =>
        (strSlice lower scan.searchOffset tagStart).bind fun before =>
          match find commentOpen before with
          | some commentStart =>
              let afterOpen := scan.searchOffset + commentStart + commentOpen.length
              (checkedFindAt commentClose lower afterOpen).map fun commentEnd =>
                commentEnd.map fun commentEnd =>
                  { scan with searchOffset := commentEnd + commentClose.length }
          | none =>
              let afterName := tagStart + openName.length
              if !isTagBoundary lower[afterName]? then
                some (some { scan with searchOffset := afterName })
              else checkedTakeBlock bytes lower scan afterName

/-- `script_blocks` -/
def checkedScriptBlocks (bytes : List UInt8) : Checked (List ScriptBlock) :=
  (checkedRounds (checkedBlockRound bytes (toAsciiLowercase bytes)) (bytes.length + 1) {}).map
    BlockScan.blocks

section

variable {text lowered : List Char} {start finish offset : Nat}

theorem isAscii_of_mem_ascii {pattern : String} (h : pattern.toList.all fun c => c.toNat < 128)
    {byte : UInt8} (hin : byte ∈ ascii pattern) : IsAscii byte := by
  obtain ⟨c, hc, rfl⟩ := List.mem_map.mp hin
  have hlt : c.toNat < 128 := of_decide_eq_true (List.all_eq_true.mp h c hc)
  unfold IsAscii byteOf
  rw [UInt8.toNat_ofNat']
  omega

theorem checkedFindByte_of_boundary {stop : UInt8 → Bool} (h : CharBoundary text offset) :
    checkedFindByte (utf8 text) offset stop = some (findByte (utf8 text) offset stop) := by
  rw [checkedFindByte, strFrom_of_boundary h]
  rfl

theorem checkedTagRound_eq (scan : TagScan) :
    checkedTagRound (utf8 text) scan = some (tagRound (utf8 text) scan) := by
  unfold checkedTagRound tagRound
  cases hat : (utf8 text)[scan.index]? with
  | none => rfl
  | some byte =>
    dsimp only [Option.bind_some]
    by_cases hgt : byte = byteOf '>'
    · rw [if_pos hgt, if_pos hgt]
    · rw [if_neg hgt, if_neg hgt]
      by_cases hquote : ((byte = byteOf '"' || byte = byteOf '\'') && scan.afterEquals) = true
      · rw [if_pos hquote, if_pos hquote]
        have hascii : IsAscii byte := by
          simp only [Bool.and_eq_true, Bool.or_eq_true, decide_eq_true_eq] at hquote
          unfold IsAscii
          rcases hquote.1 with rfl | rfl <;> decide
        rw [checkedFindAt_of_boundary (boundaries_of_isAscii hat hascii).2, Option.map_some]
      · rw [if_neg hquote, if_neg hquote]
        split
        · rfl
        · split <;> rfl

theorem checkedOpenTagEnd_eq (start : Nat) :
    checkedOpenTagEnd (utf8 text) start = some (openTagEnd (utf8 text) start) := by
  obtain ⟨last, hlast⟩ := @tagRound_ends (utf8 text) ⟨start, false⟩
  have hrun := (checkedRounds_of_rounds (I := fun _ => True)
    (fun scan _ => checkedTagRound_eq scan) (fun _ _ _ _ => trivial) hlast trivial).1
  rw [checkedOpenTagEnd, openTagEnd, hlast, hrun]
  rfl

theorem isAscii_closeName : ∀ byte ∈ closeName, IsAscii byte :=
  fun _ => isAscii_of_mem_ascii (by decide)

theorem isAscii_openName : ∀ byte ∈ openName, IsAscii byte :=
  fun _ => isAscii_of_mem_ascii (by decide)

theorem isAscii_commentOpen : ∀ byte ∈ commentOpen, IsAscii byte :=
  fun _ => isAscii_of_mem_ascii (by decide)

theorem isAscii_commentClose : ∀ byte ∈ commentClose, IsAscii byte :=
  fun _ => isAscii_of_mem_ascii (by decide)

theorem closeRound_boundary {scan next : Nat} (h : closeRound (utf8 text) scan = some next) :
    CharBoundary text next := by
  obtain ⟨contentEnd, hfind, hnext⟩ := Option.bind_eq_some_iff.mp h
  dsimp only at hnext
  split at hnext
  · cases hnext
  · cases hnext
    exact (boundaries_of_findAt hfind isAscii_closeName (by decide)).2

theorem checkedCloseRound_eq {scan : Nat} (h : CharBoundary text scan) :
    checkedCloseRound (utf8 text) scan = some (closeRound (utf8 text) scan) := by
  rw [checkedCloseRound, checkedFindAt_of_boundary h]
  rfl

theorem checkedFindScriptClose_eq (h : CharBoundary text start) :
    checkedFindScriptClose (utf8 text) start = some (findScriptClose (utf8 text) start) := by
  obtain ⟨last, hlast⟩ := @closeRound_ends (utf8 text) start
  obtain ⟨hrun, hboundary⟩ := checkedRounds_of_rounds (I := CharBoundary text)
    (fun _ => checkedCloseRound_eq) (fun _ _ _ hnext => closeRound_boundary hnext) hlast h
  rw [checkedFindScriptClose, findScriptClose, hrun, hlast, Option.bind_some, Option.bind_some,
    checkedFindAt_of_boundary hboundary, Option.bind_some]
  cases hfind : findAt closeName (utf8 text) last with
  | none => rfl
  | some contentEnd =>
    have hafter := (boundaries_of_findAt hfind isAscii_closeName (by decide)).2
    change (checkedFindAt _ _ _).map _ = _
    rw [checkedFindAt_of_boundary hafter]
    rfl

theorem findScriptClose_boundary {close : Nat × Nat}
    (h : findScriptClose (utf8 text) start = some close) : CharBoundary text close.2 := by
  obtain ⟨scan, -, hend⟩ := Option.bind_eq_some_iff.mp h
  obtain ⟨contentEnd, -, hmap⟩ := Option.bind_eq_some_iff.mp hend
  obtain ⟨gt, hgt, rfl⟩ := Option.map_eq_some_iff.mp hmap
  exact (boundaries_of_isAscii (getElem?_of_findAt hgt) isAscii_byteOf_gt).2

/-- The slices of a block end at ASCII bytes of the lowered text. -/
theorem checkedTakeBlock_eq (hlower : toAsciiLowercase (utf8 text) = utf8 lowered)
    {scan : BlockScan} {afterName : Nat} (h : CharBoundary text afterName) :
    checkedTakeBlock (utf8 text) (utf8 lowered) scan afterName =
      some (takeBlock (utf8 text) (utf8 lowered) scan afterName) := by
  rw [checkedTakeBlock, takeBlock, checkedOpenTagEnd_eq, Option.bind_some]
  cases htag : openTagEnd (utf8 lowered) afterName with
  | none => rfl
  | some tagEnd =>
    obtain ⟨hafter, hgt⟩ := openTagEnd_spec htag
    have hstart := (boundaries_of_isAscii hgt isAscii_byteOf_gt).2
    have hend := boundaries_of_lower (hlower ▸ hgt) isAscii_byteOf_gt
    change (checkedFindScriptClose _ _).bind _ = _
    rw [checkedFindScriptClose_eq hstart, Option.bind_some, Option.bind_some]
    dsimp only
    cases hclose : findScriptClose (utf8 lowered) (tagEnd + 1) with
    | none => rfl
    | some close =>
      obtain ⟨hle, hlt, -, -⟩ := findScriptClose_spec hclose
      have hcontent := (boundaries_of_lower (hlower ▸ hlt) isAscii_byteOf_lt).1
      change (strSlice _ _ _).bind _ = _
      rw [strSlice_of_boundary h hend.1 hafter, Option.bind_some,
        strSlice_of_boundary hend.2 hcontent hle]
      rfl

theorem blockRound_boundary {bytes : List UInt8} {scan next : BlockScan}
    (h : blockRound bytes (utf8 lowered) scan = some next) :
    CharBoundary lowered next.searchOffset := by
  obtain ⟨tagStart, hopen, hround⟩ := Option.bind_eq_some_iff.mp h
  split at hround
  · obtain ⟨commentEnd, hclose, rfl⟩ := Option.map_eq_some_iff.mp hround
    exact (boundaries_of_findAt hclose isAscii_commentClose (by decide)).2
  · dsimp only at hround
    split at hround
    · cases hround
      exact (boundaries_of_findAt hopen isAscii_openName (by decide)).2
    · obtain ⟨tagEnd, -, hclose⟩ := Option.bind_eq_some_iff.mp hround
      obtain ⟨close, hfind, rfl⟩ := Option.map_eq_some_iff.mp hclose
      exact findScriptClose_boundary hfind

theorem checkedBlockRound_eq (hlower : toAsciiLowercase (utf8 text) = utf8 lowered)
    {scan : BlockScan} (h : CharBoundary lowered scan.searchOffset) :
    checkedBlockRound (utf8 text) (utf8 lowered) scan =
      some (blockRound (utf8 text) (utf8 lowered) scan) := by
  rw [checkedBlockRound, blockRound, checkedFindAt_of_boundary h, Option.bind_some]
  cases hopen : findAt openName (utf8 lowered) scan.searchOffset with
  | none => rfl
  | some tagStart =>
    obtain ⟨htag, hname⟩ := boundaries_of_findAt hopen isAscii_openName (by decide)
    change (strSlice _ _ _).bind _ = _
    rw [strSlice_of_boundary h htag (findAt_spec hopen).1, Option.bind_some, Option.bind_some]
    cases hcomment : find commentOpen (slice (utf8 lowered) scan.searchOffset tagStart) with
    | some commentStart =>
      have hafter := (boundaries_of_isPrefix (isPrefix_of_find_slice hcomment)
        isAscii_commentOpen (by decide)).2
      change (checkedFindAt _ _ _).map _ = _
      rw [checkedFindAt_of_boundary hafter]
      rfl
    | none =>
      dsimp only
      split
      · rfl
      · -- the name of the tag ends where it does in the text
        have hlast : (utf8 lowered)[tagStart + 6]? = some (byteOf 't') := by
          obtain ⟨rest, hrest⟩ := (findAt_spec hopen).2
          rw [← List.getElem?_drop, ← hrest]
          rfl
        have hascii : IsAscii (byteOf 't') := by
          unfold IsAscii
          decide
        exact checkedTakeBlock_eq hlower (boundaries_of_lower (hlower ▸ hlast) hascii).2

theorem checkedScriptBlocks_eq (text : List Char) :
    checkedScriptBlocks (utf8 text) = some (scriptBlocks (utf8 text)) := by
  obtain ⟨lowered, hlower⟩ := exists_utf8_toAsciiLowercase text
  obtain ⟨last, hlast⟩ := @blockRound_ends (utf8 text) (utf8 lowered) {}
  have hlength : (utf8 lowered).length = (utf8 text).length := by
    rw [← hlower, length_toAsciiLowercase]
  rw [hlength] at hlast
  have hrun := (checkedRounds_of_rounds (I := fun scan => CharBoundary lowered scan.searchOffset)
    (fun _ hscan => checkedBlockRound_eq hlower hscan)
    (fun _ _ _ hnext => blockRound_boundary hnext) hlast .zero).1
  rw [checkedScriptBlocks, scriptBlocks, hlower, hrun, hlast]
  rfl

end

/-! ## Frontmatter -/

def checkedNextLineEnd (bytes : List UInt8) (offset : Nat) : Checked Nat :=
  checkedFindByte bytes offset fun byte => byte = carriageReturn || byte = lineFeed

def checkedClosesFrontmatter (bytes : List UInt8) (lineStart : Nat) : Checked Bool :=
  (checkedNextLineEnd bytes lineStart).bind fun lineEnd =>
    (strSlice bytes lineStart lineEnd).map fun line =>
      (line.reverse.dropWhile (· = carriageReturn)).reverse = fence

def checkedLineRound (bytes : List UInt8) (lineStart : Nat) : Checked (Option Nat) :=
  if lineStart < bytes.length then
    (checkedClosesFrontmatter bytes lineStart).bind fun closes =>
      if closes then some none
      else (checkedNextLineEnd bytes lineStart).map fun lineEnd => lineEndingAfter bytes lineEnd
  else some none

/-- `astro_frontmatter` -/
def checkedAstroFrontmatter (bytes : List UInt8) : Checked (Option Frontmatter) :=
  if !fence.isPrefixOf bytes then some none
  else
    match lineEndingAfter bytes 3 with
    | none => some none
    | some contentStart =>
        (checkedRounds (checkedLineRound bytes) (bytes.length + 1) contentStart).bind
          fun lineStart =>
            if lineStart < bytes.length then
              (checkedClosesFrontmatter bytes lineStart).map fun closes =>
                if closes then
                  some {
                    sourceStart := contentStart
                    sourceEnd := max (previousLineEnd bytes lineStart) contentStart }
                else none
            else some none

section

variable {text : List Char} {start lineStart offset : Nat}

theorem findByte_spec (bytes : List UInt8) (offset : Nat) (stop : UInt8 → Bool) :
    findByte bytes offset stop = bytes.length ∨
      ∃ byte, bytes[findByte bytes offset stop]? = some byte ∧ stop byte = true := by
  unfold findByte
  cases hfind : (bytes.drop offset).findIdx? stop with
  | none => exact .inl rfl
  | some relative =>
    obtain ⟨hlt, hbyte, -⟩ := List.findIdx?_eq_some_iff_getElem.mp hfind
    have hat := List.getElem?_eq_getElem hlt
    rw [List.getElem?_drop] at hat
    exact .inr ⟨_, hat, hbyte⟩

theorem findByte_boundary {stop : UInt8 → Bool} (hstop : ∀ byte, stop byte = true → IsAscii byte)
    (offset : Nat) : CharBoundary text (findByte (utf8 text) offset stop) := by
  rcases findByte_spec (utf8 text) offset stop with hend | ⟨byte, hat, hbyte⟩
  · rw [hend]
    exact .length
  · exact (boundaries_of_isAscii hat (hstop byte hbyte)).1

theorem isAscii_of_endsLine {byte : UInt8}
    (h : (byte = carriageReturn || byte = lineFeed : Bool) = true) : IsAscii byte := by
  simp only [Bool.or_eq_true, decide_eq_true_eq] at h
  unfold IsAscii
  rcases h with rfl | rfl <;> decide

theorem checkedNextLineEnd_eq (h : CharBoundary text lineStart) :
    checkedNextLineEnd (utf8 text) lineStart = some (nextLineEnd (utf8 text) lineStart) :=
  checkedFindByte_of_boundary h

theorem checkedClosesFrontmatter_eq (h : CharBoundary text lineStart) :
    checkedClosesFrontmatter (utf8 text) lineStart =
      some (closesFrontmatter (utf8 text) lineStart) := by
  have hend : CharBoundary text (nextLineEnd (utf8 text) lineStart) :=
    findByte_boundary (fun _ => isAscii_of_endsLine) lineStart
  have hle : lineStart ≤ nextLineEnd (utf8 text) lineStart := le_findByte h.le_length
  rw [checkedClosesFrontmatter, checkedNextLineEnd_eq h, Option.bind_some,
    strSlice_of_boundary h hend hle]
  rfl

theorem checkedLineRound_eq (h : CharBoundary text lineStart) :
    checkedLineRound (utf8 text) lineStart = some (lineRound (utf8 text) lineStart) := by
  rw [checkedLineRound, lineRound, checkedClosesFrontmatter_eq h, checkedNextLineEnd_eq h]
  split
  · rw [Option.bind_some, Option.map_some]
    split <;> rfl
  · rfl

theorem lineRound_boundary {next : Nat} (h : lineRound (utf8 text) lineStart = some next) :
    CharBoundary text next :=
  boundary_of_startsLine (lineEndingAfter_spec (lineRound_eq h).2).2

theorem checkedAstroFrontmatter_eq (text : List Char) :
    checkedAstroFrontmatter (utf8 text) = some (astroFrontmatter (utf8 text)) := by
  unfold checkedAstroFrontmatter astroFrontmatter
  split
  · rfl
  · cases hopening : lineEndingAfter (utf8 text) 3 with
    | none => rfl
    | some contentStart =>
      have hcontent := boundary_of_startsLine (lineEndingAfter_spec hopening).2
      obtain ⟨last, hlast⟩ := @lineRound_ends (utf8 text) contentStart
      obtain ⟨hrun, hboundary⟩ := checkedRounds_of_rounds (I := CharBoundary text)
        (fun _ => checkedLineRound_eq) (fun _ _ _ hnext => lineRound_boundary hnext) hlast hcontent
      dsimp only [Option.bind_some]
      rw [hrun, hlast, Option.bind_some, Option.bind_some, checkedClosesFrontmatter_eq hboundary]
      by_cases hlt : last < (utf8 text).length
      · rw [if_pos hlt, decide_eq_true hlt, Bool.true_and]
        rfl
      · rw [if_neg hlt, decide_eq_false hlt, Bool.false_and]
        rfl

end

/-! ## Attributes -/

def checkedReadAttributeValueWithEnd (value : List UInt8) (offset : Nat) :
    Checked (Option (List UInt8 × Nat)) :=
  match value[offset]? with
  | none => some none
  | some byte =>
      if byte = byteOf '"' || byte = byteOf '\'' then
        (checkedFindAt [byte] value (offset + 1)).bind fun
          | none => some none
          | some finish =>
              (strSlice value (offset + 1) finish).map fun read => some (read, finish + 1)
      else
        (checkedFindByte value offset fun byte => isAsciiWhitespace byte || byte = byteOf '>').bind
          fun finish => (strSlice value offset finish).map fun read => some (read, finish)

def checkedAttributeAt (lower : List UInt8) (offset : Nat) : Checked (Option Attribute) :=
  (checkedFindByte lower offset endsAttributeName).bind fun nameEnd =>
    if nameEnd = offset then some none
    else
      (strSlice lower offset nameEnd).bind fun name =>
        let afterName := skipAsciiWhitespace lower nameEnd
        if lower[afterName]? = some (byteOf '=') then
          let valueStart := skipAsciiWhitespace lower (afterName + 1)
          (checkedReadAttributeValueWithEnd lower valueStart).map fun read =>
            let read := read.getD ([], valueStart + 1)
            some ⟨name, read.1, skipAsciiWhitespace lower read.2⟩
        else some (some ⟨name, [], afterName⟩)

def checkedAttributeRound (lower wanted : List UInt8) (offset : Nat) : Checked (Option Nat) :=
  if offset < lower.length then
    (checkedAttributeAt lower offset).map fun
      | none => some (skipAsciiWhitespace lower (offset + 1))
      | some found => if found.name = wanted then none else some found.next
  else some none

/-- `attribute_value` -/
def checkedAttributeValue (attributes wanted : List UInt8) : Checked (Option (List UInt8)) :=
  let lower := toAsciiLowercase attributes
  (checkedRounds (checkedAttributeRound lower wanted) (lower.length + 1)
    (skipAsciiWhitespace lower 0)).bind fun offset =>
      if offset < lower.length then
        (checkedAttributeAt lower offset).map fun found =>
          (found.filter fun found => found.name = wanted).map Attribute.value
      else some none

/-- `is_processed_astro_script` -/
def checkedIsProcessedAstroScript (attributes : List UInt8) : Checked Bool :=
  let normalized := trim attributes
  let lower := toAsciiLowercase normalized
  let current := skipAsciiWhitespace lower 3
  if normalized.isEmpty then some true
  else if !(ascii "src").isPrefixOf lower then some false
  else if lower[current]? ≠ some (byteOf '=') then some false
  else
    (checkedReadAttributeValueWithEnd lower (skipAsciiWhitespace lower (current + 1))).bind fun
      | none => some false
      | some read => (strFrom lower read.2).map fun rest => (trim rest).isEmpty

section

variable {text : List Char} {wanted : List UInt8} {offset : Nat}

theorem isAscii_of_isAsciiWhitespace {byte : UInt8} (h : isAsciiWhitespace byte = true) :
    IsAscii byte := by
  simp only [isAsciiWhitespace, Bool.or_eq_true, decide_eq_true_eq] at h
  unfold IsAscii
  rcases h with (((rfl | rfl) | rfl) | rfl) | rfl <;> decide

theorem isAscii_of_endsAttributeName {byte : UInt8} (h : endsAttributeName byte = true) :
    IsAscii byte := by
  simp only [endsAttributeName, Bool.or_eq_true, decide_eq_true_eq] at h
  rcases h with ((h | rfl) | rfl) | rfl
  · exact isAscii_of_isAsciiWhitespace h
  all_goals
    unfold IsAscii
    decide

theorem isAscii_of_endsValue {byte : UInt8}
    (h : (isAsciiWhitespace byte || byte = byteOf '>' : Bool) = true) : IsAscii byte := by
  simp only [Bool.or_eq_true, decide_eq_true_eq] at h
  rcases h with h | rfl
  · exact isAscii_of_isAsciiWhitespace h
  · exact isAscii_byteOf_gt

theorem skipAsciiWhitespace_boundary (h : CharBoundary text offset) :
    CharBoundary text (skipAsciiWhitespace (utf8 text) offset) := by
  have hskip : ∀ k ≤ (((utf8 text).drop offset).takeWhile isAsciiWhitespace).length,
      CharBoundary text (offset + k) := by
    intro k
    induction k with
    | zero => exact fun _ => h
    | succ k ih =>
      intro hle
      have hlt : k < (((utf8 text).drop offset).takeWhile isAsciiWhitespace).length := hle
      have hprefix := List.takeWhile_prefix isAsciiWhitespace (l := (utf8 text).drop offset)
      have hat : (utf8 text)[offset + k]? =
          some (((utf8 text).drop offset).takeWhile isAsciiWhitespace)[k] := by
        rw [← List.getElem?_drop]
        obtain ⟨rest, hrest⟩ := hprefix
        conv_lhs => rw [← hrest]
        rw [List.getElem?_append_left hlt, List.getElem?_eq_getElem hlt]
      have hspace := List.all_eq_true.mp List.all_takeWhile _ (List.getElem_mem hlt)
      exact (boundaries_of_isAscii hat (isAscii_of_isAsciiWhitespace hspace)).2
  exact hskip _ (Nat.le_refl _)

theorem checkedReadAttributeValueWithEnd_eq (h : CharBoundary text offset) :
    checkedReadAttributeValueWithEnd (utf8 text) offset =
      some (readAttributeValueWithEnd (utf8 text) offset) := by
  unfold checkedReadAttributeValueWithEnd readAttributeValueWithEnd
  cases hat : (utf8 text)[offset]? with
  | none => rfl
  | some byte =>
    dsimp only [Option.bind_some]
    by_cases hquote : (byte = byteOf '"' || byte = byteOf '\'' : Bool) = true
    · rw [if_pos hquote, if_pos hquote]
      have hascii : IsAscii byte := by
        simp only [Bool.or_eq_true, decide_eq_true_eq] at hquote
        unfold IsAscii
        rcases hquote with rfl | rfl <;> decide
      have hstart := (boundaries_of_isAscii hat hascii).2
      rw [checkedFindAt_of_boundary hstart, Option.bind_some]
      cases hfind : findAt [byte] (utf8 text) (offset + 1) with
      | none => rfl
      | some finish =>
        have hend := (boundaries_of_isAscii (getElem?_of_findAt hfind) hascii).1
        change (strSlice _ _ _).map _ = _
        rw [strSlice_of_boundary hstart hend (findAt_spec hfind).1]
        rfl
    · rw [if_neg hquote, if_neg hquote, checkedFindByte_of_boundary h, Option.bind_some]
      have hend : CharBoundary text (findByte (utf8 text) offset fun byte =>
          isAsciiWhitespace byte || byte = byteOf '>') :=
        findByte_boundary (fun _ => isAscii_of_endsValue) offset
      rw [strSlice_of_boundary h hend (le_findByte h.le_length)]
      rfl

/-- Where the walk over the attributes stands: on a boundary, or behind the text. -/
def OnBoundary (text : List Char) (offset : Nat) : Prop :=
  offset < (utf8 text).length → CharBoundary text offset

theorem onBoundary_skip (h : OnBoundary text offset) :
    OnBoundary text (skipAsciiWhitespace (utf8 text) offset) := by
  intro hlt
  apply skipAsciiWhitespace_boundary
  apply h
  exact Nat.lt_of_le_of_lt (le_skipAsciiWhitespace _ _) hlt

theorem readAttributeValueWithEnd_boundary {read : List UInt8 × Nat}
    (h : readAttributeValueWithEnd (utf8 text) offset = some read) : CharBoundary text read.2 := by
  obtain ⟨byte, hat, hbyte⟩ := Option.bind_eq_some_iff.mp h
  split at hbyte
  · rename_i hquote
    obtain ⟨finish, hfind, rfl⟩ := Option.map_eq_some_iff.mp hbyte
    have hascii : IsAscii byte := by
      simp only [Bool.or_eq_true, decide_eq_true_eq] at hquote
      unfold IsAscii
      rcases hquote with rfl | rfl <;> decide
    exact (boundaries_of_isAscii (getElem?_of_findAt hfind) hascii).2
  · cases hbyte
    exact findByte_boundary (fun _ => isAscii_of_endsValue) offset

theorem onBoundary_of_unread (h : readAttributeValueWithEnd (utf8 text) offset = none) :
    OnBoundary text (offset + 1) := by
  intro hlt
  unfold readAttributeValueWithEnd at h
  have hat := List.getElem?_eq_getElem (Nat.lt_of_succ_lt hlt)
  rw [hat, Option.bind_some] at h
  split at h
  · rename_i hquote
    refine (boundaries_of_isAscii hat ?_).2
    simp only [Bool.or_eq_true, decide_eq_true_eq] at hquote
    unfold IsAscii
    rcases hquote with hquote | hquote <;> rw [hquote] <;> decide
  · cases h

theorem checkedAttributeAt_eq (h : CharBoundary text offset) :
    checkedAttributeAt (utf8 text) offset = some (attributeAt (utf8 text) offset) := by
  have hname : CharBoundary text (findByte (utf8 text) offset endsAttributeName) :=
    findByte_boundary (fun _ => isAscii_of_endsAttributeName) offset
  have hle : offset ≤ findByte (utf8 text) offset endsAttributeName := le_findByte h.le_length
  unfold checkedAttributeAt attributeAt
  rw [checkedFindByte_of_boundary h, Option.bind_some]
  dsimp only
  by_cases hsame : findByte (utf8 text) offset endsAttributeName = offset
  · rw [if_pos hsame, if_pos hsame]
  · rw [if_neg hsame, if_neg hsame, strSlice_of_boundary h hname hle, Option.bind_some]
    by_cases hequals : (utf8 text)[skipAsciiWhitespace (utf8 text)
        (findByte (utf8 text) offset endsAttributeName)]? = some (byteOf '=')
    · rw [if_pos hequals, if_pos hequals]
      have hascii : IsAscii (byteOf '=') := by
        unfold IsAscii
        decide
      have hvalue := skipAsciiWhitespace_boundary (boundaries_of_isAscii hequals hascii).2
      rw [checkedReadAttributeValueWithEnd_eq hvalue]
      rfl
    · rw [if_neg hequals, if_neg hequals]

theorem attributeAt_onBoundary {found : Attribute}
    (h : attributeAt (utf8 text) offset = some found) : OnBoundary text found.next := by
  have hname : CharBoundary text (findByte (utf8 text) offset endsAttributeName) :=
    findByte_boundary (fun _ => isAscii_of_endsAttributeName) offset
  dsimp only [attributeAt] at h
  split at h
  · cases h
  · split at h
    · cases h
      apply onBoundary_skip
      cases hread : readAttributeValueWithEnd (utf8 text) (skipAsciiWhitespace (utf8 text)
          (skipAsciiWhitespace (utf8 text)
            (findByte (utf8 text) offset endsAttributeName) + 1)) with
      | none =>
        rw [Option.getD_none]
        exact onBoundary_of_unread hread
      | some read =>
        rw [Option.getD_some]
        exact fun _ => readAttributeValueWithEnd_boundary hread
    · cases h
      exact fun _ => skipAsciiWhitespace_boundary hname

theorem attributeRound_onBoundary {next : Nat}
    (h : attributeRound (utf8 text) wanted offset = some next) : OnBoundary text next := by
  unfold attributeRound at h
  split at h
  · rename_i hlt
    split at h
    · rename_i hnone
      cases h
      apply onBoundary_skip
      -- no name starts where one ends
      have hends : findByte (utf8 text) offset endsAttributeName = offset := by
        by_contra hne
        dsimp only [attributeAt] at hnone
        rw [if_neg hne] at hnone
        split at hnone <;> cases hnone
      rcases findByte_spec (utf8 text) offset endsAttributeName with hlength | ⟨byte, hat, hbyte⟩
      · omega
      · rw [hends] at hat
        exact fun _ => (boundaries_of_isAscii hat (isAscii_of_endsAttributeName hbyte)).2
    · split at h
      · cases h
      · rename_i found hfound _
        cases h
        exact attributeAt_onBoundary hfound
  · cases h

theorem checkedAttributeRound_eq (h : OnBoundary text offset) :
    checkedAttributeRound (utf8 text) wanted offset =
      some (attributeRound (utf8 text) wanted offset) := by
  unfold checkedAttributeRound attributeRound
  by_cases hlt : offset < (utf8 text).length
  · rw [if_pos hlt, if_pos hlt, checkedAttributeAt_eq (h hlt)]
    cases attributeAt (utf8 text) offset with
    | none => rfl
    | some found => rfl
  · rw [if_neg hlt, if_neg hlt]

theorem checkedAttributeValue_eq (text : List Char) (wanted : List UInt8) :
    checkedAttributeValue (utf8 text) wanted = some (attributeValue (utf8 text) wanted) := by
  obtain ⟨lowered, hlower⟩ := exists_utf8_toAsciiLowercase text
  have hstart : OnBoundary lowered (skipAsciiWhitespace (utf8 lowered) 0) :=
    onBoundary_skip fun _ => .zero
  obtain ⟨last, hlast⟩ := @attributeRound_ends (utf8 lowered) wanted
    (skipAsciiWhitespace (utf8 lowered) 0)
  obtain ⟨hrun, hboundary⟩ := checkedRounds_of_rounds (I := OnBoundary lowered)
    (fun _ => checkedAttributeRound_eq) (fun _ _ _ hnext => attributeRound_onBoundary hnext) hlast
    hstart
  unfold checkedAttributeValue attributeValue
  dsimp only
  rw [hlower, hrun, hlast, Option.bind_some, Option.bind_some]
  by_cases hlt : last < (utf8 lowered).length
  · rw [if_pos hlt, if_pos hlt, checkedAttributeAt_eq (hboundary hlt), Option.map_some]
  · rw [if_neg hlt, if_neg hlt]

theorem encodes_of_mem_whitespaceEncodings {encoding : List UInt8}
    (h : encoding ∈ whitespaceEncodings) : ∃ c, encoding = String.utf8EncodeChar c := by
  have hchars : whitespaceEncodings = (['\x09', '\n', '\x0b', '\x0c', '\r', ' ', '\u0085', '\u00a0',
      '\u1680', '\u2000', '\u2001', '\u2002', '\u2003', '\u2004', '\u2005', '\u2006', '\u2007',
      '\u2008', '\u2009', '\u200a', '\u2028', '\u2029', '\u202f', '\u205f', '\u3000'] :
        List Char).map String.utf8EncodeChar := by decide
  rw [hchars] at h
  obtain ⟨c, -, rfl⟩ := List.mem_map.mp h
  exact ⟨c, rfl⟩

theorem stripAll_keeps {encodings : List (List UInt8)} {I : List UInt8 → Prop} {bytes : List UInt8}
    (hne : [] ∉ encodings)
    (hstrip : ∀ bytes encoding, encoding ∈ encodings → encoding <+: bytes → I bytes →
      I (bytes.drop encoding.length)) (h : I bytes) : I (stripAll encodings bytes) := by
  obtain ⟨last, hlast⟩ := stripRound_ends hne bytes
  rw [stripAll, hlast, Option.getD_some]
  refine (rounds_invariant ?_ hlast h).1
  intro bytes next hnext hbytes
  obtain ⟨encoding, hfind, rfl⟩ := Option.map_eq_some_iff.mp hnext
  have hstands : encoding.isPrefixOf bytes = true := by simpa using List.find?_some hfind
  exact hstrip _ _ (List.mem_of_find?_eq_some hfind) (List.isPrefixOf_iff_prefix.mp hstands) hbytes

theorem exists_utf8_trim (text : List Char) : ∃ trimmed, trim (utf8 text) = utf8 trimmed := by
  have hfront : ∃ rest, stripAll whitespaceEncodings (utf8 text) = utf8 rest := by
    refine stripAll_keeps (I := fun bytes => ∃ rest, bytes = utf8 rest) (by decide) ?_ ⟨text, rfl⟩
    rintro bytes encoding hin hprefix ⟨text, rfl⟩
    obtain ⟨c, rfl⟩ := encodes_of_mem_whitespaceEncodings hin
    obtain ⟨rest, rfl⟩ := eq_cons_of_isPrefix hprefix
    exact ⟨rest, by rw [utf8_cons, List.drop_left]⟩
  obtain ⟨rest, hrest⟩ := hfront
  have hback : ∃ trimmed, stripAll (whitespaceEncodings.map List.reverse) (utf8 rest).reverse =
      (utf8 trimmed).reverse := by
    refine stripAll_keeps (I := fun bytes => ∃ trimmed, bytes = (utf8 trimmed).reverse)
      (by decide) ?_ ⟨rest, rfl⟩
    rintro bytes encoding hin hprefix ⟨text, rfl⟩
    obtain ⟨encoding, hmem, rfl⟩ := List.mem_map.mp hin
    obtain ⟨c, rfl⟩ := encodes_of_mem_whitespaceEncodings hmem
    obtain ⟨before, rfl⟩ := eq_append_of_isSuffix (List.reverse_prefix.mp hprefix)
    refine ⟨before, ?_⟩
    rw [utf8_append, List.reverse_append, utf8_cons, utf8_nil, List.append_nil, List.drop_left]
  obtain ⟨trimmed, htrimmed⟩ := hback
  exact ⟨trimmed, by rw [trim, hrest, htrimmed, List.reverse_reverse]⟩

theorem checkedIsProcessedAstroScript_eq (text : List Char) :
    checkedIsProcessedAstroScript (utf8 text) = some (isProcessedAstroScript (utf8 text)) := by
  obtain ⟨trimmed, htrim⟩ := exists_utf8_trim text
  obtain ⟨lowered, hlower⟩ := exists_utf8_toAsciiLowercase trimmed
  unfold checkedIsProcessedAstroScript isProcessedAstroScript
  dsimp only
  rw [htrim, hlower]
  split
  · rfl
  · split
    · rfl
    · split
      · rfl
      · rename_i hequals
        have hascii : IsAscii (byteOf '=') := by
          unfold IsAscii
          decide
        have hvalue := skipAsciiWhitespace_boundary
          (boundaries_of_isAscii (not_not.mp hequals) hascii).2
        rw [checkedReadAttributeValueWithEnd_eq hvalue, Option.bind_some]
        cases hread : readAttributeValueWithEnd (utf8 lowered) (skipAsciiWhitespace (utf8 lowered)
            (skipAsciiWhitespace (utf8 lowered) 3 + 1)) with
        | none => rfl
        | some read =>
          change (strFrom _ _).map _ = _
          rw [strFrom_of_boundary (readAttributeValueWithEnd_boundary hread)]
          rfl

end

end ImportLens.Document
