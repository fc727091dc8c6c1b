import ImportLens.Support.Bytes
import ImportLens.Support.Rounds

/-!
# Scanning a document for scripts

The two scanners of `document/script_regions.rs`: the one for `<script>` blocks, by
tags, and the one for Astro frontmatter, by lines.  Positions are byte positions in
the document, and each loop of the source is a loop of rounds.
-/

namespace ImportLens.Document

open ImportLens.Support

def lineFeed : UInt8 := 10

def carriageReturn : UInt8 := 13

def isAsciiWhitespace (byte : UInt8) : Bool :=
  byte = byteOf ' ' || byte = 9 || byte = lineFeed || byte = 12 || byte = carriageReturn

/-- `Pattern` of a `char` predicate: the first byte from `offset` on that meets it. -/
def findByte (bytes : List UInt8) (offset : Nat) (stop : UInt8 → Bool) : Nat :=
  ((bytes.drop offset).findIdx? stop).elim bytes.length fun relative => offset + relative

/-! ## Script blocks -/

structure ScriptBlock where
  attributes : List UInt8
  source : List UInt8
  contentStart : Nat
  deriving DecidableEq, Repr

def ScriptBlock.finish (block : ScriptBlock) : Nat := block.contentStart + block.source.length

def isTagBoundary (byte : Option UInt8) : Bool :=
  byte.all fun byte => byte = byteOf '>' || isAsciiWhitespace byte || byte = byteOf '/'

structure TagScan where
  index : Nat
  afterEquals : Bool
  deriving DecidableEq, Repr

def tagRound (lower : List UInt8) (scan : TagScan) : Option TagScan :=
  lower[scan.index]?.bind fun byte =>
    if byte = byteOf '>' then none
    else if (byte = byteOf '"' || byte = byteOf '\'') && scan.afterEquals then
      (findAt [byte] lower (scan.index + 1)).map fun close => ⟨close + 1, false⟩
    else if byte = byteOf '=' then some ⟨scan.index + 1, true⟩
    else if isAsciiWhitespace byte then some ⟨scan.index + 1, scan.afterEquals⟩
    else some ⟨scan.index + 1, false⟩

/-- The `>` that closes an open tag whose attributes start at `from`. -/
def openTagEnd (lower : List UInt8) (start : Nat) : Option Nat :=
  (rounds (tagRound lower) (lower.length + 1) ⟨start, false⟩).bind fun scan =>
    if lower[scan.index]? = some (byteOf '>') then some scan.index else none

def closeName : List UInt8 := ascii "</script"

def closeRound (lower : List UInt8) (scan : Nat) : Option Nat :=
  (findAt closeName lower scan).bind fun contentEnd =>
    let afterCloseName := contentEnd + closeName.length
    if isTagBoundary lower[afterCloseName]? then none else some afterCloseName

def findScriptClose (lower : List UInt8) (start : Nat) : Option (Nat × Nat) :=
  (rounds (closeRound lower) (lower.length + 1) start).bind fun scan =>
    (findAt closeName lower scan).bind fun contentEnd =>
      (findAt [byteOf '>'] lower (contentEnd + closeName.length)).map fun close =>
        (contentEnd, close + 1)

structure BlockScan where
  searchOffset : Nat := 0
  blocks : List ScriptBlock := []
  deriving DecidableEq, Repr

def openName : List UInt8 := ascii "<script"

def commentOpen : List UInt8 := ascii "<!--"

def commentClose : List UInt8 := ascii "-->"

def skipComment (lower : List UInt8) (scan : BlockScan) (commentStart : Nat) :
    Option BlockScan :=
  let afterOpen := scan.searchOffset + commentStart + commentOpen.length
  (findAt commentClose lower afterOpen).map fun commentEnd =>
    { scan with searchOffset := commentEnd + commentClose.length }

/-- The block whose tag starts at `tagStart`. -/
def takeBlock (bytes lower : List UInt8) (scan : BlockScan) (afterName : Nat) :
    Option BlockScan :=
  (openTagEnd lower afterName).bind fun tagEnd =>
    let contentStart := tagEnd + 1
    (findScriptClose lower contentStart).map fun close =>
      { searchOffset := close.2
        blocks := scan.blocks ++ [{
          attributes := slice bytes afterName tagEnd
          source := slice bytes contentStart close.1
          contentStart := contentStart }] }

def blockRound (bytes lower : List UInt8) (scan : BlockScan) : Option BlockScan :=
  (findAt openName lower scan.searchOffset).bind fun tagStart =>
    match find commentOpen (slice lower scan.searchOffset tagStart) with
    | some commentStart => skipComment lower scan commentStart
    | none =>
        let afterName := tagStart + openName.length
        if !isTagBoundary lower[afterName]? then some { scan with searchOffset := afterName }
        else takeBlock bytes lower scan afterName

def scriptBlocks (bytes : List UInt8) : List ScriptBlock :=
  ((rounds (blockRound bytes (toAsciiLowercase bytes)) (bytes.length + 1) {}).elim []
    fun scan => scan.blocks)

section

variable {bytes lower : List UInt8} {start finish : Nat}

theorem tagRound_walks {scan next : TagScan} (h : tagRound lower scan = some next) :
    scan.index < next.index ∧ scan.index < lower.length := by
  obtain ⟨byte, hat, hbyte⟩ := Option.bind_eq_some_iff.mp h
  refine ⟨?_, (List.getElem?_eq_some_iff.mp hat).1⟩
  split at hbyte
  · cases hbyte
  · split at hbyte
    · obtain ⟨close, hclose, rfl⟩ := Option.map_eq_some_iff.mp hbyte
      have := (findAt_spec hclose).1
      change scan.index < close + 1
      omega
    · split at hbyte
      · cases hbyte
        exact Nat.lt_succ_self _
      · split at hbyte <;> cases hbyte <;> exact Nat.lt_succ_self _

theorem tagRound_ends (scan : TagScan) :
    ∃ last, rounds (tagRound lower) (lower.length + 1) scan = some last := by
  exact rounds_return_upTo TagScan.index lower.length (fun _ _ => tagRound_walks) scan

theorem openTagEnd_spec (h : openTagEnd lower start = some finish) :
    start ≤ finish ∧ lower[finish]? = some (byteOf '>') := by
  obtain ⟨scan, hrun, hend⟩ := Option.bind_eq_some_iff.mp h
  have hstart := (rounds_invariant (I := fun scan => start ≤ scan.index)
    (fun _ _ hnext hle => Nat.le_trans hle (Nat.le_of_lt (tagRound_walks hnext).1)) hrun
    (Nat.le_refl _)).1
  split at hend
  · rename_i hgt
    cases hend
    exact ⟨hstart, hgt⟩
  · cases hend

theorem closeRound_walks {scan next : Nat} (h : closeRound lower scan = some next) :
    scan < next ∧ scan < lower.length := by
  obtain ⟨contentEnd, hfind, hnext⟩ := Option.bind_eq_some_iff.mp h
  have hle := (findAt_spec hfind).1
  have hlength : contentEnd + 8 ≤ lower.length := findAt_le hfind (by decide)
  dsimp only at hnext
  split at hnext
  · cases hnext
  · cases hnext
    change scan < contentEnd + 8 ∧ _
    omega

theorem closeRound_ends (scan : Nat) :
    ∃ last, rounds (closeRound lower) (lower.length + 1) scan = some last := by
  exact rounds_return_upTo id lower.length (fun _ _ => closeRound_walks) scan

theorem findScriptClose_spec {close : Nat × Nat} (h : findScriptClose lower start = some close) :
    start ≤ close.1 ∧ lower[close.1]? = some (byteOf '<') ∧ close.1 < close.2 ∧
      close.2 ≤ lower.length := by
  obtain ⟨scan, hrun, hend⟩ := Option.bind_eq_some_iff.mp h
  obtain ⟨contentEnd, hcontent, hmap⟩ := Option.bind_eq_some_iff.mp hend
  obtain ⟨gt, hgt, rfl⟩ := Option.map_eq_some_iff.mp hmap
  have hstart := (rounds_invariant (I := fun scan => start ≤ scan)
    (fun _ _ hnext hle => Nat.le_trans hle (Nat.le_of_lt (closeRound_walks hnext).1)) hrun
    (Nat.le_refl _)).1
  have hscan := (findAt_spec hcontent).1
  have hafter : contentEnd + 8 ≤ gt := (findAt_spec hgt).1
  have hlength : gt + 1 ≤ lower.length := findAt_le hgt (by simp)
  change start ≤ contentEnd ∧ lower[contentEnd]? = some (byteOf '<') ∧ contentEnd < gt + 1 ∧
    gt + 1 ≤ lower.length
  exact ⟨by omega, getElem?_of_findAt hcontent, by omega, by omega⟩

/-- A block lies between the open tag that was found and the close tag. -/
theorem takeBlock_spec {scan next : BlockScan} {afterName : Nat}
    (h : takeBlock bytes lower scan afterName = some next) :
    ∃ tagEnd contentEnd, afterName ≤ tagEnd ∧ lower[tagEnd]? = some (byteOf '>') ∧
      tagEnd + 1 ≤ contentEnd ∧ lower[contentEnd]? = some (byteOf '<') ∧
      contentEnd < next.searchOffset ∧ next.searchOffset ≤ lower.length ∧
      next.blocks = scan.blocks ++ [{
        attributes := slice bytes afterName tagEnd
        source := slice bytes (tagEnd + 1) contentEnd
        contentStart := tagEnd + 1 }] := by
  obtain ⟨tagEnd, htag, hclose⟩ := Option.bind_eq_some_iff.mp h
  obtain ⟨close, hfind, rfl⟩ := Option.map_eq_some_iff.mp hclose
  obtain ⟨hafter, hgt⟩ := openTagEnd_spec htag
  obtain ⟨hstart, hlt, hend, hlength⟩ := findScriptClose_spec hfind
  exact ⟨tagEnd, close.1, hafter, hgt, hstart, hlt, hend, hlength, rfl⟩

/-- What one round of the block scanner does: skip some text, or take a block of what
is left. -/
inductive BlockStep (bytes lower : List UInt8) (scan next : BlockScan) : Prop
  | skip (hless : scan.searchOffset < next.searchOffset) (hle : next.searchOffset ≤ lower.length)
      (hblocks : next.blocks = scan.blocks)
  | take (tagEnd contentEnd afterName : Nat) (hless : scan.searchOffset < tagEnd)
      (hgt : lower[tagEnd]? = some (byteOf '>')) (hcontent : tagEnd + 1 ≤ contentEnd)
      (hlt : lower[contentEnd]? = some (byteOf '<')) (hnext : contentEnd < next.searchOffset)
      (hle : next.searchOffset ≤ lower.length)
      (hblocks : next.blocks = scan.blocks ++ [{
        attributes := slice bytes afterName tagEnd
        source := slice bytes (tagEnd + 1) contentEnd
        contentStart := tagEnd + 1 }])

theorem blockRound_step {scan next : BlockScan} (h : blockRound bytes lower scan = some next) :
    BlockStep bytes lower scan next := by
  obtain ⟨tagStart, hfind, hround⟩ := Option.bind_eq_some_iff.mp h
  have hstart := (findAt_spec hfind).1
  have hlength : tagStart + 7 ≤ lower.length := findAt_le hfind (by decide)
  split at hround
  · rename_i commentStart _
    obtain ⟨commentEnd, hclose, rfl⟩ := Option.map_eq_some_iff.mp hround
    have hafter : scan.searchOffset + commentStart + 4 ≤ commentEnd := (findAt_spec hclose).1
    have hle : commentEnd + 3 ≤ lower.length := findAt_le hclose (by decide)
    refine .skip ?_ hle rfl
    change scan.searchOffset < commentEnd + 3
    omega
  · dsimp only at hround
    split at hround
    · cases hround
      refine .skip ?_ hlength rfl
      change scan.searchOffset < tagStart + 7
      omega
    · obtain ⟨tagEnd, contentEnd, hafter, hgt, hcontent, hlt, hnext, hle, hblocks⟩ :=
        takeBlock_spec hround
      refine .take tagEnd contentEnd _ ?_ hgt hcontent hlt hnext hle hblocks
      change tagStart + 7 ≤ tagEnd at hafter
      omega

theorem blockRound_walks {scan next : BlockScan} (h : blockRound bytes lower scan = some next) :
    scan.searchOffset < next.searchOffset ∧ scan.searchOffset < lower.length := by
  cases blockRound_step h with
  | skip hless hle hblocks => omega
  | take tagEnd contentEnd afterName hless hgt hcontent hlt hnext hle hblocks => omega

theorem blockRound_ends (scan : BlockScan) :
    ∃ last, rounds (blockRound bytes lower) (lower.length + 1) scan = some last := by
  exact rounds_return_upTo BlockScan.searchOffset lower.length (fun _ _ => blockRound_walks) scan

end

/-! ## Frontmatter -/

structure Frontmatter where
  sourceStart : Nat
  sourceEnd : Nat
  deriving DecidableEq, Repr

def lineEndingAfter (bytes : List UInt8) (offset : Nat) : Option Nat :=
  bytes[offset]?.bind fun byte =>
    if byte = carriageReturn && bytes[offset + 1]? = some lineFeed then some (offset + 2)
    else if byte = carriageReturn || byte = lineFeed then some (offset + 1)
    else none

def nextLineEnd (bytes : List UInt8) (offset : Nat) : Nat :=
  findByte bytes offset fun byte => byte = carriageReturn || byte = lineFeed

def previousLineEnd (bytes : List UInt8) (offset : Nat) : Nat :=
  if offset > 0 && bytes[offset - 1]? = some lineFeed then
    if offset > 1 && bytes[offset - 2]? = some carriageReturn then offset - 2 else offset - 1
  else if offset > 0 && bytes[offset - 1]? = some carriageReturn then offset - 1
  else offset

def fence : List UInt8 := ascii "---"

/-- Whether the line at `lineStart` is the closing fence. -/
def closesFrontmatter (bytes : List UInt8) (lineStart : Nat) : Bool :=
  let line := slice bytes lineStart (nextLineEnd bytes lineStart)
  (line.reverse.dropWhile (· = carriageReturn)).reverse = fence

def lineRound (bytes : List UInt8) (lineStart : Nat) : Option Nat :=
  if lineStart < bytes.length then
    if closesFrontmatter bytes lineStart then none
    else lineEndingAfter bytes (nextLineEnd bytes lineStart)
  else none

def astroFrontmatter (bytes : List UInt8) : Option Frontmatter :=
  if !fence.isPrefixOf bytes then none
  else
    (lineEndingAfter bytes 3).bind fun contentStart =>
      (rounds (lineRound bytes) (bytes.length + 1) contentStart).bind fun lineStart =>
        if lineStart < bytes.length && closesFrontmatter bytes lineStart then
          some {
            sourceStart := contentStart
            sourceEnd := max (previousLineEnd bytes lineStart) contentStart }
        else none

section

variable {bytes : List UInt8} {offset next lineStart : Nat}

theorem le_findByte {stop : UInt8 → Bool} (h : offset ≤ bytes.length) :
    offset ≤ findByte bytes offset stop := by
  unfold findByte
  cases (bytes.drop offset).findIdx? stop with
  | none => exact h
  | some relative => exact Nat.le_add_right offset relative

/-- The byte in front of a line is a line ending. -/
structure StartsLine (bytes : List UInt8) (position : Nat) : Prop where
  pos : 0 < position
  ending : bytes[position - 1]? = some carriageReturn ∨ bytes[position - 1]? = some lineFeed

theorem lineEndingAfter_spec (h : lineEndingAfter bytes offset = some next) :
    offset < next ∧ StartsLine bytes next := by
  obtain ⟨byte, hat, hbyte⟩ := Option.bind_eq_some_iff.mp h
  split at hbyte
  · rename_i hpair
    cases hbyte
    simp only [Bool.and_eq_true, decide_eq_true_eq] at hpair
    exact ⟨by omega, by omega, .inr hpair.2⟩
  · split at hbyte
    · rename_i hone
      cases hbyte
      simp only [Bool.or_eq_true, decide_eq_true_eq] at hone
      refine ⟨by omega, by omega, ?_⟩
      rw [Nat.add_sub_cancel, hat]
      exact hone.imp (congrArg some) (congrArg some)
    · cases hbyte

theorem lineRound_eq (h : lineRound bytes lineStart = some next) :
    lineStart < bytes.length ∧ lineEndingAfter bytes (nextLineEnd bytes lineStart) = some next := by
  unfold lineRound at h
  split at h
  · split at h
    · cases h
    · exact ⟨by assumption, h⟩
  · cases h

theorem lineRound_walks (h : lineRound bytes lineStart = some next) :
    lineStart < next ∧ lineStart < bytes.length := by
  obtain ⟨hlength, hending⟩ := lineRound_eq h
  have hle : lineStart ≤ nextLineEnd bytes lineStart := le_findByte (Nat.le_of_lt hlength)
  have hless := (lineEndingAfter_spec hending).1
  omega

theorem lineRound_ends (lineStart : Nat) :
    ∃ last, rounds (lineRound bytes) (bytes.length + 1) lineStart = some last := by
  exact rounds_return_upTo id bytes.length (fun _ _ => lineRound_walks) lineStart

theorem previousLineEnd_spec (offset : Nat) :
    previousLineEnd bytes offset = offset ∨
      bytes[previousLineEnd bytes offset]? = some carriageReturn ∨
        bytes[previousLineEnd bytes offset]? = some lineFeed := by
  unfold previousLineEnd
  split
  · rename_i hfeed
    simp only [Bool.and_eq_true, decide_eq_true_eq] at hfeed
    split
    · rename_i hpair
      simp only [Bool.and_eq_true, decide_eq_true_eq] at hpair
      exact .inr (.inl hpair.2)
    · exact .inr (.inr hfeed.2)
  · split
    · rename_i hreturn
      simp only [Bool.and_eq_true, decide_eq_true_eq] at hreturn
      exact .inr (.inl hreturn.2)
    · exact .inl rfl

/-- Frontmatter starts at a line, and ends there or before another. -/
theorem astroFrontmatter_spec {frontmatter : Frontmatter}
    (h : astroFrontmatter bytes = some frontmatter) :
    StartsLine bytes frontmatter.sourceStart ∧
      frontmatter.sourceStart ≤ frontmatter.sourceEnd ∧
      (frontmatter.sourceEnd = frontmatter.sourceStart ∨ StartsLine bytes frontmatter.sourceEnd ∨
        bytes[frontmatter.sourceEnd]? = some carriageReturn ∨
        bytes[frontmatter.sourceEnd]? = some lineFeed) := by
  unfold astroFrontmatter at h
  split at h
  · cases h
  · obtain ⟨contentStart, hopening, hrest⟩ := Option.bind_eq_some_iff.mp h
    obtain ⟨lineStart, hrun, hclose⟩ := Option.bind_eq_some_iff.mp hrest
    have hcontent := (lineEndingAfter_spec hopening).2
    have hline := (rounds_invariant (I := StartsLine bytes)
      (fun _ _ hnext _ => (lineEndingAfter_spec (lineRound_eq hnext).2).2) hrun hcontent).1
    split at hclose
    · cases hclose
      refine ⟨hcontent, Nat.le_max_right _ _, ?_⟩
      change max (previousLineEnd bytes lineStart) contentStart = contentStart ∨
        StartsLine bytes (max (previousLineEnd bytes lineStart) contentStart) ∨
        bytes[max (previousLineEnd bytes lineStart) contentStart]? = some carriageReturn ∨
        bytes[max (previousLineEnd bytes lineStart) contentStart]? = some lineFeed
      rcases Nat.le_total (previousLineEnd bytes lineStart) contentStart with hle | hle
      · exact .inl (Nat.max_eq_right hle)
      · rw [Nat.max_eq_left hle]
        rcases @previousLineEnd_spec bytes lineStart with hsame | hending
        · rw [hsame]
          exact .inr (.inl hline)
        · exact .inr (.inr hending)
    · cases hclose

end

/-! ## Attributes -/

def skipAsciiWhitespace (value : List UInt8) (offset : Nat) : Nat :=
  offset + ((value.drop offset).takeWhile isAsciiWhitespace).length

def readAttributeValueWithEnd (value : List UInt8) (offset : Nat) : Option (List UInt8 × Nat) :=
  value[offset]?.bind fun byte =>
    if byte = byteOf '"' || byte = byteOf '\'' then
      (findAt [byte] value (offset + 1)).map fun finish =>
        (slice value (offset + 1) finish, finish + 1)
    else
      let finish := findByte value offset fun byte => isAsciiWhitespace byte || byte = byteOf '>'
      some (slice value offset finish, finish)

structure Attribute where
  name : List UInt8
  value : List UInt8
  /-- Where the walk goes on. -/
  next : Nat
  deriving DecidableEq, Repr

def endsAttributeName (byte : UInt8) : Bool :=
  isAsciiWhitespace byte || byte = byteOf '=' || byte = byteOf '/' || byte = byteOf '>'

/-- The attribute that starts at `offset`, unless no name does. -/
def attributeAt (lower : List UInt8) (offset : Nat) : Option Attribute :=
  let nameEnd := findByte lower offset endsAttributeName
  let name := slice lower offset nameEnd
  let afterName := skipAsciiWhitespace lower nameEnd
  if nameEnd = offset then none
  else if lower[afterName]? = some (byteOf '=') then
    let valueStart := skipAsciiWhitespace lower (afterName + 1)
    let read := (readAttributeValueWithEnd lower valueStart).getD ([], valueStart + 1)
    some ⟨name, read.1, skipAsciiWhitespace lower read.2⟩
  else some ⟨name, [], afterName⟩

def attributeRound (lower wanted : List UInt8) (offset : Nat) : Option Nat :=
  if offset < lower.length then
    match attributeAt lower offset with
    | none => some (skipAsciiWhitespace lower (offset + 1))
    | some found => if found.name = wanted then none else some found.next
  else none

/-- The lowered value of the attribute named exactly `wanted`. -/
def attributeValue (attributes wanted : List UInt8) : Option (List UInt8) :=
  let lower := toAsciiLowercase attributes
  (rounds (attributeRound lower wanted) (lower.length + 1) (skipAsciiWhitespace lower 0)).bind
    fun offset =>
      if offset < lower.length then
        ((attributeAt lower offset).filter fun found => found.name = wanted).map
          Attribute.value
      else none

/-- The characters `str::trim` removes, as their bytes. -/
def whitespaceEncodings : List (List UInt8) :=
  [[9], [10], [11], [12], [13], [0x20], [0xC2, 0x85], [0xC2, 0xA0], [0xE1, 0x9A, 0x80],
    [0xE2, 0x80, 0x80], [0xE2, 0x80, 0x81], [0xE2, 0x80, 0x82], [0xE2, 0x80, 0x83],
    [0xE2, 0x80, 0x84], [0xE2, 0x80, 0x85], [0xE2, 0x80, 0x86], [0xE2, 0x80, 0x87],
    [0xE2, 0x80, 0x88], [0xE2, 0x80, 0x89], [0xE2, 0x80, 0x8A], [0xE2, 0x80, 0xA8],
    [0xE2, 0x80, 0xA9], [0xE2, 0x80, 0xAF], [0xE2, 0x81, 0x9F], [0xE3, 0x80, 0x80]]

def stripRound (encodings : List (List UInt8)) (bytes : List UInt8) : Option (List UInt8) :=
  (encodings.find? fun encoding => encoding.isPrefixOf bytes).map fun encoding =>
    bytes.drop encoding.length

def stripAll (encodings : List (List UInt8)) (bytes : List UInt8) : List UInt8 :=
  (rounds (stripRound encodings) (bytes.length + 1) bytes).getD []

def trim (bytes : List UInt8) : List UInt8 :=
  (stripAll (whitespaceEncodings.map List.reverse)
    (stripAll whitespaceEncodings bytes).reverse).reverse

/-- Astro bundles a script without attributes, or with nothing but a `src`. -/
def isProcessedAstroScript (attributes : List UInt8) : Bool :=
  let normalized := trim attributes
  let lower := toAsciiLowercase normalized
  let current := skipAsciiWhitespace lower 3
  if normalized.isEmpty then true
  else if !(ascii "src").isPrefixOf lower then false
  else if lower[current]? ≠ some (byteOf '=') then false
  else
    match readAttributeValueWithEnd lower (skipAsciiWhitespace lower (current + 1)) with
    | none => false
    | some read => (trim (lower.drop read.2)).isEmpty

section

variable {lower wanted : List UInt8} {offset next : Nat}

theorem le_skipAsciiWhitespace (value : List UInt8) (offset : Nat) :
    offset ≤ skipAsciiWhitespace value offset := by
  exact Nat.le_add_right offset _

theorem le_readAttributeValueWithEnd {read : List UInt8 × Nat}
    (h : readAttributeValueWithEnd lower offset = some read) : offset ≤ read.2 := by
  obtain ⟨byte, hat, hbyte⟩ := Option.bind_eq_some_iff.mp h
  have hlength := (List.getElem?_eq_some_iff.mp hat).1
  split at hbyte
  · obtain ⟨finish, hfinish, rfl⟩ := Option.map_eq_some_iff.mp hbyte
    have := (findAt_spec hfinish).1
    change offset ≤ finish + 1
    omega
  · cases hbyte
    exact le_findByte (Nat.le_of_lt hlength)

theorem lt_next_of_attributeAt {found : Attribute} (hlength : offset < lower.length)
    (h : attributeAt lower offset = some found) : offset < found.next := by
  dsimp only [attributeAt] at h
  split at h
  · cases h
  · rename_i hne
    have hname : offset ≤ findByte lower offset endsAttributeName :=
      le_findByte (Nat.le_of_lt hlength)
    generalize findByte lower offset endsAttributeName = nameEnd at h hne hname
    have hafter := le_skipAsciiWhitespace lower nameEnd
    generalize skipAsciiWhitespace lower nameEnd = afterName at h hafter
    split at h
    · cases h
      have hvalue := le_skipAsciiWhitespace lower (afterName + 1)
      apply Nat.lt_of_lt_of_le _ (le_skipAsciiWhitespace lower _)
      cases hread : readAttributeValueWithEnd lower
        (skipAsciiWhitespace lower (afterName + 1)) with
      | none =>
        rw [Option.getD_none]
        omega
      | some read =>
        have := le_readAttributeValueWithEnd hread
        rw [Option.getD_some]
        omega
    · cases h
      change offset < afterName
      omega

theorem attributeRound_walks (h : attributeRound lower wanted offset = some next) :
    offset < next ∧ offset < lower.length := by
  unfold attributeRound at h
  split at h
  · rename_i hlength
    refine ⟨?_, hlength⟩
    split at h
    · cases h
      exact le_skipAsciiWhitespace lower (offset + 1)
    · rename_i found hfound
      split at h
      · cases h
      · cases h
        exact lt_next_of_attributeAt hlength hfound
  · cases h

theorem attributeRound_ends (offset : Nat) :
    ∃ last, rounds (attributeRound lower wanted) (lower.length + 1) offset = some last := by
  exact rounds_return_upTo id lower.length (fun _ _ => attributeRound_walks) offset

theorem stripRound_ends {encodings : List (List UInt8)} (hne : [] ∉ encodings)
    (bytes : List UInt8) :
    ∃ last, rounds (stripRound encodings) (bytes.length + 1) bytes = some last := by
  apply rounds_return List.length
  · intro bytes next hnext
    obtain ⟨encoding, hfind, rfl⟩ := Option.map_eq_some_iff.mp hnext
    have hstands : encoding.isPrefixOf bytes = true := by simpa using List.find?_some hfind
    have hprefix := List.isPrefixOf_iff_prefix.mp hstands
    have hpos : 0 < encoding.length := by
      apply List.length_pos_iff.mpr
      intro hnil
      exact hne (hnil ▸ List.mem_of_find?_eq_some hfind)
    have hle := hprefix.length_le
    rw [List.length_drop]
    omega
  · exact Nat.lt_succ_self _

end

end ImportLens.Document
