import ImportLens.Daemon.Protocol
import ImportLens.Document.ScriptScan

/-!
# Script regions

The parts of a document in which imports are detected, each with the runtime its
imports resolve under.  An Astro document has its regions from two scanners, and the
one for script blocks reads the frontmatter too.
-/

namespace ImportLens.Document

open ImportLens.Support ImportLens.Daemon

inductive ScriptLanguage
  | js
  | jsx
  | ts
  | tsx
  deriving DecidableEq, Repr

def ScriptLanguage.extension : ScriptLanguage → String
  | .js => "js"
  | .jsx => "jsx"
  | .ts => "ts"
  | .tsx => "tsx"

structure ScriptRegion where
  filename : String
  source : List UInt8
  offset : Nat
  runtime : ImportRuntime
  sharesBindingsWithMarkup : Bool
  deriving DecidableEq, Repr

def ScriptRegion.finish (region : ScriptRegion) : Nat := region.offset + region.source.length

def languageFromAttributes (attributes : List UInt8) : ScriptLanguage :=
  match attributeValue attributes (ascii "lang") with
  | some value =>
      if value = ascii "ts" || value = ascii "typescript" then .ts
      else if value = ascii "tsx" then .tsx
      else if value = ascii "jsx" then .jsx
      else .js
  | none => .js

def blockFilename (filename : String) (language : ScriptLanguage) (index : Nat) : String :=
  filename ++ "." ++ toString index ++ "." ++ language.extension

def hasExtension (filename extension : String) : Bool :=
  (ascii extension).isSuffixOf (toAsciiLowercase (utf8 filename.toList))

def componentRegion (filename : String) (templateSeesImports : Bool) (index : Nat)
    (block : ScriptBlock) : ScriptRegion where
  filename := blockFilename filename (languageFromAttributes block.attributes) index
  source := block.source
  offset := block.contentStart
  runtime := .component
  sharesBindingsWithMarkup := templateSeesImports

/-- In Vue the template sees the imports of a document with a `<script setup>`. -/
def componentScriptRegions (filename : String) (bytes : List UInt8) : List ScriptRegion :=
  let blocks := scriptBlocks bytes
  let templateSeesImports := !hasExtension filename ".vue" ||
    blocks.any fun block => (attributeValue block.attributes (ascii "setup")).isSome
  blocks.zipIdx.map fun block => componentRegion filename templateSeesImports block.2 block.1

def frontmatterRegion (filename : String) (bytes : List UInt8) (frontmatter : Frontmatter) :
    ScriptRegion where
  filename := blockFilename filename .ts 0
  source := slice bytes frontmatter.sourceStart frontmatter.sourceEnd
  offset := frontmatter.sourceStart
  runtime := .server
  sharesBindingsWithMarkup := true

def clientRegion (filename : String) (index : Nat) (block : ScriptBlock) : ScriptRegion where
  filename := blockFilename filename .ts index
  source := block.source
  offset := block.contentStart
  runtime := .client
  sharesBindingsWithMarkup := false

def processedBlocks (bytes : List UInt8) : List ScriptBlock :=
  (scriptBlocks bytes).filter fun block => isProcessedAstroScript block.attributes

def astroRegions (filename : String) (bytes : List UInt8) : List ScriptRegion :=
  let frontmatter := (astroFrontmatter bytes).toList.map (frontmatterRegion filename bytes)
  frontmatter ++ ((processedBlocks bytes).zipIdx frontmatter.length).map fun block =>
    clientRegion filename block.2 block.1

def isAstro (filename : String) : Bool :=
  !(hasExtension filename ".svelte" || hasExtension filename ".vue") &&
    hasExtension filename ".astro"

def scriptRegionsForDocument (filename : String) (text : List Char) : List ScriptRegion :=
  if hasExtension filename ".svelte" || hasExtension filename ".vue" then
    componentScriptRegions filename (utf8 text)
  else if hasExtension filename ".astro" then astroRegions filename (utf8 text)
  else
    [{ filename := filename
       source := utf8 text
       offset := 0
       runtime := .component
       sharesBindingsWithMarkup := false }]

def lenUtf16 (c : Char) : Nat := if c.toNat < 0x10000 then 1 else 2

/-- The byte position of a UTF-16 position, from a byte position and the code units
in front of it. -/
def byteOffsetFrom (byteIndex utf16Seen utf16Offset : Nat) : List Char → Nat
  | [] => byteIndex
  | c :: text =>
      if utf16Seen ≥ utf16Offset then byteIndex
      else byteOffsetFrom (byteIndex + c.utf8Size) (utf16Seen + lenUtf16 c) utf16Offset text

def byteOffsetForUtf16 (text : List Char) (utf16Offset : Nat) : Nat :=
  byteOffsetFrom 0 0 utf16Offset text

def ScriptRegion.holds (region : ScriptRegion) (offset : Nat) : Bool :=
  region.offset ≤ offset && offset ≤ region.finish

def runtimeAtOffset (filename : String) (text : List Char) (utf16CursorOffset : Nat) :
    ImportRuntime :=
  ((scriptRegionsForDocument filename text).find? fun region =>
    region.holds (byteOffsetForUtf16 text utf16CursorOffset)).elim .component
      fun region => region.runtime

/-! ## Blocks -/

/-- A part of a text between two characters. -/
structure IsPart (text : List Char) (offset : Nat) (source : List UInt8) : Prop where
  starts : CharBoundary text offset
  ends : CharBoundary text (offset + source.length)
  eq_slice : source = slice (utf8 text) offset (offset + source.length)

section

variable {text : List Char}

theorem IsPart.of_slice {start finish : Nat} (hstart : CharBoundary text start)
    (hfinish : CharBoundary text finish) (hle : start ≤ finish) :
    IsPart text start (slice (utf8 text) start finish) ∧
      start + (slice (utf8 text) start finish).length = finish := by
  have hlength := length_slice hle hfinish.le_length
  have hend : start + (slice (utf8 text) start finish).length = finish := by
    rw [hlength]
    omega
  exact ⟨⟨hstart, by rw [hend]; exact hfinish, by rw [hend]⟩, hend⟩

theorem isAscii_byteOf_gt : IsAscii (byteOf '>') := by
  unfold IsAscii
  decide

theorem isAscii_byteOf_lt : IsAscii (byteOf '<') := by
  unfold IsAscii
  decide

theorem boundaries_of_lower {position : Nat} {byte : UInt8}
    (h : (toAsciiLowercase (utf8 text))[position]? = some byte) (hascii : IsAscii byte) :
    CharBoundary text position ∧ CharBoundary text (position + 1) := by
  obtain ⟨upper, hupper, hup⟩ := getElem?_toAsciiLowercase h hascii
  exact boundaries_of_isAscii hupper hup

/-- What the block scanner keeps: its blocks are parts of the text, one after the
other, behind the position it searches from. -/
structure BlocksSound (text : List Char) (scan : BlockScan) : Prop where
  offset_le : scan.searchOffset ≤ (utf8 text).length
  parts : ∀ block ∈ scan.blocks, IsPart text block.contentStart block.source ∧
    block.finish ≤ scan.searchOffset
  ordered : scan.blocks.Pairwise fun a b => a.finish ≤ b.contentStart

theorem BlocksSound.step {scan next : BlockScan} (h : BlocksSound text scan)
    (hstep : BlockStep (utf8 text) (toAsciiLowercase (utf8 text)) scan next) :
    BlocksSound text next := by
  cases hstep with
  | skip hless hle hblocks =>
    rw [length_toAsciiLowercase] at hle
    refine ⟨hle, ?_, hblocks ▸ h.ordered⟩
    intro block hin
    rw [hblocks] at hin
    have hblock := h.parts block hin
    exact ⟨hblock.1, by omega⟩
  | take tagEnd contentEnd afterName hless hgt hcontent hlt hnext hle hblocks =>
    rw [length_toAsciiLowercase] at hle
    have hstart := (boundaries_of_lower hgt isAscii_byteOf_gt).2
    have hend := (boundaries_of_lower hlt isAscii_byteOf_lt).1
    obtain ⟨hpart, hfinish⟩ := IsPart.of_slice hstart hend hcontent
    refine ⟨hle, ?_, ?_⟩
    · intro block hin
      rw [hblocks] at hin
      rcases List.mem_append.mp hin with hold | hnew
      · have hblock := h.parts block hold
        exact ⟨hblock.1, by omega⟩
      · rw [List.mem_singleton.mp hnew]
        refine ⟨hpart, ?_⟩
        change tagEnd + 1 + (slice (utf8 text) (tagEnd + 1) contentEnd).length ≤ next.searchOffset
        omega
    · rw [hblocks, List.pairwise_append]
      refine ⟨h.ordered, List.pairwise_singleton _ _, ?_⟩
      intro block hin new hnew
      rw [List.mem_singleton.mp hnew]
      have hblock := (h.parts block hin).2
      change block.finish ≤ tagEnd + 1
      omega

theorem scriptBlocks_sound (text : List Char) :
    (∀ block ∈ scriptBlocks (utf8 text), IsPart text block.contentStart block.source) ∧
      (scriptBlocks (utf8 text)).Pairwise fun a b => a.finish ≤ b.contentStart := by
  obtain ⟨last, hrun⟩ := @blockRound_ends (utf8 text)
    (toAsciiLowercase (utf8 text)) {}
  rw [length_toAsciiLowercase] at hrun
  have hsound := (rounds_invariant (I := BlocksSound text)
    (fun _ _ hnext hscan => hscan.step (blockRound_step hnext)) hrun
    ⟨Nat.zero_le _, by simp, .nil⟩).1
  have hblocks : scriptBlocks (utf8 text) = last.blocks := by
    rw [scriptBlocks, hrun]
    rfl
  rw [hblocks]
  exact ⟨fun block hin => (hsound.parts block hin).1, hsound.ordered⟩

end

/-! ## Regions -/

section

variable {filename : String} {text : List Char} {regions : List ScriptRegion}

theorem boundary_of_startsLine {position : Nat} (h : StartsLine (utf8 text) position) :
    CharBoundary text position := by
  have hascii : IsAscii carriageReturn ∧ IsAscii lineFeed := by
    unfold IsAscii
    decide
  have hpos := h.pos
  rw [show position = position - 1 + 1 by omega]
  rcases h.ending with hreturn | hfeed
  · exact (boundaries_of_isAscii hreturn hascii.1).2
  · exact (boundaries_of_isAscii hfeed hascii.2).2

theorem frontmatterRegion_spec {frontmatter : Frontmatter}
    (h : astroFrontmatter (utf8 text) = some frontmatter) :
    IsPart text frontmatter.sourceStart
        (frontmatterRegion filename (utf8 text) frontmatter).source ∧
      (frontmatterRegion filename (utf8 text) frontmatter).finish = frontmatter.sourceEnd := by
  obtain ⟨hstart, hle, hend⟩ := astroFrontmatter_spec h
  have hascii : IsAscii carriageReturn ∧ IsAscii lineFeed := by
    unfold IsAscii
    decide
  have hstarts := boundary_of_startsLine hstart
  have hends : CharBoundary text frontmatter.sourceEnd := by
    rcases hend with hsame | hline | hreturn | hfeed
    · rw [hsame]
      exact hstarts
    · exact boundary_of_startsLine hline
    · exact (boundaries_of_isAscii hreturn hascii.1).1
    · exact (boundaries_of_isAscii hfeed hascii.2).1
  exact IsPart.of_slice hstarts hends hle

theorem pairwise_zipIdx {α : Type} {R : α → α → Prop} {xs : List α} (h : xs.Pairwise R) (n : Nat) :
    (xs.zipIdx n).Pairwise fun a b => R a.1 b.1 := by
  rw [← List.pairwise_map (f := Prod.fst), List.zipIdx_map_fst]
  exact h

/-- Regions are parts of the document, one after the other. -/
structure Apart (text : List Char) (regions : List ScriptRegion) : Prop where
  parts : ∀ region ∈ regions, IsPart text region.offset region.source
  ordered : regions.Pairwise fun a b => a.finish ≤ b.offset

theorem parts_of_blocks (region : Nat → ScriptBlock → ScriptRegion) {blocks : List ScriptBlock}
    (n : Nat) (hblocks : ∀ block ∈ blocks, IsPart text block.contentStart block.source)
    (hregion : ∀ index block, (region index block).offset = block.contentStart ∧
      (region index block).source = block.source) :
    ∀ r ∈ (blocks.zipIdx n).map fun block => region block.2 block.1,
      IsPart text r.offset r.source := by
  intro r hin
  obtain ⟨block, hblock, rfl⟩ := List.mem_map.mp hin
  obtain ⟨hoffset, hsource⟩ := hregion block.2 block.1
  rw [hoffset, hsource]
  exact hblocks block.1 (List.fst_mem_of_mem_zipIdx hblock)

theorem ordered_of_blocks (region : Nat → ScriptBlock → ScriptRegion) {blocks : List ScriptBlock}
    (n : Nat) (hblocks : blocks.Pairwise fun a b => a.finish ≤ b.contentStart)
    (hregion : ∀ index block, (region index block).offset = block.contentStart ∧
      (region index block).source = block.source) :
    ((blocks.zipIdx n).map fun block => region block.2 block.1).Pairwise
      fun a b => a.finish ≤ b.offset := by
  rw [List.pairwise_map]
  apply (pairwise_zipIdx hblocks n).imp
  intro a b hle
  obtain ⟨hoffset, hsource⟩ := hregion a.2 a.1
  unfold ScriptRegion.finish
  rw [hoffset, hsource, (hregion b.2 b.1).1]
  exact hle

theorem componentScriptRegions_apart :
    Apart text (componentScriptRegions filename (utf8 text)) := by
  obtain ⟨hparts, hordered⟩ := scriptBlocks_sound text
  exact ⟨parts_of_blocks (componentRegion filename _) 0 hparts fun _ _ => ⟨rfl, rfl⟩,
    ordered_of_blocks (componentRegion filename _) 0 hordered fun _ _ => ⟨rfl, rfl⟩⟩

theorem processedBlocks_sound (text : List Char) :
    (∀ block ∈ processedBlocks (utf8 text), IsPart text block.contentStart block.source) ∧
      (processedBlocks (utf8 text)).Pairwise fun a b => a.finish ≤ b.contentStart := by
  obtain ⟨hparts, hordered⟩ := scriptBlocks_sound text
  exact ⟨fun block hin => hparts block (List.mem_filter.mp hin).1, hordered.filter _⟩

theorem astroRegions_parts :
    ∀ region ∈ astroRegions filename (utf8 text), IsPart text region.offset region.source := by
  intro region hin
  rcases List.mem_append.mp hin with hfront | hblock
  · obtain ⟨frontmatter, hsome, rfl⟩ := List.mem_map.mp hfront
    exact (frontmatterRegion_spec (Option.mem_toList.mp hsome)).1
  · exact parts_of_blocks (clientRegion filename) _ (processedBlocks_sound text).1
      (fun _ _ => ⟨rfl, rfl⟩) region hblock

theorem astroRegions_ordered_iff :
    ((astroRegions filename (utf8 text)).Pairwise fun a b => a.finish ≤ b.offset) ↔
      ∀ frontmatter ∈ astroFrontmatter (utf8 text), ∀ block ∈ processedBlocks (utf8 text),
        frontmatter.sourceEnd ≤ block.contentStart := by
  unfold astroRegions
  rw [List.pairwise_append]
  constructor
  · rintro ⟨-, -, hcross⟩ frontmatter hsome block hin
    have hfinish := (@frontmatterRegion_spec filename text _ hsome).2
    rw [← List.zipIdx_map_fst ((astroFrontmatter (utf8 text)).toList.map
      (frontmatterRegion filename (utf8 text))).length (processedBlocks (utf8 text))] at hin
    obtain ⟨numbered, hnumbered, rfl⟩ := List.mem_map.mp hin
    have hle := hcross _ (List.mem_map.mpr ⟨frontmatter, Option.mem_toList.mpr hsome, rfl⟩) _
      (List.mem_map.mpr ⟨numbered, hnumbered, rfl⟩)
    rw [hfinish] at hle
    exact hle
  · intro hcondition
    refine ⟨?_, ordered_of_blocks (clientRegion filename) _ (processedBlocks_sound text).2
      fun _ _ => ⟨rfl, rfl⟩, ?_⟩
    · cases astroFrontmatter (utf8 text) with
      | none => exact .nil
      | some frontmatter => exact List.pairwise_singleton _ _
    · intro a ha b hb
      obtain ⟨frontmatter, hsome, rfl⟩ := List.mem_map.mp ha
      obtain ⟨block, hblock, rfl⟩ := List.mem_map.mp hb
      rw [(frontmatterRegion_spec (Option.mem_toList.mp hsome)).2]
      exact hcondition frontmatter (Option.mem_toList.mp hsome) block.1
        (List.fst_mem_of_mem_zipIdx hblock)

/-! ## The runtime at a cursor -/

/-- Of regions in order, the one a position lies inside is found. -/
theorem find?_holds {offset : Nat} {region : ScriptRegion}
    (h : regions.Pairwise fun a b => a.finish ≤ b.offset) (hin : region ∈ regions)
    (hstart : region.offset < offset) (hfinish : offset < region.finish) :
    (regions.find? fun region => region.holds offset) = some region := by
  induction regions with
  | nil => cases hin
  | cons first rest ih =>
    obtain ⟨hfirst, hrest⟩ := List.pairwise_cons.mp h
    rcases List.mem_cons.mp hin with rfl | hlater
    · have hholds : region.holds offset = true := by
        simp only [ScriptRegion.holds, Bool.and_eq_true, decide_eq_true_eq]
        omega
      rw [List.find?_cons, hholds]
    · have hbefore := hfirst region hlater
      have hnot : first.holds offset = false := by
        simp only [ScriptRegion.holds, Bool.and_eq_false_iff, decide_eq_false_iff_not]
        omega
      rw [List.find?_cons, hnot]
      exact ih hrest hlater

theorem length_filter_le_one (h : regions.Pairwise fun a b => a.finish ≤ b.offset)
    (position : Nat) :
    (regions.filter fun region => region.offset ≤ position && position < region.finish).length
      ≤ 1 := by
  have hordered := h.filter fun region => region.offset ≤ position && position < region.finish
  generalize hhas : (regions.filter fun region =>
    region.offset ≤ position && position < region.finish) = having at hordered
  have hall (region : ScriptRegion) (hin : region ∈ having) :
      region.offset ≤ position ∧ position < region.finish := by
    rw [← hhas] at hin
    simpa using (List.mem_filter.mp hin).2
  match having, hordered, hall with
  | [], _, _ => exact Nat.zero_le 1
  | [_], _, _ => exact Nat.le_refl 1
  | a :: b :: _, hordered, hall =>
    have hle := (List.pairwise_cons.mp hordered).1 b (by simp)
    have ha := hall a (by simp)
    have hb := hall b (by simp)
    omega

/-! ## Every document -/

/-- What the regions of a document promise. -/
structure RegionsSound (filename : String) (text : List Char) : Prop where
  parts : ∀ region ∈ scriptRegionsForDocument filename text,
    IsPart text region.offset region.source
  ordered : (scriptRegionsForDocument filename text).Pairwise fun a b => a.finish ≤ b.offset
  one_region : ∀ position, ((scriptRegionsForDocument filename text).filter fun region =>
    region.offset ≤ position && position < region.finish).length ≤ 1
  runtime : ∀ cursor, ∀ region ∈ scriptRegionsForDocument filename text,
    region.offset < byteOffsetForUtf16 text cursor →
      byteOffsetForUtf16 text cursor < region.finish →
        runtimeAtOffset filename text cursor = region.runtime

/-- No script block that Astro bundles starts inside the frontmatter. -/
def FrontmatterApart (filename : String) (text : List Char) : Prop :=
  isAstro filename = true →
    ∀ frontmatter ∈ astroFrontmatter (utf8 text), ∀ block ∈ scriptBlocks (utf8 text),
      isProcessedAstroScript block.attributes = true →
        frontmatter.sourceEnd ≤ block.contentStart

theorem regionsSound_of_apart (h : Apart text (scriptRegionsForDocument filename text)) :
    RegionsSound filename text := by
  refine ⟨h.parts, h.ordered, length_filter_le_one h.ordered, ?_⟩
  intro cursor region hin hstart hfinish
  rw [runtimeAtOffset, find?_holds h.ordered hin hstart hfinish]
  rfl

theorem wholeDocument_apart (region : ScriptRegion) (hoffset : region.offset = 0)
    (hsource : region.source = utf8 text) : Apart text [region] := by
  refine ⟨?_, List.pairwise_singleton _ _⟩
  intro r hin
  rw [List.mem_singleton.mp hin, hoffset, hsource]
  refine ⟨.zero, ?_, ?_⟩
  · rw [Nat.zero_add]
    exact .length
  · rw [Nat.zero_add, slice, List.take_length, List.drop_zero]

/-- The regions of a document are parts of it, in order and apart, and tell the
runtime inside them, exactly if no bundled block starts inside the frontmatter. -/
theorem regions_sound_iff (filename : String) (text : List Char) :
    RegionsSound filename text ↔ FrontmatterApart filename text := by
  by_cases hcomponent : (hasExtension filename ".svelte" || hasExtension filename ".vue") = true
  · have hregions : scriptRegionsForDocument filename text =
        componentScriptRegions filename (utf8 text) := by
      rw [scriptRegionsForDocument, if_pos hcomponent]
    have hnot : isAstro filename = false := by simp [isAstro, hcomponent]
    constructor
    · intro _ hastro
      rw [hnot] at hastro
      cases hastro
    · intro _
      exact regionsSound_of_apart (hregions ▸ componentScriptRegions_apart)
  · by_cases hastro : hasExtension filename ".astro" = true
    · have hregions : scriptRegionsForDocument filename text =
          astroRegions filename (utf8 text) := by
        rw [scriptRegionsForDocument, if_neg hcomponent, if_pos hastro]
      have hyes : isAstro filename = true := by simp [isAstro, hcomponent, hastro]
      have hprocessed : FrontmatterApart filename text ↔
          ∀ frontmatter ∈ astroFrontmatter (utf8 text), ∀ block ∈ processedBlocks (utf8 text),
            frontmatter.sourceEnd ≤ block.contentStart := by
        simp only [FrontmatterApart, hyes, forall_const, processedBlocks, List.mem_filter, and_imp]
      rw [hprocessed, ← @astroRegions_ordered_iff filename text, ← hregions]
      constructor
      · exact fun h => h.ordered
      · intro hordered
        exact regionsSound_of_apart ⟨hregions ▸ astroRegions_parts, hordered⟩
    · have hregions : Apart text (scriptRegionsForDocument filename text) := by
        rw [scriptRegionsForDocument, if_neg hcomponent, if_neg hastro]
        exact wholeDocument_apart _ rfl rfl
      have hnot : isAstro filename = false := by simp [isAstro, hastro]
      constructor
      · intro _ hyes
        rw [hnot] at hyes
        cases hyes
      · exact fun _ => regionsSound_of_apart hregions

end

/-! ## A script tag inside the frontmatter -/

def tagInFrontmatter : List Char := "---\nconst s = '<script>x</script>'\n---\n".toList

/-- The text of the tag is a region of its own, inside the region of the frontmatter. -/
theorem regions_overlap :
    ¬ ∀ (filename : String) (text : List Char), RegionsSound filename text := by
  intro hsound
  have hordered := (hsound "page.astro" tagInFrontmatter).ordered
  revert hordered
  decide +kernel

end ImportLens.Document
