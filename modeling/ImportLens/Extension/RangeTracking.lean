import ImportLens.Daemon.Protocol
import ImportLens.Support.Keyed

/-!
# Ranges that follow the text

How the ranges of a detected import move with the edits of its document, and the
log of the edits each document has had since a version, which lays the response to
an older text onto the one on screen.
-/

namespace ImportLens.Extension

open ImportLens.Support ImportLens.Daemon

structure SourcePosition where
  line : Int
  character : Int
  deriving DecidableEq, Repr

structure SourceRange where
  start : SourcePosition
  finish : SourcePosition
  deriving DecidableEq, Repr

/-- The range that was replaced, in the text before the change, and the UTF-16 code
units put there. -/
structure SourceEdit where
  range : SourceRange
  text : List UInt16
  deriving DecidableEq, Repr

inductive ImportSyntax
  | staticImport
  | reexport
  | starReexport
  | dynamicImport
  deriving DecidableEq, Repr

structure DetectedImport where
  specifier : String
  packageName : String
  named : List String
  importKind : ImportKind
  importSyntax : ImportSyntax
  runtime : ImportRuntime
  line : Int
  quoteEnd : SourcePosition
  specifierRange : SourceRange
  statementRange : SourceRange
  deriving DecidableEq, Repr

/-! ## Positions -/

inductive Stickiness
  | start
  | finish
  deriving DecidableEq, Repr

def comparePositions (left right : SourcePosition) : Int :=
  if left.line = right.line then left.character - right.character else left.line - right.line

def insertedTextEnd (edit : SourceEdit) : SourcePosition :=
  let lines := edit.text.splitOn 10
  let lastLine := lines.getLast?.getD []
  if lines.length = 1 then
    ⟨edit.range.start.line, edit.range.start.character + lastLine.length⟩
  else ⟨edit.range.start.line + lines.length - 1, lastLine.length⟩

def positionAfterEdit (position : SourcePosition) (edit : SourceEdit) : SourcePosition :=
  let insertedEnd := insertedTextEnd edit
  let finish := edit.range.finish
  if position.line = finish.line then
    ⟨insertedEnd.line, insertedEnd.character + (position.character - finish.character)⟩
  else ⟨position.line + (insertedEnd.line - finish.line), position.character⟩

def shiftPosition (position : SourcePosition) (edit : SourceEdit) (stickiness : Stickiness) :
    SourcePosition :=
  let isInsertion := comparePositions edit.range.start edit.range.finish = 0
  let atOrAfterEnd :=
    if stickiness = .start ∨ ¬ isInsertion then 0 ≤ comparePositions position edit.range.finish
    else 0 < comparePositions position edit.range.finish
  if atOrAfterEnd then positionAfterEdit position edit
  else
    let fromStart := comparePositions position edit.range.start
    if fromStart < 0 ∨ (fromStart = 0 ∧ stickiness = .finish) then position
    else if stickiness = .start then edit.range.start
    else insertedTextEnd edit

def shiftRange (range : SourceRange) (edit : SourceEdit) : Option SourceRange :=
  if comparePositions edit.range.start range.start ≤ 0 ∧
      comparePositions range.finish edit.range.finish ≤ 0 ∧
      comparePositions edit.range.start edit.range.finish < 0 then none
  else if comparePositions range.start range.finish = 0 then
    -- an empty range is a point, whose ends move together
    let point := shiftPosition range.start edit .start
    some ⟨point, point⟩
  else
    some ⟨shiftPosition range.start edit .start, shiftPosition range.finish edit .finish⟩

def shiftDetected (detected : DetectedImport) (edit : SourceEdit) : Option DetectedImport :=
  (shiftRange detected.statementRange edit).map fun statementRange =>
    { detected with
      line := statementRange.start.line
      statementRange := statementRange
      specifierRange := (shiftRange detected.specifierRange edit).getD
        ⟨statementRange.start, statementRange.start⟩
      quoteEnd := shiftPosition detected.quoteEnd edit .finish }

def shiftDetectedImport (detected : DetectedImport) (edits : List SourceEdit) :
    Option DetectedImport :=
  edits.foldlM shiftDetected detected

theorem shiftDetectedImport_append (detected : DetectedImport) (first second : List SourceEdit) :
    shiftDetectedImport detected (first ++ second) =
      (shiftDetectedImport detected first).bind fun shifted =>
        shiftDetectedImport shifted second := by
  unfold shiftDetectedImport
  rw [List.foldlM_append]
  rfl

/-! ## The edit log -/

def maxLoggedEditsPerDocument : Nat := 1000

structure LoggedEdits where
  version : Nat
  edits : List SourceEdit
  deriving DecidableEq, Repr

structure DocumentEditLog where
  entries : Keyed String (List LoggedEdits) := ∅
  /-- The newest version whose edits the bound has dropped. -/
  droppedThrough : Keyed String Nat := ∅

def dropOldest : List LoggedEdits → Option Nat → List LoggedEdits × Option Nat
  | [], dropped => ([], dropped)
  | entry :: rest, dropped =>
      if maxLoggedEditsPerDocument < (entry :: rest).length then
        dropOldest rest (some entry.version)
      else (entry :: rest, dropped)

namespace DocumentEditLog

def entriesOf (log : DocumentEditLog) (key : String) : List LoggedEdits :=
  (log.entries.lookup key).getD []

def record (log : DocumentEditLog) (key : String) (version : Nat) (edits : List SourceEdit) :
    DocumentEditLog :=
  let trimmed := dropOldest (log.entriesOf key ++ [⟨version, edits⟩]) none
  { entries := log.entries.insert key trimmed.1
    droppedThrough := trimmed.2.elim log.droppedThrough fun dropped =>
      log.droppedThrough.insert key dropped }

def since (log : DocumentEditLog) (key : String) (version : Nat) : Option (List SourceEdit) :=
  if (log.droppedThrough.lookup key).any fun dropped => decide (version < dropped) then none
  else
    some (((log.entriesOf key).filter fun entry => decide (version < entry.version)).flatMap
      LoggedEdits.edits)

def prune (log : DocumentEditLog) (key : String) (version : Nat) : DocumentEditLog :=
  (log.entries.lookup key).elim log fun entries =>
    { log with entries :=
        log.entries.insert key (entries.filter fun entry => decide (version < entry.version)) }

end DocumentEditLog

end ImportLens.Extension
