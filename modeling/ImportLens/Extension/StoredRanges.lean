import ImportLens.Extension.StreamedPushes

/-!
# Stored ranges

The edits of a document are recorded in the log and carry the stored states along;
an analysis that read an older text lays its states onto the text on screen before
it stores them.  `Logged` is what the log knows of the edits recorded so far, and
`Follows` is what the stored states are from the store on.
-/

namespace ImportLens.Extension

open ImportLens.Support ImportLens.Daemon

/-! ## Shifted states -/

section

variable {states : List ImportAnalysisState}

theorem detected_shiftStates (states : List ImportAnalysisState) (edits : List SourceEdit) :
    (shiftStates states edits).map ImportAnalysisState.detected =
      (states.map ImportAnalysisState.detected).filterMap fun detected =>
        shiftDetectedImport detected edits := by
  unfold shiftStates
  split
  · rename_i hnone
    rw [hnone]
    exact (List.filterMap_some (l := states.map ImportAnalysisState.detected)).symm
  · rw [List.map_filterMap, List.filterMap_map]
    congr 1
    funext state
    show Option.map _ (Option.map _ _) = shiftDetectedImport state.detected edits
    rw [Option.map_map]
    exact Option.map_id'

/-- Edits carry states along one after the other. -/
theorem detected_shiftStates_append (states : List ImportAnalysisState)
    (first second : List SourceEdit) :
    (shiftStates states (first ++ second)).map ImportAnalysisState.detected =
      ((shiftStates states first).map ImportAnalysisState.detected).filterMap fun detected =>
        shiftDetectedImport detected second := by
  rw [detected_shiftStates, detected_shiftStates, List.filterMap_filterMap]
  congr 1
  funext detected
  exact shiftDetectedImport_append detected first second

end

/-! ## The editor -/

/-- One document with its log and its states. -/
structure Editor where
  log : DocumentEditLog := {}
  docs : DocumentAnalysisStates := {}
  version : Nat
  /-- All edits recorded so far. -/
  history : List LoggedEdits := []
  /-- Those the bound has dropped from the log. -/
  dropped : List LoggedEdits := []
  /-- The versions the log was pruned at. -/
  pruned : List Nat := []

def Editor.editsAfter (editor : Editor) (version : Nat) : List SourceEdit :=
  (editor.history.filter fun entry => decide (version < entry.version)).flatMap LoggedEdits.edits

inductive Op
  | followEdits (version : Nat) (edits : List SourceEdit)
  | applyRefreshedResults (push : Push)
  /-- The response to the text at a version. -/
  | store (sourceVersion : Nat) (states : List ImportAnalysisState) (generation : Nat)
      (refine : Option RefineStates)
  /-- The second store of an analysis, over the states read back. -/
  | storeAgain (recaption : RefineStates) (generation : Nat)
  | replace (recaption : RefineStates)
  | clear

section

variable (key : String)

def overBound (log : DocumentEditLog) (entry : LoggedEdits) : List LoggedEdits :=
  (log.entriesOf key ++ [entry]).take
    ((log.entriesOf key ++ [entry]).length - maxLoggedEditsPerDocument)

def Editor.followEdits (editor : Editor) (version : Nat) (edits : List SourceEdit) : Editor :=
  { editor with
    log := editor.log.record key version edits
    docs := (editor.docs.applyEdits key edits).1
    version := version
    history := editor.history ++ [⟨version, edits⟩]
    dropped := editor.dropped ++ overBound key editor.log ⟨version, edits⟩ }

def Editor.store (editor : Editor) (sourceVersion : Nat) (states : List ImportAnalysisState)
    (generation : Nat) (refine : Option RefineStates) : Editor :=
  (editor.log.since key sourceVersion).elim editor fun edits =>
    { editor with
      log := editor.log.prune key sourceVersion
      docs := editor.docs.set key (shiftStates states edits) generation refine
      pruned := sourceVersion :: editor.pruned }

def Editor.step (editor : Editor) : Op → Option Editor
  | .followEdits version edits =>
      if edits = [] then some editor
      else if editor.version < version then some (editor.followEdits key version edits)
      else none
  | .applyRefreshedResults push =>
      some { editor with docs := (editor.docs.applyRefreshedResults key push).1 }
  | .store sourceVersion states generation refine =>
      if sourceVersion ≤ editor.version then
        some (editor.store key sourceVersion states generation refine)
      else none
  | .storeAgain recaption generation =>
      some { editor with
        docs := editor.docs.set key (recaption (editor.docs.get key)) generation
          (some recaption) }
  | .replace recaption =>
      some { editor with docs := editor.docs.replace key (recaption (editor.docs.get key)) }
  | .clear => some { editor with docs := editor.docs.clear key }

def Editor.run (editor : Editor) (ops : List Op) : Option Editor :=
  ops.foldlM (Editor.step key) editor

end

def Op.Recaptions : Op → Prop
  | .applyRefreshedResults push => CaptionsOnly push.options.refine
  | .store _ _ _ refine => CaptionsOnly refine
  | .storeAgain recaption _ => CaptionsOnly (some recaption)
  | .replace recaption => CaptionsOnly (some recaption)
  | _ => True

def Op.PrunesUpTo (version : Nat) : Op → Prop
  | .store sourceVersion _ _ _ => sourceVersion ≤ version
  | _ => True

def Op.KeepsAnalysis : Op → Prop
  | .store _ _ _ _ => False
  | .clear => False
  | _ => True

variable {key : String} {editor next : Editor}

/-- What every step preserves, every run preserves. -/
theorem Editor.run_invariant {I : Editor → Prop} (allowed : Op → Prop)
    (hstep : ∀ editor op next, allowed op → Editor.step key editor op = some next →
      I editor → I next) {ops : List Op} (hops : ∀ op ∈ ops, allowed op)
    (h : editor.run key ops = some next) (hI : I editor) : I next := by
  induction ops generalizing editor with
  | nil =>
      cases h
      exact hI
  | cons op rest ih =>
      obtain ⟨middle, hmiddle, hrest⟩ := Option.bind_eq_some_iff.mp h
      exact ih (fun other hother => hops other (List.mem_cons_of_mem _ hother)) hrest
        (hstep editor op middle (hops op List.mem_cons_self) hmiddle hI)

/-! ## What the log knows -/

section

variable {entries : List LoggedEdits}

theorem dropOldest_eq (entries : List LoggedEdits) (dropped : Option Nat) :
    dropOldest entries dropped =
      (entries.drop (entries.length - maxLoggedEditsPerDocument),
        (((entries.take (entries.length - maxLoggedEditsPerDocument)).getLast?).map
          LoggedEdits.version) <|> dropped) := by
  induction entries generalizing dropped with
  | nil => rfl
  | cons entry rest ih =>
      unfold dropOldest
      by_cases hover : maxLoggedEditsPerDocument < (entry :: rest).length
      · have hcount : (entry :: rest).length - maxLoggedEditsPerDocument =
            rest.length - maxLoggedEditsPerDocument + 1 := by
          rw [List.length_cons] at hover ⊢
          omega
        rw [if_pos hover, ih, hcount, List.drop_succ_cons, List.take_succ_cons]
        cases hlast : (rest.take (rest.length - maxLoggedEditsPerDocument)).getLast? with
        | none =>
            rw [List.getLast?_eq_none_iff.mp hlast]
            rfl
        | some last => rw [List.getLast?_cons, hlast]; rfl
      · have hcount : (entry :: rest).length - maxLoggedEditsPerDocument = 0 := by omega
        rw [if_neg hover, hcount]
        rfl

theorem filter_above_take (hincreasing : entries.Pairwise fun a b => a.version < b.version)
    (k : Nat) :
    (entries.filter fun entry => (entries.take k).all fun lower =>
      decide (lower.version < entry.version)) = entries.drop k := by
  have hsplit := List.take_append_drop k entries
  generalize entries.take k = lower at hsplit ⊢
  generalize entries.drop k = upper at hsplit ⊢
  rw [← hsplit, List.pairwise_append] at hincreasing
  rw [← hsplit, List.filter_append, List.filter_eq_nil_iff.mpr, List.filter_eq_self.mpr,
    List.nil_append]
  · intro entry hentry
    rw [List.all_eq_true]
    exact fun low hlow => decide_eq_true (hincreasing.2.2 low hlow entry hentry)
  · intro entry hentry hall
    rw [List.all_eq_true] at hall
    exact absurd (of_decide_eq_true (hall entry hentry)) (Nat.lt_irrefl _)

theorem version_le_getLast (hincreasing : entries.Pairwise fun a b => a.version < b.version)
    {last : LoggedEdits} (hlast : entries.getLast? = some last) {entry : LoggedEdits}
    (hentry : entry ∈ entries) : entry.version ≤ last.version := by
  obtain ⟨before, hbefore⟩ := List.getLast?_eq_some_iff.mp hlast
  rw [hbefore, List.pairwise_append] at hincreasing
  rw [hbefore] at hentry
  rcases List.mem_append.mp hentry with hmem | hself
  · exact Nat.le_of_lt (hincreasing.2.2 entry hmem last List.mem_cons_self)
  · rw [List.mem_singleton.mp hself]

end

def Editor.kept (editor : Editor) (entry : LoggedEdits) : Bool :=
  (editor.pruned.all fun version => decide (version < entry.version)) &&
    editor.dropped.all fun lower => decide (lower.version < entry.version)

structure Logged (key : String) (editor : Editor) : Prop where
  increasing : editor.history.Pairwise fun a b => a.version < b.version
  recorded : ∀ entry ∈ editor.history, entry.version ≤ editor.version
  prunedTo : ∀ version ∈ editor.pruned, version ≤ editor.version
  droppedOf : ∀ entry ∈ editor.dropped, entry ∈ editor.history
  entries : editor.log.entriesOf key = editor.history.filter editor.kept
  through : ∀ version, ((editor.log.droppedThrough.lookup key).any fun dropped =>
    decide (version < dropped)) = editor.dropped.any fun entry => decide (version < entry.version)

theorem logged_empty (key : String) (version : Nat) : Logged key { version := version } where
  increasing := List.Pairwise.nil
  recorded _ hnone := absurd hnone List.not_mem_nil
  prunedTo _ hnone := absurd hnone List.not_mem_nil
  droppedOf _ hnone := absurd hnone List.not_mem_nil
  entries := rfl
  through _ := rfl

/-- The log answers with the edits after a version, unless it has dropped one of them. -/
theorem Logged.since (h : Logged key editor) {version : Nat}
    (hpruned : ∀ older ∈ editor.pruned, older ≤ version) :
    editor.log.since key version =
      if editor.dropped.any fun entry => decide (version < entry.version) then none
      else some (editor.editsAfter version) := by
  unfold DocumentEditLog.since
  rw [h.through]
  split
  · rfl
  · rename_i hdropped
    rw [Bool.not_eq_true, List.any_eq_false] at hdropped
    unfold Editor.editsAfter
    rw [h.entries, List.filter_filter]
    congr 2
    apply List.filter_congr
    intro entry _
    by_cases hafter : version < entry.version
    · have hkept : editor.kept entry = true := by
        unfold Editor.kept
        rw [Bool.and_eq_true, List.all_eq_true, List.all_eq_true]
        constructor
        · intro older holder
          have := hpruned older holder
          exact decide_eq_true (by omega)
        · intro lower hlower
          have := hdropped lower hlower
          rw [decide_eq_true_eq] at this
          exact decide_eq_true (by omega)
      rw [hkept, Bool.and_true]
    · rw [decide_eq_false hafter, Bool.false_and]

theorem entriesOf_record (log : DocumentEditLog) (version : Nat) (edits : List SourceEdit) :
    (log.record key version edits).entriesOf key =
      (log.entriesOf key ++ [(⟨version, edits⟩ : LoggedEdits)]).drop
        ((log.entriesOf key ++ [(⟨version, edits⟩ : LoggedEdits)]).length -
          maxLoggedEditsPerDocument) := by
  unfold DocumentEditLog.record
  rw [dropOldest_eq]
  generalize (log.entriesOf key ++ [(⟨version, edits⟩ : LoggedEdits)]).length -
    maxLoggedEditsPerDocument = k
  show ((log.entries.insert key _).lookup key).getD [] = _
  rw [AList.lookup_insert]
  rfl

theorem droppedThrough_record (log : DocumentEditLog) (version : Nat) (edits : List SourceEdit) :
    (log.record key version edits).droppedThrough.lookup key =
      (((overBound key log ⟨version, edits⟩).getLast?.map LoggedEdits.version) <|>
        log.droppedThrough.lookup key) := by
  unfold DocumentEditLog.record overBound
  rw [dropOldest_eq]
  dsimp only
  cases ((log.entriesOf key ++ [(⟨version, edits⟩ : LoggedEdits)]).take
      ((log.entriesOf key ++ [(⟨version, edits⟩ : LoggedEdits)]).length -
        maxLoggedEditsPerDocument)).getLast? with
  | none => rfl
  | some last =>
      show (log.droppedThrough.insert key last.version).lookup key = some last.version
      rw [AList.lookup_insert]

theorem Logged.followEdits (h : Logged key editor) {version : Nat} (edits : List SourceEdit)
    (hnewer : editor.version < version) : Logged key (editor.followEdits key version edits) := by
  have hincreasing : (editor.history ++ [(⟨version, edits⟩ : LoggedEdits)]).Pairwise
      fun a b => a.version < b.version := by
    rw [List.pairwise_append]
    refine ⟨h.increasing, List.pairwise_singleton _ _, ?_⟩
    intro entry hentry new hnew
    rw [List.mem_singleton.mp hnew]
    exact Nat.lt_of_le_of_lt (h.recorded entry hentry) hnewer
  have hnew : editor.kept ⟨version, edits⟩ = true := by
    unfold Editor.kept
    rw [Bool.and_eq_true, List.all_eq_true, List.all_eq_true]
    constructor
    · intro older holder
      have := h.prunedTo older holder
      exact decide_eq_true (by dsimp only; omega)
    · intro lower hlower
      have := h.recorded lower (h.droppedOf lower hlower)
      exact decide_eq_true (by dsimp only; omega)
  have hheld : editor.log.entriesOf key ++ [(⟨version, edits⟩ : LoggedEdits)] =
      (editor.history ++ [(⟨version, edits⟩ : LoggedEdits)]).filter editor.kept := by
    rw [h.entries, List.filter_append, List.filter_cons, if_pos hnew, List.filter_nil]
  have hover : ∀ entry ∈ overBound key editor.log ⟨version, edits⟩,
      entry ∈ editor.history ++ [(⟨version, edits⟩ : LoggedEdits)] ∧ editor.kept entry = true := by
    intro entry hentry
    have hin := List.mem_of_mem_take hentry
    rw [hheld] at hin
    exact ⟨List.mem_of_mem_filter hin, List.of_mem_filter hin⟩
  constructor
  · exact hincreasing
  · intro entry hentry
    rcases List.mem_append.mp hentry with hold | hself
    · exact Nat.le_of_lt (Nat.lt_of_le_of_lt (h.recorded entry hold) hnewer)
    · rw [List.mem_singleton.mp hself]
      exact Nat.le_refl version
  · intro older holder
    exact Nat.le_of_lt (Nat.lt_of_le_of_lt (h.prunedTo older holder) hnewer)
  · intro entry hentry
    rcases List.mem_append.mp hentry with hold | hdropped
    · exact List.mem_append_left _ (h.droppedOf entry hold)
    · exact (hover entry hdropped).1
  · show (editor.log.record key version edits).entriesOf key = _
    have hsorted := hincreasing.filter editor.kept
    rw [← hheld] at hsorted
    rw [entriesOf_record, ← filter_above_take hsorted, hheld, List.filter_filter]
    apply List.filter_congr
    intro entry _
    show _ = ((editor.pruned.all fun version => decide (version < entry.version)) &&
      (editor.dropped ++ overBound key editor.log ⟨version, edits⟩).all fun lower =>
        decide (lower.version < entry.version))
    rw [List.all_append, ← Bool.and_assoc]
    unfold overBound
    rw [hheld, Bool.and_comm]
    rfl
  · intro older
    show ((editor.log.record key version edits).droppedThrough.lookup key).any _ =
      (editor.dropped ++ overBound key editor.log ⟨version, edits⟩).any _
    rw [droppedThrough_record, List.any_append, ← h.through older]
    cases hlast : (overBound key editor.log ⟨version, edits⟩).getLast? with
    | none =>
        rw [List.getLast?_eq_none_iff.mp hlast, List.any_nil, Bool.or_false]
        rfl
    | some last =>
        have hin := List.mem_of_getLast? hlast
        have hsorted := hincreasing.filter editor.kept
        rw [← hheld] at hsorted
        have hnewest : ∀ entry ∈ overBound key editor.log ⟨version, edits⟩,
            entry.version ≤ last.version := fun _ hentry =>
          version_le_getLast (hsorted.sublist (List.take_sublist _ _)) hlast hentry
        rw [h.through older]
        show decide (older < last.version) = _
        by_cases hafter : older < last.version
        · rw [decide_eq_true hafter]
          symm
          rw [Bool.or_eq_true, List.any_eq_true, List.any_eq_true]
          exact .inr ⟨last, hin, decide_eq_true hafter⟩
        · rw [decide_eq_false hafter]
          symm
          rw [Bool.or_eq_false_iff, List.any_eq_false, List.any_eq_false]
          constructor
          · intro lower hlower
            have hkept := (hover last hin).2
            unfold Editor.kept at hkept
            rw [Bool.and_eq_true, List.all_eq_true, List.all_eq_true] at hkept
            have := of_decide_eq_true (hkept.2 lower hlower)
            rw [decide_eq_true_eq]
            omega
          · intro lower hlower
            have := hnewest lower hlower
            rw [decide_eq_true_eq]
            omega

theorem Logged.prune (h : Logged key editor) {version : Nat} (hversion : version ≤ editor.version)
    (docs : DocumentAnalysisStates) :
    Logged key { editor with
      log := editor.log.prune key version
      docs := docs
      pruned := version :: editor.pruned } := by
  constructor
  · exact h.increasing
  · exact h.recorded
  · intro older holder
    rcases List.mem_cons.mp holder with heq | hold
    · rw [heq]
      exact hversion
    · exact h.prunedTo older hold
  · exact h.droppedOf
  · have hentries : (editor.log.prune key version).entriesOf key =
        (editor.log.entriesOf key).filter fun entry => decide (version < entry.version) := by
      unfold DocumentEditLog.prune DocumentEditLog.entriesOf
      cases hlookup : editor.log.entries.lookup key with
      | none =>
          show (editor.log.entries.lookup key).getD [] = _
          rw [hlookup]
          rfl
      | some entries =>
          show ((editor.log.entries.insert key _).lookup key).getD [] = _
          rw [AList.lookup_insert]
          rfl
    show (editor.log.prune key version).entriesOf key = _
    rw [hentries, h.entries, List.filter_filter]
    apply List.filter_congr
    intro entry _
    unfold Editor.kept
    dsimp only
    rw [List.all_cons, Bool.and_assoc]
  · intro older
    have hthrough : (editor.log.prune key version).droppedThrough = editor.log.droppedThrough := by
      unfold DocumentEditLog.prune
      cases editor.log.entries.lookup key <;> rfl
    show ((editor.log.prune key version).droppedThrough.lookup key).any _ = _
    rw [hthrough]
    exact h.through older

theorem step_followEdits {version : Nat} {edits : List SourceEdit}
    (hstep : Editor.step key editor (.followEdits version edits) = some next) :
    next = editor ∨ editor.version < version ∧ next = editor.followEdits key version edits := by
  simp only [Editor.step] at hstep
  split at hstep
  · cases hstep
    exact .inl rfl
  · split at hstep
    · rename_i hnewer
      cases hstep
      exact .inr ⟨hnewer, rfl⟩
    · cases hstep

/-- A store is of a text that the editor has had. -/
theorem step_store {sourceVersion generation : Nat} {states : List ImportAnalysisState}
    {refine : Option RefineStates}
    (hstep : Editor.step key editor (.store sourceVersion states generation refine) = some next) :
    sourceVersion ≤ editor.version ∧
      next = editor.store key sourceVersion states generation refine := by
  simp only [Editor.step] at hstep
  split at hstep
  · rename_i hversion
    cases hstep
    exact ⟨hversion, rfl⟩
  · cases hstep

theorem Logged.withDocs (h : Logged key editor) (docs : DocumentAnalysisStates) :
    Logged key { editor with docs := docs } :=
  ⟨h.increasing, h.recorded, h.prunedTo, h.droppedOf, h.entries, h.through⟩

theorem Logged.store (h : Logged key editor) {sourceVersion : Nat}
    (hversion : sourceVersion ≤ editor.version) (states : List ImportAnalysisState)
    (generation : Nat) (refine : Option RefineStates) :
    Logged key (editor.store key sourceVersion states generation refine) := by
  unfold Editor.store
  cases editor.log.since key sourceVersion with
  | none => exact h
  | some edits => exact h.prune hversion _

theorem Logged.step (h : Logged key editor) {op : Op}
    (hstep : Editor.step key editor op = some next) : Logged key next := by
  cases op with
  | followEdits version edits =>
      rcases step_followEdits hstep with rfl | ⟨hnewer, rfl⟩
      · exact h
      · exact h.followEdits edits hnewer
  | applyRefreshedResults push =>
      cases hstep
      exact h.withDocs _
  | store sourceVersion states generation refine =>
      obtain ⟨hversion, rfl⟩ := step_store hstep
      exact h.store hversion states generation refine
  | storeAgain recaption generation =>
      cases hstep
      exact h.withDocs _
  | replace recaption =>
      cases hstep
      exact h.withDocs _
  | clear =>
      cases hstep
      exact h.withDocs _

/-! ## What is stored -/

/-- Whatever is held has a refiner of captions. -/
def HeldRecaption (key : String) (docs : DocumentAnalysisStates) : Prop :=
  ∀ held ∈ docs.queuedOf key, CaptionsOnly held.push.options.refine

section

variable {docs : DocumentAnalysisStates}

theorem HeldRecaption.applyRefreshedResults (h : HeldRecaption key docs) {push : Push}
    (hpush : CaptionsOnly push.options.refine) :
    HeldRecaption key (docs.applyRefreshedResults key push).1 := by
  have hqueue : HeldRecaption key (docs.queue key push) := by
    unfold HeldRecaption DocumentAnalysisStates.queue
    cases push.options.generation with
    | none => exact h
    | some generation =>
        intro held hheld
        have hin : held ∈ docs.queuedOf key ++ [(⟨push, generation⟩ : QueuedRefresh)] := by
          refine List.mem_of_mem_drop (i := (docs.queuedOf key ++
            [(⟨push, generation⟩ : QueuedRefresh)]).length - maxQueuedRefreshBatches) ?_
          unfold DocumentAnalysisStates.queuedOf at hheld
          simp only [Option.elim_some] at hheld
          rw [AList.lookup_insert, Option.getD_some] at hheld
          exact hheld
        rcases List.mem_append.mp hin with hold | hnew
        · exact h held hold
        · rw [List.mem_singleton.mp hnew]
          exact hpush
  unfold DocumentAnalysisStates.applyRefreshedResults
  split
  · exact h
  · dsimp only
    split
    · exact hqueue
    · unfold HeldRecaption DocumentAnalysisStates.queuedOf
      rw [DocumentAnalysisStates.queued_merge]
      exact hqueue

theorem heldRecaption_set (docs : DocumentAnalysisStates) (states : List ImportAnalysisState)
    (generation : Nat) (refine : Option RefineStates) :
    HeldRecaption key (docs.set key states generation refine) := by
  unfold HeldRecaption
  rw [DocumentAnalysisStates.queuedOf_set]
  exact fun _ hnone => absurd hnone List.not_mem_nil

theorem queued_applyEdits (edits : List SourceEdit) :
    (docs.applyEdits key edits).1.queued = docs.queued := by
  unfold DocumentAnalysisStates.applyEdits
  split
  · rfl
  · split <;> rfl

/-- The document has states of these imports. -/
def Detects (key : String) (docs : DocumentAnalysisStates) (detected : List DetectedImport) :
    Prop :=
  ∃ stored, docs.states.lookup key = some stored ∧
    stored.map ImportAnalysisState.detected = detected

theorem detects_of_stores {states : List ImportAnalysisState} (h : docs.Stores key states) :
    Detects key docs (states.map ImportAnalysisState.detected) := by
  obtain ⟨stored, hlookup, hsame⟩ := h
  exact ⟨stored, hlookup, detected_of_same hsame⟩

theorem Detects.applyRefreshedResults {detected : List DetectedImport}
    (h : Detects key docs detected) {push : Push} (hpush : CaptionsOnly push.options.refine) :
    Detects key (docs.applyRefreshedResults key push).1 detected := by
  obtain ⟨stored, hlookup, rfl⟩ := h
  have hstores : docs.Stores key stored := ⟨stored, hlookup, rfl⟩
  have hnext := detects_of_stores (hstores.applyRefreshedResults hpush)
  have hmerged := detected_mergeInOrder stored [push]
  rw [show push.mergeInto stored = mergeInOrder stored [push] from rfl, hmerged] at hnext
  exact hnext

theorem detects_set (hheld : HeldRecaption key docs) (states : List ImportAnalysisState)
    (generation : Nat) {refine : Option RefineStates} (hrefine : CaptionsOnly refine) :
    Detects key (docs.set key states generation refine)
      (states.map ImportAnalysisState.detected) := by
  have hset := detects_of_stores (DocumentAnalysisStates.stores_set docs key states generation
    hrefine fun held hin _ => hheld held hin)
  rw [detected_mergeInOrder] at hset
  exact hset

theorem Detects.get {detected : List DetectedImport} (h : Detects key docs detected) :
    (docs.get key).map ImportAnalysisState.detected = detected := by
  obtain ⟨stored, hlookup, hdetected⟩ := h
  unfold DocumentAnalysisStates.get
  rw [hlookup]
  exact hdetected

theorem detected_recaption {recaption : RefineStates} (h : CaptionsOnly (some recaption))
    (states : List ImportAnalysisState) :
    (recaption states).map ImportAnalysisState.detected =
      states.map ImportAnalysisState.detected :=
  detected_of_same (h recaption rfl states)

theorem Detects.applyEdits {detected : List DetectedImport} (h : Detects key docs detected)
    (edits : List SourceEdit) :
    Detects key (docs.applyEdits key edits).1
      (detected.filterMap fun detected => shiftDetectedImport detected edits) := by
  obtain ⟨stored, hlookup, rfl⟩ := h
  unfold DocumentAnalysisStates.applyEdits
  rw [hlookup]
  dsimp only
  split
  · rename_i hnone
    rw [← detected_shiftStates, hnone]
    exact ⟨stored, hlookup, rfl⟩
  · exact ⟨shiftStates stored edits, AList.lookup_insert _, detected_shiftStates stored edits⟩

end

/-- From the store on: the states are those of the response, carried through all
edits since its text. -/
structure Follows (key : String) (states : List ImportAnalysisState) (sourceVersion : Nat)
    (editor : Editor) : Prop where
  detects : Detects key editor.docs
    ((shiftStates states (editor.editsAfter sourceVersion)).map ImportAnalysisState.detected)
  older : sourceVersion ≤ editor.version
  held : HeldRecaption key editor.docs

section

variable {states : List ImportAnalysisState} {sourceVersion : Nat}

theorem editsAfter_followEdits {version : Nat} (hnewer : sourceVersion < version)
    (edits : List SourceEdit) :
    (editor.followEdits key version edits).editsAfter sourceVersion =
      editor.editsAfter sourceVersion ++ edits := by
  unfold Editor.editsAfter Editor.followEdits
  dsimp only
  rw [List.filter_append, List.flatMap_append, List.filter_cons,
    if_pos (decide_eq_true hnewer), List.filter_nil, List.flatMap_singleton]

theorem Follows.followEdits (h : Follows key states sourceVersion editor) {version : Nat}
    (edits : List SourceEdit) (hnewer : editor.version < version) :
    Follows key states sourceVersion (editor.followEdits key version edits) := by
  have holder := h.older
  constructor
  · rw [editsAfter_followEdits (by omega), detected_shiftStates_append]
    exact h.detects.applyEdits edits
  · show sourceVersion ≤ version
    omega
  · unfold HeldRecaption DocumentAnalysisStates.queuedOf
    show ∀ held ∈ (((editor.docs.applyEdits key edits).1).queued.lookup key).getD [], _
    rw [queued_applyEdits]
    exact h.held

theorem Follows.step (h : Follows key states sourceVersion editor) {op : Op}
    (hkeeps : op.KeepsAnalysis) (hcaptions : op.Recaptions)
    (hstep : Editor.step key editor op = some next) : Follows key states sourceVersion next := by
  cases op with
  | followEdits version edits =>
      rcases step_followEdits hstep with rfl | ⟨hnewer, rfl⟩
      · exact h
      · exact h.followEdits edits hnewer
  | applyRefreshedResults push =>
      cases hstep
      exact ⟨h.detects.applyRefreshedResults hcaptions, h.older,
        h.held.applyRefreshedResults hcaptions⟩
  | store _ _ _ _ => exact hkeeps.elim
  | storeAgain recaption generation =>
      cases hstep
      have hset := detects_set h.held (recaption (editor.docs.get key)) generation hcaptions
      rw [detected_recaption hcaptions, h.detects.get] at hset
      exact ⟨hset, h.older, heldRecaption_set _ _ _ _⟩
  | replace recaption =>
      cases hstep
      refine ⟨⟨_, AList.lookup_insert _, ?_⟩, h.older, h.held⟩
      rw [detected_recaption hcaptions, h.detects.get]
      rfl
  | clear => exact hkeeps.elim

end

theorem HeldRecaption.step (h : HeldRecaption key editor.docs) {op : Op}
    (hcaptions : op.Recaptions) (hstep : Editor.step key editor op = some next) :
    HeldRecaption key next.docs := by
  cases op with
  | followEdits version edits =>
      rcases step_followEdits hstep with rfl | ⟨-, rfl⟩
      · exact h
      · unfold HeldRecaption DocumentAnalysisStates.queuedOf
        show ∀ held ∈ (((editor.docs.applyEdits key edits).1).queued.lookup key).getD [], _
        rw [queued_applyEdits]
        exact h
  | applyRefreshedResults push =>
      cases hstep
      exact h.applyRefreshedResults hcaptions
  | store sourceVersion states generation refine =>
      obtain ⟨-, rfl⟩ := step_store hstep
      unfold Editor.store
      cases editor.log.since key sourceVersion with
      | none => exact h
      | some edits => exact heldRecaption_set _ _ _ _
  | storeAgain recaption generation =>
      cases hstep
      exact heldRecaption_set _ _ _ _
  | replace recaption =>
      cases hstep
      exact h
  | clear =>
      cases hstep
      unfold HeldRecaption DocumentAnalysisStates.queuedOf DocumentAnalysisStates.clear
      dsimp only
      rw [AList.lookup_erase]
      exact fun _ hnone => absurd hnone List.not_mem_nil

/-- An analysis in flight: the log was pruned at no newer text than the one it read. -/
structure InFlight (key : String) (sourceVersion : Nat) (editor : Editor) : Prop where
  logged : Logged key editor
  held : HeldRecaption key editor.docs
  older : sourceVersion ≤ editor.version
  pruned : ∀ version ∈ editor.pruned, version ≤ sourceVersion

theorem version_le_step {op : Op} (hstep : Editor.step key editor op = some next) :
    editor.version ≤ next.version := by
  cases op with
  | followEdits version edits =>
      rcases step_followEdits hstep with rfl | ⟨hnewer, rfl⟩
      · exact Nat.le_refl _
      · exact Nat.le_of_lt hnewer
  | store sourceVersion states generation refine =>
      obtain ⟨-, rfl⟩ := step_store hstep
      unfold Editor.store
      cases editor.log.since key sourceVersion with
      | none => exact Nat.le_refl _
      | some edits => exact Nat.le_refl _
  | applyRefreshedResults | storeAgain | replace | clear =>
      cases hstep
      exact Nat.le_refl _

theorem pruned_step {op : Op} (hstep : Editor.step key editor op = some next) {version : Nat}
    (hpruned : version ∈ next.pruned) :
    version ∈ editor.pruned ∨
      ∃ states generation refine, op = .store version states generation refine := by
  cases op with
  | followEdits version edits =>
      rcases step_followEdits hstep with rfl | ⟨-, rfl⟩
      · exact .inl hpruned
      · exact .inl hpruned
  | store sourceVersion states generation refine =>
      obtain ⟨-, rfl⟩ := step_store hstep
      unfold Editor.store at hpruned
      cases hedits : editor.log.since key sourceVersion with
      | none =>
          rw [hedits] at hpruned
          exact .inl hpruned
      | some edits =>
          rw [hedits] at hpruned
          rcases List.mem_cons.mp hpruned with rfl | hold
          · exact .inr ⟨states, generation, refine, rfl⟩
          · exact .inl hold
  | applyRefreshedResults | storeAgain | replace | clear =>
      cases hstep
      exact .inl hpruned

theorem InFlight.step {sourceVersion : Nat} (h : InFlight key sourceVersion editor) {op : Op}
    (hprunes : op.PrunesUpTo sourceVersion) (hcaptions : op.Recaptions)
    (hstep : Editor.step key editor op = some next) : InFlight key sourceVersion next := by
  refine ⟨h.logged.step hstep, h.held.step hcaptions hstep,
    Nat.le_trans h.older (version_le_step hstep), ?_⟩
  intro version hpruned
  rcases pruned_step hstep hpruned with hold | ⟨_, _, _, rfl⟩
  · exact h.pruned version hold
  · exact hprunes

/-- The store of the response. -/
theorem InFlight.follows {sourceVersion : Nat} (h : InFlight key sourceVersion editor)
    (states : List ImportAnalysisState) (generation : Nat) {refine : Option RefineStates}
    (hrefine : CaptionsOnly refine)
    (hknown : (editor.log.since key sourceVersion).isSome = true) :
    Follows key states sourceVersion
      (editor.store key sourceVersion states generation refine) := by
  have hsince := h.logged.since h.pruned
  unfold Editor.store
  cases hedits : editor.log.since key sourceVersion with
  | none =>
      rw [hedits] at hknown
      cases hknown
  | some edits =>
      rw [hedits] at hsince
      split at hsince
      · cases hsince
      · rw [Option.some.injEq] at hsince
        refine ⟨?_, h.older, heldRecaption_set _ _ _ _⟩
        show Detects key (editor.docs.set key (shiftStates states edits) generation refine)
          ((shiftStates states (editor.editsAfter sourceVersion)).map ImportAnalysisState.detected)
        rw [← hsince]
        exact detects_set h.held _ generation hrefine

/-- The log answers with exactly the edits after a version, unless the bound has
dropped one of them; and the states of a response that is stored while it answers
are from then on its states carried through all edits after the text it read. -/
theorem stored_ranges_follow {key : String} {version : Nat} {before between : List Op}
    {opened closing : Editor}
    (hbefore : ({ version := version } : Editor).run key before = some opened)
    (hbetween : opened.run key between = some closing)
    (hprunes : ∀ op ∈ between, op.PrunesUpTo opened.version)
    (hcaptions : ∀ op ∈ before ++ between, op.Recaptions) :
    (∀ older, (∀ pruned ∈ closing.pruned, pruned ≤ older) →
      closing.log.since key older =
        if closing.dropped.any fun entry => decide (older < entry.version) then none
        else some (closing.editsAfter older)) ∧
    ∀ (states : List ImportAnalysisState) (generation : Nat) (refine : Option RefineStates)
      (after : List Op) (final : Editor), CaptionsOnly refine →
      (closing.log.since key opened.version).isSome = true →
      (closing.store key opened.version states generation refine).run key after = some final →
      (∀ op ∈ after, op.KeepsAnalysis ∧ op.Recaptions) →
      (final.docs.get key).map ImportAnalysisState.detected =
        (shiftStates states (final.editsAfter opened.version)).map
          ImportAnalysisState.detected := by
  have hopened : Logged key opened ∧ HeldRecaption key opened.docs := by
    refine Editor.run_invariant (I := fun editor => Logged key editor ∧
      HeldRecaption key editor.docs) Op.Recaptions ?_ ?_ hbefore
      ⟨logged_empty key version, fun held hnone => absurd hnone List.not_mem_nil⟩
    · intro editor op next hop hstep hboth
      exact ⟨hboth.1.step hstep, hboth.2.step hop hstep⟩
    · exact fun op hop => hcaptions op (List.mem_append_left _ hop)
  have hclosing : InFlight key opened.version closing := by
    refine Editor.run_invariant (fun op => op.PrunesUpTo opened.version ∧ op.Recaptions)
      ?_ ?_ hbetween ⟨hopened.1, hopened.2, Nat.le_refl _, hopened.1.prunedTo⟩
    · intro editor op next hop hstep hflight
      exact hflight.step hop.1 hop.2 hstep
    · exact fun op hop => ⟨hprunes op hop, hcaptions op (List.mem_append_right _ hop)⟩
  refine ⟨fun older hpruned => hclosing.logged.since hpruned, ?_⟩
  intro states generation refine after final hrefine hknown hafter hkeeps
  have hfinal : Follows key states opened.version final := by
    refine Editor.run_invariant (fun op => op.KeepsAnalysis ∧ op.Recaptions) ?_ hkeeps
      hafter (hclosing.follows states generation hrefine hknown)
    intro editor op next hop hstep hfollows
    exact hfollows.step hop.1 hop.2 hstep
  exact hfinal.detects.get

def lineAbove (line : Int) : SourceEdit := ⟨⟨position line, position line⟩, [10]⟩

/-- One edit before the text is read, one before its response is stored and one
after it: the import moves by the last two. -/
theorem stored_ranges_follow_three :
    ∃ opened closing final : Editor,
      (closing.store "a.ts" opened.version [loadingAt "react" 3] 7 none).run "a.ts"
        [.followEdits 4 [lineAbove 0]] = some final ∧
      (final.docs.get "a.ts").map (fun state => state.detected.line) = [5] ∧
      (final.docs.get "a.ts").map ImportAnalysisState.detected =
        (shiftStates [loadingAt "react" 3] (final.editsAfter opened.version)).map
          ImportAnalysisState.detected := by
  let opened : Editor := (Editor.run "a.ts" { version := 1 }
    [.followEdits 2 [lineAbove 0]]).getD { version := 0 }
  let closing : Editor := (opened.run "a.ts" [.followEdits 3 [lineAbove 1]]).getD { version := 0 }
  let final : Editor := ((closing.store "a.ts" opened.version [loadingAt "react" 3] 7 none).run
    "a.ts" [.followEdits 4 [lineAbove 0]]).getD { version := 0 }
  have hbefore : ({ version := 1 } : Editor).run "a.ts" [.followEdits 2 [lineAbove 0]] =
      some opened := rfl
  have hbetween : opened.run "a.ts" [.followEdits 3 [lineAbove 1]] = some closing := rfl
  have hfollow := (stored_ranges_follow hbefore hbetween (by simp [Op.PrunesUpTo])
    (by simp [Op.Recaptions])).2
    [loadingAt "react" 3] 7 none [.followEdits 4 [lineAbove 0]] final
    (fun _ hnone => by cases hnone) (by decide) rfl
    (by simp [Op.KeepsAnalysis, Op.Recaptions])
  exact ⟨opened, closing, final, rfl, by decide, hfollow⟩

end ImportLens.Extension
