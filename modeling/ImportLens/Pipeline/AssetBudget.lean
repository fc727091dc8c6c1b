import ImportLens.Pipeline.FileSize
import ImportLens.Support.Section

/-!
# The asset budget

One ledger bounds every non-JavaScript input of a build and every retry of its
stylesheets.  A read reserves the length its metadata announces, then opens the
file, then reconciles the reservation with the bytes it got.  Each operation is
one section under the ledger's lock, and the first breach of a limit is kept.

Byte and read counters are natural numbers: a sum that would saturate lies above
every limit below `usize::MAX`, and so is refused just as the exact sum is.
-/

namespace ImportLens.Pipeline.AssetBudget

open ImportLens.Daemon ImportLens.Cache ImportLens.Support

abbrev CollectedAsset : Type := FileSize.CollectedAsset

structure AssetBudgetLimits where
  maxUniqueFiles : Nat
  maxInputBytes : Nat
  maxFileBytes : Nat
  maxCssWorkReads : Nat
  maxCssWorkBytes : Nat
  deriving DecidableEq, Repr

def AssetBudgetLimits.production (maxGraphSourceBytes : Nat) : AssetBudgetLimits where
  maxUniqueFiles := 2000
  maxInputBytes := maxGraphSourceBytes
  maxFileBytes := 20 * 1024 * 1024
  maxCssWorkReads := 512
  maxCssWorkBytes := 16 * 1024 * 1024

inductive AssetBudgetStage
  | moduleGraphLimit
  | timeout
  deriving DecidableEq, Repr

structure AssetBudgetFailure where
  stage : AssetBudgetStage
  message : String
  readPaths : List String
  readTimeFingerprints : List FileFingerprint
  deriving DecidableEq, Repr

structure BudgetState where
  /-- Every path of the build with the bytes it is charged. -/
  uniqueFiles : Keyed String Nat
  graphFiles : List String
  aliases : Keyed String String
  inputBytes : Nat
  cssWorkReads : Nat
  cssWorkBytes : Nat
  snapshots : Keyed String CollectedAsset
  readPaths : List String
  fingerprints : List FileFingerprint
  moduleLimitMessage : Option String
  timedOut : Bool

/-- The metadata reservation of a read that has begun. -/
structure CssReadReservation where
  path : String
  metadata : Metadata
  cssWorkReservedBytes : Option Nat
  deriving DecidableEq, Repr

/-- What an operation fails with; a failed `expect` is a panic. -/
inductive Fault
  | other (message : String)
  | timedOut (message : String)
  | file (kind : ErrorKind)
  | panicked (expectation : String)
  deriving DecidableEq, Repr

abbrev Locked (α : Type) : Type := Section BudgetState Fault α

/-! ## Limits -/

def recordLimit (message : String) (state : BudgetState) : BudgetState :=
  { state with moduleLimitMessage := some (state.moduleLimitMessage.getD message) }

def limitIoError (state : BudgetState) : Fault :=
  .other (state.moduleLimitMessage.getD "asset processing resource limit exceeded")

def breach {α : Type} (message : String) : Locked α := fun state =>
  let state := recordLimit message state
  (.error (limitIoError state), state)

/-- `expired` is what the deadline says at this moment. -/
def checkAvailable (expired : Bool) : Locked Unit := do
  let state ← Section.get
  if state.moduleLimitMessage.isSome then
    Section.fail (limitIoError state)
  else if expired then do
    Section.update fun state => { state with timedOut := true }
    Section.fail (.timedOut "asset processing deadline expired")
  else pure ()

/-! ## Observations -/

/-- `usize` has 64 bits, so no length is too large for it. -/
def metadataBytes (metadata : Metadata) (path : String) : Locked Nat :=
  if metadata.len ≤ u64Max then pure metadata.len
  else Section.fail (.other ("asset " ++ path ++ " is too large for this platform"))

def statFingerprint (path : String) (metadata : Metadata) : FileFingerprint :=
  ⟨path, metadata.len, metadata.modifiedMillis, none⟩

def absentFileFingerprint (path : String) : FileFingerprint := ⟨path, u64Max, 0, none⟩

def observe (path : String) (fingerprint : FileFingerprint) : Locked Unit :=
  Section.update fun state =>
    { state with
      readPaths := state.readPaths.insert path
      fingerprints := state.fingerprints ++ [fingerprint] }

def recordFailedPath (path : String) (missing : Bool) : Locked Unit :=
  observe path (if missing then absentFileFingerprint path else unverifiableFileFingerprint path)

/-- The arm of `observe_metadata` that has metadata; the other one is
`recordFailedPath`. -/
def observeMetadata (path : String) (metadata : Metadata) : Locked Unit :=
  observe path (statFingerprint path metadata)

/-- Drop the observation of a stat that an exact one of the same metadata makes
redundant. -/
def normalizedObservations (observations : List FileFingerprint) : List FileFingerprint :=
  let exact := observations.filter fun fingerprint => fingerprint.contentHash.isSome
  sortAndDedupFingerprints (observations.filter fun fingerprint =>
    fingerprint.contentHash.isSome ||
      !exact.any fun known => known.path == fingerprint.path && known.len == fingerprint.len &&
        known.modifiedMillis == fingerprint.modifiedMillis)

def failure (state : BudgetState) : Option AssetBudgetFailure :=
  let failed (stage : AssetBudgetStage) (message : String) : AssetBudgetFailure :=
    { stage := stage
      message := message
      readPaths := state.readPaths.mergeSort fun a b => (compare a b).isLE
      readTimeFingerprints := normalizedObservations state.fingerprints }
  match state.moduleLimitMessage with
  | some message => some (failed .moduleGraphLimit message)
  | none =>
      if state.timedOut then
        some (failed .timeout "asset processing did not complete within its deadline")
      else none

/-! ## Charges -/

section

variable (limits : AssetBudgetLimits)

def fileLimitMessage (path : String) : String :=
  "asset " ++ path ++ " exceeds the " ++ toString limits.maxFileBytes ++
    " byte module source limit"

def cssWorkLimitMessage (during path : String) : String :=
  "asset processing exceeds the " ++ toString limits.maxCssWorkReads ++ " CSS read / " ++
    toString limits.maxCssWorkBytes ++ " CSS byte work limit while " ++ during ++ " " ++ path

def inputLimitMessage (during path : String) : String :=
  "asset processing exceeds the " ++ toString limits.maxInputBytes ++
    " byte total source limit while " ++ during ++ " " ++ path

def chargeCssWork (bytes : Nat) (path : String) : Locked Unit := fun state =>
  let reads := state.cssWorkReads + 1
  let nextCssWorkBytes := state.cssWorkBytes + bytes
  if limits.maxCssWorkReads < reads ∨ limits.maxCssWorkBytes < nextCssWorkBytes then
    breach (cssWorkLimitMessage limits "loading" path) state
  else (.ok (), { state with cssWorkReads := reads, cssWorkBytes := nextCssWorkBytes })

def reserveUnique (path : String) (bytes : Nat) : Locked Unit := fun state =>
  if limits.maxFileBytes < bytes then breach (fileLimitMessage limits path) state
  else if (state.uniqueFiles.lookup path).isSome then (.ok (), state)
  else if limits.maxUniqueFiles < state.uniqueFiles.rows.length + 1 then
    breach ("asset processing exceeds the " ++ toString limits.maxUniqueFiles ++
      " file graph limit while loading " ++ path) state
  else if limits.maxInputBytes < state.inputBytes + bytes then
    breach (inputLimitMessage limits "loading" path) state
  else
    (.ok (), { state with
      uniqueFiles := state.uniqueFiles.insert path bytes
      inputBytes := state.inputBytes + bytes })

def reconcileCssWork (reservation : CssReadReservation) (actualBytes : Nat) : Locked Unit :=
  fun state =>
    match reservation.cssWorkReservedBytes with
    | none => (.ok (), state)
    | some reservedBytes =>
        if state.cssWorkBytes < reservedBytes then
          (.error (.panicked "CSS work bytes must have an existing reservation"), state)
        else
          let reconciled := state.cssWorkBytes - reservedBytes + actualBytes
          if limits.maxCssWorkBytes < reconciled then
            breach (cssWorkLimitMessage limits "reading" reservation.path) state
          else (.ok (), { state with cssWorkBytes := reconciled })

def checkFileBytes (reservation : CssReadReservation) (actualBytes : Nat) : Locked Unit :=
  if limits.maxFileBytes < actualBytes then breach (fileLimitMessage limits reservation.path)
  else pure ()

def reconcilePath (path : String) (actualBytes : Nat) : Locked Unit := fun state =>
  if path ∈ state.graphFiles then (.ok (), state)
  else
    match state.uniqueFiles.lookup path with
    | none =>
        (.error (.panicked "a completed asset read must have a metadata reservation"), state)
    | some chargedBytes =>
        let reconciled := state.inputBytes + (actualBytes - chargedBytes)
        if limits.maxInputBytes < reconciled then
          breach (inputLimitMessage limits "reading" path) state
        else
          (.ok (), { state with
            inputBytes := reconciled
            uniqueFiles :=
              if chargedBytes < actualBytes then state.uniqueFiles.insert path actualBytes
              else state.uniqueFiles })

/-! ## The operations -/

def chargeCssSnapshot (expired : Bool) (asset : CollectedAsset) : Locked Unit := do
  checkAvailable expired
  observe asset.path asset.fingerprint
  chargeCssWork limits asset.bytes.length asset.path

/-- `path` is the canonical path of the child stylesheet. -/
def beginCssRead (expired : Bool) (path : String) (metadata : Metadata) :
    Locked CssReadReservation := do
  let bytes ← metadataBytes metadata path
  checkAvailable expired
  observe path (statFingerprint path metadata)
  chargeCssWork limits bytes path
  reserveUnique limits path bytes
  pure { path := path, metadata := metadata, cssWorkReservedBytes := some bytes }

def beginResourceRead (expired : Bool) (path : String) (metadata : Metadata) :
    Locked CssReadReservation := do
  let bytes ← metadataBytes metadata path
  checkAvailable expired
  observe path (statFingerprint path metadata)
  reserveUnique limits path bytes
  pure { path := path, metadata := metadata, cssWorkReservedBytes := none }

def assetFromRead (contentHash : Bytes → Nat) (path : String) (kind : AssetKind)
    (metadata : Metadata) (bytes : Bytes) : CollectedAsset where
  path := path
  kind := kind
  bytes := bytes
  fingerprint := ⟨path, metadata.len, metadata.modifiedMillis, some (contentHash bytes)⟩

def retainSnapshot (path : String) (asset : CollectedAsset) : Locked Unit :=
  Section.update fun state => { state with snapshots := state.snapshots.orInsert path asset }

def finishRead (contentHash : Bytes → Nat) (expired : Bool) (reservation : CssReadReservation)
    (kind : AssetKind) (bytes : Bytes) : Locked CollectedAsset := do
  let asset := assetFromRead contentHash reservation.path kind reservation.metadata bytes
  checkAvailable expired
  observe reservation.path asset.fingerprint
  reconcileCssWork limits reservation bytes.length
  checkFileBytes limits reservation bytes.length
  reconcilePath limits reservation.path bytes.length
  retainSnapshot reservation.path asset
  pure asset

def uncheckedState (graphSourceBytes : Nat) (graphLoadedPaths : List String)
    (directAssets : List CollectedAsset) : BudgetState :=
  let graphFiles := (graphLoadedPaths ++ directAssets.map fun asset => asset.path).dedup
  let snapshots := Keyed.insertAll (directAssets.map fun asset => (asset.path, asset)) ∅
  let uniqueFiles : Keyed String Nat := Keyed.insertAll (graphFiles.map fun path => (path, 0)) ∅
  { uniqueFiles := snapshots.rows.foldl
      (fun files row => files.orInsert row.1 row.2.bytes.length) uniqueFiles
    graphFiles := graphFiles
    aliases := Keyed.insertAll (directAssets.map fun asset => (asset.path, asset.path)) ∅
    inputBytes := graphSourceBytes
    cssWorkReads := 0
    cssWorkBytes := 0
    snapshots := snapshots
    readPaths := []
    fingerprints := directAssets.map fun asset => asset.fingerprint
    moduleLimitMessage := none
    timedOut := false }

def checkFileCount (state : BudgetState) : BudgetState :=
  if limits.maxUniqueFiles < state.uniqueFiles.rows.length then
    recordLimit ("asset processing exceeds the " ++ toString limits.maxUniqueFiles ++
      " file graph limit") state
  else state

def checkInputBytes (state : BudgetState) : BudgetState :=
  if limits.maxInputBytes < state.inputBytes then
    recordLimit ("asset processing exceeds the " ++ toString limits.maxInputBytes ++
      " byte total source limit") state
  else state

/-- `AssetProcessingContext::new`. -/
def newState (graphSourceBytes : Nat) (graphLoadedPaths : List String)
    (directAssets : List CollectedAsset) : BudgetState :=
  checkInputBytes limits
    (checkFileCount limits (uncheckedState graphSourceBytes graphLoadedPaths directAssets))

end

/-! ## What every section keeps -/

def chargedBytes (state : BudgetState) : Nat :=
  Keyed.total id (state.uniqueFiles.retain fun path => decide (path ∉ state.graphFiles))

structure Within (limits : AssetBudgetLimits) (state : BudgetState) : Prop where
  files : state.uniqueFiles.rows.length ≤ limits.maxUniqueFiles
  input : state.inputBytes ≤ limits.maxInputBytes
  reads : state.cssWorkReads ≤ limits.maxCssWorkReads
  work : state.cssWorkBytes ≤ limits.maxCssWorkBytes

/-- The ledger adds up, and lies within its limits until a breach is recorded. -/
structure Balanced (limits : AssetBudgetLimits) (graphSourceBytes : Nat) (state : BudgetState) :
    Prop where
  graph : ∀ path ∈ state.graphFiles, (state.uniqueFiles.lookup path).isSome
  balance : state.inputBytes = graphSourceBytes + chargedBytes state
  within : state.moduleLimitMessage = none → Within limits state

/-- Charges only grow, and the first breach stays. -/
structure Extends (state next : BudgetState) : Prop where
  graph : next.graphFiles = state.graphFiles
  message : ∀ first, state.moduleLimitMessage = some first →
    next.moduleLimitMessage = some first
  charge : ∀ path bytes, state.uniqueFiles.lookup path = some bytes →
    ∃ more, next.uniqueFiles.lookup path = some more ∧ bytes ≤ more

namespace Extends

theorem refl (state : BudgetState) : Extends state state :=
  ⟨rfl, fun _ h => h, fun _ bytes h => ⟨bytes, h, Nat.le_refl _⟩⟩

theorem trans {a b c : BudgetState} (hab : Extends a b) (hbc : Extends b c) : Extends a c := by
  refine ⟨hbc.graph.trans hab.graph, fun m hm => hbc.message m (hab.message m hm), ?_⟩
  intro path bytes hbytes
  obtain ⟨more, hmore, hle⟩ := hab.charge path bytes hbytes
  obtain ⟨most, hmost, hle'⟩ := hbc.charge path more hmore
  exact ⟨most, hmost, hle.trans hle'⟩

theorem of_eq {state next : BudgetState} (hgraph : next.graphFiles = state.graphFiles)
    (hmessage : next.moduleLimitMessage = state.moduleLimitMessage)
    (hfiles : next.uniqueFiles = state.uniqueFiles) : Extends state next :=
  ⟨hgraph, fun _ hm => hmessage.trans hm, fun _ bytes h => ⟨bytes, hfiles ▸ h, Nat.le_refl _⟩⟩

end Extends

/-- What every section of the ledger does to its state. -/
structure Kept (limits : AssetBudgetLimits) (graphSourceBytes : Nat) (state next : BudgetState) :
    Prop where
  extends_ : Extends state next
  balanced : Balanced limits graphSourceBytes state → Balanced limits graphSourceBytes next

section

variable {limits : AssetBudgetLimits} {graphSourceBytes : Nat}

theorem Kept.refl (state : BudgetState) : Kept limits graphSourceBytes state state :=
  ⟨.refl state, id⟩

theorem Kept.trans {a b c : BudgetState} (hab : Kept limits graphSourceBytes a b)
    (hbc : Kept limits graphSourceBytes b c) : Kept limits graphSourceBytes a c :=
  ⟨hab.extends_.trans hbc.extends_, fun h => hbc.balanced (hab.balanced h)⟩

/-- A state with the same charges, bytes and message, and no more CSS work. -/
theorem Kept.of_eq {state next : BudgetState} (hgraph : next.graphFiles = state.graphFiles)
    (hmessage : next.moduleLimitMessage = state.moduleLimitMessage)
    (hfiles : next.uniqueFiles = state.uniqueFiles) (hinput : next.inputBytes = state.inputBytes)
    (hreads : next.cssWorkReads = state.cssWorkReads)
    (hwork : next.cssWorkBytes = state.cssWorkBytes) :
    Kept limits graphSourceBytes state next := by
  refine ⟨.of_eq hgraph hmessage hfiles, fun h => ⟨?_, ?_, fun hnone => ?_⟩⟩
  · rw [hgraph, hfiles]
    exact h.graph
  · rw [hinput, h.balance, chargedBytes, chargedBytes, hfiles, hgraph]
  · obtain ⟨files, input, reads, work⟩ := h.within (hmessage ▸ hnone)
    exact ⟨by rwa [hfiles], by rwa [hinput], by rwa [hreads], by rwa [hwork]⟩

theorem kept_recordLimit (message : String) (state : BudgetState) :
    Kept limits graphSourceBytes state (recordLimit message state) := by
  refine ⟨⟨rfl, fun _ hm => by simp [recordLimit, hm], fun _ bytes h => ⟨bytes, h, Nat.le_refl _⟩⟩,
    fun h => ⟨h.graph, h.balance, fun hnone => ?_⟩⟩
  simp [recordLimit] at hnone

/-! ## The sections, one by one -/

/-- The relation of `Section.Frame` for every section of the ledger. -/
abbrev Keeps {α : Type} (limits : AssetBudgetLimits) (graphSourceBytes : Nat) (m : Locked α) :
    Prop :=
  Section.Frame (Kept limits graphSourceBytes) m

theorem Keeps.bind {α β : Type} {m : Locked α} {f : α → Locked β}
    (hm : Keeps limits graphSourceBytes m) (hf : ∀ a, Keeps limits graphSourceBytes (f a)) :
    Keeps limits graphSourceBytes (m >>= f) :=
  Section.Frame.bind (fun _ _ _ => Kept.trans) hm hf

theorem keeps_pure {α : Type} (a : α) : Keeps limits graphSourceBytes (pure a) :=
  Section.Frame.pure Kept.refl a

theorem keeps_fail {α : Type} (e : Fault) :
    Keeps limits graphSourceBytes (Section.fail e : Locked α) :=
  Section.Frame.fail Kept.refl e

theorem keeps_breach {α : Type} (message : String) :
    Keeps limits graphSourceBytes (breach message : Locked α) :=
  fun state => kept_recordLimit message state

theorem keeps_checkAvailable (expired : Bool) :
    Keeps limits graphSourceBytes (checkAvailable expired) := by
  refine .bind (fun state => .refl state) fun state => ?_
  split
  · exact keeps_fail _
  · split
    · exact .bind (fun state => .of_eq rfl rfl rfl rfl rfl rfl) fun _ => keeps_fail _
    · exact keeps_pure _

theorem keeps_metadataBytes (metadata : Metadata) (path : String) :
    Keeps limits graphSourceBytes (metadataBytes metadata path) := by
  rw [metadataBytes]
  split
  · exact keeps_pure _
  · exact keeps_fail _

theorem keeps_observe (path : String) (fingerprint : FileFingerprint) :
    Keeps limits graphSourceBytes (observe path fingerprint) :=
  fun _ => .of_eq rfl rfl rfl rfl rfl rfl

theorem keeps_chargeCssWork (bytes : Nat) (path : String) :
    Keeps limits graphSourceBytes (chargeCssWork limits bytes path) := by
  intro state
  simp only [chargeCssWork]
  split
  · exact keeps_breach _ state
  · rename_i hfits
    simp only [not_or, Nat.not_lt] at hfits
    refine ⟨.of_eq rfl rfl rfl, fun h => ⟨h.graph, h.balance, fun hnone => ?_⟩⟩
    obtain ⟨files, input, _, _⟩ := h.within hnone
    exact ⟨files, input, hfits.1, hfits.2⟩

theorem Balanced.not_graph {state : BudgetState} {path : String}
    (h : Balanced limits graphSourceBytes state) (hnew : state.uniqueFiles.lookup path = none) :
    path ∉ state.graphFiles := by
  intro hmem
  have hsome := h.graph path hmem
  rw [hnew] at hsome
  cases hsome

theorem keeps_reserveUnique (path : String) (bytes : Nat) :
    Keeps limits graphSourceBytes (reserveUnique limits path bytes) := by
  intro state
  simp only [reserveUnique]
  split
  · exact keeps_breach _ state
  split
  · exact .refl state
  rename_i hnew
  rw [Bool.not_eq_true, Option.isSome_eq_false_iff, Option.isNone_iff_eq_none] at hnew
  split
  · exact keeps_breach _ state
  split
  · exact keeps_breach _ state
  rename_i hfiles hinput
  rw [Nat.not_lt] at hfiles hinput
  refine ⟨⟨rfl, fun _ hm => hm, ?_⟩, fun h => ⟨?_, ?_, fun hnone => ?_⟩⟩
  · intro p b hb
    have hne : p ≠ path := by
      rintro rfl
      simp [hnew] at hb
    exact ⟨b, (AList.lookup_insert_ne hne).trans hb, Nat.le_refl _⟩
  · intro p hp
    show ((state.uniqueFiles.insert path bytes).lookup p).isSome
    rw [Keyed.lookup_insert_eq]
    split
    · rfl
    · exact h.graph p hp
  · have htotal := Keyed.total_retain_insert id (fun p => decide (p ∉ state.graphFiles))
      state.uniqueFiles path bytes
    simp only [Keyed.lookup_retain, hnew, h.not_graph hnew, not_false_eq_true, decide_true, if_true,
      Option.map_none, Option.getD_none, id] at htotal
    show state.inputBytes + bytes = graphSourceBytes + chargedBytes _
    rw [h.balance, chargedBytes, chargedBytes]
    show _ =
      graphSourceBytes + Keyed.total id (Keyed.retain (fun p => decide (p ∉ state.graphFiles))
      (state.uniqueFiles.insert path bytes))
    omega
  · obtain ⟨_, _, reads, work⟩ := h.within hnone
    refine ⟨?_, hinput, reads, work⟩
    exact (Keyed.length_insert_le state.uniqueFiles path bytes).trans hfiles

theorem keeps_reconcileCssWork (reservation : CssReadReservation) (actualBytes : Nat) :
    Keeps limits graphSourceBytes (reconcileCssWork limits reservation actualBytes) := by
  intro state
  simp only [reconcileCssWork]
  split
  · exact .refl state
  · split
    · exact .refl state
    · split
      · exact keeps_breach _ state
      · rename_i hfits
        refine ⟨.of_eq rfl rfl rfl, fun h => ⟨h.graph, h.balance, fun hnone => ?_⟩⟩
        obtain ⟨files, input, reads, _⟩ := h.within hnone
        exact ⟨files, input, reads, Nat.not_lt.mp hfits⟩

theorem keeps_checkFileBytes (reservation : CssReadReservation) (actualBytes : Nat) :
    Keeps limits graphSourceBytes (checkFileBytes limits reservation actualBytes) := by
  rw [checkFileBytes]
  split
  · exact keeps_breach _
  · exact keeps_pure _

theorem keeps_reconcilePath (path : String) (actualBytes : Nat) :
    Keeps limits graphSourceBytes (reconcilePath limits path actualBytes) := by
  intro state
  simp only [reconcilePath]
  split
  · exact .refl state
  rename_i hpath
  split
  · exact .refl state
  rename_i chargedPath hcharged
  split
  · exact keeps_breach _ state
  rename_i hinput
  rw [Nat.not_lt] at hinput
  split
  · rename_i hmore
    refine ⟨⟨rfl, fun _ hm => hm, ?_⟩, fun h => ⟨?_, ?_, fun hnone => ?_⟩⟩
    · intro p b hb
      by_cases hp : p = path
      · subst hp
        rw [hcharged] at hb
        cases hb
        exact ⟨actualBytes, AList.lookup_insert _, Nat.le_of_lt hmore⟩
      · exact ⟨b, (AList.lookup_insert_ne hp).trans hb, Nat.le_refl _⟩
    · intro p hp
      show ((state.uniqueFiles.insert path actualBytes).lookup p).isSome
      rw [Keyed.lookup_insert_eq]
      split
      · rfl
      · exact h.graph p hp
    · have htotal := Keyed.total_retain_insert id (fun p => decide (p ∉ state.graphFiles))
        state.uniqueFiles path actualBytes
      simp only [Keyed.lookup_retain, hcharged, hpath, not_false_eq_true, decide_true, if_true,
        Option.map_some, Option.getD_some, id] at htotal
      show state.inputBytes + (actualBytes - chargedPath) = graphSourceBytes + Keyed.total id
        (Keyed.retain (fun p => decide (p ∉ state.graphFiles))
          (state.uniqueFiles.insert path actualBytes))
      rw [h.balance, chargedBytes]
      omega
    · obtain ⟨files, _, reads, work⟩ := h.within hnone
      refine ⟨?_, hinput, reads, work⟩
      have hlength := Keyed.total_insert (fun _ => 1) state.uniqueFiles path actualBytes
      rw [← Keyed.rows_length, ← Keyed.rows_length, hcharged] at hlength
      show (Keyed.rows (state.uniqueFiles.insert path actualBytes)).length ≤ limits.maxUniqueFiles
      simp only [Option.map_some, Option.getD_some] at hlength
      omega
  · rename_i hmore
    have hsame : actualBytes - chargedPath = 0 := by omega
    simp only [hsame, Nat.add_zero]
    exact .of_eq rfl rfl rfl rfl rfl rfl

theorem keeps_chargeCssSnapshot (expired : Bool) (asset : CollectedAsset) :
    Keeps limits graphSourceBytes (chargeCssSnapshot limits expired asset) :=
  (keeps_checkAvailable expired).bind fun _ =>
    (keeps_observe _ _).bind fun _ => keeps_chargeCssWork _ _

theorem keeps_beginCssRead (expired : Bool) (path : String) (metadata : Metadata) :
    Keeps limits graphSourceBytes (beginCssRead limits expired path metadata) :=
  (keeps_metadataBytes metadata path).bind fun _ =>
    (keeps_checkAvailable expired).bind fun _ =>
      (keeps_observe _ _).bind fun _ =>
        (keeps_chargeCssWork _ _).bind fun _ =>
          (keeps_reserveUnique _ _).bind fun _ => keeps_pure _

theorem keeps_beginResourceRead (expired : Bool) (path : String) (metadata : Metadata) :
    Keeps limits graphSourceBytes (beginResourceRead limits expired path metadata) :=
  (keeps_metadataBytes metadata path).bind fun _ =>
    (keeps_checkAvailable expired).bind fun _ =>
      (keeps_observe _ _).bind fun _ =>
        (keeps_reserveUnique _ _).bind fun _ => keeps_pure _

theorem keeps_finishRead (contentHash : Bytes → Nat) (expired : Bool)
    (reservation : CssReadReservation) (kind : AssetKind) (bytes : Bytes) :
    Keeps limits graphSourceBytes (finishRead limits contentHash expired reservation kind bytes) :=
  (keeps_checkAvailable expired).bind fun _ =>
    (keeps_observe _ _).bind fun _ =>
      (keeps_reconcileCssWork _ _).bind fun _ =>
        (keeps_checkFileBytes _ _).bind fun _ =>
          (keeps_reconcilePath _ _).bind fun _ =>
            Keeps.bind (fun _ => .of_eq rfl rfl rfl rfl rfl rfl) fun _ => keeps_pure _

/-! ## What a section answers -/

theorem checkAvailable_ok {expired : Bool} {state next : BudgetState} {u : Unit}
    (h : checkAvailable expired state = (.ok u, next)) :
    next = state ∧ state.moduleLimitMessage = none := by
  simp only [checkAvailable, Section.get_bind] at h
  split at h
  · cases h
  · rename_i hnone
    split at h
    · cases h
    · cases h
      exact ⟨rfl, by simpa using hnone⟩

theorem checkAvailable_breached {expired : Bool} {state : BudgetState} {message : String}
    (h : state.moduleLimitMessage = some message) :
    checkAvailable expired state = (.error (.other message), state) := by
  simp [checkAvailable, limitIoError, h]

theorem metadataBytes_ok {metadata : Metadata} {path : String} {state next : BudgetState}
    {bytes : Nat} (h : metadataBytes metadata path state = (.ok bytes, next)) :
    next = state ∧ bytes = metadata.len := by
  rw [metadataBytes] at h
  split at h
  · cases h
    exact ⟨rfl, rfl⟩
  · cases h

theorem chargeCssWork_ok {bytes : Nat} {path : String} {state next : BudgetState} {u : Unit}
    (h : chargeCssWork limits bytes path state = (.ok u, next)) :
    next = { state with
      cssWorkReads := state.cssWorkReads + 1
      cssWorkBytes := state.cssWorkBytes + bytes } := by
  simp only [chargeCssWork] at h
  split at h
  · cases h
  · cases h
    rfl

/-- The path is in the ledger, at what it was charged before or at `bytes`; the
other paths are charged as before. -/
structure Entered (path : String) (bytes : Nat) (state next : BudgetState) : Prop where
  charge : next.uniqueFiles.lookup path = some ((state.uniqueFiles.lookup path).getD bytes)
  others : ∀ other, other ≠ path → next.uniqueFiles.lookup other = state.uniqueFiles.lookup other

theorem reserveUnique_ok {path : String} {bytes : Nat} {state next : BudgetState} {u : Unit}
    (h : reserveUnique limits path bytes state = (.ok u, next)) :
    next.cssWorkBytes = state.cssWorkBytes ∧ Entered path bytes state next := by
  simp only [reserveUnique] at h
  split at h
  · cases h
  · split at h
    · rename_i hthere
      cases h
      obtain ⟨charge, hcharge⟩ := Option.isSome_iff_exists.mp hthere
      exact ⟨rfl, by simp [hcharge], fun _ _ => rfl⟩
    · rename_i hnew
      rw [Bool.not_eq_true, Option.isSome_eq_false_iff, Option.isNone_iff_eq_none] at hnew
      split at h
      · cases h
      · split at h
        · cases h
        · cases h
          exact ⟨rfl, by simp [hnew], fun _ hother => AList.lookup_insert_ne hother⟩

theorem reconcileCssWork_ok {reservation : CssReadReservation} {actualBytes : Nat}
    {state next : BudgetState} {u : Unit}
    (h : reconcileCssWork limits reservation actualBytes state = (.ok u, next)) :
    next.uniqueFiles = state.uniqueFiles ∧ next.graphFiles = state.graphFiles := by
  simp only [reconcileCssWork] at h
  split at h
  · cases h
    exact ⟨rfl, rfl⟩
  · split at h
    · cases h
    · split at h
      · cases h
      · cases h
        exact ⟨rfl, rfl⟩

theorem reconcilePath_ok {path : String} {actualBytes : Nat} {state next : BudgetState} {u : Unit}
    (h : reconcilePath limits path actualBytes state = (.ok u, next))
    (hpath : path ∉ state.graphFiles) :
    ∃ charge, next.uniqueFiles.lookup path = some charge ∧ actualBytes ≤ charge := by
  simp only [reconcilePath, hpath, if_false] at h
  split at h
  · cases h
  · rename_i chargedBytes hcharged
    split at h
    · cases h
    · cases h
      by_cases hmore : chargedBytes < actualBytes
      · exact ⟨actualBytes, by simp [hmore], Nat.le_refl _⟩
      · exact ⟨chargedBytes, by simp [hmore, hcharged], Nat.not_lt.mp hmore⟩

def CssReadReservation.work (reservation : CssReadReservation) : Nat :=
  reservation.cssWorkReservedBytes.getD 0

/-- A read that has begun is charged, at what its path was charged before or at
the length its metadata announced. -/
theorem beginCssRead_ok {expired : Bool} {path : String} {metadata : Metadata}
    {state next : BudgetState} {reservation : CssReadReservation}
    (h : beginCssRead limits expired path metadata state = (.ok reservation, next)) :
    reservation = ⟨path, metadata, some metadata.len⟩ ∧
      next.cssWorkBytes = state.cssWorkBytes + metadata.len ∧
      Entered path metadata.len state next := by
  obtain ⟨bytes, s₁, hbytes, h₁⟩ := Section.bind_ok_iff.mp h
  obtain ⟨rfl, rfl⟩ := metadataBytes_ok hbytes
  obtain ⟨_, s₂, hcheck, h₂⟩ := Section.bind_ok_iff.mp h₁
  obtain ⟨rfl, _⟩ := checkAvailable_ok hcheck
  obtain ⟨_, s₃, hobserve, h₃⟩ := Section.bind_ok_iff.mp h₂
  cases hobserve
  obtain ⟨_, s₄, hcharge, h₄⟩ := Section.bind_ok_iff.mp h₃
  obtain rfl := chargeCssWork_ok hcharge
  obtain ⟨_, s₅, hreserve, h₅⟩ := Section.bind_ok_iff.mp h₄
  obtain ⟨hwork, hentered⟩ := reserveUnique_ok hreserve
  cases h₅
  exact ⟨rfl, hwork, ⟨hentered.charge, hentered.others⟩⟩

theorem beginResourceRead_ok {expired : Bool} {path : String} {metadata : Metadata}
    {state next : BudgetState} {reservation : CssReadReservation}
    (h : beginResourceRead limits expired path metadata state = (.ok reservation, next)) :
    reservation = ⟨path, metadata, none⟩ ∧ next.cssWorkBytes = state.cssWorkBytes ∧
      Entered path metadata.len state next := by
  obtain ⟨bytes, s₁, hbytes, h₁⟩ := Section.bind_ok_iff.mp h
  obtain ⟨rfl, rfl⟩ := metadataBytes_ok hbytes
  obtain ⟨_, s₂, hcheck, h₂⟩ := Section.bind_ok_iff.mp h₁
  obtain ⟨rfl, _⟩ := checkAvailable_ok hcheck
  obtain ⟨_, s₃, hobserve, h₃⟩ := Section.bind_ok_iff.mp h₂
  cases hobserve
  obtain ⟨_, s₄, hreserve, h₄⟩ := Section.bind_ok_iff.mp h₃
  obtain ⟨hwork, hentered⟩ := reserveUnique_ok hreserve
  cases h₄
  exact ⟨rfl, hwork, ⟨hentered.charge, hentered.others⟩⟩

theorem checkFileBytes_ok {reservation : CssReadReservation} {bytes : Nat}
    {state next : BudgetState} {u : Unit}
    (h : checkFileBytes limits reservation bytes state = (.ok u, next)) : next = state := by
  rw [checkFileBytes] at h
  split at h
  · cases h
  · cases h
    rfl

/-- A read that has finished is charged at least its length. -/
theorem finishRead_ok {contentHash : Bytes → Nat} {expired : Bool}
    {reservation : CssReadReservation} {kind : AssetKind} {bytes : Bytes}
    {state next : BudgetState} {asset : CollectedAsset}
    (h : finishRead limits contentHash expired reservation kind bytes state = (.ok asset, next))
    (hpath : reservation.path ∉ state.graphFiles) :
    ∃ charge, next.uniqueFiles.lookup reservation.path = some charge ∧
      bytes.length ≤ charge := by
  obtain ⟨_, s₁, hcheck, h₁⟩ := Section.bind_ok_iff.mp h
  obtain ⟨rfl, _⟩ := checkAvailable_ok hcheck
  obtain ⟨_, s₂, hobserve, h₂⟩ := Section.bind_ok_iff.mp h₁
  cases hobserve
  obtain ⟨_, s₃, hwork, h₃⟩ := Section.bind_ok_iff.mp h₂
  obtain ⟨_, hgraph⟩ := reconcileCssWork_ok hwork
  obtain ⟨_, s₄, hfile, h₄⟩ := Section.bind_ok_iff.mp h₃
  obtain rfl := checkFileBytes_ok hfile
  obtain ⟨_, s₅, hreconcile, h₅⟩ := Section.bind_ok_iff.mp h₄
  rw [← hgraph] at hpath
  have hcharge := reconcilePath_ok hreconcile hpath
  cases h₅
  exact hcharge

/-- A read whose reservation stands never meets a failed expectation. -/
theorem finishRead_no_panic {contentHash : Bytes → Nat} {expired : Bool}
    {reservation : CssReadReservation} {kind : AssetKind} {bytes : Bytes} {state next : BudgetState}
    {expectation : String} (hwork : reservation.work ≤ state.cssWorkBytes)
    (hcharged : (state.uniqueFiles.lookup reservation.path).isSome) :
    finishRead limits contentHash expired reservation kind bytes state ≠
      (.error (.panicked expectation), next) := by
  intro h
  rcases Section.bind_error_iff.mp h with ⟨_, s₁, hcheck, h₁⟩ | h₁
  swap
  · simp only [checkAvailable, Section.get_bind, limitIoError] at h₁
    split at h₁
    · cases h₁
    · split at h₁ <;> cases h₁
  obtain ⟨rfl, _⟩ := checkAvailable_ok hcheck
  rcases Section.bind_error_iff.mp h₁ with ⟨_, s₂, hobserve, h₂⟩ | h₂
  swap
  · cases h₂
  cases hobserve
  rcases Section.bind_error_iff.mp h₂ with ⟨_, s₃, hreconcile, h₃⟩ | h₃
  swap
  · simp only [reconcileCssWork] at h₃
    split at h₃
    · cases h₃
    · rename_i reserved hreserved
      rw [CssReadReservation.work, hreserved, Option.getD_some] at hwork
      rw [if_neg (Nat.not_lt.mpr hwork)] at h₃
      split at h₃ <;> cases h₃
  have hfiles := (reconcileCssWork_ok hreconcile).1
  rcases Section.bind_error_iff.mp h₃ with ⟨_, s₄, hfile, h₄⟩ | h₄
  swap
  · rw [checkFileBytes] at h₄
    split at h₄ <;> cases h₄
  obtain rfl := checkFileBytes_ok hfile
  rcases Section.bind_error_iff.mp h₄ with ⟨_, s₅, _, h₅⟩ | h₅
  · cases h₅
  simp only [reconcilePath] at h₅
  split at h₅
  · cases h₅
  · split at h₅
    · rename_i hnone
      rw [hfiles] at hnone
      simp only [hnone] at hcharged
      cases hcharged
    · split at h₅ <;> cases h₅

/-! ## The paths of the ledger -/

/-- Every path of the ledger after a section was there before. -/
abbrev AddsNoPath {α : Type} (m : Locked α) : Prop :=
  Section.Frame (fun state next => ∀ path, (next.uniqueFiles.lookup path).isSome →
    (state.uniqueFiles.lookup path).isSome) m

theorem AddsNoPath.bind {α β : Type} {m : Locked α} {f : α → Locked β} (hm : AddsNoPath m)
    (hf : ∀ a, AddsNoPath (f a)) : AddsNoPath (m >>= f) :=
  Section.Frame.bind (fun _ _ _ hst htu path h => hst path (htu path h)) hm hf

theorem addsNoPath_of_files {α : Type} {m : Locked α}
    (h : ∀ state, (m state).2.uniqueFiles = state.uniqueFiles) : AddsNoPath m := by
  intro state path hpath
  rwa [h state] at hpath

theorem files_checkAvailable (expired : Bool) (state : BudgetState) :
    (checkAvailable expired state).2.uniqueFiles = state.uniqueFiles := by
  simp only [checkAvailable, Section.get_bind]
  split
  · rfl
  · split <;> rfl

theorem files_chargeCssWork (bytes : Nat) (path : String) (state : BudgetState) :
    (chargeCssWork limits bytes path state).2.uniqueFiles = state.uniqueFiles := by
  simp only [chargeCssWork]
  split <;> rfl

theorem files_reconcileCssWork (reservation : CssReadReservation) (actualBytes : Nat)
    (state : BudgetState) :
    (reconcileCssWork limits reservation actualBytes state).2.uniqueFiles = state.uniqueFiles := by
  simp only [reconcileCssWork]
  split
  · rfl
  · split
    · rfl
    · split <;> rfl

theorem addsNoPath_reconcilePath (path : String) (actualBytes : Nat) :
    AddsNoPath (reconcilePath limits path actualBytes) := by
  intro state other hother
  simp only [reconcilePath] at hother
  split at hother
  · exact hother
  · split at hother
    · exact hother
    · rename_i charged hcharged
      split at hother
      · exact hother
      · by_cases hsame : other = path
        · rw [hsame, hcharged]
          rfl
        · split at hother
          · rwa [AList.lookup_insert_ne hsame] at hother
          · exact hother

theorem addsNoPath_chargeCssSnapshot (expired : Bool) (asset : CollectedAsset) :
    AddsNoPath (chargeCssSnapshot limits expired asset) :=
  (addsNoPath_of_files (files_checkAvailable expired)).bind fun _ =>
    (addsNoPath_of_files fun _ => rfl).bind fun _ => addsNoPath_of_files (files_chargeCssWork _ _)

theorem addsNoPath_finishRead (contentHash : Bytes → Nat) (expired : Bool)
    (reservation : CssReadReservation) (kind : AssetKind) (bytes : Bytes) :
    AddsNoPath (finishRead limits contentHash expired reservation kind bytes) := by
  have hfile : AddsNoPath (checkFileBytes limits reservation bytes.length) := by
    rw [checkFileBytes]
    split <;> exact fun _ _ h => h
  have hobserve : ∀ fingerprint, AddsNoPath (observe reservation.path fingerprint) :=
    fun _ _ _ h => h
  have hretain : ∀ asset, AddsNoPath (retainSnapshot reservation.path asset) := fun _ _ _ h => h
  exact (addsNoPath_of_files (files_checkAvailable expired)).bind fun _ =>
    (hobserve _).bind fun _ =>
    (addsNoPath_of_files (files_reconcileCssWork _ _)).bind fun _ => hfile.bind fun _ =>
      (addsNoPath_reconcilePath _ _).bind fun _ => (hretain _).bind fun _ _ _ h => h

/-- A section that fails without a charge to a path. -/
def FailsUncharged {α : Type} (m : Locked α) : Prop :=
  ∀ state e next, m state = (.error e, next) → next.uniqueFiles = state.uniqueFiles

theorem FailsUncharged.bind {α β : Type} {m : Locked α} {f : α → Locked β}
    (hm : ∀ state, (m state).2.uniqueFiles = state.uniqueFiles) (hf : ∀ a, FailsUncharged (f a)) :
    FailsUncharged (m >>= f) := by
  intro state e next h
  rcases Section.bind_error_iff.mp h with ⟨a, between, hfirst, hsecond⟩ | hfirst
  · have hsame := hm state
    rw [hfirst] at hsame
    exact (hf a between e next hsecond).trans hsame
  · have hsame := hm state
    rwa [hfirst] at hsame

theorem failsUncharged_reserve (path : String) (bytes : Nat) (reservation : CssReadReservation) :
    FailsUncharged (reserveUnique limits path bytes >>= fun _ => pure reservation) := by
  intro state e next h
  rcases Section.bind_error_iff.mp h with ⟨_, _, _, hsecond⟩ | hfirst
  · cases hsecond
  · unfold reserveUnique at hfirst
    split at hfirst
    · cases hfirst
      rfl
    · split at hfirst
      · cases hfirst
      · split at hfirst
        · cases hfirst
          rfl
        · split at hfirst
          · cases hfirst
            rfl
          · cases hfirst

theorem files_metadataBytes (metadata : Metadata) (path : String) (state : BudgetState) :
    (metadataBytes metadata path state).2.uniqueFiles = state.uniqueFiles := by
  rw [metadataBytes]
  split <;> rfl

theorem failsUncharged_beginCssRead (expired : Bool) (path : String) (metadata : Metadata) :
    FailsUncharged (beginCssRead limits expired path metadata) :=
  .bind (files_metadataBytes metadata path) fun _ =>
    .bind (files_checkAvailable expired) fun _ => .bind (fun _ => rfl) fun _ =>
      .bind (files_chargeCssWork _ _) fun _ => failsUncharged_reserve _ _ _

theorem failsUncharged_beginResourceRead (expired : Bool) (path : String) (metadata : Metadata) :
    FailsUncharged (beginResourceRead limits expired path metadata) :=
  .bind (files_metadataBytes metadata path) fun _ =>
    .bind (files_checkAvailable expired) fun _ => .bind (fun _ => rfl) fun _ =>
      failsUncharged_reserve _ _ _

/-! ## CSS work -/

/-- The CSS work lost by a section is at most `n`. -/
abbrev Spends {α : Type} (n : Nat) (m : Locked α) : Prop :=
  Section.Frame (fun state next => state.cssWorkBytes ≤ next.cssWorkBytes + n) m

theorem Spends.bind {α β : Type} {m : Locked α} {f : α → Locked β} {a b : Nat}
    (hm : Spends a m) (hf : ∀ x, Spends b (f x)) : Spends (a + b) (m >>= f) := by
  refine Section.Frame.bind_of (fun s t u hst htu => ?_) (fun s t hst => ?_) hm hf
  · omega
  · omega

theorem spends_pure {α : Type} (a : α) : Spends 0 (pure a : Locked α) := fun _ => Nat.le_refl _

theorem spends_checkAvailable (expired : Bool) : Spends 0 (checkAvailable expired) := by
  refine Spends.bind (a := 0) (b := 0) (fun state => Nat.le_refl _) fun state => ?_
  split
  · exact fun _ => Nat.le_refl _
  · split
    · exact fun _ => Nat.le_refl _
    · exact fun _ => Nat.le_refl _

theorem spends_metadataBytes (metadata : Metadata) (path : String) :
    Spends 0 (metadataBytes metadata path) := by
  rw [metadataBytes]
  split <;> exact fun _ => Nat.le_refl _

theorem spends_observe (path : String) (fingerprint : FileFingerprint) :
    Spends 0 (observe path fingerprint) :=
  fun _ => Nat.le_refl _

theorem spends_chargeCssWork (bytes : Nat) (path : String) :
    Spends 0 (chargeCssWork limits bytes path) := by
  intro state
  simp only [chargeCssWork]
  split
  · exact Nat.le_refl _
  · exact Nat.le_add_right _ _

theorem spends_reserveUnique (path : String) (bytes : Nat) :
    Spends 0 (reserveUnique limits path bytes) := by
  intro state
  simp only [reserveUnique]
  split
  · exact Nat.le_refl _
  · split
    · exact Nat.le_refl _
    · split
      · exact Nat.le_refl _
      · split <;> exact Nat.le_refl _

theorem spends_reconcileCssWork (reservation : CssReadReservation) (actualBytes : Nat) :
    Spends reservation.work (reconcileCssWork limits reservation actualBytes) := by
  intro state
  simp only [reconcileCssWork, CssReadReservation.work]
  split
  · exact Nat.le_add_right _ _
  · rename_i reserved hreserved
    rw [hreserved, Option.getD_some]
    split
    · exact Nat.le_add_right _ _
    · split
      · exact Nat.le_add_right _ _
      · show state.cssWorkBytes ≤ state.cssWorkBytes - reserved + actualBytes + reserved
        omega

theorem spends_reconcilePath (path : String) (actualBytes : Nat) :
    Spends 0 (reconcilePath limits path actualBytes) := by
  intro state
  simp only [reconcilePath]
  split
  · exact Nat.le_refl _
  · split
    · exact Nat.le_refl _
    · split <;> exact Nat.le_refl _

theorem spends_chargeCssSnapshot (expired : Bool) (asset : CollectedAsset) :
    Spends 0 (chargeCssSnapshot limits expired asset) :=
  (spends_checkAvailable expired).bind fun _ =>
    (spends_observe _ _).bind fun _ => spends_chargeCssWork _ _

theorem spends_beginCssRead (expired : Bool) (path : String) (metadata : Metadata) :
    Spends 0 (beginCssRead limits expired path metadata) :=
  (spends_metadataBytes metadata path).bind fun _ =>
    (spends_checkAvailable expired).bind fun _ =>
      (spends_observe _ _).bind fun _ =>
        (spends_chargeCssWork _ _).bind fun _ =>
          (spends_reserveUnique _ _).bind fun _ => spends_pure _

theorem spends_beginResourceRead (expired : Bool) (path : String) (metadata : Metadata) :
    Spends 0 (beginResourceRead limits expired path metadata) :=
  (spends_metadataBytes metadata path).bind fun _ =>
    (spends_checkAvailable expired).bind fun _ =>
      (spends_observe _ _).bind fun _ =>
        (spends_reserveUnique _ _).bind fun _ => spends_pure _

theorem spends_finishRead (contentHash : Bytes → Nat) (expired : Bool)
    (reservation : CssReadReservation) (kind : AssetKind) (bytes : Bytes) :
    Spends reservation.work (finishRead limits contentHash expired reservation kind bytes) := by
  have hfile : Spends 0 (checkFileBytes limits reservation bytes.length) := by
    rw [checkFileBytes]
    split <;> exact fun _ => Nat.le_refl _
  have hwork : Spends reservation.work (reconcileCssWork limits reservation bytes.length) :=
    spends_reconcileCssWork _ _
  have hpath : Spends 0 (reconcilePath limits reservation.path bytes.length) :=
    spends_reconcilePath _ _
  have hretain : ∀ asset, Spends 0 (retainSnapshot reservation.path asset) :=
    fun _ _ => Nat.le_refl _
  have hrest : Spends (0 + (0 + (reservation.work + (0 + (0 + (0 + 0))))))
      (finishRead limits contentHash expired reservation kind bytes) :=
    (spends_checkAvailable expired).bind fun _ => (spends_observe _ _).bind fun _ =>
      hwork.bind fun _ => hfile.bind fun _ => hpath.bind fun _ => (hretain _).bind fun _ =>
        spends_pure _
  simpa only [Nat.zero_add, Nat.add_zero] using hrest

end

end ImportLens.Pipeline.AssetBudget
