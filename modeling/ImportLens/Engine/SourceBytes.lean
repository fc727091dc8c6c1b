import ImportLens.Pipeline.AssetBudget
import ImportLens.Support.Interleaving
import ImportLens.Support.Shares

/-!
# The source bytes of a build

The `load` and `module_parsed` hooks of one build run concurrently.  Every asset
a hook loads reserves the length its metadata announces before it is read, and
every parsed module reserves the length of its code, from one counter.  The bytes
of an asset stay on the counter when the hook wins its row in the asset map or in
the map of unmeasured assets; every other exit gives them back.

Each lock and each atomic update is one step.  What the file system answers
belongs to the step that follows it.
-/

namespace ImportLens.Engine.SourceBytes

open ImportLens.Daemon ImportLens.Cache ImportLens.Support ImportLens.Pipeline
open ImportLens.Pipeline.AssetBudget (CollectedAsset assetFromRead statFingerprint)

/-! ## Limits -/

def maxGraphModules : Nat := 2000

def maxModuleSourceBytes : Nat := 20 * 1024 * 1024

def defaultMaxGraphSourceBytes : Nat := 100 * 1024 * 1024

/-! ## The shared state -/

inductive AssetInputFailure
  | absent
  | unreadable
  deriving DecidableEq, Repr

def failureKindOf : ErrorKind → AssetInputFailure
  | .notFound => .absent
  | .other => .unreadable

structure BuildState where
  loadedPaths : List String := []
  readTime : Keyed String FileFingerprint := ∅
  totalSourceBytes : Nat := 0
  limitBreach : Option String := none
  assets : Keyed String CollectedAsset := ∅
  failedAssetInputs : Keyed String AssetInputFailure := ∅
  unmeasuredAssets : Keyed String UncountedAsset := ∅

/-- What an update of the counter fails with; a failed `expect` is a panic. -/
inductive Fault
  | overLimit
  | panicked
  deriving DecidableEq, Repr

def tryReserveSourceBytes (total bytes limit : Nat) : Except Fault Nat :=
  if total + bytes ≤ limit then .ok (total + bytes) else .error .overLimit

def releaseSourceBytes (total bytes : Nat) : Except Fault Nat :=
  if bytes ≤ total then .ok (total - bytes) else .error .panicked

def reconcileSourceBytes (total reserved actual limit : Nat) : Except Fault Nat :=
  if actual < reserved then releaseSourceBytes total (reserved - actual)
  else if actual = reserved then .ok total
  else tryReserveSourceBytes total (actual - reserved) limit

namespace BuildState

def recordBreach (message : String) (state : BuildState) : BuildState :=
  { state with
    limitBreach :=
      match state.limitBreach with
      | some recorded => if recorded ≤ message then some recorded else some message
      | none => some message }

def recordFingerprint (path : String) (fingerprint : FileFingerprint) (state : BuildState) :
    BuildState :=
  { state with readTime := state.readTime.orInsert path fingerprint }

/-- `Unreadable` wins over `Absent`. -/
def recordFailedAssetInput (path : String) (failure : AssetInputFailure) (state : BuildState) :
    BuildState :=
  let inputs := state.failedAssetInputs.orInsert path failure
  { state with
    failedAssetInputs := if failure = .unreadable then inputs.insert path failure else inputs }

/-- The section of `record_asset` on the asset map: the fingerprint of the read
that holds the row, and whether this read inserted it. -/
def recordAsset (asset : CollectedAsset) (state : BuildState) :
    (FileFingerprint × Bool) × BuildState :=
  match state.assets.lookup asset.path with
  | some winner => ((winner.fingerprint, false), state)
  | none =>
      ((asset.fingerprint, true),
        { state with assets := state.assets.insert asset.path asset })

def recordUnmeasuredAsset (asset : UncountedAsset) (state : BuildState) : Bool × BuildState :=
  ((state.unmeasuredAssets.lookup asset.path).isNone,
    { state with unmeasuredAssets := state.unmeasuredAssets.insert asset.path asset })

end BuildState

/-! ## The hooks -/

inductive HookError
  | io (kind : ErrorKind)
  | other (message : String)
  deriving DecidableEq, Repr

inductive HookResult
  /-- `Ok(None)`: the module is left to the bundler. -/
  | declined
  /-- An empty module stands for the asset. -/
  | stubbed
  | loaded (source : Bytes)
  | parsed
  | failed (error : HookError)
  deriving DecidableEq, Repr

/-- What a hook still does on its way out. -/
inductive Exit
  | recordFingerprint (path : String) (fingerprint : FileFingerprint)
  | recordBreach (message : String)
  | releaseSourceBytes (bytes : Nat)
  | recordFailedAssetInput (path : String) (failure : AssetInputFailure)
  deriving DecidableEq, Repr

/-- Where a hook call is; paths are canonical. -/
inductive Position
  | idle
  | reading (path : String) (assetClass : Option AssetClass) (metadata : Metadata)
  /-- A counted asset, before `record_asset`. -/
  | collecting (asset : CollectedAsset)
  /-- An unmeasured asset, before `record_read_time`. -/
  | noting (path : String) (metadata : Metadata) (bytes : Bytes)
  /-- An unmeasured asset, before `record_unmeasured_asset`. -/
  | disclosing (path : String) (metadata : Metadata) (bytes : Bytes)
  /-- A parsed module, before its path is added to the loaded ones. -/
  | parsing (path : String)
  | leaving (rest : List Exit) (result : HookResult)
  | panicked

/-- A hook call, with the canonical path of its module id. -/
inductive Call
  /-- `path` is the file the id names, and `stat` its metadata. -/
  | load (path canonical : String) (stat : Except ErrorKind Metadata)
  | moduleParsed (canonical : String) (sourceBytes : Nat)

/-- What the environment decides in one step. -/
structure Action where
  call : Call := .moduleParsed "" 0
  read : Except ErrorKind Bytes := .ok []

structure Shared where
  state : BuildState := {}
  /-- The code lengths of the modules whose reservation was admitted. -/
  parsed : List Nat := []
  /-- The bytes of the unmeasured assets whose hook did not give them back. -/
  disclosed : Nat := 0
  /-- The read behind each row of the unmeasured assets. -/
  unmeasuredReads : Keyed String (Bytes × FileFingerprint) := ∅

section

variable (contentHash : Bytes → Nat)

/-- `file_fingerprint_from_read_time`. -/
def readTimeFingerprint (path : String) (metadata : Metadata) (bytes : Bytes) :
    FileFingerprint :=
  ⟨path, metadata.len, metadata.modifiedMillis, some (contentHash bytes)⟩

end

def moduleLimitMessage (path : String) : String :=
  "module " ++ path ++ " exceeds the " ++ toString maxModuleSourceBytes ++
    " byte module source limit"

def graphModulesMessage : String :=
  "module graph exceeds the " ++ toString maxGraphModules ++ " internal module limit"

section

variable (maxGraphSourceBytes : Nat)

def graphLimitMessage : String :=
  "module graph exceeds the " ++ toString maxGraphSourceBytes ++ " byte total source limit"

def breached (before : List Exit) (message : String) (after : List Exit) : Position :=
  .leaving (before ++ .recordBreach message :: after) (.failed (.other message))

def Shared.setTotal (s : Shared) (total : Nat) : Shared :=
  { s with state := { s.state with totalSourceBytes := total } }

/-- `load` up to its reservation. -/
def beginLoad (path canonical : String) (stat : Except ErrorKind Metadata) (s : Shared) :
    Shared × Position :=
  let assetClass := classifyAssetClass path
  match stat with
  | .error kind =>
      if assetClass.isSome then
        (s, .leaving [.recordFailedAssetInput canonical (failureKindOf kind)] (.failed (.io kind)))
      else (s, .leaving [] .declined)
  | .ok metadata =>
      let recordStat := Exit.recordFingerprint canonical (statFingerprint canonical metadata)
      if maxModuleSourceBytes < metadata.len then
        (s, breached [recordStat] (moduleLimitMessage canonical) [])
      else if assetClass.isSome then
        match tryReserveSourceBytes s.state.totalSourceBytes metadata.len maxGraphSourceBytes with
        | .ok total => (s.setTotal total, .reading canonical assetClass metadata)
        | .error _ => (s, breached [] (graphLimitMessage maxGraphSourceBytes) [recordStat])
      else (s, .reading canonical none metadata)

def reconciled (fingerprint : FileFingerprint) (reserved : Nat) (s : Shared)
    (next : Position) : Except Fault Nat → Shared × Position
  | .ok total => (s.setTotal total, next)
  | .error .overLimit =>
      (s, breached [] (graphLimitMessage maxGraphSourceBytes)
        [.recordFingerprint fingerprint.path fingerprint, .releaseSourceBytes reserved])
  | .error .panicked => (s, .panicked)

variable (contentHash : Bytes → Nat)

def finishAssetRead (path : String) (assetClass : AssetClass) (metadata : Metadata)
    (bytes : Bytes) (s : Shared) : Shared × Position :=
  let fingerprint := readTimeFingerprint contentHash path metadata bytes
  if maxModuleSourceBytes < bytes.length then
    (s, breached
      [.recordFingerprint path fingerprint, .releaseSourceBytes metadata.len]
      (moduleLimitMessage path) [])
  else
    reconciled maxGraphSourceBytes fingerprint metadata.len s
      (match assetClass with
      | .counted kind => .collecting (assetFromRead contentHash path kind metadata bytes)
      | .unmeasured => .noting path metadata bytes)
      (reconcileSourceBytes s.state.totalSourceBytes metadata.len bytes.length
        maxGraphSourceBytes)

/-- `load` after its read. -/
def finishRead (path : String) (assetClass : Option AssetClass) (metadata : Metadata)
    (read : Except ErrorKind Bytes) (s : Shared) : Shared × Position :=
  match assetClass, read with
  | none, .error _ => (s, .leaving [] .declined)
  | none, .ok bytes =>
      let source := (String.fromUTF8? (ByteArray.mk bytes.toArray)).map fun _ => bytes
      (s, .leaving [.recordFingerprint path (readTimeFingerprint contentHash path metadata bytes)]
        ((source.map HookResult.loaded).getD .declined))
  | some _, .error kind =>
      (s, .leaving [.releaseSourceBytes metadata.len,
        .recordFailedAssetInput path (failureKindOf kind)] (.failed (.io kind)))
  | some assetClass, .ok bytes =>
      finishAssetRead maxGraphSourceBytes contentHash path assetClass metadata bytes s

/-- `record_asset` up to its fingerprint. -/
def collect (asset : CollectedAsset) (s : Shared) : Shared × Position :=
  let ((fingerprint, inserted), state) := s.state.recordAsset asset
  let recordWinner := Exit.recordFingerprint asset.path fingerprint
  ({ s with state := state },
    .leaving
      (if inserted then [recordWinner]
      else [recordWinner, .releaseSourceBytes asset.bytes.length])
      .stubbed)

def disclose (path : String) (metadata : Metadata) (bytes : Bytes) (s : Shared) :
    Shared × Position :=
  let (inserted, state) := s.state.recordUnmeasuredAsset ⟨path, bytes.length⟩
  ({ s with
      state := state
      disclosed := if inserted then s.disclosed + bytes.length else s.disclosed
      unmeasuredReads := s.unmeasuredReads.insert path
        (bytes, readTimeFingerprint contentHash path metadata bytes) },
    .leaving (if inserted then [] else [.releaseSourceBytes bytes.length]) .stubbed)

/-- `module_parsed` up to its reservation. -/
def beginParsed (path : String) (sourceBytes : Nat) (s : Shared) : Shared × Position :=
  if maxModuleSourceBytes < sourceBytes then
    (s, breached [] (moduleLimitMessage path) [])
  else
    match tryReserveSourceBytes s.state.totalSourceBytes sourceBytes maxGraphSourceBytes with
    | .ok total => ({ s.setTotal total with parsed := sourceBytes :: s.parsed }, .parsing path)
    | .error _ => (s, breached [] (graphLimitMessage maxGraphSourceBytes) [])

def recordLoadedPath (path : String) (s : Shared) : Shared × Position :=
  let paths := s.state.loadedPaths.insert path
  ({ s with state := { s.state with loadedPaths := paths } },
    if maxGraphModules < paths.length then breached [] graphModulesMessage []
    else .leaving [] .parsed)

def leave (exit : Exit) (rest : List Exit) (result : HookResult) (s : Shared) :
    Shared × Position :=
  match exit with
  | .recordFingerprint path fingerprint =>
      ({ s with state := s.state.recordFingerprint path fingerprint }, .leaving rest result)
  | .recordBreach message =>
      ({ s with state := s.state.recordBreach message }, .leaving rest result)
  | .releaseSourceBytes bytes =>
      match releaseSourceBytes s.state.totalSourceBytes bytes with
      | .ok total => (s.setTotal total, .leaving rest result)
      | .error _ => (s, .panicked)
  | .recordFailedAssetInput path failure =>
      ({ s with state := s.state.recordFailedAssetInput path failure }, .leaving rest result)

def program : Program Shared Position Action := fun _ a s position =>
  match position with
  | .idle =>
      match a.call with
      | .load path canonical stat => some (beginLoad maxGraphSourceBytes path canonical stat s)
      | .moduleParsed canonical sourceBytes =>
          some (beginParsed maxGraphSourceBytes canonical sourceBytes s)
  | .reading path assetClass metadata =>
      some (finishRead maxGraphSourceBytes contentHash path assetClass metadata a.read s)
  | .collecting asset => some (collect asset s)
  | .noting path metadata bytes =>
      some
        ({ s with
          state := s.state.recordFingerprint path
            (readTimeFingerprint contentHash path metadata bytes) },
          .disclosing path metadata bytes)
  | .disclosing path metadata bytes => some (disclose contentHash path metadata bytes s)
  | .parsing path => some (recordLoadedPath path s)
  | .leaving [] _ => none
  | .leaving (exit :: rest) result => some (leave exit rest result s)
  | .panicked => none

end

def started : Config Shared Position where
  shared := {}
  thread _ := .idle

/-! ## Reservations -/

def Exit.held : Exit → Nat
  | .releaseSourceBytes bytes => bytes
  | _ => 0

def Position.exits : Position → List Exit
  | .leaving rest _ => rest
  | _ => []

def Position.held : Position → Nat
  | .reading _ assetClass metadata => if assetClass.isSome then metadata.len else 0
  | .collecting asset => asset.bytes.length
  | .noting _ _ bytes => bytes.length
  | .disclosing _ _ bytes => bytes.length
  | .leaving rest _ => (rest.map Exit.held).sum
  | _ => 0

def Shared.settled (s : Shared) : Nat :=
  s.parsed.sum + Keyed.total (fun asset => asset.bytes.length) s.state.assets + s.disclosed

/-! ## Fingerprints -/

def Shared.maps (s : Shared) : Keyed String FileFingerprint × Keyed String CollectedAsset ×
    Keyed String UncountedAsset × Keyed String (Bytes × FileFingerprint) × Nat :=
  (s.state.readTime, s.state.assets, s.state.unmeasuredAssets, s.unmeasuredReads, s.disclosed)

def Exit.isBreach : Exit → Bool
  | .recordBreach _ => true
  | _ => false

def Position.breaching (position : Position) : Bool := position.exits.any Exit.isBreach

def agrees (s : Shared) (path : String) (fingerprint : FileFingerprint) : Bool :=
  (s.state.readTime.lookup path).isSome ||
    (s.state.assets.lookup path).all fun asset => asset.fingerprint == fingerprint

section

variable (contentHash : Bytes → Nat)

def consistent (s : Shared) : Position → Bool
  | .collecting asset =>
      (s.state.assets.lookup asset.path).isSome ||
        (s.state.readTime.lookup asset.path).all fun recorded => recorded == asset.fingerprint
  | .noting path metadata bytes =>
      agrees s path (readTimeFingerprint contentHash path metadata bytes)
  | .disclosing path metadata bytes =>
      ((s.state.unmeasuredAssets.lookup path).all fun row => row.bytes == bytes.length) &&
        s.state.readTime.lookup path == some (readTimeFingerprint contentHash path metadata bytes)
  | .leaving (.recordFingerprint path fingerprint :: _) _ => agrees s path fingerprint
  | _ => true

def guarded (c : Config Shared Position) (t : Nat) : Bool :=
  c.shared.state.limitBreach.isSome || (c.thread t).breaching ||
    consistent contentHash c.shared (c.thread t)

/-- What a finished build owes its caller. -/
structure Settled (s : Shared) : Prop where
  total : s.state.totalSourceBytes = s.parsed.sum +
    Keyed.total (fun asset => asset.bytes.length) s.state.assets +
    Keyed.total UncountedAsset.bytes s.state.unmeasuredAssets
  assets : ∀ path asset, s.state.assets.lookup path = some asset →
    s.state.readTime.lookup path = some asset.fingerprint ∧
    ∃ metadata, asset = assetFromRead contentHash path asset.kind metadata asset.bytes
  unmeasured : ∀ path row, s.state.unmeasuredAssets.lookup path = some row →
    ∃ bytes fingerprint, s.unmeasuredReads.lookup path = some (bytes, fingerprint) ∧
      row.bytes = bytes.length ∧ s.state.readTime.lookup path = some fingerprint

end

def Position.finished : Position → Bool
  | .idle => true
  | .leaving [] _ => true
  | _ => false

/-! ## What one step does -/

section

variable (contentHash : Bytes → Nat)

def FromRead (asset : CollectedAsset) : Prop :=
  ∃ metadata, asset = assetFromRead contentHash asset.path asset.kind metadata asset.bytes

/-- What a step does to the maps. -/
inductive Effect (s : Shared) (p : Position) (next : Shared × Position) : Prop
  | frame (hmaps : next.1.maps = s.maps)
      (hexits : ∀ path fingerprint, Exit.recordFingerprint path fingerprint ∈ p.exits →
        Exit.recordFingerprint path fingerprint ∈ next.2.exits)
  | record (path : String) (fingerprint : FileFingerprint)
      (hmaps : next.1.maps =
        (s.state.readTime.orInsert path fingerprint, s.maps.2))
      (hagrees : consistent contentHash s p = true → agrees s path fingerprint = true)
      (hexits : ∀ path' fingerprint', Exit.recordFingerprint path' fingerprint' ∈ p.exits →
        path' = path ∧ fingerprint' = fingerprint ∨
          Exit.recordFingerprint path' fingerprint' ∈ next.2.exits)
  | collect (asset : CollectedAsset) (hposition : p = .collecting asset)
      (hvacant : s.state.assets.lookup asset.path = none)
      (hmaps : next.1.maps =
        (s.state.readTime, s.state.assets.insert asset.path asset, s.maps.2.2))
      (hexits : Exit.recordFingerprint asset.path asset.fingerprint ∈ next.2.exits)
  | disclose (path : String) (metadata : Metadata) (bytes : Bytes)
      (hposition : p = .disclosing path metadata bytes)
      (hmaps : next.1.maps =
        (s.state.readTime, s.state.assets,
          s.state.unmeasuredAssets.insert path ⟨path, bytes.length⟩,
          s.unmeasuredReads.insert path
            (bytes, readTimeFingerprint contentHash path metadata bytes),
          if (s.state.unmeasuredAssets.lookup path).isNone then s.disclosed + bytes.length
          else s.disclosed))

structure Step (maxGraphSourceBytes : Nat) (s : Shared) (p : Position)
    (next : Shared × Position) : Prop where
  balance : next.1.state.totalSourceBytes + p.held + s.settled =
    s.state.totalSourceBytes + next.2.held + next.1.settled
  limit : s.state.totalSourceBytes ≤ maxGraphSourceBytes →
    next.1.state.totalSourceBytes ≤ maxGraphSourceBytes
  calm : next.2 ≠ .panicked
  breach : s.state.limitBreach.isSome → next.1.state.limitBreach.isSome
  breaching : p.breaching = true → next.1.state.limitBreach.isSome ∨ next.2.breaching = true
  fromRead : ∀ asset, next.2 = .collecting asset → FromRead contentHash asset
  effect : Effect contentHash s p next

end

variable {contentHash : Bytes → Nat} {maxGraphSourceBytes : Nat}
variable {s : Shared} {p next : Position}

theorem frame_of_maps {s' : Shared} (hmaps : s'.maps = s.maps) (hexits : p.exits = []) :
    Effect contentHash s p (s', next) :=
  .frame hmaps fun path fingerprint h => by simp [hexits] at h

theorem breaching_of_exits (h : p.exits = []) : p.breaching = false := by
  simp [Position.breaching, h]

theorem step_leaving {rest : List Exit} {result : HookResult} (hexits : p.exits = [])
    (hheld : (rest.map Exit.held).sum = p.held) :
    Step contentHash maxGraphSourceBytes s p (s, .leaving rest result) where
  balance := by
    show s.state.totalSourceBytes + p.held + s.settled =
      s.state.totalSourceBytes + (rest.map Exit.held).sum + s.settled
    rw [hheld]
  limit := id
  calm := by simp
  breach := id
  breaching := by simp [breaching_of_exits hexits]
  fromRead := by simp
  effect := frame_of_maps rfl hexits

/-- The counter moves with what the hook holds. -/
theorem step_setTotal {total : Nat} (hexits : p.exits = []) (hcalm : next ≠ .panicked)
    (hread : ∀ asset, next = .collecting asset → FromRead contentHash asset)
    (hheld : total + p.held = s.state.totalSourceBytes + next.held)
    (hlimit : total ≤ maxGraphSourceBytes ∨ total ≤ s.state.totalSourceBytes) :
    Step contentHash maxGraphSourceBytes s p (s.setTotal total, next) where
  balance := by
    show total + p.held + s.settled = _ + next.held + s.settled
    omega
  limit := by
    intro hle
    show total ≤ maxGraphSourceBytes
    omega
  calm := hcalm
  breach := id
  breaching := by simp [breaching_of_exits hexits]
  fromRead := hread
  effect := frame_of_maps rfl hexits

theorem tryReserve_ok {total bytes limit next : Nat}
    (h : tryReserveSourceBytes total bytes limit = .ok next) :
    next = total + bytes ∧ next ≤ limit := by
  unfold tryReserveSourceBytes at h
  split at h
  · cases h
    exact ⟨rfl, by assumption⟩
  · cases h

theorem step_beginLoad (path canonical : String) (stat : Except ErrorKind Metadata) (s : Shared) :
    Step contentHash maxGraphSourceBytes s .idle
      (beginLoad maxGraphSourceBytes path canonical stat s) := by
  unfold beginLoad
  cases stat with
  | error kind =>
      dsimp only
      split <;> exact step_leaving rfl rfl
  | ok metadata =>
      dsimp only
      split
      · exact step_leaving rfl rfl
      · split
        · rename_i hclass
          split
          · rename_i total htotal
            obtain ⟨hsum, hle⟩ := tryReserve_ok htotal
            refine step_setTotal rfl (by simp) (by simp) ?_ (.inl hle)
            simp [Position.held, hclass, hsum]
          · exact step_leaving rfl rfl
        · exact {
            balance := by simp [Position.held]
            limit := id
            calm := by simp
            breach := id
            breaching := by simp [Position.breaching, Position.exits]
            fromRead := by simp
            effect := frame_of_maps rfl rfl }

theorem step_beginParsed (path : String) (sourceBytes : Nat) (s : Shared) :
    Step contentHash maxGraphSourceBytes s .idle
      (beginParsed maxGraphSourceBytes path sourceBytes s) := by
  unfold beginParsed
  split
  · exact step_leaving rfl rfl
  · split
    · rename_i total htotal
      obtain ⟨hsum, hle⟩ := tryReserve_ok htotal
      exact {
        balance := by
          simp only [Shared.settled, Shared.setTotal, Position.held, List.sum_cons]
          omega
        limit := fun _ => hle
        calm := by simp
        breach := id
        breaching := by simp [Position.breaching, Position.exits]
        fromRead := by simp
        effect := frame_of_maps rfl rfl }
    · exact step_leaving rfl rfl

/-- A reconciliation of bytes that are on the counter does not panic. -/
theorem reconcileSourceBytes_cases {total reserved : Nat} (h : reserved ≤ total)
    (actual limit : Nat) :
    (∃ next, reconcileSourceBytes total reserved actual limit = .ok next ∧
      next + reserved = total + actual ∧ (next ≤ limit ∨ next ≤ total)) ∨
    reconcileSourceBytes total reserved actual limit = .error .overLimit := by
  unfold reconcileSourceBytes releaseSourceBytes tryReserveSourceBytes
  split
  · rw [if_pos (by omega)]
    exact .inl ⟨_, rfl, by omega, .inr (by omega)⟩
  · split
    · exact .inl ⟨_, rfl, by omega, .inr (le_refl _)⟩
    · split
      · exact .inl ⟨_, rfl, by omega, .inl (by assumption)⟩
      · exact .inr rfl

theorem step_finishAssetRead {path : String} {assetClass : AssetClass} {metadata : Metadata}
    {bytes : Bytes} (hheld : metadata.len ≤ s.state.totalSourceBytes) :
    Step contentHash maxGraphSourceBytes s (.reading path (some assetClass) metadata)
      (finishAssetRead maxGraphSourceBytes contentHash path assetClass metadata bytes s) := by
  unfold finishAssetRead
  dsimp only
  split
  · exact step_leaving rfl (by simp [Exit.held, Position.held])
  · obtain ⟨total, htotal, hsum, hlimit⟩ | hover :=
      reconcileSourceBytes_cases hheld bytes.length maxGraphSourceBytes
    · rw [htotal]
      cases assetClass with
      | counted kind =>
          refine step_setTotal rfl (by simp) ?_ ?_ hlimit
          · intro asset hasset
            cases hasset
            exact ⟨metadata, rfl⟩
          · simpa [Position.held, assetFromRead] using hsum
      | unmeasured =>
          refine step_setTotal rfl (by simp) (by simp) ?_ hlimit
          simpa [Position.held] using hsum
    · rw [hover]
      exact step_leaving rfl (by simp [Exit.held, Position.held])

theorem step_finishRead {path : String} {assetClass : Option AssetClass} {metadata : Metadata}
    {read : Except ErrorKind Bytes}
    (hheld : (Position.reading path assetClass metadata).held ≤ s.state.totalSourceBytes) :
    Step contentHash maxGraphSourceBytes s (.reading path assetClass metadata)
      (finishRead maxGraphSourceBytes contentHash path assetClass metadata read s) := by
  cases assetClass with
  | none => cases read <;> exact step_leaving rfl rfl
  | some assetClass =>
      cases read with
      | error kind => exact step_leaving rfl (by simp [Exit.held, Position.held])
      | ok bytes => exact step_finishAssetRead (by simpa [Position.held] using hheld)

theorem step_collect (asset : CollectedAsset) (s : Shared) :
    Step contentHash maxGraphSourceBytes s (.collecting asset) (collect asset s) := by
  unfold collect BuildState.recordAsset
  cases hlookup : s.state.assets.lookup asset.path with
  | some winner => exact step_leaving rfl (by simp [Exit.held, Position.held])
  | none =>
      have hinsert := Keyed.total_insert (fun asset => asset.bytes.length) s.state.assets
        asset.path asset
      rw [hlookup, Option.map_none, Option.getD_none, Nat.add_zero] at hinsert
      exact {
        balance := by
          simp only [Position.held, Shared.settled, hinsert, Exit.held, if_true, List.map_cons,
            List.map_nil, List.sum_cons, List.sum_nil]
          omega
        limit := id
        calm := by simp
        breach := id
        breaching := by simp [Position.breaching, Position.exits]
        fromRead := by simp
        effect := .collect asset rfl hlookup rfl (by simp [Position.exits]) }

theorem step_disclose (path : String) (metadata : Metadata) (bytes : Bytes) (s : Shared) :
    Step contentHash maxGraphSourceBytes s (.disclosing path metadata bytes)
      (disclose contentHash path metadata bytes s) where
  balance := by
    unfold disclose BuildState.recordUnmeasuredAsset
    cases s.state.unmeasuredAssets.lookup path with
    | none => simp [Position.held, Shared.settled]; omega
    | some row => simp [Position.held, Shared.settled, Exit.held]
  limit := id
  calm := by simp [disclose]
  breach := id
  breaching := by simp [Position.breaching, Position.exits]
  fromRead := by simp [disclose]
  effect := .disclose path metadata bytes rfl rfl

theorem step_noting (path : String) (metadata : Metadata) (bytes : Bytes) (s : Shared) :
    Step contentHash maxGraphSourceBytes s (.noting path metadata bytes)
      ({ s with
        state := s.state.recordFingerprint path
          (readTimeFingerprint contentHash path metadata bytes) },
        .disclosing path metadata bytes) where
  balance := rfl
  limit := id
  calm := by simp
  breach := id
  breaching := by simp [Position.breaching, Position.exits]
  fromRead := by simp
  effect := .record path _ rfl (fun h => h) (by simp [Position.exits])

theorem step_recordLoadedPath (path : String) (s : Shared) :
    Step contentHash maxGraphSourceBytes s (.parsing path) (recordLoadedPath path s) := by
  unfold recordLoadedPath
  dsimp only
  split <;> exact {
    balance := rfl
    limit := id
    calm := by simp [breached]
    breach := id
    breaching := by simp [Position.breaching, Position.exits]
    fromRead := by simp [breached]
    effect := frame_of_maps rfl rfl }

theorem recordBreach_isSome (message : String) (state : BuildState) :
    (state.recordBreach message).limitBreach.isSome := by
  unfold BuildState.recordBreach
  dsimp only
  split
  · split <;> rfl
  · rfl

theorem breaching_cons {exit : Exit} {rest : List Exit} {result : HookResult}
    (h : exit.isBreach = false) :
    (Position.leaving (exit :: rest) result).breaching =
      (Position.leaving rest result).breaching := by
  simp [Position.breaching, Position.exits, h]

theorem step_leave {exit : Exit} {rest : List Exit} {result : HookResult}
    (hheld : (Position.leaving (exit :: rest) result).held ≤ s.state.totalSourceBytes) :
    Step contentHash maxGraphSourceBytes s (.leaving (exit :: rest) result)
      (leave exit rest result s) := by
  cases exit with
  | recordFingerprint path fingerprint =>
      exact {
        balance := by simp [leave, Position.held, Exit.held, Shared.settled,
          BuildState.recordFingerprint]
        limit := id
        calm := by simp [leave]
        breach := id
        breaching := fun h => .inr ((breaching_cons rfl).symm.trans h)
        fromRead := by simp [leave]
        effect := .record path fingerprint rfl (fun h => h) (by
          intro path' fingerprint' hmem
          simpa [Position.exits, leave] using hmem) }
  | recordBreach message =>
      exact {
        balance := by simp [leave, Position.held, Exit.held, Shared.settled,
          BuildState.recordBreach]
        limit := id
        calm := by simp [leave]
        breach := fun _ => recordBreach_isSome message s.state
        breaching := fun _ => .inl (recordBreach_isSome message s.state)
        fromRead := by simp [leave]
        effect := .frame rfl (by simp [Position.exits, leave]) }
  | recordFailedAssetInput path failure =>
      exact {
        balance := by simp [leave, Position.held, Exit.held, Shared.settled,
          BuildState.recordFailedAssetInput]
        limit := id
        calm := by simp [leave]
        breach := id
        breaching := fun h => .inr ((breaching_cons rfl).symm.trans h)
        fromRead := by simp [leave]
        effect := .frame rfl (by simp [Position.exits, leave]) }
  | releaseSourceBytes bytes =>
      have hbytes : bytes + (rest.map Exit.held).sum ≤ s.state.totalSourceBytes := by
        simpa [Position.held, Exit.held] using hheld
      have hleave : leave (.releaseSourceBytes bytes) rest result s =
          (s.setTotal (s.state.totalSourceBytes - bytes), .leaving rest result) := by
        have hle : bytes ≤ s.state.totalSourceBytes := by omega
        simp [leave, releaseSourceBytes, hle]
      rw [hleave]
      exact {
        balance := by
          show s.state.totalSourceBytes - bytes + (bytes + (rest.map Exit.held).sum) + s.settled =
            s.state.totalSourceBytes + (rest.map Exit.held).sum + s.settled
          omega
        limit := fun hle => (Nat.sub_le _ _).trans hle
        calm := by simp
        breach := id
        breaching := fun h => .inr ((breaching_cons rfl).symm.trans h)
        fromRead := by simp
        effect := .frame rfl (by simp [Position.exits]) }

theorem step_of_program {t : Nat} {a : Action} {next : Shared × Position}
    (hheld : p.held ≤ s.state.totalSourceBytes)
    (h : program maxGraphSourceBytes contentHash t a s p = some next) :
    Step contentHash maxGraphSourceBytes s p next := by
  cases p with
  | idle =>
      simp only [program] at h
      split at h
      · cases h
        exact step_beginLoad _ _ _ s
      · cases h
        exact step_beginParsed _ _ s
  | reading path assetClass metadata =>
      cases h
      exact step_finishRead hheld
  | collecting asset =>
      cases h
      exact step_collect asset s
  | noting path metadata bytes =>
      cases h
      exact step_noting path metadata bytes s
  | disclosing path metadata bytes =>
      cases h
      exact step_disclose path metadata bytes s
  | parsing path =>
      cases h
      exact step_recordLoadedPath path s
  | leaving rest result =>
      cases rest with
      | nil => cases h
      | cons exit rest =>
          cases h
          exact step_leave hheld
  | panicked => cases h

/-! ## Every run -/

/-- The counter is what the hooks hold and what they settled, within the limit. -/
structure Sound (contentHash : Bytes → Nat) (maxGraphSourceBytes : Nat) (s : Shared)
    (thread : Nat → Position) : Prop where
  balance : ∃ held, Sums Position.held thread held ∧
    s.state.totalSourceBytes = held + s.settled
  limit : s.state.totalSourceBytes ≤ maxGraphSourceBytes
  calm : ∀ t, thread t ≠ .panicked
  fromRead : ∀ t asset, thread t = .collecting asset → FromRead contentHash asset
  assets : ∀ path asset, s.state.assets.lookup path = some asset →
    asset.path = path ∧ FromRead contentHash asset

namespace Sound

variable {thread : Nat → Position} {t : Nat} {after : Shared × Position}

theorem held_le (h : Sound contentHash maxGraphSourceBytes s thread) (t : Nat) :
    (thread t).held ≤ s.state.totalSourceBytes := by
  obtain ⟨held, hsums, htotal⟩ := h.balance
  have := hsums.share_le t
  omega

theorem step (h : Sound contentHash maxGraphSourceBytes s thread)
    (hstep : Step contentHash maxGraphSourceBytes s (thread t) after) :
    Sound contentHash maxGraphSourceBytes after.1 (Function.update thread t after.2) where
  balance := by
    obtain ⟨held, hsums, htotal⟩ := h.balance
    obtain ⟨more, hmore, hsums'⟩ := hsums.update t after.2
    have hbalance := hstep.balance
    exact ⟨more, hsums', by omega⟩
  limit := hstep.limit h.limit
  calm := by
    intro u
    rw [Function.update_apply]
    split
    · exact hstep.calm
    · exact h.calm u
  fromRead := by
    intro u asset hu
    rw [Function.update_apply] at hu
    split at hu
    · exact hstep.fromRead asset hu
    · exact h.fromRead u asset hu
  assets := by
    have hkept (heq : after.1.maps.2.1 = s.state.assets) : ∀ path asset,
        after.1.state.assets.lookup path = some asset →
        asset.path = path ∧ FromRead contentHash asset := by
      intro path asset hasset
      rw [show after.1.state.assets = s.state.assets from heq] at hasset
      exact h.assets path asset hasset
    cases hstep.effect with
    | frame hmaps _ => exact hkept (by rw [hmaps]; rfl)
    | record _ _ hmaps _ _ => exact hkept (by rw [hmaps]; rfl)
    | disclose _ _ _ _ hmaps => exact hkept (by rw [hmaps])
    | collect won hposition _ hmaps _ =>
        intro path asset hasset
        rw [show after.1.state.assets = s.state.assets.insert won.path won from
          congrArg (fun maps => maps.2.1) hmaps, Keyed.lookup_insert_eq] at hasset
        split at hasset
        · rename_i hpath
          cases hasset
          exact ⟨hpath.symm, h.fromRead t won hposition⟩
        · exact h.assets path asset hasset

theorem init (contentHash : Bytes → Nat) (maxGraphSourceBytes : Nat) :
    Sound contentHash maxGraphSourceBytes started.shared started.thread where
  balance := ⟨0, Sums.none_hold fun _ => rfl, rfl⟩
  limit := Nat.zero_le _
  calm := by simp [started]
  fromRead := by simp [started]
  assets := by simp [started]

end Sound

/-- Every row is paired with the fingerprint of its read, or a hook is about to
record it. -/
structure Matched (s : Shared) (thread : Nat → Position) : Prop where
  assets : ∀ path asset, s.state.assets.lookup path = some asset →
    s.state.readTime.lookup path = some asset.fingerprint ∨
    s.state.readTime.lookup path = none ∧
      ∃ t, Exit.recordFingerprint path asset.fingerprint ∈ (thread t).exits
  unmeasured : ∀ path row, s.state.unmeasuredAssets.lookup path = some row →
    ∃ bytes fingerprint, s.unmeasuredReads.lookup path = some (bytes, fingerprint) ∧
      row.bytes = bytes.length ∧ s.state.readTime.lookup path = some fingerprint
  disclosed : s.disclosed = Keyed.total UncountedAsset.bytes s.state.unmeasuredAssets

namespace Matched

variable {thread : Nat → Position} {t : Nat} {after : Shared × Position}

theorem pending_update {exit : Exit} (h : ∃ u, exit ∈ (thread u).exits)
    (hkeep : exit ∈ (thread t).exits → exit ∈ next.exits) :
    ∃ u, exit ∈ (Function.update thread t next u).exits := by
  obtain ⟨u, hu⟩ := h
  by_cases hut : u = t
  · refine ⟨t, ?_⟩
    rw [Function.update_self]
    exact hkeep (hut ▸ hu)
  · refine ⟨u, ?_⟩
    rw [Function.update_of_ne hut]
    exact hu

theorem lookup_readTime_of_some {readTime : Keyed String FileFingerprint} {path path' : String}
    {recorded fingerprint : FileFingerprint} (h : readTime.lookup path' = some recorded) :
    (readTime.orInsert path fingerprint).lookup path' = some recorded := by
  rw [Keyed.lookup_orInsert]
  split
  · rename_i heq
    rw [← heq, h]
    rfl
  · exact h

theorem frame (h : Matched s thread) (hmaps : after.1.maps = s.maps)
    (hexits : ∀ path fingerprint, Exit.recordFingerprint path fingerprint ∈ (thread t).exits →
      Exit.recordFingerprint path fingerprint ∈ after.2.exits) :
    Matched after.1 (Function.update thread t after.2) := by
  obtain ⟨after, position⟩ := after
  simp only [Shared.maps, Prod.mk.injEq] at hmaps
  obtain ⟨hread, hassets, hrows, hreads, hdisclosed⟩ := hmaps
  refine ⟨?_, ?_, ?_⟩
  · intro path asset hasset
    rw [hassets] at hasset
    rw [hread]
    apply (h.assets path asset hasset).imp_right
    exact fun ⟨hnone, hpending⟩ => ⟨hnone, pending_update hpending (hexits _ _)⟩
  · rw [hread, hrows, hreads]
    exact h.unmeasured
  · rw [hdisclosed, hrows]
    exact h.disclosed

theorem record (h : Matched s thread) {path : String} {fingerprint : FileFingerprint}
    (hmaps : after.1.maps = (s.state.readTime.orInsert path fingerprint, s.maps.2))
    (hagrees : agrees s path fingerprint = true)
    (hexits : ∀ path' fingerprint', Exit.recordFingerprint path' fingerprint' ∈ (thread t).exits →
      path' = path ∧ fingerprint' = fingerprint ∨
        Exit.recordFingerprint path' fingerprint' ∈ after.2.exits) :
    Matched after.1 (Function.update thread t after.2) := by
  obtain ⟨after, position⟩ := after
  simp only [Shared.maps, Prod.mk.injEq] at hmaps
  obtain ⟨hread, hassets, hrows, hreads, hdisclosed⟩ := hmaps
  refine ⟨?_, ?_, ?_⟩
  · intro path' asset hasset
    rw [hassets] at hasset
    rw [hread]
    obtain hrecorded | ⟨hnone, hpending⟩ := h.assets path' asset hasset
    · exact .inl (lookup_readTime_of_some hrecorded)
    · by_cases hpath : path' = path
      · -- the slot was empty, so the fingerprint is the one of the asset
        subst hpath
        have hsame : asset.fingerprint = fingerprint := by
          simpa [agrees, hnone, hasset] using hagrees
        left
        rw [Keyed.lookup_orInsert, if_pos rfl, hnone, hsame]
        rfl
      · right
        rw [Keyed.lookup_orInsert, if_neg hpath]
        refine ⟨hnone, pending_update hpending fun hmem => ?_⟩
        exact (hexits _ _ hmem).resolve_left fun heq => hpath heq.1
  · intro path' row hrow
    rw [hrows] at hrow
    obtain ⟨bytes, recorded, hreads', hbytes, hrecorded⟩ := h.unmeasured path' row hrow
    rw [hreads, hread]
    exact ⟨bytes, recorded, hreads', hbytes, lookup_readTime_of_some hrecorded⟩
  · rw [hdisclosed, hrows]
    exact h.disclosed

theorem collect (h : Matched s thread) {won : CollectedAsset}
    (hconsistent : consistent contentHash s (thread t) = true)
    (hposition : thread t = .collecting won)
    (hvacant : s.state.assets.lookup won.path = none)
    (hmaps : after.1.maps =
      (s.state.readTime, s.state.assets.insert won.path won, s.maps.2.2))
    (hexits : Exit.recordFingerprint won.path won.fingerprint ∈ after.2.exits) :
    Matched after.1 (Function.update thread t after.2) := by
  obtain ⟨after, position⟩ := after
  simp only [Shared.maps, Prod.mk.injEq] at hmaps
  obtain ⟨hread, hassets, hrows, hreads, hdisclosed⟩ := hmaps
  refine ⟨?_, ?_, ?_⟩
  · intro path asset hasset
    rw [hassets, Keyed.lookup_insert_eq] at hasset
    rw [hread]
    split at hasset
    · rename_i hpath
      cases hasset
      subst hpath
      rw [hposition] at hconsistent
      simp only [consistent, hvacant, Option.isSome_none, Bool.false_or] at hconsistent
      cases hrecorded : s.state.readTime.lookup won.path with
      | some recorded =>
          left
          simpa [hrecorded] using hconsistent
      | none =>
          refine .inr ⟨rfl, t, ?_⟩
          rwa [Function.update_self]
    · apply (h.assets path asset hasset).imp_right
      refine fun ⟨hnone, hpending⟩ => ⟨hnone, pending_update hpending fun hmem => ?_⟩
      rw [hposition] at hmem
      cases hmem
  · rw [hread, hrows, hreads]
    exact h.unmeasured
  · rw [hdisclosed, hrows]
    exact h.disclosed

theorem disclose (h : Matched s thread) {path : String} {metadata : Metadata} {bytes : Bytes}
    (hconsistent : consistent contentHash s (thread t) = true)
    (hposition : thread t = .disclosing path metadata bytes)
    (hmaps : after.1.maps =
      (s.state.readTime, s.state.assets,
        s.state.unmeasuredAssets.insert path ⟨path, bytes.length⟩,
        s.unmeasuredReads.insert path
          (bytes, readTimeFingerprint contentHash path metadata bytes),
        if (s.state.unmeasuredAssets.lookup path).isNone then s.disclosed + bytes.length
        else s.disclosed)) :
    Matched after.1 (Function.update thread t after.2) := by
  obtain ⟨after, position⟩ := after
  simp only [Shared.maps, Prod.mk.injEq] at hmaps
  obtain ⟨hread, hassets, hrows, hreads, hdisclosed⟩ := hmaps
  rw [hposition] at hconsistent
  simp only [consistent, Bool.and_eq_true, beq_iff_eq] at hconsistent
  obtain ⟨hsame, hrecorded⟩ := hconsistent
  refine ⟨?_, ?_, ?_⟩
  · intro path' asset hasset
    rw [hassets] at hasset
    rw [hread]
    apply (h.assets path' asset hasset).imp_right
    refine fun ⟨hnone, hpending⟩ => ⟨hnone, pending_update hpending fun hmem => ?_⟩
    rw [hposition] at hmem
    cases hmem
  · intro path' row hrow
    rw [hrows, Keyed.lookup_insert_eq] at hrow
    rw [hread, hreads, Keyed.lookup_insert_eq]
    split at hrow
    · rename_i hpath
      cases hrow
      rw [if_pos hpath, hpath]
      exact ⟨bytes, _, rfl, rfl, hrecorded⟩
    · rename_i hpath
      rw [if_neg hpath]
      exact h.unmeasured path' row hrow
  · have hinsert := Keyed.total_insert UncountedAsset.bytes s.state.unmeasuredAssets path
      ⟨path, bytes.length⟩
    have hbefore := h.disclosed
    rw [hdisclosed, hrows]
    cases hrow : s.state.unmeasuredAssets.lookup path with
    | none => simp [hrow] at hinsert ⊢; omega
    | some row =>
        have hbytes : row.bytes = bytes.length := by simpa [hrow] using hsame
        simp [hrow, hbytes] at hinsert ⊢
        omega

theorem step (h : Matched s thread) (heffect : Effect contentHash s (thread t) after)
    (hconsistent : consistent contentHash s (thread t) = true) :
    Matched after.1 (Function.update thread t after.2) := by
  cases heffect with
  | frame hmaps hexits =>
      exact h.frame hmaps hexits
  | record path fingerprint hmaps hagrees hexits =>
      exact h.record hmaps (hagrees hconsistent) hexits
  | collect won hposition hvacant hmaps hexits =>
      exact h.collect hconsistent hposition hvacant hmaps hexits
  | disclose path metadata bytes hposition hmaps =>
      exact h.disclose hconsistent hposition hmaps

theorem init : Matched started.shared started.thread where
  assets := by simp [started]
  unmeasured := by simp [started]
  disclosed := rfl

end Matched

/-- A breach is recorded, or a hook is on its way to record one. -/
def Doomed (c : Config Shared Position) : Prop :=
  c.shared.state.limitBreach.isSome ∨ ∃ t, (c.thread t).breaching = true

theorem Doomed.step {c : Config Shared Position} {t : Nat} {after : Shared × Position}
    (h : Doomed c) (hstep : Step contentHash maxGraphSourceBytes c.shared (c.thread t) after) :
    Doomed ⟨after.1, Function.update c.thread t after.2⟩ := by
  obtain hbreach | ⟨u, hu⟩ := h
  · exact .inl (hstep.breach hbreach)
  · by_cases hut : u = t
    · subst hut
      apply (hstep.breaching hu).imp_right
      intro hafter
      exact ⟨u, by simpa using hafter⟩
    · exact .inr ⟨u, by simpa [Function.update_of_ne hut] using hu⟩

theorem sound_of_runs {guard : Config Shared Position → Nat → Action → Prop}
    {acts : List (Nat × Action)} {c : Config Shared Position}
    (h : Runs (program maxGraphSourceBytes contentHash) guard started acts c) :
    Sound contentHash maxGraphSourceBytes c.shared c.thread := by
  refine h.invariant
    (I := fun c => Sound contentHash maxGraphSourceBytes c.shared c.thread)
    (fun c d t a _ hstep hc => ?_) (.init contentHash maxGraphSourceBytes)
  obtain ⟨s', p', hprog, rfl⟩ := Config.step_eq_some hstep
  exact hc.step (step_of_program (hc.held_le t) hprog)

theorem matched_of_runs {acts : List (Nat × Action)} {c : Config Shared Position}
    (h : Runs (program maxGraphSourceBytes contentHash)
      (fun c t _ => guarded contentHash c t = true) started acts c) :
    Doomed c ∨ Matched c.shared c.thread := by
  refine (h.invariant
    (I := fun c => Sound contentHash maxGraphSourceBytes c.shared c.thread ∧
      (Doomed c ∨ Matched c.shared c.thread))
    (fun c d t a hguard hstep hc => ?_)
    ⟨.init contentHash maxGraphSourceBytes, .inr .init⟩).2
  obtain ⟨hsound, hmatched⟩ := hc
  obtain ⟨s', p', hprog, rfl⟩ := Config.step_eq_some hstep
  have hone := step_of_program (hsound.held_le t) hprog
  refine ⟨hsound.step hone, ?_⟩
  simp only [guarded, Bool.or_eq_true] at hguard
  obtain (hbreach | hbreaching) | hconsistent := hguard
  · exact .inl (Doomed.step (.inl hbreach) hone)
  · exact .inl (Doomed.step (.inr ⟨t, hbreaching⟩) hone)
  · obtain hdoomed | hmatched := hmatched
    · exact .inl (hdoomed.step hone)
    · exact .inr (hmatched.step hone.effect hconsistent)

theorem held_of_finished (h : p.finished = true) : p.held = 0 ∧ p.exits = [] := by
  unfold Position.finished at h
  split at h
  · exact ⟨rfl, rfl⟩
  · exact ⟨rfl, rfl⟩
  · cases h

/-- A hook that was never called is idle. -/
theorem finished_of_runs {guard : Config Shared Position → Nat → Action → Prop}
    {acts : List (Nat × Action)} {c : Config Shared Position}
    (h : Runs (program maxGraphSourceBytes contentHash) guard started acts c)
    (hacts : ∀ t ∈ acts.map Prod.fst, (c.thread t).finished = true) (t : Nat) :
    (c.thread t).finished = true := by
  by_cases ht : t ∈ acts.map Prod.fst
  · exact hacts t ht
  · rw [h.thread_of_notMem ht]
    rfl

/-! ## The ledger of a build -/

/-- In every interleaving of the hooks the counter is within the limit and no
release underflows.  When each step of the run is consistent, the counter of a
finished build without a breach is what was parsed and what the two asset maps
hold, and each row is paired with the fingerprint of its own read. -/
theorem graph_source_bytes_ledger {acts : List (Nat × Action)} {c : Config Shared Position}
    (h : Runs (program maxGraphSourceBytes contentHash) (fun _ _ _ => True) started acts c) :
    c.shared.state.totalSourceBytes ≤ maxGraphSourceBytes ∧
    (∀ t, c.thread t ≠ .panicked) ∧
    (Runs (program maxGraphSourceBytes contentHash)
        (fun c t _ => guarded contentHash c t = true) started acts c →
      (∀ t, (c.thread t).finished = true) → c.shared.state.limitBreach = none →
      Settled contentHash c.shared) := by
  have hsound := sound_of_runs h
  refine ⟨hsound.limit, hsound.calm, fun hguarded hfinished hbreach => ?_⟩
  have hmatched : Matched c.shared c.thread := by
    refine (matched_of_runs hguarded).resolve_left ?_
    rintro (hsome | ⟨t, ht⟩)
    · simp [hbreach] at hsome
    · rw [breaching_of_exits (held_of_finished (hfinished t)).2] at ht
      cases ht
  refine ⟨?_, ?_, hmatched.unmeasured⟩
  · obtain ⟨held, hsums, htotal⟩ := hsound.balance
    have hnone := hsums.eq_zero fun t => (held_of_finished (hfinished t)).1
    have hdisclosed := hmatched.disclosed
    rw [Shared.settled] at htotal
    omega
  · intro path asset hasset
    obtain ⟨hpath, metadata, hread⟩ := hsound.assets path asset hasset
    refine ⟨?_, metadata, by rwa [hpath] at hread⟩
    refine (hmatched.assets path asset hasset).resolve_right ?_
    rintro ⟨_, t, ht⟩
    rw [(held_of_finished (hfinished t)).2] at ht
    cases ht

/-- A font that grows between its stat and its read, beside a parsed module. -/
theorem graph_source_bytes_ledger_grown :
    ∃ c : Config Shared Position, c.shared.state.totalSourceBytes = 7 ∧ c.shared.parsed = [4] ∧
      Settled List.length c.shared := by
  have hrun : ((started.run (program defaultMaxGraphSourceBytes List.length)
      (fun c t _ => guarded List.length c t = true)
      [(0, { call := .load "/p/a.woff" "/p/a.woff" (.ok ⟨1, 5⟩) }),
        (1, { call := .moduleParsed "/p/a.js" 4 }), (0, { read := .ok [97, 98, 99] }),
        (0, {}), (1, {}), (0, {})]).any
      fun c => decide (c.shared.state.totalSourceBytes = 7 ∧ c.shared.parsed = [4] ∧
        c.shared.state.limitBreach = none ∧ (c.thread 0).finished = true ∧
        (c.thread 1).finished = true)) = true := by
    decide
  obtain ⟨c, hc, htest⟩ := Runs.of_run_any hrun
  obtain ⟨htotal, hparsed, hbreach, hfirst, hsecond⟩ := of_decide_eq_true htest
  have hfinished : ∀ t, (c.thread t).finished = true := by
    refine finished_of_runs hc fun t ht => ?_
    simp only [List.map_cons, List.map_nil, List.mem_cons, List.not_mem_nil, or_false] at ht
    obtain rfl | rfl | rfl | rfl | rfl | rfl := ht <;> assumption
  exact ⟨c, htotal, hparsed,
    (graph_source_bytes_ledger (hc.mono fun _ _ _ _ => trivial)).2.2 hc hfinished hbreach⟩

/-- Two ids of one unmeasured file that grows between their loads: the second row
replaces the first, and the second hook gives its own bytes back. -/
theorem unmeasured_duplicate_unsettled :
    ¬ ∀ (acts : List (Nat × Action)) (c : Config Shared Position),
      Runs (program defaultMaxGraphSourceBytes List.length) (fun _ _ _ => True) started acts c →
      c.shared.state.totalSourceBytes ≤ defaultMaxGraphSourceBytes ∧
      (∀ t, c.thread t ≠ .panicked) ∧
      ((∀ t, (c.thread t).finished = true) → c.shared.state.limitBreach = none →
        Settled List.length c.shared) := by
  intro hall
  have hrun : ((started.run (program defaultMaxGraphSourceBytes List.length)
      (fun _ _ _ => True)
      [(0, { call := .load "/p/a.mp4" "/p/a.mp4" (.ok ⟨1, 5⟩) }), (0, { read := .ok [97] }),
        (0, {}), (0, {}),
        (1, { call := .load "/q/a.mp4" "/p/a.mp4" (.ok ⟨3, 6⟩) }),
        (1, { read := .ok [97, 98, 99] }), (1, {}), (1, {}), (1, {})]).any
      fun c => decide (c.shared.state.totalSourceBytes = 1 ∧ c.shared.parsed = [] ∧
        Keyed.total UncountedAsset.bytes c.shared.state.unmeasuredAssets = 3 ∧
        c.shared.state.limitBreach = none ∧ (c.thread 0).finished = true ∧
        (c.thread 1).finished = true)) = true := by
    decide
  obtain ⟨c, hc, htest⟩ := Runs.of_run_any hrun
  obtain ⟨htotal, hparsed, hrows, hbreach, hfirst, hsecond⟩ := of_decide_eq_true htest
  have hfinished : ∀ t, (c.thread t).finished = true := by
    refine finished_of_runs hc fun t ht => ?_
    simp only [List.map_cons, List.map_nil, List.mem_cons, List.not_mem_nil, or_false] at ht
    obtain rfl | rfl | rfl | rfl | rfl | rfl | rfl | rfl | rfl := ht <;> assumption
  have hsettled := ((hall _ c hc).2.2 hfinished hbreach).total
  omega

end ImportLens.Engine.SourceBytes
