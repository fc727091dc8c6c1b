import ImportLens.Cache.Disk.Copies
import ImportLens.Pipeline.SharedBytes
import ImportLens.Support.Positional

/-!
# The stored value of an entry, field by field

The serializer writes a structure as the array of its fields.  Two fields are
skipped when they are unset, the content hash of a file and the freshness of a
result, and both are the last of theirs; a third, the internal contributions, is
never written, and the envelope carries them beside the result.  The bytes of a
value tree are the library's; `MsgPack` stands for it.
-/

namespace ImportLens.Cache

open ImportLens.Daemon ImportLens.Pipeline ImportLens.Support ImportLens.Support.Positional

/-! ## The structures, in the order of their fields -/

namespace Stored

def confidenceName : ConfidenceLevel → String
  | .high => "high"
  | .medium => "medium"
  | .low => "low"

def freshnessName : FreshnessKind → String
  | .fresh => "fresh"
  | .stale => "stale"
  | .unverified => "unverified"

def assetKindName : AssetKind → String
  | .css => "css"
  | .wasm => "wasm"
  | .font => "font"
  | .image => "image"

def confidence : Shape ConfidenceLevel := variant confidenceName [.high, .medium, .low]

def freshnessKind : Shape FreshnessKind := variant freshnessName [.fresh, .stale, .unverified]

def assetKind : Shape AssetKind := variant assetKindName [.css, .wasm, .font, .image]

def moduleContribution : Shape ModuleContribution :=
  record (fun contribution => [text.encode contribution.path, number.encode contribution.bytes]) do
    let path ← next text
    let bytes ← next number
    return { path, bytes }

def assetContribution : Shape AssetContribution :=
  record
    (fun contribution =>
      [assetKind.encode contribution.kind, number.encode contribution.rawBytes,
        number.encode contribution.minifiedBytes, number.encode contribution.gzipBytes,
        number.encode contribution.brotliBytes, number.encode contribution.zstdBytes]) do
    let kind ← next assetKind
    let rawBytes ← next number
    let minifiedBytes ← next number
    let gzipBytes ← next number
    let brotliBytes ← next number
    let zstdBytes ← next number
    return { kind, rawBytes, minifiedBytes, gzipBytes, brotliBytes, zstdBytes }

def importDiagnostic : Shape ImportDiagnostic :=
  record
    (fun diagnostic =>
      [text.encode diagnostic.stage, text.encode diagnostic.message,
        (list text).encode diagnostic.details]) do
    let stage ← next text
    let message ← next text
    let details ← next (list text)
    return { stage, message, details }

def fileFingerprint : Shape FileFingerprint :=
  record
    (fun fingerprint =>
      text.encode fingerprint.path :: number.encode fingerprint.len ::
        number.encode fingerprint.modifiedMillis ::
        unlessDefault (option number) Option.isNone fingerprint.contentHash) do
    let path ← next text
    let len ← next number
    let modifiedMillis ← next number
    let contentHash ← nextOr (option number) none
    return { path, len, modifiedMillis, contentHash }

def resultFreshness : Shape ResultFreshness :=
  record
    (fun freshness =>
      freshnessKind.encode freshness.kind :: flag.encode freshness.revalidating ::
        unlessDefault (option text) Option.isNone freshness.reason) do
    let kind ← nextOr freshnessKind .fresh
    let revalidating ← nextOr flag false
    let reason ← nextOr (option text) none
    return { kind, revalidating, reason }

end Stored

def ResultFreshness.isFresh (freshness : ResultFreshness) : Bool :=
  freshness.kind == .fresh

namespace Stored

def importResultFields (result : ImportResult) : List Value :=
  text.encode result.specifier :: (option number).encode result.rawBytes ::
    (option number).encode result.minifiedBytes :: (option number).encode result.gzipBytes ::
    (option number).encode result.brotliBytes :: (option number).encode result.zstdBytes ::
    flag.encode result.cacheHit :: flag.encode result.sideEffects ::
    flag.encode result.trulyTreeshakeable :: flag.encode result.isCjs ::
    confidence.encode result.confidence :: (list text).encode result.confidenceReasons ::
    (option text).encode result.error :: (option text).encode result.unmeasuredStage ::
    (list importDiagnostic).encode result.diagnostics ::
    (option (list moduleContribution)).encode result.moduleBreakdown ::
    (option number).encode result.sharedBytes ::
    (list assetContribution).encode result.assetBreakdown ::
    unlessDefault resultFreshness ResultFreshness.isFresh result.freshness

def readImportResult : Reader ImportResult := do
  let specifier ← next text
  let rawBytes ← next (option number)
  let minifiedBytes ← next (option number)
  let gzipBytes ← next (option number)
  let brotliBytes ← next (option number)
  let zstdBytes ← next (option number)
  let cacheHit ← next flag
  let sideEffects ← next flag
  let trulyTreeshakeable ← next flag
  let isCjs ← next flag
  let confidence ← nextOr confidence .low
  let confidenceReasons ← nextOr (list text) []
  let error ← next (option text)
  let unmeasuredStage ← nextOr (option text) none
  let diagnostics ← next (list importDiagnostic)
  let moduleBreakdown ← nextOr (option (list moduleContribution)) none
  let sharedBytes ← nextOr (option number) none
  let assetBreakdown ← nextOr (list assetContribution) []
  let freshness ← nextOr resultFreshness ResultFreshness.fresh
  return {
    specifier, rawBytes, minifiedBytes, gzipBytes, brotliBytes, zstdBytes, cacheHit, sideEffects,
    trulyTreeshakeable, isCjs, confidence, confidenceReasons, error, unmeasuredStage, diagnostics,
    moduleBreakdown, sharedBytes, assetBreakdown, freshness, internalContributions := [] }

def importResult : Shape ImportResult := record importResultFields readImportResult

def cacheEnvelope : Shape CacheEnvelope :=
  record
    (fun envelope =>
      [text.encode envelope.analyzerVersion, importResult.encode envelope.result,
        (list fileFingerprint).encode envelope.dependencyFingerprints,
        (list moduleContribution).encode envelope.fullContributions]) do
    let analyzerVersion ← next text
    let result ← next importResult
    let dependencyFingerprints ← next (list fileFingerprint)
    let fullContributions ← next (list moduleContribution)
    return { analyzerVersion, result, dependencyFingerprints, fullContributions }

/-! ## Round trips, from the leaves up -/

theorem confidence_lawful : confidence.Lawful :=
  variant_lawful fun level => by cases level <;> rfl

theorem freshnessKind_lawful : freshnessKind.Lawful :=
  variant_lawful fun kind => by cases kind <;> rfl

theorem assetKind_lawful : assetKind.Lawful :=
  variant_lawful fun kind => by cases kind <;> rfl

theorem optionNumber_lawful : (option number).Lawful :=
  option_lawful number_lawful number_nonNil

theorem optionText_lawful : (option text).Lawful :=
  option_lawful text_lawful text_nonNil

theorem moduleContribution_lawful : moduleContribution.Lawful := by
  intro contribution
  apply record_decode
  rw [bind_of_eq (next_encode text_lawful _ _), bind_of_eq (next_encode number_lawful _ _)]
  rfl

theorem assetContribution_lawful : assetContribution.Lawful := by
  intro contribution
  apply record_decode
  rw [bind_of_eq (next_encode assetKind_lawful _ _), bind_of_eq (next_encode number_lawful _ _),
    bind_of_eq (next_encode number_lawful _ _), bind_of_eq (next_encode number_lawful _ _),
    bind_of_eq (next_encode number_lawful _ _), bind_of_eq (next_encode number_lawful _ _)]
  rfl

theorem importDiagnostic_lawful : importDiagnostic.Lawful := by
  intro diagnostic
  apply record_decode
  rw [bind_of_eq (next_encode text_lawful _ _), bind_of_eq (next_encode text_lawful _ _),
    bind_of_eq (next_encode (list_lawful text_lawful) _ _)]
  rfl

theorem ite_isNone {α : Type} (value : Option α) :
    (if value.isNone then none else value) = value := by
  cases value <;> rfl

theorem fileFingerprint_lawful : fileFingerprint.Lawful := by
  intro fingerprint
  apply record_decode
  rw [bind_of_eq (next_encode text_lawful _ _), bind_of_eq (next_encode number_lawful _ _),
    bind_of_eq (next_encode number_lawful _ _),
    bind_of_eq (nextOr_unlessDefault optionNumber_lawful _ _ _), ite_isNone]
  rfl

theorem resultFreshness_lawful : resultFreshness.Lawful := by
  intro freshness
  apply record_decode
  rw [bind_of_eq (nextOr_encode freshnessKind_lawful _ _ _),
    bind_of_eq (nextOr_encode flag_lawful _ _ _),
    bind_of_eq (nextOr_unlessDefault optionText_lawful _ _ _), ite_isNone]
  rfl

theorem importResult_decode (result : ImportResult) :
    importResult.decode (importResult.encode result) =
      some
        { result with
          internalContributions := []
          freshness :=
            if result.freshness.kind = .fresh then ResultFreshness.fresh
            else result.freshness } := by
  have hnumber := optionNumber_lawful
  have htexts := list_lawful text_lawful
  have hmodules := list_lawful moduleContribution_lawful
  apply record_decode
  unfold readImportResult importResultFields
  rw [bind_of_eq (next_encode text_lawful _ _), bind_of_eq (next_encode hnumber _ _),
    bind_of_eq (next_encode hnumber _ _), bind_of_eq (next_encode hnumber _ _),
    bind_of_eq (next_encode hnumber _ _), bind_of_eq (next_encode hnumber _ _),
    bind_of_eq (next_encode flag_lawful _ _), bind_of_eq (next_encode flag_lawful _ _),
    bind_of_eq (next_encode flag_lawful _ _), bind_of_eq (next_encode flag_lawful _ _),
    bind_of_eq (nextOr_encode confidence_lawful _ _ _), bind_of_eq (nextOr_encode htexts _ _ _),
    bind_of_eq (next_encode optionText_lawful _ _),
    bind_of_eq (nextOr_encode optionText_lawful _ _ _),
    bind_of_eq (next_encode (list_lawful importDiagnostic_lawful) _ _),
    bind_of_eq (nextOr_encode (option_lawful hmodules (list_nonNil _)) _ _ _),
    bind_of_eq (nextOr_encode hnumber _ _ _),
    bind_of_eq (nextOr_encode (list_lawful assetContribution_lawful) _ _ _),
    bind_of_eq (nextOr_unlessDefault resultFreshness_lawful _ _ _)]
  simp only [ResultFreshness.isFresh, beq_iff_eq]
  rfl

theorem cacheEnvelope_decode (envelope : CacheEnvelope) :
    cacheEnvelope.decode (cacheEnvelope.encode envelope) = some envelope.stored := by
  have hresult := importResult_decode envelope.result
  apply record_decode
  rw [bind_of_eq (next_encode text_lawful _ _), bind_of_eq (next_of_decode hresult _),
    bind_of_eq (next_encode (list_lawful fileFingerprint_lawful) _ _),
    bind_of_eq (next_encode (list_lawful moduleContribution_lawful) _ _)]
  rfl

theorem freshness_encode_stored (freshness : ResultFreshness) :
    unlessDefault resultFreshness ResultFreshness.isFresh
        (if freshness.kind = .fresh then ResultFreshness.fresh else freshness) =
      unlessDefault resultFreshness ResultFreshness.isFresh freshness := by
  by_cases hkind : freshness.kind = .fresh
  · have hfresh : ResultFreshness.isFresh freshness = true := by
      rw [ResultFreshness.isFresh, hkind]
      rfl
    rw [if_pos hkind, unlessDefault, unlessDefault, if_pos hfresh]
    rfl
  · rw [if_neg hkind]

theorem cacheEnvelope_encode_stored (envelope : CacheEnvelope) :
    cacheEnvelope.encode envelope.stored = cacheEnvelope.encode envelope := by
  have hresult : importResultFields envelope.stored.result =
      importResultFields envelope.result := by
    unfold importResultFields CacheEnvelope.stored
    rw [freshness_encode_stored]
  simp only [cacheEnvelope, record, importResult, hresult]
  rfl

end Stored

/-! ## The codec over a serializer of value trees -/

/-- The library that writes a value tree as bytes. -/
structure MsgPack where
  write : Value → Except String Bytes
  read : Bytes → Option Value

/-- The library reads back what it writes of a value tree. -/
def MsgPack.RoundTrips (pack : MsgPack) (value : Value) : Prop :=
  ∃ bytes, pack.write value = .ok bytes ∧ pack.read bytes = some value

def positionalCodec (pack : MsgPack) (codec : Codec) : Codec :=
  { codec with
    toVec := fun envelope => pack.write (Stored.cacheEnvelope.encode envelope)
    fromSlice := fun bytes => (pack.read bytes).bind Stored.cacheEnvelope.decode }

variable {pack : MsgPack} {codec : Codec}

theorem positionalCodec_lawful
    (hpack : ∀ value bytes, pack.write value = .ok bytes → pack.read bytes = some value) :
    LawfulCodec (positionalCodec pack codec) where
  fromSlice_toVec := by
    intro envelope bytes hwrite
    have hread := hpack _ _ hwrite
    simp only [positionalCodec, hread, Option.bind_some]
    exact Stored.cacheEnvelope_decode envelope

/-- The entry a value decodes to, when the value was encoded from `cached`. -/
def CachedImport.restored (cached : CachedImport) (cell : Nat) : CachedImport where
  result :=
    { cached.result with
      internalContributions := resultContributions cached.result
      freshness :=
        if cached.result.freshness.kind = .fresh then ResultFreshness.fresh
        else cached.result.freshness }
  dependencyFingerprints := cached.dependencyFingerprints
  cell := cell
  firstParty := false

theorem resultContributions_restored (cached : CachedImport) (cell : Nat) :
    resultContributions (cached.restored cell).result = resultContributions cached.result := by
  have hrestored : resultContributions (cached.restored cell).result =
      if (resultContributions cached.result).isEmpty then cached.result.moduleBreakdown.getD []
      else resultContributions cached.result := rfl
  rw [hrestored]
  by_cases hempty : (resultContributions cached.result).isEmpty = true
  · rw [if_pos hempty]
    unfold resultContributions at hempty ⊢
    by_cases hinternal : cached.result.internalContributions.isEmpty = true
    · rw [if_pos hinternal]
    · rw [if_neg hinternal] at hempty
      exact absurd hempty hinternal
  · rw [if_neg hempty]

theorem envelopeOf_restored (cached : CachedImport) (cell : Nat) :
    (envelopeOf (cached.restored cell)).stored = (envelopeOf cached).stored := by
  have hfull : (envelopeOf (cached.restored cell)).fullContributions =
      (envelopeOf cached).fullContributions := resultContributions_restored cached cell
  unfold CacheEnvelope.stored
  rw [hfull]
  by_cases hkind : cached.result.freshness.kind = .fresh
  · simp only [envelopeOf, CachedImport.restored, hkind, if_true, ResultFreshness.fresh]
  · simp only [envelopeOf, CachedImport.restored, hkind, if_false]

/-! ## What decodes -/

theorem decodeCachedResult_short {heap : Heap} {bytes : Bytes} (h : bytes.length < seqPrefixLen) :
    decodeCachedResult codec heap bytes = none := by
  rw [decodeCachedResult, if_pos h]

theorem decodeCachedResult_otherVersion {heap : Heap} {bytes : Bytes} {envelope : CacheEnvelope}
    (hslice : codec.fromSlice (bytes.drop seqPrefixLen) = some envelope)
    (hversion : envelope.analyzerVersion ≠ analyzerVersion) :
    decodeCachedResult codec heap bytes = none := by
  unfold decodeCachedResult
  by_cases hshort : bytes.length < seqPrefixLen
  · rw [if_pos hshort]
  · simp only [if_neg hshort, hslice, if_pos hversion]

/-- A value decodes to the entry of its envelope, with the sequence of its prefix. -/
theorem decodeCachedResult_value {heap : Heap} {seq : Nat} {envelope : CacheEnvelope}
    {envelopeBytes : Bytes} (hseq : seq < 2 ^ 64)
    (hslice : codec.fromSlice envelopeBytes = some envelope)
    (hversion : envelope.analyzerVersion = analyzerVersion) :
    decodeCachedResult codec heap (leBytes seqPrefixLen seq ++ envelopeBytes) =
      some
        ({ result := { envelope.result with internalContributions := envelope.fullContributions }
           dependencyFingerprints := envelope.dependencyFingerprints
           cell := heap.next
           firstParty := false },
          ((heap.observe seq).alloc { lastSeq := seq, persistedSeq := seq }).2) := by
  have hlong : ¬ (leBytes seqPrefixLen seq ++ envelopeBytes).length < seqPrefixLen := by
    rw [List.length_append, leBytes_length]
    omega
  have hdrop : (leBytes seqPrefixLen seq ++ envelopeBytes).drop seqPrefixLen = envelopeBytes :=
    List.drop_left' (leBytes_length _ _)
  have hsame : ¬ envelope.analyzerVersion ≠ analyzerVersion := not_not_intro hversion
  unfold decodeCachedResult
  simp only [if_neg hlong, hdrop, hslice, if_neg hsame, decodeLastSeq_encoded hseq]
  rfl

/-- A fresh entry survives its stored form, and so does the form itself; a value that is
too short or of another version does not decode. -/
theorem decode_encodeCacheValue (pack : MsgPack) (codec : Codec) (heap opened : Heap)
    (cached : CachedImport) (hfresh : cached.result.freshness.kind = .fresh)
    (hseq : (heap.cells cached.cell).lastSeq < 2 ^ 64)
    (hpack : pack.RoundTrips (Stored.cacheEnvelope.encode (envelopeOf cached))) :
    (∃ bytes decoded opened',
      encodeCacheValue (positionalCodec pack codec) heap cached = .ok bytes ∧
      decodeLastSeq bytes = (heap.cells cached.cell).lastSeq ∧
      decodeCachedResult (positionalCodec pack codec) opened bytes = some (decoded, opened') ∧
      decoded.result =
        { cached.result with
          internalContributions := resultContributions cached.result
          freshness := ResultFreshness.fresh } ∧
      decoded.dependencyFingerprints = cached.dependencyFingerprints ∧
      (opened'.cells decoded.cell).lastSeq = (heap.cells cached.cell).lastSeq ∧
      resultContributions decoded.result = resultContributions cached.result ∧
      encodeCacheValue (positionalCodec pack codec) opened' decoded = .ok bytes) ∧
    (∀ bytes, bytes.length < seqPrefixLen →
      decodeCachedResult (positionalCodec pack codec) opened bytes = none) ∧
    (∀ bytes envelope,
      (positionalCodec pack codec).fromSlice (bytes.drop seqPrefixLen) = some envelope →
      envelope.analyzerVersion ≠ analyzerVersion →
      decodeCachedResult (positionalCodec pack codec) opened bytes = none) := by
  refine ⟨?_, fun bytes => decodeCachedResult_short,
    fun bytes envelope => decodeCachedResult_otherVersion⟩
  obtain ⟨envelopeBytes, hwrite, hread⟩ := hpack
  generalize hlast : (heap.cells cached.cell).lastSeq = seq at hseq ⊢
  have hslice : (positionalCodec pack codec).fromSlice envelopeBytes =
      some (envelopeOf cached).stored := by
    simp only [positionalCodec, hread, Option.bind_some]
    exact Stored.cacheEnvelope_decode _
  have hdecode : decodeCachedResult (positionalCodec pack codec) opened
      (leBytes seqPrefixLen seq ++ envelopeBytes) = _ :=
    decodeCachedResult_value hseq hslice rfl
  have hencode : encodeCacheValue (positionalCodec pack codec) heap cached =
      .ok (leBytes seqPrefixLen seq ++ envelopeBytes) := by
    simp only [encodeCacheValue, positionalCodec, hwrite, hlast]
  -- What decodes is the restored entry, and it is written as the same value tree.
  have hagain :
      pack.write (Stored.cacheEnvelope.encode (envelopeOf (cached.restored opened.next))) =
      .ok envelopeBytes := by
    rw [← hwrite, ← Stored.cacheEnvelope_encode_stored, envelopeOf_restored,
      Stored.cacheEnvelope_encode_stored]
  have hcell : (((opened.observe seq).alloc { lastSeq := seq, persistedSeq := seq }).2.cells
      opened.next).lastSeq = seq := by
    simp only [Heap.alloc, Heap.observe, Function.update_self]
  refine ⟨_, cached.restored opened.next, _, hencode, decodeLastSeq_encoded hseq _,
    hdecode, ?_, rfl,
    hcell, resultContributions_restored _ _, ?_⟩
  · simp only [CachedImport.restored, hfresh, if_true]
  · simp only [encodeCacheValue, positionalCodec, hagain]
    rw [show (cached.restored opened.next).cell = opened.next from rfl, hcell]

/-! ## A small value -/

/-- The serializer on the envelope of a measurement of `react` over one file. -/
def smallPack : MsgPack where
  write value :=
    if Stored.cacheEnvelope.decode value = some (smallEnvelope 10 true) then
      .ok (smallBytes 10 true)
    else .error "another value"
  read bytes :=
    if bytes = smallBytes 10 true then some (Stored.cacheEnvelope.encode (smallEnvelope 10 true))
    else none

def smallEntry (freshness : ResultFreshness) : CachedImport where
  result := { smallResult 10 with freshness := freshness }
  dependencyFingerprints := [smallFile]
  cell := 0
  firstParty := false

def smallHeap : Heap := (Heap.initial.alloc ⟨0, 0, 7, 0⟩).2

theorem smallPack_roundTrips {freshness : ResultFreshness} (hfresh : freshness.kind = .fresh) :
    smallPack.RoundTrips (Stored.cacheEnvelope.encode (envelopeOf (smallEntry freshness))) := by
  have hstored : (envelopeOf (smallEntry freshness)).stored = smallEnvelope 10 true := by
    simp only [CacheEnvelope.stored, envelopeOf, smallEntry, hfresh, if_true]
    rfl
  have hdecode := Stored.cacheEnvelope_decode (envelopeOf (smallEntry freshness))
  rw [hstored] at hdecode
  refine ⟨smallBytes 10 true, ?_, ?_⟩
  · simp only [smallPack, hdecode, if_true]
  · simp only [smallPack, if_true]
    rw [← hstored, Stored.cacheEnvelope_encode_stored]

theorem decode_encodeCacheValue_small :
    ∃ bytes decoded opened',
      encodeCacheValue (positionalCodec smallPack smallCodec) smallHeap
        (smallEntry ResultFreshness.fresh) = .ok bytes ∧
      decodeLastSeq bytes = 7 ∧
      decodeCachedResult (positionalCodec smallPack smallCodec) Heap.initial bytes =
        some (decoded, opened') ∧
      decoded.result = smallResult 10 := by
  obtain ⟨⟨bytes, decoded, opened', hencode, hlast, hdecode, hresult, _⟩, _⟩ :=
    decode_encodeCacheValue smallPack smallCodec smallHeap Heap.initial
      (smallEntry ResultFreshness.fresh) rfl (by decide) (smallPack_roundTrips rfl)
  exact ⟨bytes, decoded, opened', hencode, hlast, hdecode, hresult⟩

/-- A result flagged fresh whose freshness is not the default one comes back with the
default one. -/
theorem decode_encodeCacheValue_revalidating :
    ¬ ∀ cached : CachedImport, cached.result.freshness.kind = .fresh →
      smallPack.RoundTrips (Stored.cacheEnvelope.encode (envelopeOf cached)) →
      ∃ bytes decoded opened',
        encodeCacheValue (positionalCodec smallPack smallCodec) smallHeap cached = .ok bytes ∧
        decodeCachedResult (positionalCodec smallPack smallCodec) Heap.initial bytes =
          some (decoded, opened') ∧
        decoded.result =
          { cached.result with internalContributions := resultContributions cached.result } := by
  intro hall
  obtain ⟨bytes, decoded, opened', hencode, hdecode, hresult⟩ :=
    hall (smallEntry { revalidating := true }) rfl (smallPack_roundTrips rfl)
  have hwrite : encodeCacheValue (positionalCodec smallPack smallCodec) smallHeap
      (smallEntry { revalidating := true }) =
        .ok (leBytes seqPrefixLen 7 ++ smallBytes 10 true) := by
    decide
  have hbytes : leBytes seqPrefixLen 7 ++ smallBytes 10 true = bytes := by
    rw [hwrite] at hencode
    exact Except.ok.inj hencode
  have hread : (decodeCachedResult (positionalCodec smallPack smallCodec) Heap.initial
      (leBytes seqPrefixLen 7 ++ smallBytes 10 true)).map (fun found => found.1.result.freshness) =
        some ResultFreshness.fresh := by
    decide
  rw [hbytes, hdecode, Option.map_some, hresult] at hread
  cases hread

end ImportLens.Cache
