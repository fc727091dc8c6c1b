import ImportLens.Cache.Disk.Shard

/-!
# Cache entries and their stored form

An entry is a result with the files it was derived from.  Three of its fields
are shared through `Arc`s with every clone of it: when it was last verified,
the sequence of its last use, and the sequence its disk copy carries.  They are
allocated together and cloned together, so one cell of a heap stands for the
three, and the number of the cell is the identity that `Arc::ptr_eq` compares.

The serializer and the hash come from libraries; `Codec` stands for them, and
`LawfulCodec` is the round trip that the store relies on.
-/

namespace ImportLens.Cache

open ImportLens.Daemon ImportLens.Support

/-! ## Shared cells -/

/-- `Verification`, `last_seq` and `persisted_seq` of one entry.  A time of 0
means never verified; otherwise it is one more than the milliseconds. -/
structure Cell where
  generation : Nat := 0
  atMillis : Nat := 0
  lastSeq : Nat
  persistedSeq : Nat
  deriving DecidableEq, Repr

/-- The cells allocated so far, and the process-global recency clock. -/
structure Heap where
  cells : Nat → Cell
  next : Nat
  recencyClock : Nat

namespace Heap

def initial : Heap := ⟨fun _ => ⟨0, 0, 0, 0⟩, 0, 1⟩

def alloc (heap : Heap) (cell : Cell) : Nat × Heap :=
  (heap.next,
    { heap with cells := Function.update heap.cells heap.next cell, next := heap.next + 1 })

def modify (heap : Heap) (id : Nat) (f : Cell → Cell) : Heap :=
  { heap with cells := Function.update heap.cells id (f (heap.cells id)) }

/-- `RecencyClock::next_seq`, a wrapping `fetch_add`. -/
def nextSeq (heap : Heap) : Nat × Heap :=
  (heap.recencyClock, { heap with recencyClock := (heap.recencyClock + 1) % 2 ^ 64 })

/-- `RecencyClock::observe`: keep the clock ahead of a persisted sequence. -/
def observe (heap : Heap) (seq : Nat) : Heap :=
  { heap with recencyClock := max heap.recencyClock (min (seq + 1) u64Max) }

theorem modify_field {α : Type} (field : Cell → α) (heap : Heap) (id : Nat) (f : Cell → Cell)
    (hf : ∀ cell, field (f cell) = field cell) (other : Nat) :
    field ((heap.modify id f).cells other) = field (heap.cells other) := by
  simp only [modify]
  by_cases h : other = id
  · subst h
    rw [Function.update_self, hf]
  · rw [Function.update_of_ne h]

end Heap

/-! ## Verification stamps -/

def reverifyTtlMillis : Nat := 30000

namespace Cell

/-- Record that the fingerprints were confirmed under `generation`. -/
def stamp (cell : Cell) (generation sinceEpoch : Nat) : Cell :=
  { cell with generation := generation, atMillis := sinceEpoch + 1 }

/-- Verified under `generation` within the window. -/
def isCurrent (cell : Cell) (generation sinceEpoch : Nat) : Bool :=
  !(cell.atMillis == 0 || cell.generation != generation) &&
    decide (sinceEpoch - (cell.atMillis - 1) < reverifyTtlMillis)

end Cell

/-! ## Entries -/

structure CachedImport where
  result : ImportResult
  dependencyFingerprints : List FileFingerprint
  /-- The identity of the entry: where its shared fields live. -/
  cell : Nat
  firstParty : Bool
  deriving DecidableEq, Repr

/-- The gate of both layers: a durable result over one consistent observation
of its files. -/
def Gated (result : ImportResult) (fingerprints : List FileFingerprint) : Prop :=
  result.isDurable = true ∧ fingerprintsAreReusable fingerprints = true

instance (result : ImportResult) (fingerprints : List FileFingerprint) :
    Decidable (Gated result fingerprints) :=
  inferInstanceAs (Decidable (_ ∧ _))

theorem gated_congr {r r' : ImportResult} {fingerprints : List FileFingerprint}
    (hstage : r.unmeasuredStage = r'.unmeasuredStage) (hdiag : r.diagnostics = r'.diagnostics)
    (h : Gated r fingerprints) : Gated r' fingerprints := by
  refine ⟨?_, h.2⟩
  rw [← ImportResult.isDurable_congr hstage hdiag]
  exact h.1

/-! ## Stored form -/

structure CacheEnvelope where
  analyzerVersion : String
  result : ImportResult
  dependencyFingerprints : List FileFingerprint
  fullContributions : List ModuleContribution
  deriving DecidableEq, Repr

/-- What serialization keeps of an envelope: a fresh `freshness` and the
internal contributions are skipped, and decode as their defaults. -/
def CacheEnvelope.stored (envelope : CacheEnvelope) : CacheEnvelope :=
  { envelope with
    result :=
      { envelope.result with
        internalContributions := []
        freshness :=
          if envelope.result.freshness.kind = .fresh then ResultFreshness.fresh
          else envelope.result.freshness } }

/-- The serializer and the content hash the daemon links. -/
structure Codec where
  toVec : CacheEnvelope → Except String Bytes
  fromSlice : Bytes → Option CacheEnvelope
  identityFromSlice : Bytes → Option CacheIdentity
  contentHash : Bytes → Nat

/-- What was serialized decodes to what serialization keeps of it. -/
structure LawfulCodec (codec : Codec) : Prop where
  fromSlice_toVec : ∀ envelope bytes, codec.toVec envelope = .ok bytes →
    codec.fromSlice bytes = some envelope.stored

/-- `u64::to_le_bytes`, to a given number of bytes. -/
def leBytes : Nat → Nat → Bytes
  | 0, _ => []
  | width + 1, value => UInt8.ofNat (value % 256) :: leBytes width (value / 256)

@[simp] theorem leBytes_length (width value : Nat) : (leBytes width value).length = width := by
  induction width generalizing value with
  | zero => rfl
  | succ width ih => simp [leBytes, ih]

section

variable (codec : Codec)

/-- The envelope `encode_cache_value` serializes. -/
def envelopeOf (cached : CachedImport) : CacheEnvelope where
  analyzerVersion := analyzerVersion
  result := cached.result
  dependencyFingerprints := cached.dependencyFingerprints
  fullContributions :=
    if cached.result.internalContributions.isEmpty then cached.result.moduleBreakdown.getD []
    else cached.result.internalContributions

def encodeCacheValue (heap : Heap) (cached : CachedImport) : Except String Bytes :=
  match codec.toVec (envelopeOf cached) with
  | .error error => .error ("failed to serialize cache entry: " ++ error)
  | .ok envelopeBytes =>
      .ok (leBytes seqPrefixLen (heap.cells cached.cell).lastSeq ++ envelopeBytes)

/-- Decode a table value into a new entry, never verified.  The caller, which
has the key, sets `firstParty`. -/
def decodeCachedResult (heap : Heap) (bytes : Bytes) : Option (CachedImport × Heap) :=
  if bytes.length < seqPrefixLen then none
  else
    let lastSeq := decodeLastSeq bytes
    match codec.fromSlice (bytes.drop seqPrefixLen) with
    | none => none
    | some envelope =>
        if envelope.analyzerVersion ≠ analyzerVersion then none
        else
          let (cell, heap') :=
            (heap.observe lastSeq).alloc { lastSeq := lastSeq, persistedSeq := lastSeq }
          some
            ({ result := { envelope.result with
                internalContributions := envelope.fullContributions }
               dependencyFingerprints := envelope.dependencyFingerprints
               cell := cell
               firstParty := false }, heap')

/-- A value that was encoded from a gated entry. -/
def GatedBytes (bytes : Bytes) : Prop :=
  ∃ seq envelope envelopeBytes, codec.toVec envelope = .ok envelopeBytes ∧
    Gated envelope.result envelope.dependencyFingerprints ∧
    bytes = leBytes seqPrefixLen seq ++ envelopeBytes

variable {codec}

theorem encodeCacheValue_gated {heap : Heap} {cached : CachedImport} {bytes : Bytes}
    (hgated : Gated cached.result cached.dependencyFingerprints)
    (h : encodeCacheValue codec heap cached = .ok bytes) : GatedBytes codec bytes := by
  unfold encodeCacheValue at h
  cases hvec : codec.toVec (envelopeOf cached) with
  | error e => simp [hvec] at h
  | ok envelopeBytes =>
      simp only [hvec, Except.ok.injEq] at h
      exact ⟨_, _, envelopeBytes, hvec, hgated, h.symm⟩

/-- What a decoded entry and the heap it leaves are. -/
theorem decodeCachedResult_eq_some {heap heap' : Heap} {bytes : Bytes} {cached : CachedImport}
    (h : decodeCachedResult codec heap bytes = some (cached, heap')) :
    ∃ envelope, codec.fromSlice (bytes.drop seqPrefixLen) = some envelope ∧
      cached.result =
        { envelope.result with internalContributions := envelope.fullContributions } ∧
      cached.dependencyFingerprints = envelope.dependencyFingerprints ∧
      cached.cell = heap.next ∧ heap'.next = heap.next + 1 ∧
      heap'.cells = Function.update heap.cells heap.next
        { lastSeq := decodeLastSeq bytes, persistedSeq := decodeLastSeq bytes } := by
  unfold decodeCachedResult at h
  split at h
  · cases h
  · cases hslice : codec.fromSlice (bytes.drop seqPrefixLen) with
    | none => simp [hslice] at h
    | some envelope =>
        simp only [hslice] at h
        split at h
        · cases h
        · cases h
          exact ⟨envelope, rfl, rfl, rfl, rfl, rfl, rfl⟩

theorem decodeCachedResult_unverified {heap heap' : Heap} {bytes : Bytes} {cached : CachedImport}
    (h : decodeCachedResult codec heap bytes = some (cached, heap')) :
    (heap'.cells cached.cell).atMillis = 0 := by
  obtain ⟨_, _, _, _, hcell, _, hcells⟩ := decodeCachedResult_eq_some h
  simp [hcell, hcells]

/-- An entry decoded from a gated value is gated. -/
theorem decodeCachedResult_gated (hcodec : LawfulCodec codec) {heap heap' : Heap} {bytes : Bytes}
    {cached : CachedImport} (hbytes : GatedBytes codec bytes)
    (h : decodeCachedResult codec heap bytes = some (cached, heap')) :
    Gated cached.result cached.dependencyFingerprints := by
  obtain ⟨seq, envelope, envelopeBytes, hvec, hgated, rfl⟩ := hbytes
  obtain ⟨decoded, hslice, hresult, hfps, _⟩ := decodeCachedResult_eq_some h
  have hdrop : (leBytes seqPrefixLen seq ++ envelopeBytes).drop seqPrefixLen = envelopeBytes :=
    List.drop_left' (leBytes_length _ _)
  rw [hdrop, hcodec.fromSlice_toVec envelope envelopeBytes hvec] at hslice
  cases hslice
  rw [hresult, hfps]
  exact gated_congr rfl rfl hgated

end

/-! ## The stored bytes of a small result

A measurement of `react` whose five sizes are one number below 128, over no
file or over one, serializes to the same bytes but for the sizes and the file.
The codec of this family witnesses statements that assume a lawful one. -/

def smallResult (size : Nat) : ImportResult :=
  ImportResult.measured "react" ⟨size, size, size, size, size⟩

def smallFile : FileFingerprint := ⟨"/w/a.js", 3, 5, none⟩

def smallEnvelope (size : Nat) (overFile : Bool) : CacheEnvelope where
  analyzerVersion := analyzerVersion
  result := smallResult size
  dependencyFingerprints := if overFile then [smallFile] else []
  fullContributions := []

/-- The array of the envelope: the version, then the array of the result, whose
unset fields are `nil`, empty arrays and `false`, then the files. -/
def smallBytes (size : Nat) (overFile : Bool) : Bytes :=
  [148, 183, 48, 46, 51, 46, 48, 43, 114, 111, 108, 108, 100, 111, 119, 110, 45, 49, 46, 50, 46,
    120, 43, 50, 57, 220, 0, 18, 165, 114, 101, 97, 99, 116] ++
  [UInt8.ofNat size, UInt8.ofNat size, UInt8.ofNat size, UInt8.ofNat size, UInt8.ofNat size] ++
  [194, 194, 194, 194, 163, 108, 111, 119, 144, 192, 192, 144, 192, 192, 144] ++
  (if overFile then [145, 147, 167, 47, 119, 47, 97, 46, 106, 115, 3, 5] else [144]) ++ [144]

def smallCodec : Codec where
  toVec envelope :=
    let size := envelope.result.rawBytes.getD 0
    let overFile := !envelope.dependencyFingerprints.isEmpty
    if size < 128 ∧ envelope = smallEnvelope size overFile then .ok (smallBytes size overFile)
    else .error "outside the family"
  fromSlice bytes :=
    let size := (bytes.getD 34 0).toNat
    let overFile := bytes.getD 54 0 == 145
    if size < 128 ∧ bytes = smallBytes size overFile then some (smallEnvelope size overFile)
    else none
  identityFromSlice _ := none
  contentHash bytes := if bytes = [] then 0x2D06800538D394C2 else 0

theorem smallCodec_lawful : LawfulCodec smallCodec where
  fromSlice_toVec := by
    intro envelope bytes h
    simp only [smallCodec] at h ⊢
    split at h
    · rename_i hsmall
      obtain ⟨hsize, henvelope⟩ := hsmall
      generalize envelope.result.rawBytes.getD 0 = size at hsize henvelope h
      generalize (!envelope.dependencyFingerprints.isEmpty) = overFile at henvelope h
      cases h
      have hread : ((smallBytes size overFile).getD 34 0).toNat = size := by
        have hbyte : (smallBytes size overFile).getD 34 0 = UInt8.ofNat size := rfl
        rw [hbyte, UInt8.toNat_ofNat']
        omega
      have hfile : ((smallBytes size overFile).getD 54 0 == 145) = overFile := by
        cases overFile <;> rfl
      rw [hread, hfile, if_pos ⟨hsize, rfl⟩, henvelope]
      rfl
    · cases h

end ImportLens.Cache
