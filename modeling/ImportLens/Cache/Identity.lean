import ImportLens.Cache.StoredValue
import ImportLens.Pipeline.FileSize
import ImportLens.Support.SortedDedup

/-!
# The identity behind a cache key

A key is the serialized identity of an import, in hex.  The identity names what the
measurement depends on: the analyzer, the request and the package it resolved to.
Its names are kept as a sorted list without repeats, and only for a named import.
-/

namespace ImportLens.Cache

open ImportLens.Daemon ImportLens.Support ImportLens.Support.Positional
open ImportLens.Pipeline.FileSize (ImportRequest ResolvedPackage)

/-! ## The identity of a request -/

/-- `/` separates on Windows too, where `\` does. -/
def identityPathString (windows : Bool) (path : String) : String :=
  if windows then String.ofList (path.toList.map fun c => if c = '\\' then '/' else c) else path

section

variable (windows : Bool) (canonicalize : String → Option String)

def normalizeIdentityPath (path : String) : String :=
  identityPathString windows ((canonicalize path).getD path)

def cacheIdentityForImport (request : ImportRequest) (resolved : Option ResolvedPackage) :
    CacheIdentity where
  analyzerVersion := Cache.analyzerVersion
  specifier := request.specifier
  packageName := request.packageName
  packageVersion := request.version
  packageRoot := resolved.map fun package =>
    normalizeIdentityPath windows canonicalize package.packageRoot
  entryPath := resolved.map fun package =>
    normalizeIdentityPath windows canonicalize package.entryPath
  runtime := request.runtime
  importKind := request.importKind
  namedExports := sortDedup (if request.importKind = .named then request.named else [])

end

/-! ## Its serialized form -/

namespace Stored

def runtimeName : ImportRuntime → String
  | .component => "component"
  | .client => "client"
  | .server => "server"

def importKindName : ImportKind → String
  | .named => "named"
  | .defaultExport => "default"
  | .namespaceExport => "namespace"
  | .dynamic => "dynamic"

def runtime : Shape ImportRuntime := variant runtimeName [.component, .client, .server]

def importKind : Shape ImportKind :=
  variant importKindName [.named, .defaultExport, .namespaceExport, .dynamic]

def cacheIdentity : Shape CacheIdentity :=
  record
    (fun identity =>
      [text.encode identity.analyzerVersion, text.encode identity.specifier,
        text.encode identity.packageName, text.encode identity.packageVersion,
        (option text).encode identity.packageRoot, (option text).encode identity.entryPath,
        runtime.encode identity.runtime, importKind.encode identity.importKind,
        (list text).encode identity.namedExports]) do
    let analyzerVersion ← next text
    let specifier ← next text
    let packageName ← next text
    let packageVersion ← next text
    let packageRoot ← next (option text)
    let entryPath ← next (option text)
    let runtime ← next runtime
    let importKind ← next importKind
    let namedExports ← next (list text)
    return {
      analyzerVersion, specifier, packageName, packageVersion, packageRoot, entryPath, runtime,
      importKind, namedExports }

theorem runtime_lawful : runtime.Lawful :=
  variant_lawful fun runtime => by cases runtime <;> rfl

theorem importKind_lawful : importKind.Lawful :=
  variant_lawful fun kind => by cases kind <;> rfl

theorem cacheIdentity_lawful : cacheIdentity.Lawful := by
  intro identity
  apply record_decode
  rw [bind_of_eq (next_encode text_lawful _ _), bind_of_eq (next_encode text_lawful _ _),
    bind_of_eq (next_encode text_lawful _ _), bind_of_eq (next_encode text_lawful _ _),
    bind_of_eq (next_encode optionText_lawful _ _),
    bind_of_eq (next_encode optionText_lawful _ _),
    bind_of_eq (next_encode runtime_lawful _ _), bind_of_eq (next_encode importKind_lawful _ _),
    bind_of_eq (next_encode (list_lawful text_lawful) _ _)]
  rfl

end Stored

/-! ## Hex -/

/-- `HEX` -/
def hexDigits : List Char := "0123456789abcdef".toList

def hexDigit (n : Nat) : Char := hexDigits.getD n '0'

def hexEncode (bytes : Bytes) : List Char :=
  bytes.flatMap fun byte => [hexDigit (byte.toNat / 16), hexDigit (byte.toNat % 16)]

theorem hexValue_hexDigit : ∀ n < 16, hexValue (hexDigit n) = some n := by
  decide

theorem hexDecode_hexEncode (bytes : Bytes) : hexDecode (hexEncode bytes) = some bytes := by
  induction bytes with
  | nil => rfl
  | cons byte bytes ih =>
    have hlt : byte.toNat < 256 := byte.toNat_lt
    have hhigh := hexValue_hexDigit (byte.toNat / 16) (by omega)
    have hlow := hexValue_hexDigit (byte.toNat % 16) (by omega)
    have hbyte : 16 * (byte.toNat / 16) + byte.toNat % 16 = byte.toNat := Nat.div_add_mod _ _
    rw [hexEncode, List.flatMap_cons, List.cons_append, List.cons_append, List.nil_append,
      hexDecode, hhigh, hlow]
    change (hexDecode (hexEncode bytes)).bind _ = _
    rw [ih, Option.bind_some, hbyte, UInt8.ofNat_toNat]
    rfl

theorem hexDecode_some {encoded : List Char} {bytes : Bytes}
    (h : hexDecode encoded = some bytes) :
    encoded.length = 2 * bytes.length ∧ ∀ c ∈ encoded, (hexValue c).isSome := by
  fun_induction hexDecode encoded generalizing bytes with
  | case1 =>
    cases h
    exact ⟨rfl, fun _ hin => absurd hin List.not_mem_nil⟩
  | case2 => cases h
  | case3 high low rest ih =>
    obtain ⟨hv, hhigh, h⟩ := Option.bind_eq_some_iff.mp h
    obtain ⟨lv, hlow, h⟩ := Option.bind_eq_some_iff.mp h
    obtain ⟨tail, htail, h⟩ := Option.bind_eq_some_iff.mp h
    cases h
    obtain ⟨hlength, hdigits⟩ := ih htail
    refine ⟨?_, ?_⟩
    · rw [List.length_cons, List.length_cons, List.length_cons, hlength]
      omega
    · simp only [List.forall_mem_cons, hhigh, hlow, Option.isSome_some, true_and]
      exact hdigits

/-! ## Keys -/

def encodeCacheIdentity (pack : MsgPack) (identity : CacheIdentity) : Key :=
  let bytes := match pack.write (Stored.cacheIdentity.encode identity) with
    | .ok bytes => bytes
    | .error _ => []
  String.ofList ("v4:".toList ++ hexEncode bytes)

/-- `rmp_serde::from_slice` of an identity. -/
def identityFromBytes (pack : MsgPack) (bytes : Bytes) : Option CacheIdentity :=
  (pack.read bytes).bind Stored.cacheIdentity.decode

def cacheKeyForResolvedImport (pack : MsgPack) (windows : Bool)
    (canonicalize : String → Option String) (request : ImportRequest)
    (resolved : ResolvedPackage) : Key :=
  encodeCacheIdentity pack (cacheIdentityForImport windows canonicalize request (some resolved))

section

variable {pack : MsgPack} {identity other : CacheIdentity}

theorem decodeCacheIdentity_encode
    (hpack : pack.RoundTrips (Stored.cacheIdentity.encode identity)) :
    decodeCacheIdentity (identityFromBytes pack) (encodeCacheIdentity pack identity) =
      some identity := by
  obtain ⟨bytes, hwrite, hread⟩ := hpack
  have hkey : (encodeCacheIdentity pack identity).toList =
      'v' :: '4' :: ':' :: hexEncode bytes := by
    rw [encodeCacheIdentity, hwrite, String.toList_ofList]
    rfl
  rw [decodeCacheIdentity, hkey]
  change (hexDecode (hexEncode bytes)).bind _ = _
  rw [hexDecode_hexEncode, Option.bind_some, identityFromBytes, hread, Option.bind_some]
  exact Stored.cacheIdentity_lawful identity

theorem encodeCacheIdentity_inj (hpack : pack.RoundTrips (Stored.cacheIdentity.encode identity))
    (hother : pack.RoundTrips (Stored.cacheIdentity.encode other)) :
    encodeCacheIdentity pack identity = encodeCacheIdentity pack other ↔ identity = other := by
  constructor
  · intro heq
    have hdecode := decodeCacheIdentity_encode hpack
    rw [heq, decodeCacheIdentity_encode hother] at hdecode
    exact (Option.some.inj hdecode).symm
  · exact fun heq => heq ▸ rfl

/-- A key that decodes has the version in front and a payload of digit pairs. -/
theorem decodeCacheIdentity_some {fromSlice : Bytes → Option CacheIdentity} {key : Key}
    (h : decodeCacheIdentity fromSlice key = some identity) :
    ∃ encoded, key.toList = "v4:".toList ++ encoded ∧ encoded.length % 2 = 0 ∧
      ∀ c ∈ encoded, (hexValue c).isSome := by
  unfold decodeCacheIdentity at h
  split at h
  · rename_i encoded hkey
    obtain ⟨bytes, hbytes, -⟩ := Option.bind_eq_some_iff.mp h
    obtain ⟨hlength, hdigits⟩ := hexDecode_some hbytes
    exact ⟨encoded, hkey, by omega, hdigits⟩
  · cases h

end

/-- Two requests name the same import of a package. -/
structure SameImport (a b : ImportRequest) : Prop where
  specifier : a.specifier = b.specifier
  packageName : a.packageName = b.packageName
  version : a.version = b.version
  runtime : a.runtime = b.runtime
  importKind : a.importKind = b.importKind
  named : a.importKind = .named → ∀ name, name ∈ a.named ↔ name ∈ b.named

theorem cacheIdentityForImport_eq_iff (windows : Bool) (canonicalize : String → Option String)
    (resolved : ResolvedPackage) (a b : ImportRequest) :
    cacheIdentityForImport windows canonicalize a (some resolved) =
      cacheIdentityForImport windows canonicalize b (some resolved) ↔ SameImport a b := by
  constructor
  · intro heq
    have hkind : a.importKind = b.importKind := congrArg CacheIdentity.importKind heq
    refine ⟨congrArg CacheIdentity.specifier heq, congrArg CacheIdentity.packageName heq,
      congrArg CacheIdentity.packageVersion heq, congrArg CacheIdentity.runtime heq, hkind, ?_⟩
    intro hnamed
    have hnames := congrArg CacheIdentity.namedExports heq
    simp only [cacheIdentityForImport, ← hkind, hnamed, if_true] at hnames
    exact sortDedup_eq_iff.mp hnames
  · intro h
    have hnames : sortDedup (if a.importKind = .named then a.named else []) =
        sortDedup (if b.importKind = .named then b.named else []) := by
      rw [← h.importKind]
      split
      · rename_i hnamed
        exact sortDedup_eq_iff.mpr (h.named hnamed)
      · rfl
    simp only [cacheIdentityForImport, h.specifier, h.packageName, h.version, h.runtime, hnames]
    rw [h.importKind]

/-- Over the identities the serializer reads back, keys are faithful: they decode to what
they were made from, differ for different identities, and for one resolved package are
equal exactly for the same import.  What decodes is a key of this version. -/
theorem cache_keys_faithful (pack : MsgPack) (domain : CacheIdentity → Prop)
    (hpack : ∀ identity, domain identity → pack.RoundTrips (Stored.cacheIdentity.encode identity)) :
    (∀ identity, domain identity →
      decodeCacheIdentity (identityFromBytes pack) (encodeCacheIdentity pack identity) =
        some identity) ∧
    (∀ identity other, domain identity → domain other →
      (encodeCacheIdentity pack identity = encodeCacheIdentity pack other ↔ identity = other)) ∧
    (∀ windows canonicalize resolved (a b : ImportRequest),
      domain (cacheIdentityForImport windows canonicalize a (some resolved)) →
      domain (cacheIdentityForImport windows canonicalize b (some resolved)) →
      (cacheKeyForResolvedImport pack windows canonicalize a resolved =
          cacheKeyForResolvedImport pack windows canonicalize b resolved ↔ SameImport a b)) ∧
    ∀ key identity, decodeCacheIdentity (identityFromBytes pack) key = some identity →
      ∃ encoded, key.toList = "v4:".toList ++ encoded ∧ encoded.length % 2 = 0 ∧
        ∀ c ∈ encoded, (hexValue c).isSome := by
  refine ⟨fun identity hin => decodeCacheIdentity_encode (hpack identity hin),
    fun identity other hin hother => encodeCacheIdentity_inj (hpack _ hin) (hpack _ hother), ?_,
    fun key identity => decodeCacheIdentity_some⟩
  intro windows canonicalize resolved a b ha hb
  rw [cacheKeyForResolvedImport, cacheKeyForResolvedImport,
    encodeCacheIdentity_inj (hpack _ ha) (hpack _ hb)]
  exact cacheIdentityForImport_eq_iff windows canonicalize resolved a b

/-! ## Two spellings of one import -/

def reactPackage : ResolvedPackage := ⟨"/p/react", "/p/react/index.js"⟩

def reactImport (names : List String) : ImportRequest where
  specifier := "react"
  packageName := "react"
  version := "19.0.0"
  named := names
  importKind := .named

def reactIdentity : CacheIdentity :=
  cacheIdentityForImport false some (reactImport ["a", "b"]) (some reactPackage)

/-- The serializer on that identity: an array of nine, with strings of fewer than 32 bytes. -/
def reactPack : MsgPack where
  write value :=
    if Stored.cacheIdentity.decode value = some reactIdentity then .ok reactBytes
    else .error "another value"
  read bytes :=
    if bytes = reactBytes then some (Stored.cacheIdentity.encode reactIdentity) else none
where
  reactBytes : Bytes :=
    [153, 183, 48, 46, 51, 46, 48, 43, 114, 111, 108, 108, 100, 111, 119, 110, 45, 49, 46, 50, 46,
      120, 43, 50, 57, 165, 114, 101, 97, 99, 116, 165, 114, 101, 97, 99, 116, 166, 49, 57, 46,
      48, 46, 48, 168, 47, 112, 47, 114, 101, 97, 99, 116, 177, 47, 112, 47, 114, 101, 97, 99,
      116, 47, 105, 110, 100, 101, 120, 46, 106, 115, 169, 99, 111, 109, 112, 111, 110, 101, 110,
      116, 165, 110, 97, 109, 101, 100, 146, 161, 97, 161, 98]

theorem reactPack_roundTrips :
    reactPack.RoundTrips (Stored.cacheIdentity.encode reactIdentity) := by
  refine ⟨reactPack.reactBytes, ?_, ?_⟩
  · simp only [reactPack, Stored.cacheIdentity_lawful reactIdentity, if_true]
  · simp only [reactPack, if_true]

/-- Order and repetition of the names do not change the key. -/
theorem cache_key_of_reordered_names :
    cacheKeyForResolvedImport reactPack false some (reactImport ["b", "a", "b"]) reactPackage =
      cacheKeyForResolvedImport reactPack false some (reactImport ["a", "b"]) reactPackage := by
  have hsame : SameImport (reactImport ["b", "a", "b"]) (reactImport ["a", "b"]) := by
    refine ⟨rfl, rfl, rfl, rfl, rfl, fun _ name => ?_⟩
    simp only [reactImport, List.mem_cons, List.not_mem_nil, or_false]
    tauto
  have hidentity := (cacheIdentityForImport_eq_iff false some reactPackage _ _).mpr hsame
  obtain ⟨-, -, hkeys, -⟩ := cache_keys_faithful reactPack (· = reactIdentity)
    (by rintro _ rfl; exact reactPack_roundTrips)
  exact (hkeys false some reactPackage _ _ hidentity rfl).mpr hsame

end ImportLens.Cache
