import ImportLens.Daemon.Protocol
import ImportLens.Support.Keyed
import Mathlib.Order.Basic
import Mathlib.Order.Lattice

/-!
# Cache keys and file fingerprints

A cache entry lists the files its measurement was derived from.  Each file is
recorded as a fingerprint (path, length, modification time and, when its bytes
were read, their hash), and a read of the entry asks the file system whether
each of them still holds.  The answer for the whole list is the worst answer
for one of its files, under `Unknown > Gone > Stale > Fresh`.

The file system is an oracle: what a `stat` and a read of each path answer.
Every check also lists the accesses it made, so that "the file was read again
during this call" is a statement about a value.
-/

namespace ImportLens.Cache

open ImportLens.Daemon ImportLens.Support

abbrev Bytes : Type := List UInt8

abbrev Key : Type := String

/-! ## Fingerprints -/

structure FileFingerprint where
  path : String
  len : Nat
  modifiedMillis : Nat
  contentHash : Option Nat
  deriving DecidableEq, Repr

def u64Max : Nat := 2 ^ 64 - 1

def fingerprintIsAbsent (fingerprint : FileFingerprint) : Bool :=
  fingerprint.len == u64Max && fingerprint.modifiedMillis == 0 &&
    fingerprint.contentHash.isNone

def fingerprintIsUnverifiable (fingerprint : FileFingerprint) : Bool :=
  fingerprint.len == u64Max && fingerprint.modifiedMillis == u64Max &&
    fingerprint.contentHash.isNone

abbrev Observation : Type := Nat × Nat × Option Nat

/-- The scan of `fingerprints_have_conflicting_snapshots`, over the
observations made so far. -/
def conflictScan (observed : Keyed String Observation) : List FileFingerprint → Bool
  | [] => false
  | fingerprint :: rest =>
      match observed.lookup fingerprint.path with
      | none =>
          conflictScan (observed.insert fingerprint.path
            (fingerprint.len, fingerprint.modifiedMillis, fingerprint.contentHash)) rest
      | some (len, modifiedMillis, knownHash) =>
          if len ≠ fingerprint.len ∨ modifiedMillis ≠ fingerprint.modifiedMillis then true
          else
            match knownHash, fingerprint.contentHash with
            | some left, some right => if left ≠ right then true else conflictScan observed rest
            | none, some hash =>
                conflictScan (observed.insert fingerprint.path
                  (len, modifiedMillis, some hash)) rest
            | _, none => conflictScan observed rest

def fingerprintsHaveConflictingSnapshots (fingerprints : List FileFingerprint) : Bool :=
  conflictScan ∅ fingerprints

def fingerprintsAreReusable (fingerprints : List FileFingerprint) : Bool :=
  !fingerprints.any fingerprintIsUnverifiable &&
    !fingerprintsHaveConflictingSnapshots fingerprints

def unverifiableFileFingerprint (identityPath : String) : FileFingerprint :=
  ⟨identityPath, u64Max, u64Max, none⟩

/-- The order of `sort_and_dedup_fingerprints`: path, length, time, hash. -/
def fingerprintLe (left right : FileFingerprint) : Bool :=
  ((((compare left.path right.path).then (compare left.len right.len)).then
    (compare left.modifiedMillis right.modifiedMillis)).then
      (compare left.contentHash right.contentHash)).isLE

def sortAndDedupFingerprints (fingerprints : List FileFingerprint) : List FileFingerprint :=
  (fingerprints.mergeSort fingerprintLe).eraseReps

/-! ## Freshness -/

inductive Freshness
  | fresh
  | stale
  | gone
  | unknown
  deriving DecidableEq, Repr

namespace Freshness

/-- The precedence of the verdicts: a transient error outranks everything, so
that it never leads to a destructive decision. -/
def rank : Freshness → Nat
  | fresh => 0
  | stale => 1
  | gone => 2
  | unknown => 3

theorem rank_injective : Function.Injective rank := by
  intro a b h
  cases a <;> cases b <;> first | rfl | cases h

instance : LinearOrder Freshness := LinearOrder.lift' rank rank_injective

@[simp] theorem fresh_le (a : Freshness) : fresh ≤ a := Nat.zero_le _

@[simp] theorem le_unknown (a : Freshness) : a ≤ unknown := by
  cases a <;> decide

theorem le_fresh_iff {a : Freshness} : a ≤ fresh ↔ a = fresh := by
  cases a <;> decide

theorem unknown_le_iff {a : Freshness} : unknown ≤ a ↔ a = unknown := by
  cases a <;> decide

def worst (verdicts : List Freshness) : Freshness := verdicts.foldr max fresh

@[simp] theorem worst_nil : worst [] = fresh := rfl

@[simp] theorem worst_cons (v : Freshness) (vs : List Freshness) :
    worst (v :: vs) = max v (worst vs) := rfl

theorem le_worst {v : Freshness} {vs : List Freshness} (h : v ∈ vs) : v ≤ worst vs := by
  induction vs with
  | nil => cases h
  | cons w ws ih =>
      rw [worst_cons]
      rcases List.mem_cons.mp h with rfl | hmem
      · exact le_max_left _ _
      · exact (ih hmem).trans (le_max_right _ _)

theorem worst_eq_unknown {vs : List Freshness} (h : unknown ∈ vs) : worst vs = unknown :=
  unknown_le_iff.mp (le_worst h)

theorem worst_eq_fresh_iff {vs : List Freshness} :
    worst vs = fresh ↔ ∀ v ∈ vs, v = fresh := by
  constructor
  · intro h v hv
    exact le_fresh_iff.mp (h ▸ le_worst hv)
  · intro h
    induction vs with
    | nil => rfl
    | cons w ws ih =>
        have hw : w = fresh := h w (by simp)
        have hws : worst ws = fresh := ih fun v hv => h v (by simp [hv])
        rw [worst_cons, hw, hws, max_self]

theorem worst_perm {vs ws : List Freshness} (h : vs.Perm ws) : worst vs = worst ws :=
  h.foldr_eq fresh

end Freshness

/-! ## Checks against the file system -/

inductive ErrorKind
  | notFound
  | other
  deriving DecidableEq, Repr

structure Metadata where
  len : Nat
  modifiedMillis : Nat
  deriving DecidableEq, Repr

/-- What the file system answers during one call, path by path. -/
structure FileSystem where
  metadata : String → Except ErrorKind Metadata
  read : String → Except ErrorKind Bytes

inductive Access
  | stat (path : String)
  | read (path : String)
  deriving DecidableEq, Repr

/-- The verdict of a check with the accesses it made, in order. -/
structure Probe where
  verdict : Freshness
  accesses : List Access

def classifyStatError : ErrorKind → Freshness
  | .notFound => .gone
  | .other => .unknown

section

variable (contentHash : Bytes → Nat) (fs : FileSystem)

/-- Read `path` again and compare its hash with the stored one. -/
def verifyContentHash (path : String) (expected : Nat) : Probe where
  verdict :=
    match fs.read path with
    | .ok bytes => if contentHash bytes = expected then .fresh else .stale
    | .error kind => classifyStatError kind
  accesses := [.read path]

def checkFingerprint (stored : FileFingerprint) : Probe :=
  if fingerprintIsAbsent stored then
    { verdict :=
        match fs.metadata stored.path with
        | .ok _ => .stale
        | .error .notFound => .fresh
        | .error kind => classifyStatError kind
      accesses := [.stat stored.path] }
  else
    match fs.metadata stored.path with
    | .error kind => ⟨classifyStatError kind, [.stat stored.path]⟩
    | .ok metadata =>
        if metadata.len = stored.len ∧ metadata.modifiedMillis = stored.modifiedMillis then
          ⟨.fresh, [.stat stored.path]⟩
        else
          match stored.contentHash with
          | some expected =>
              let probe := verifyContentHash contentHash fs stored.path expected
              ⟨probe.verdict, .stat stored.path :: probe.accesses⟩
          | none => ⟨.stale, [.stat stored.path]⟩

/-- Like `checkFingerprint`, but a stored hash is always compared. -/
def checkFingerprintStrict (stored : FileFingerprint) : Probe :=
  match stored.contentHash with
  | some expected => verifyContentHash contentHash fs stored.path expected
  | none => checkFingerprint contentHash fs stored

/-- Whether `needle` occurs in `text`, as `str::contains` decides it. -/
def containsText (text needle : String) : Bool :=
  text.toList.tails.any fun tail => needle.toList.isPrefixOf tail

/-- An input under `node_modules`, which changes only through an install. -/
def fingerprintIsInstalled (fingerprint : FileFingerprint) : Bool :=
  containsText fingerprint.path "/node_modules/"

/-- The check `check_fingerprints_strict` chooses for one fingerprint. -/
def checkRouted (fingerprint : FileFingerprint) : Probe :=
  if fingerprintIsInstalled fingerprint then checkFingerprint contentHash fs fingerprint
  else checkFingerprintStrict contentHash fs fingerprint

/-- The loop of `check_fingerprints_strict`: `worst` so far, and the accesses
made so far.  It returns at the first transient error. -/
def checkLoop (worst : Freshness) (accesses : List Access) : List FileFingerprint → Probe
  | [] => ⟨worst, accesses⟩
  | fingerprint :: rest =>
      let probe := checkRouted contentHash fs fingerprint
      match probe.verdict with
      | .unknown => ⟨.unknown, accesses ++ probe.accesses⟩
      | .gone => checkLoop .gone (accesses ++ probe.accesses) rest
      | .stale =>
          checkLoop (if worst = .fresh then .stale else worst) (accesses ++ probe.accesses) rest
      | .fresh => checkLoop worst (accesses ++ probe.accesses) rest

/-- Worst freshness across a set, comparing hashes outside `node_modules`. -/
def checkFingerprintsStrict (fingerprints : List FileFingerprint) : Probe :=
  checkLoop contentHash fs .fresh [] fingerprints

variable {contentHash fs}

/-- The early return does not change the verdict: the loop computes the worst
of what it was given and of every remaining check. -/
theorem checkLoop_verdict {worst : Freshness} (hworst : worst ≠ .unknown)
    (accesses : List Access) (fingerprints : List FileFingerprint) :
    (checkLoop contentHash fs worst accesses fingerprints).verdict =
      max worst (Freshness.worst
        (fingerprints.map fun fingerprint =>
          (checkRouted contentHash fs fingerprint).verdict)) := by
  induction fingerprints generalizing worst accesses with
  | nil => simp [checkLoop]
  | cons fingerprint rest ih =>
      simp only [checkLoop, List.map_cons, Freshness.worst_cons]
      cases hv : (checkRouted contentHash fs fingerprint).verdict with
      | unknown =>
          rw [max_eq_left (Freshness.le_unknown _), max_eq_right (Freshness.le_unknown _)]
      | gone =>
          rw [ih (by decide), ← max_assoc]
          congr 1
          cases worst <;> first | rfl | exact absurd rfl hworst
      | stale =>
          rw [ih (by cases worst <;> simp_all), ← max_assoc]
          congr 1
          cases worst <;> rfl
      | fresh =>
          rw [ih hworst, max_eq_right (Freshness.fresh_le _)]

theorem checkFingerprintsStrict_verdict (fingerprints : List FileFingerprint) :
    (checkFingerprintsStrict contentHash fs fingerprints).verdict =
      Freshness.worst
        (fingerprints.map fun fingerprint =>
          (checkRouted contentHash fs fingerprint).verdict) := by
  rw [checkFingerprintsStrict, checkLoop_verdict (by decide),
    max_eq_right (Freshness.fresh_le _)]

/-- Unless a transient error stopped it, the loop made every access of every
check. -/
theorem checkLoop_accesses {worst : Freshness} {accesses : List Access}
    {fingerprints : List FileFingerprint}
    (h : (checkLoop contentHash fs worst accesses fingerprints).verdict ≠ .unknown) :
    (∀ access ∈ accesses,
        access ∈ (checkLoop contentHash fs worst accesses fingerprints).accesses) ∧
      ∀ fingerprint ∈ fingerprints,
        ∀ access ∈ (checkRouted contentHash fs fingerprint).accesses,
          access ∈ (checkLoop contentHash fs worst accesses fingerprints).accesses := by
  induction fingerprints generalizing worst accesses with
  | nil => simp [checkLoop]
  | cons fingerprint rest ih =>
      -- every branch but the early return is the loop on `rest`, with the
      -- accesses of this check appended
      have hrec : ∃ w, checkLoop contentHash fs worst accesses (fingerprint :: rest) =
          checkLoop contentHash fs w
            (accesses ++ (checkRouted contentHash fs fingerprint).accesses) rest := by
        cases hv : (checkRouted contentHash fs fingerprint).verdict with
        | unknown => exact absurd (by simp [checkLoop, hv]) h
        | gone => exact ⟨.gone, by simp [checkLoop, hv]⟩
        | stale => exact ⟨if worst = .fresh then .stale else worst, by simp [checkLoop, hv]⟩
        | fresh => exact ⟨worst, by simp [checkLoop, hv]⟩
      obtain ⟨w, hw⟩ := hrec
      rw [hw] at h ⊢
      obtain ⟨hseen, hrest⟩ := ih h
      refine ⟨fun access hmem => hseen _ (by simp [hmem]), ?_⟩
      intro fp hfp access hmem
      rcases List.mem_cons.mp hfp with rfl | hfp
      · exact hseen _ (by simp [hmem])
      · exact hrest fp hfp access hmem

theorem checkFingerprintsStrict_fresh_iff {fingerprints : List FileFingerprint} :
    (checkFingerprintsStrict contentHash fs fingerprints).verdict = .fresh ↔
      ∀ fingerprint ∈ fingerprints,
        (checkRouted contentHash fs fingerprint).verdict = .fresh := by
  rw [checkFingerprintsStrict_verdict, Freshness.worst_eq_fresh_iff]
  simp

theorem checkFingerprintsStrict_accesses {fingerprints : List FileFingerprint}
    (h : (checkFingerprintsStrict contentHash fs fingerprints).verdict ≠ .unknown)
    {fingerprint : FileFingerprint} (hmem : fingerprint ∈ fingerprints) {access : Access}
    (haccess : access ∈ (checkRouted contentHash fs fingerprint).accesses) :
    access ∈ (checkFingerprintsStrict contentHash fs fingerprints).accesses :=
  (checkLoop_accesses h).2 fingerprint hmem access haccess

/-- A hashed fingerprint outside `node_modules` is fresh only when its file was
read and its hash agrees. -/
theorem checkRouted_hashed (contentHash : Bytes → Nat) (fs : FileSystem)
    {fingerprint : FileFingerprint} {expected : Nat}
    (hinstalled : fingerprintIsInstalled fingerprint = false)
    (hhash : fingerprint.contentHash = some expected) :
    Access.read fingerprint.path ∈ (checkRouted contentHash fs fingerprint).accesses ∧
      ((checkRouted contentHash fs fingerprint).verdict = .fresh ↔
        ∃ bytes, fs.read fingerprint.path = .ok bytes ∧ contentHash bytes = expected) := by
  have hrouted : checkRouted contentHash fs fingerprint =
      verifyContentHash contentHash fs fingerprint.path expected := by
    simp [checkRouted, hinstalled, checkFingerprintStrict, hhash]
  rw [hrouted]
  refine ⟨by simp [verifyContentHash], ?_⟩
  cases hread : fs.read fingerprint.path with
  | ok bytes => simp [verifyContentHash, hread]
  | error kind => cases kind <;> simp [verifyContentHash, hread, classifyStatError]

end

/-! ## Keys -/

/-- `CARGO_PKG_VERSION` and the analyzer revision. -/
def analyzerVersion : String := "0.3.0+rolldown-1.2.x+29"

structure CacheIdentity where
  analyzerVersion : String
  specifier : String
  packageName : String
  packageVersion : String
  packageRoot : Option String
  entryPath : Option String
  runtime : ImportRuntime
  importKind : ImportKind
  namedExports : List String
  deriving DecidableEq, Repr

def hexValue (c : Char) : Option Nat :=
  if '0' ≤ c ∧ c ≤ '9' then some (c.toNat - '0'.toNat)
  else if 'a' ≤ c ∧ c ≤ 'f' then some (c.toNat - 'a'.toNat + 10)
  else if 'A' ≤ c ∧ c ≤ 'F' then some (c.toNat - 'A'.toNat + 10)
  else none

def hexDecode : List Char → Option Bytes
  | [] => some []
  | [_] => none
  | high :: low :: rest => do
      let h ← hexValue high
      let l ← hexValue low
      let bytes ← hexDecode rest
      return UInt8.ofNat (16 * h + l) :: bytes

section

variable (identityFromSlice : Bytes → Option CacheIdentity)

/-- A key is `v4:` and the hex of its serialized identity. -/
def decodeCacheIdentity (key : Key) : Option CacheIdentity :=
  match key.toList with
  | 'v' :: '4' :: ':' :: encoded => (hexDecode encoded).bind identityFromSlice
  | _ => none

/-- The key's resolved entry has no `node_modules` segment, so it changes
without a cache-generation bump. -/
def cacheKeyIsFirstParty (key : Key) : Bool :=
  match (decodeCacheIdentity identityFromSlice key).bind CacheIdentity.entryPath with
  | some entryPath => !(entryPath.toList.splitOn '/').any (· == "node_modules".toList)
  | none => false

def cacheKeyIsOrphan (pathIsDefinitelyGone : String → Bool) (currentAnalyzerVersion : String)
    (key : Key) : Bool :=
  match decodeCacheIdentity identityFromSlice key with
  | none => false
  | some identity =>
      if identity.analyzerVersion ≠ currentAnalyzerVersion then true
      else if identity.entryPath.any pathIsDefinitelyGone then true
      else identity.packageRoot.any pathIsDefinitelyGone

/-- A key without an identity is matched by a plain `name@` or `name/` start. -/
def cacheKeyMatchesAnyPackage (packageNames : List String) (key : Key) : Bool :=
  match decodeCacheIdentity identityFromSlice key with
  | some identity => packageNames.contains identity.packageName
  | none =>
      packageNames.any fun packageName =>
        (packageName ++ "@").toList.isPrefixOf key.toList ||
          (packageName ++ "/").toList.isPrefixOf key.toList

end

end ImportLens.Cache
