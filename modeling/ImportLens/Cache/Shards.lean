import ImportLens.Cache.Memory
import ImportLens.Support.Mutex

/-!
# The shard of a project root

Any number of threads call `cache_for_root` and `remove_shard_by_id` for one
project root.  The shared state is the shard's slot in the `loaded` map, its load
lock and its directory.  What one thread does under `loaded` is one step, and so
is each operation on the file system, whose outcome the environment chooses.
-/

namespace ImportLens.Cache.Shards

open ImportLens.Support

/-! ## Registered shards -/

/-- When the failed disk open of a shard is tried again. -/
structure DiskRetry where
  nextAttemptMillis : Nat
  intervalMillis : Nat
  deriving DecidableEq, Repr

namespace DiskRetry

def firstIntervalMillis : Nat := 2000

def maxIntervalMillis : Nat := 30000

def startingAt (now : Nat) : DiskRetry :=
  ⟨saturate (now + firstIntervalMillis), firstIntervalMillis⟩

def claim (retry : DiskRetry) (now : Nat) : Option DiskRetry :=
  if now < retry.nextAttemptMillis then none
  else
    let intervalMillis := min (retry.intervalMillis * 2) maxIntervalMillis
    some ⟨saturate (now + intervalMillis), intervalMillis⟩

end DiskRetry

/-- A cache with the identity of its `Arc`. -/
structure ImportCache where
  id : Nat
  diskAvailable : Bool
  deriving DecidableEq, Repr

structure LoadedProjectCache where
  cache : ImportCache
  lastUsedMillis : Nat
  lastMetadataWriteMillis : Nat
  diskRetry : Option DiskRetry
  deriving DecidableEq, Repr

def projectMetadataWriteIntervalMillis : Nat := 60000

def shouldWriteProjectMetadata (lastWriteMillis nowMillis : Nat) : Bool :=
  projectMetadataWriteIntervalMillis ≤ nowMillis - lastWriteMillis

/-- What a warm hit goes on with after it has released `loaded`: the cache it
serves, whether it has claimed the retry, and the metadata write it captured. -/
structure Hit where
  cache : Nat
  retryDisk : Bool
  pendingMetadata : Option Nat
  deriving DecidableEq, Repr

/-- `warm_shard_hit` of a loaded shard, up to the release of `loaded`. -/
def warmShardHit (storageEnabled : Bool) (now : Nat) (claimRetry : Bool)
    (shard : LoadedProjectCache) : LoadedProjectCache × Hit :=
  let shard := { shard with lastUsedMillis := now }
  let claimed := if claimRetry then shard.diskRetry.bind (·.claim now) else none
  let shard := { shard with diskRetry := claimed.or shard.diskRetry }
  if shard.diskRetry.isNone && shouldWriteProjectMetadata shard.lastMetadataWriteMillis now then
    ({ shard with lastMetadataWriteMillis := now },
      ⟨shard.cache.id, claimed.isSome, if storageEnabled then some now else none⟩)
  else (shard, ⟨shard.cache.id, claimed.isSome, none⟩)

/-! ## The directory -/

/-- The directory of the shard: whether it has a database, and the last use that
its metadata names. -/
structure Directory where
  database : Bool := false
  metadata : Option Nat := none
  deriving DecidableEq, Repr

inductive MetadataWrite
  | noDirectory
  | notWritten
  | written
  deriving DecidableEq

/-- `write_metadata`: `create_dir_all` comes first. -/
def writeMetadata (outcome : MetadataWrite) (lastUsedMillis : Nat)
    (directory : Option Directory) : Option Directory :=
  match outcome with
  | .noDirectory => directory
  | .notWritten => some (directory.getD {})
  | .written => some { directory.getD {} with metadata := some lastUsedMillis }

/-- How `open_database` ends; a failed open may leave a database file or none. -/
inductive DatabaseOpen
  | noDirectory
  | failed (database : Bool)
  | opened
  deriving DecidableEq

/-- `open_database` of a shard that may not exist, and whether it is open then.
Without storage there is no path to open. -/
def openDatabase (storageEnabled : Bool) (outcome : DatabaseOpen)
    (directory : Option Directory) : Option Directory × Bool :=
  if storageEnabled then
    match outcome with
    | .noDirectory => (directory, false)
    | .failed database => (some { directory.getD {} with database := database }, false)
    | .opened => (some { directory.getD {} with database := true }, true)
  else (directory, false)

structure CacheOperationResult where
  removed : Bool
  error : Option String
  deriving DecidableEq, Repr

/-- The end of `remove_shard_database` on a database that exists. -/
inductive Deletion
  | deleted
  | alreadyOpen
  | failed (error : String)
  deriving DecidableEq

/-- The error of `remove_shard_database`. -/
def Deletion.error : Deletion → Option String
  | deleted => none
  | alreadyOpen =>
      some ("the cache shard is still open (another Import Lens window, or a request still " ++
        "using it); nothing was removed")
  | failed error => some error

/-- The end of `remove_dir_all` on a directory that exists; a failed one may have
removed some of it. -/
inductive Removal
  | removed
  | failed (error : String) (left : Directory)
  deriving DecidableEq

/-! ## The program -/

structure Shared where
  /-- The slot of the shard in `loaded`. -/
  loaded : Option LoadedProjectCache
  loadLock : Option Nat
  directory : Option Directory
  /-- The identity of the next cache to be made. -/
  nextCache : Nat

inductive Call
  | cacheForRoot
  | removeShardById
  deriving DecidableEq

/-- Where a thread is in its call. -/
inductive Position
  | idle
  -- `cache_for_root`, first look
  | warmHit (now : Nat)
  | warmWrite (lastUsedMillis : Nat) (hit : Hit)
  -- `retry_disk_open`
  | retryAcquire (cache : Nat)
  | retryHeld (cache : Nat)
  | retryOpening (cache : Nat)
  | retryReopened (cache : Nat)
  | retryWrite (lastUsedMillis cache : Nat)
  -- the cold path
  | coldAcquire (now : Nat)
  | coldHeld (now : Nat)
  | coldHitWrite (lastUsedMillis cache : Nat)
  | coldOpening (now : Nat)
  | coldOpened (shard : LoadedProjectCache)
  | coldInsert (shard : LoadedProjectCache)
  | release (cache : Nat)
  | served (cache : Nat)
  -- `remove_shard_by_id`
  | removeAcquire
  | removeHeld
  | removeTaken (shard : Option LoadedProjectCache)
  | removeOpening
  | removeDirectory
  | removeRelease (result : CacheOperationResult)
  | removed (result : CacheOperationResult)
  deriving DecidableEq

/-- What the environment chooses for a step. -/
structure Choice where
  call : Call := .cacheForRoot
  now : Nat := 0
  opened : DatabaseOpen := .opened
  write : MetadataWrite := .written
  deletion : Deletion := .deleted
  removal : Removal := .removed

/-- `cache_for_root` after its first warm hit. -/
def Hit.next (hit : Hit) : Position :=
  if hit.retryDisk then .retryAcquire hit.cache else .served hit.cache

def acquire (t : Nat) (s : Shared) (position : Position) : Option (Shared × Position) :=
  if s.loadLock.isNone then some ({ s with loadLock := some t }, position) else none

/-- The retry still finds `cache` registered. -/
def stillRegistered (s : Shared) (cache : Nat) : Bool :=
  s.loaded.any fun shard => shard.cache.id == cache

def program (storageEnabled : Bool) : Program Shared Position Choice := fun t a s position =>
  match position with
  | .idle =>
      some (s, match a.call with
        | .cacheForRoot => .warmHit a.now
        | .removeShardById => .removeAcquire)
  | .warmHit now =>
      match s.loaded with
      | none => some (s, .coldAcquire now)
      | some shard =>
          let (shard, hit) := warmShardHit storageEnabled now true shard
          some ({ s with loaded := some shard },
            match hit.pendingMetadata with
            | some lastUsedMillis => .warmWrite lastUsedMillis hit
            | none => hit.next)
  -- no lock is held here
  | .warmWrite lastUsedMillis hit =>
      some ({ s with directory := writeMetadata a.write lastUsedMillis s.directory }, hit.next)
  | .retryAcquire cache => acquire t s (.retryHeld cache)
  | .retryHeld cache =>
      some (s, if stillRegistered s cache then .retryOpening cache else .release cache)
  | .retryOpening cache =>
      if s.loaded.any fun shard => shard.cache.diskAvailable then some (s, .retryReopened cache)
      else
        let (directory, opened) := openDatabase storageEnabled a.opened s.directory
        if opened then
          some ({ s with
            directory := directory
            loaded := s.loaded.map fun shard =>
              { shard with cache := { shard.cache with diskAvailable := true } } },
            .retryReopened cache)
        else some ({ s with directory := directory }, .release cache)
  | .retryReopened cache =>
      match s.loaded with
      | none => some (s, .release cache)
      | some shard =>
          some ({ s with
            loaded := some { shard with
              diskRetry := none
              lastMetadataWriteMillis := shard.lastUsedMillis } },
            if storageEnabled then .retryWrite shard.lastUsedMillis cache else .release cache)
  | .retryWrite lastUsedMillis cache =>
      some ({ s with directory := writeMetadata a.write lastUsedMillis s.directory },
        .release cache)
  | .coldAcquire now => acquire t s (.coldHeld now)
  | .coldHeld now =>
      match s.loaded with
      | none => some (s, .coldOpening now)
      | some shard =>
          let (shard, hit) := warmShardHit storageEnabled now false shard
          some ({ s with loaded := some shard },
            match hit.pendingMetadata with
            | some lastUsedMillis => .coldHitWrite lastUsedMillis hit.cache
            | none => .release hit.cache)
  | .coldHitWrite lastUsedMillis cache =>
      some ({ s with directory := writeMetadata a.write lastUsedMillis s.directory },
        .release cache)
  | .coldOpening now =>
      let (directory, opened) := openDatabase storageEnabled a.opened s.directory
      let shard : LoadedProjectCache :=
        { cache := ⟨s.nextCache, opened⟩
          lastUsedMillis := now
          lastMetadataWriteMillis := now
          diskRetry := if storageEnabled && !opened then some (.startingAt now) else none }
      some ({ s with directory := directory, nextCache := s.nextCache + 1 }, .coldOpened shard)
  | .coldOpened shard =>
      some ({ s with
        directory :=
          if shard.diskRetry.isNone && storageEnabled then
            writeMetadata a.write shard.lastUsedMillis s.directory
          else s.directory }, .coldInsert shard)
  | .coldInsert shard => some ({ s with loaded := some shard }, .release shard.cache.id)
  | .release cache => some ({ s with loadLock := none }, .served cache)
  | .served _ => some (s, .idle)
  | .removeAcquire => acquire t s .removeHeld
  | .removeHeld => some ({ s with loaded := none }, .removeTaken s.loaded)
  | .removeTaken shard =>
      -- the metadata comes from the shard, else from the directory
      let metadata := (shard.map LoadedProjectCache.lastUsedMillis).or
        (s.directory.bind Directory.metadata)
      if metadata.isNone && s.directory.isNone then
        some (s, .removeRelease ⟨false, some "cache shard not found"⟩)
      else if storageEnabled then some (s, .removeOpening)
      else some (s, .removeRelease ⟨true, none⟩)
  | .removeOpening =>
      match s.directory with
      | none => some (s, .removeDirectory)
      | some directory =>
          if directory.database then
            match a.deletion.error with
            | some error => some (s, .removeRelease ⟨false, some error⟩)
            | none =>
                some ({ s with directory := some { directory with database := false } },
                  .removeDirectory)
          else some (s, .removeDirectory)
  | .removeDirectory =>
      match s.directory, a.removal with
      | none, _ => some (s, .removeRelease ⟨true, none⟩)
      | some _, .removed => some ({ s with directory := none }, .removeRelease ⟨true, none⟩)
      | some _, .failed error left =>
          some ({ s with directory := some left }, .removeRelease ⟨false, some error⟩)
  | .removeRelease result => some ({ s with loadLock := none }, .removed result)
  | .removed _ => some (s, .idle)

def started (storageEnabled : Bool) (directory : Option Directory) : Config Shared Position where
  shared :=
    { loaded := none
      loadLock := none
      directory := if storageEnabled then directory else none
      nextCache := 0 }
  thread _ := .idle

end ImportLens.Cache.Shards
