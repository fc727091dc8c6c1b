import ImportLens.Cache.Key
import Mathlib.Data.Finset.Insert
import Mathlib.Data.Finset.Erase
import Mathlib.Data.Finset.Image

/-!
# The tables of a disk shard and their transactions

A shard is one redb database with three tables: the cached values, a summary
row (total bytes, entry count, largest sequence number ever inserted) and an
index of `(last_seq, key)` pairs.  Each operation of this module is one write
transaction over the three.

A table operation may fail at any of its sites, and `Faults` chooses which do,
with the error text of the store.  A function that propagates the error leaves
its transaction without a commit; a function that discards it goes on, and the
model goes on in the same way.

Byte totals and counts are natural numbers: redb addresses a file with 64-bit
offsets, so the sums of stored lengths stay below `u64::MAX`, and the only way
`u64::try_from` fails in `write_summary` is a negative value.  A summary row
that is absent reads as 0 everywhere, so the summary is a record of three
numbers.
-/

namespace ImportLens.Cache

open ImportLens.Support

/-! ## Values -/

def seqPrefixLen : Nat := 8

/-- `u64::from_le_bytes`, on a byte list of any length. -/
def leValue : Bytes → Nat
  | [] => 0
  | byte :: rest => byte.toNat + 256 * leValue rest

/-- The recency sequence of a stored value, from its fixed 8-byte start; a
value too short to carry one reads as 0 and sorts as oldest. -/
def decodeLastSeq (bytes : Bytes) : Nat :=
  if seqPrefixLen ≤ bytes.length then leValue (bytes.take seqPrefixLen) else 0

/-! ## Tables -/

structure Summary where
  totalBytes : Nat
  entryCount : Nat
  maxSeq : Nat
  deriving DecidableEq, Repr

structure Shard where
  cache : Keyed Key Bytes
  summary : Summary
  seqIndex : Finset (Nat × Key)

namespace Shard

/-- A database as `ensure_schema` leaves a new one: three empty tables. -/
def empty : Shard := ⟨∅, ⟨0, 0, 0⟩, ∅⟩

end Shard

inductive Table
  | cache
  | summary
  | seqIndex
  deriving DecidableEq, Repr

inductive Field
  | totalBytes
  | entryCount
  | maxSeq
  deriving DecidableEq, Repr

/-- Which part of an operation a site belongs to: the scan for keys, the
maintenance of the tables, or the rebuild inside the same transaction. -/
inductive Phase
  | scan
  | maintain
  | rebuild
  deriving DecidableEq, Repr

/-- The individual operations of a transaction that can fail.  Loops number
their rounds, and an iteration names the row it reads. -/
inductive Site
  | beginRead
  | beginWrite
  | commit
  | openTable (phase : Phase) (table : Table)
  | tableLen
  | iter (phase : Phase)
  | readRow (phase : Phase) (key : Key)
  | getField (field : Field)
  | putField (phase : Phase) (field : Field)
  | insertRow (round : Nat)
  | removeRow (round : Nat)
  | removeIndex (round : Nat)
  | insertIndex (round : Nat)
  | rebuildIndex (key : Key)
  | retain (table : Table)
  deriving DecidableEq, Repr

abbrev Faults : Type := Site → Option String

def noFaults : Faults := fun _ => none

def fails (faults : Faults) (site : Site) : Bool := (faults site).isSome

/-- An operation whose error the caller propagates with `?`. -/
def attempt (faults : Faults) (site : Site) (message : String) : Except String Unit :=
  match faults site with
  | some error => .error (message ++ error)
  | none => .ok ()

section

variable (faults : Faults)

/-! ## Summary row -/

def Summary.get (summary : Summary) : Field → Nat
  | .totalBytes => summary.totalBytes
  | .entryCount => summary.entryCount
  | .maxSeq => summary.maxSeq

def readSummaryField (summary : Summary) (field : Field) : Nat :=
  match faults (.getField field) with
  | some _ => 0
  | none => summary.get field

/-- Write the totals back, and `maxSeq` when supplied.  A negative total means
the summary had drifted: nothing is written and the caller rebuilds. -/
def writeSummary (phase : Phase) (summary : Summary) (totalBytes entryCount : Int)
    (maxSeq : Option Nat) : Except String (Bool × Summary) :=
  if totalBytes < 0 ∨ entryCount < 0 then
    .ok (false, summary)
  else do
    attempt faults (.putField phase .totalBytes) "failed to write summary total bytes: "
    attempt faults (.putField phase .entryCount) "failed to write summary entry count: "
    match maxSeq with
    | some seq =>
        attempt faults (.putField phase .maxSeq) "failed to write summary max seq: "
        return (true, ⟨totalBytes.toNat, entryCount.toNat, seq⟩)
    | none => return (true, ⟨totalBytes.toNat, entryCount.toNat, summary.maxSeq⟩)

def openTables (phase : Phase) : Except String Unit := do
  attempt faults (.openTable phase .cache) "failed to open cache table: "
  attempt faults (.openTable phase .summary) "failed to open summary table: "
  attempt faults (.openTable phase .seqIndex) "failed to open seq index table: "

/-! ## Rebuild -/

/-- The locals of `rebuild_summary_in_txn` over its scan. -/
structure Recount where
  summary : Summary
  seqIndex : Finset (Nat × Key)

def recountRow (row : Key × Bytes) (acc : Recount) : Recount where
  summary :=
    { totalBytes := acc.summary.totalBytes + row.2.length
      entryCount := acc.summary.entryCount + 1
      maxSeq := max acc.summary.maxSeq (decodeLastSeq row.2) }
  seqIndex := insert (decodeLastSeq row.2, row.1) acc.seqIndex

def recountRows : List (Key × Bytes) → Recount → Except String Recount
  | [], acc => .ok acc
  | row :: rest, acc => do
      attempt faults (.readRow .rebuild row.1) "failed to read cache entry: "
      attempt faults (.rebuildIndex row.1) "failed to insert seq index entry: "
      recountRows rest (recountRow row acc)

def rebuildSummaryInTxn (shard : Shard) : Except String Shard := do
  openTables faults .rebuild
  attempt faults (.retain .seqIndex) "failed to clear seq index table: "
  attempt faults (.iter .rebuild) "failed to iterate cache table: "
  let acc ← recountRows faults shard.cache.rows ⟨⟨0, 0, 0⟩, ∅⟩
  let (_, summary) ← writeSummary faults .rebuild shard.summary acc.summary.totalBytes
    acc.summary.entryCount (some acc.summary.maxSeq)
  return ⟨shard.cache, summary, acc.seqIndex⟩

/-! ## Inserts -/

/-- The tables and locals of `write_pending_inserts` over its loop.  The totals
are signed, so that a replace by a smaller value may go below zero. -/
structure Ledger where
  cache : Keyed Key Bytes
  seqIndex : Finset (Nat × Key)
  totalBytes : Int
  entryCount : Int
  maxSeq : Nat

/-- What one insert does to the tables and locals: `insert` returns the prior
value, whose sequence and length drive the index and the byte total. -/
def insertRow (key : Key) (bytes : Bytes) (ledger : Ledger) : Ledger :=
  match ledger.cache.lookup key with
  | some old =>
      { cache := ledger.cache.insert key bytes
        seqIndex := insert (decodeLastSeq bytes, key)
          (ledger.seqIndex.erase (decodeLastSeq old, key))
        totalBytes := ledger.totalBytes + (bytes.length - old.length)
        entryCount := ledger.entryCount
        maxSeq := max ledger.maxSeq (decodeLastSeq bytes) }
  | none =>
      { cache := ledger.cache.insert key bytes
        seqIndex := insert (decodeLastSeq bytes, key) ledger.seqIndex
        totalBytes := ledger.totalBytes + bytes.length
        entryCount := ledger.entryCount + 1
        maxSeq := max ledger.maxSeq (decodeLastSeq bytes) }

/-- The loop of `write_pending_inserts`; only a replace touches the old index
pair. -/
def insertRows : Nat → List (Key × Bytes) → Ledger → Except String Ledger
  | _, [], ledger => .ok ledger
  | round, (key, bytes) :: rest, ledger => do
      attempt faults (.insertRow round) "failed to insert cache entry: "
      if (ledger.cache.lookup key).isSome then
        attempt faults (.removeIndex round) "failed to remove stale seq index entry: "
      attempt faults (.insertIndex round) "failed to insert seq index entry: "
      insertRows (round + 1) rest (insertRow key bytes ledger)

/-- The locals of `write_pending_inserts` before its loop. -/
def Ledger.start (shard : Shard) : Ledger where
  cache := shard.cache
  seqIndex := shard.seqIndex
  totalBytes := readSummaryField faults shard.summary .totalBytes
  entryCount := readSummaryField faults shard.summary .entryCount
  maxSeq := readSummaryField faults shard.summary .maxSeq

/-- The transaction of `write_pending_inserts` up to its commit. -/
def insertTxn (shard : Shard) (batch : List (Key × Bytes)) : Except String Shard := do
  openTables faults .maintain
  let ledger ← insertRows faults 0 batch (Ledger.start faults shard)
  let (consistent, summary) ← writeSummary faults .maintain shard.summary ledger.totalBytes
    ledger.entryCount (some ledger.maxSeq)
  if consistent then
    return ⟨ledger.cache, summary, ledger.seqIndex⟩
  else
    rebuildSummaryInTxn faults ⟨ledger.cache, summary, ledger.seqIndex⟩

def writePendingInserts (shard : Shard) (batch : Keyed Key Bytes) : Except String Shard := do
  attempt faults .beginWrite "failed to begin cache write: "
  let written ← insertTxn faults shard batch.rows
  attempt faults .commit "failed to commit cache write: "
  return written

/-! ## Removals -/

/-- The tables and locals of `maintain_removals` over its loop. -/
structure Removal where
  cache : Keyed Key Bytes
  seqIndex : Finset (Nat × Key)
  totalBytes : Int
  entryCount : Int
  freed : Nat

def removeRow (key : Key) (acc : Removal) : Removal :=
  match acc.cache.lookup key with
  | some old =>
      { cache := acc.cache.erase key
        seqIndex := acc.seqIndex.erase (decodeLastSeq old, key)
        totalBytes := acc.totalBytes - old.length
        entryCount := acc.entryCount - 1
        freed := acc.freed + old.length }
  | none => acc

def removeRows : Nat → List Key → Removal → Except String Removal
  | _, [], acc => .ok acc
  | round, key :: rest, acc => do
      attempt faults (.removeRow round) "failed to remove cache entry: "
      if (acc.cache.lookup key).isSome then
        attempt faults (.removeIndex round) "failed to remove seq index entry: "
      removeRows (round + 1) rest (removeRow key acc)

/-- The locals of `maintain_removals` before its loop. -/
def Removal.start (shard : Shard) : Removal where
  cache := shard.cache
  seqIndex := shard.seqIndex
  totalBytes := readSummaryField faults shard.summary .totalBytes
  entryCount := readSummaryField faults shard.summary .entryCount
  freed := 0

/-- Remove `keys` inside a transaction and return the bytes freed; the caller
owns the commit. -/
def maintainRemovals (shard : Shard) (keys : List Key) : Except String (Shard × Nat) := do
  openTables faults .maintain
  let acc ← removeRows faults 0 keys (Removal.start faults shard)
  let (consistent, summary) ← writeSummary faults .maintain shard.summary acc.totalBytes
    acc.entryCount none
  if consistent then
    return (⟨acc.cache, summary, acc.seqIndex⟩, acc.freed)
  else
    let rebuilt ← rebuildSummaryInTxn faults ⟨acc.cache, summary, acc.seqIndex⟩
    return (rebuilt, acc.freed)

/-- A removal transaction with its commit: the committed shard, and the bytes
freed when the commit went through. -/
def removalTxn (shard : Shard) (keys : List Key) : Shard × Option Nat :=
  if fails faults .beginWrite then (shard, none)
  else
    match maintainRemovals faults shard keys with
    | .ok (removed, freed) =>
        if fails faults .commit then (shard, none) else (removed, some freed)
    | .error _ => (shard, none)

/-- The table half of `DiskCache::remove`. -/
def removeFromTable (shard : Shard) (key : Key) : Shard := (removalTxn faults shard [key]).1

/-- The table half of `DiskCache::remove_keys`, with the freed bytes it reports. -/
def removeKeysFromTable (shard : Shard) (keys : List Key) : Shard × Nat :=
  if keys.isEmpty then (shard, 0)
  else
    let (committed, freed) := removalTxn faults shard keys
    (committed, freed.getD 0)

/-- The keys a scan of the cache table collects: a failed open or iteration
yields none, and a row that cannot be read is skipped. -/
def scanKeys (shard : Shard) (wanted : Key → Bool) : List Key :=
  if fails faults (.openTable .scan .cache) || fails faults (.iter .scan) then []
  else shard.cache.keys.filter fun key => !fails faults (.readRow .scan key) && wanted key

/-- The table half of `DiskCache::invalidate_packages`; the scan runs inside the
write transaction. -/
def invalidateInTable (shard : Shard) (wanted : Key → Bool) : Shard :=
  (removalTxn faults shard (scanKeys faults shard wanted)).1

/-- The table half of `DiskCache::purge_orphan_entries`, with the count it
reports; the scan runs in a read transaction of its own. -/
def purgeFromTable (shard : Shard) (orphan : Key → Bool) : Shard × Nat :=
  let orphanKeys := if fails faults .beginRead then [] else scanKeys faults shard orphan
  if orphanKeys.isEmpty then (shard, 0)
  else
    match removalTxn faults shard orphanKeys with
    | (committed, some _) => (committed, orphanKeys.length)
    | (committed, none) => (committed, 0)

/-! ## Clear and heal -/

/-- The transaction of `DiskCache::clear`.  Every error is discarded: a table
that cannot be opened or emptied keeps its rows, and the commit goes on. -/
def clearTables (shard : Shard) : Shard :=
  if fails faults .beginWrite then shard
  else
    let cleared : Shard :=
      { cache :=
          if fails faults (.openTable .maintain .cache) || fails faults (.retain .cache) then
            shard.cache
          else ∅
        seqIndex :=
          if fails faults (.openTable .maintain .seqIndex) || fails faults (.retain .seqIndex) then
            shard.seqIndex
          else ∅
        summary :=
          if fails faults (.openTable .maintain .summary) then shard.summary
          else
            { totalBytes :=
                if fails faults (.putField .maintain .totalBytes) then shard.summary.totalBytes
                else 0
              entryCount :=
                if fails faults (.putField .maintain .entryCount) then shard.summary.entryCount
                else 0
              maxSeq :=
                if fails faults (.putField .maintain .maxSeq) then shard.summary.maxSeq else 0 } }
    if fails faults .commit then shard else cleared

/-- The drift check on open: the summary's count against the row count, each
reading as 0 when it cannot be read. -/
def needsRebuild (shard : Shard) : Bool :=
  if fails faults .beginRead then false
  else
    let cacheLen :=
      if fails faults (.openTable .scan .cache) || fails faults .tableLen then 0
      else shard.cache.rows.length
    let summaryCount :=
      if fails faults (.openTable .scan .summary) then 0
      else readSummaryField faults shard.summary .entryCount
    cacheLen != summaryCount

def healSummaryIfInconsistent (shard : Shard) : Shard :=
  if needsRebuild faults shard then
    if fails faults .beginWrite then shard
    else
      match rebuildSummaryInTxn faults shard with
      | .ok rebuilt => if fails faults .commit then shard else rebuilt
      | .error _ => shard
  else shard

end

end ImportLens.Cache
