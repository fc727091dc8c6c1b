import ImportLens.Cache.Memory
import ImportLens.Support.Interleaving

/-!
# The cache under concurrent calls

Any number of threads call the import cache at once.  A step of a thread is one
section the source runs under a lock, or one access to the memory map or to an
atomic; `Effect` lists what such a section does to the shared state, `Position`
where a thread stands inside a call, and `next` says which section comes next.
Accesses to an entry that no other thread can reach yet are part of the
neighbouring step.

What is measured stays abstract.  A `Copy` is a measurement that passed the
durability gate, and the bytes of the queue and of the table are a copy with
the sequence they were encoded with.  Verdicts about files, failures of the
store, the flush backoff and the keys a cap pass evicts are choices of the
environment, one for each step.
-/

namespace ImportLens.Cache.Concurrent

open ImportLens.Support

variable {ν : Type}

/-! ## Copies -/

/-- A measurement with its history, which no step reads. -/
structure Copy (ν : Type) where
  value : ν
  /-- The number of the insert that brought it in. -/
  writer : Nat
  /-- The oldest clear generation captured by an operation it went through. -/
  oldest : Nat
  deriving DecidableEq, Repr

/-- The copy an operation makes after it captured `generation`. -/
def Copy.through (generation : Nat) (copy : Copy ν) : Copy ν :=
  { copy with oldest := min copy.oldest generation }

/-- An entry of the memory map; the cell is its identity. -/
structure Entry (ν : Type) where
  copy : Copy ν
  cell : Nat
  deriving DecidableEq, Repr

/-- A value of the queue or of the table. -/
structure Stored (ν : Type) where
  copy : Copy ν
  seq : Nat
  deriving DecidableEq, Repr

/-! ## Shared state -/

structure Shared (ν : Type) where
  memory : Keyed Key (Entry ν)
  queue : Keyed Key (Nat × Stored ν)
  /-- The committed rows, when the database is open.  A row without a value is
  one that a read refuses: undecodable or not durable. -/
  table : Option (Keyed Key (Option (Stored ν)))
  /-- The batch of the flush that holds `clear_lock`. -/
  inFlight : Keyed Key (Stored ν)
  clearGeneration : Nat
  /-- The thread that holds `clear_lock`. -/
  clearLock : Option Nat
  dirty : List Key
  heap : Heap
  /-- The number of the next insert. -/
  nextWriter : Nat

/-- What one atomic section does. -/
inductive Effect (ν : Type)
  | quiet
  /-- An insert builds its entry. -/
  | born
  /-- A value is decoded into a new entry. -/
  | hydrate (seq : Nat)
  | touch (cell : Nat)
  | mark (cell seq : Nat)
  | store (key : Key) (entry : Entry ν)
  | drop (key : Key)
  | addDirty (keys : List Key)
  | takeDirty
  | enqueue (key : Key) (generation : Nat) (stored : Stored ν)
  | unqueue (covers : Key → Bool)
  | untable (covers : Key → Bool)
  /-- A flush drops a queue that holds nothing of the current generation. -/
  | discard
  /-- A flush takes `clear_lock` and the queue. -/
  | take (thread : Nat)
  | commit
  | requeue
  /-- A clear takes `clear_lock` and bumps the generation. -/
  | bump (thread : Nat)
  | wipeTable
  | wipeQueue
  | wipeMemory

def Effect.apply (s : Shared ν) : Effect ν → Shared ν
  | quiet => s
  | born =>
      let (seq, ticked) := s.heap.nextSeq
      { s with
        heap := (ticked.alloc { lastSeq := seq, persistedSeq := seq }).2
        nextWriter := s.nextWriter + 1 }
  | hydrate seq =>
      { s with heap := ((s.heap.observe seq).alloc { lastSeq := seq, persistedSeq := seq }).2 }
  | touch cell =>
      let (seq, ticked) := s.heap.nextSeq
      { s with heap := ticked.modify cell fun cell => { cell with lastSeq := seq } }
  | mark cell seq =>
      { s with heap := s.heap.modify cell fun cell => { cell with persistedSeq := seq } }
  | store key entry => { s with memory := s.memory.insert key entry }
  | drop key => { s with memory := s.memory.erase key }
  | addDirty keys => { s with dirty := keys.foldl (fun dirty key => dirty.insert key) s.dirty }
  | takeDirty => { s with dirty := [] }
  | enqueue key generation stored =>
      { s with queue := shedOldest Stored.seq (s.queue.insert key (generation, stored)) }
  | unqueue covers => { s with queue := s.queue.retain fun key => !covers key }
  | untable covers =>
      { s with table := s.table.map fun rows => rows.retain fun key => !covers key }
  | discard => { s with queue := ∅ }
  | take thread =>
      { s with
        queue := ∅, inFlight := keptAt s.clearGeneration s.queue, clearLock := some thread }
  | commit =>
      { s with
        table := s.table.map fun rows =>
          rows.insertAll (s.inFlight.rows.map fun row => (row.1, some row.2))
        inFlight := ∅
        clearLock := none }
  | requeue =>
      { s with
        queue := shedOldest Stored.seq (requeueRows s.clearGeneration s.inFlight.rows s.queue)
        inFlight := ∅
        clearLock := none }
  | bump thread =>
      { s with clearGeneration := s.clearGeneration + 1, clearLock := some thread }
  | wipeTable => { s with table := s.table.map fun _ => ∅ }
  | wipeQueue => { s with queue := ∅, clearLock := none }
  | wipeMemory => { s with memory := ∅ }

/-! ## Positions -/

/-- The parameters of `lookup`. -/
structure ReadMode where
  promote : Bool := false
  requireFresh : Bool := false
  stale : StalePolicy := .evict
  deriving DecidableEq, Repr

/-- Who reads the disk: `DiskCache::get`, or a `lookup` that will mirror the
entry under the generation it captured. -/
inductive Reader
  | peek
  | hydrate (generation : Nat) (mode : ReadMode)
  deriving DecidableEq, Repr

def Reader.decode : Reader → Copy ν → Copy ν
  | peek, copy => copy
  | hydrate generation _, copy => copy.through generation

/-- The callers of `insert_at_generation`, with what they go on with. -/
inductive Caller (ν : Type)
  | insert
  | cap (seq : Nat) (keys : List Key)
  | replay (entries : List (Key × Entry ν)) (failed : List Key)
  | sweep (seq : Nat) (entries : List (Key × Entry ν)) (failed : List Key)

/-- The callers of `flush_pending_inserts`: a call of its own, an insert that
filled the queue, and `flush_to_disk`. -/
inductive Return (ν : Type)
  | idle
  | persisted (key : Key) (entry : Entry ν) (generation : Nat) (caller : Caller ν)
  | swept (failed : List Key)

/-- Where a thread stands inside a call. -/
inductive Position (ν : Type)
  | idle
  -- `insert_at_generation`
  | persist (key : Key) (entry : Entry ν) (generation : Nat) (caller : Caller ν)
  -- `flush_pending_inserts`
  | flush (after : Return ν)
  | flushWrite (after : Return ν)
  | flushRequeue (after : Return ν)
  -- `remove`, `remove_keys`, `invalidate_packages`
  | removeQueue (covers : Key → Bool)
  | removeTable (covers : Key → Bool)
  -- `clear`, after the bump
  | wipeTable
  | wipeQueue
  | wipeMemory
  | wipeDirty
  -- `insert_with_fingerprints_at_generation`, after a failed `insert_at_generation`
  | markDirty (key : Key) (entry : Entry ν) (generation : Nat)
  -- `insert_into_memory_guarded`
  | guard (key : Key) (entry : Entry ν) (generation : Nat)
  | store (key : Key) (entry : Entry ν) (generation : Nat)
  | recheck (key : Key) (entry : Entry ν) (generation : Nat)
  | rollback (key : Key) (entry : Entry ν) (generation : Nat)
  -- `enforce_memory_cap`
  | cap
  | capSnapshot (generation : Nat)
  | capLoop (generation : Nat) (keys : List Key)
  | capMark (generation : Nat) (key : Key) (cell seq : Nat) (keys : List Key)
  | capRemove (generation : Nat) (key : Key) (keys : List Key)
  -- `lookup`, memory arm
  | touch (key : Key) (entry : Entry ν) (mode : ReadMode)
  | judge (key : Key) (entry : Entry ν) (mode : ReadMode)
  | evict (key : Key) (cell : Nat)
  -- `lookup`, disk arm, and `get_entry`
  | capture (key : Key) (mode : ReadMode)
  | fetchQueue (key : Key) (reader : Reader)
  | fetchTable (key : Key) (reader : Reader)
  | judgeFetched (key : Key) (entry : Entry ν) (reader : Reader)
  -- `flush_to_disk`, after the capture
  | takeDirty (generation : Nat)
  | snapshotDirty (generation : Nat) (keys : List Key)
  | replay (generation : Nat) (entries : List (Key × Entry ν)) (failed : List Key)
  | snapshotPromoted (generation : Nat) (failed : List Key)
  | sweep (generation : Nat) (entries : List (Key × Entry ν)) (failed : List Key)
  | sweepMark (generation : Nat) (cell seq : Nat) (entries : List (Key × Entry ν))
      (failed : List Key)
  | restoreDirty (failed : List Key)

def Caller.ok (key : Key) (entry : Entry ν) (generation : Nat) : Caller ν → Position ν
  | insert => .guard key entry generation
  | cap seq keys => .capMark generation key entry.cell seq keys
  | replay entries failed => .replay generation entries failed
  | sweep seq entries failed => .sweepMark generation entry.cell seq entries failed

def Caller.failed (key : Key) (entry : Entry ν) (generation : Nat) : Caller ν → Position ν
  | insert => .markDirty key entry generation
  | cap _ keys => .capRemove generation key keys
  | replay entries failed => .replay generation entries (key :: failed)
  | sweep _ entries failed => .sweep generation entries failed

def Return.position : Return ν → Position ν
  | idle => .idle
  | persisted key entry generation caller => caller.ok key entry generation
  | swept failed => .restoreDirty failed

def Position.isIdle : Position ν → Bool
  | idle => true
  | _ => false

theorem Position.eq_idle {p : Position ν} (h : p.isIdle = true) : p = .idle := by
  cases p with
  | idle => rfl
  | _ => cases h

/-! ## Calls -/

inductive Call (ν : Type)
  | insert (key : Key) (value : ν)
  | flush
  | remove (covers : Key → Bool)
  | clear
  | lookup (key : Key) (mode : ReadMode)
  | peek (key : Key)
  | flushToDisk

/-- What the environment chooses for one step: the call an idle thread makes,
and how the step turns out. -/
structure Action (ν : Type) where
  call : Call ν := .flush
  verdict : Freshness := .fresh
  readFails : Bool := false
  writeFails : Bool := false
  encodeFails : Bool := false
  backoffOver : Bool := true
  /-- Whether the memory map is over a cap, and the keys that have to go. -/
  overCap : Bool := false
  victims : List Key := []

def begin (t : Nat) (s : Shared ν) : Call ν → Option (Effect ν × Position ν)
  | .insert key value =>
      let entry : Entry ν := ⟨⟨value, s.nextWriter, s.clearGeneration⟩, s.heap.next⟩
      some (.born, .persist key entry s.clearGeneration .insert)
  | .flush => some (.quiet, .flush .idle)
  | .remove covers => some (.quiet, .removeQueue covers)
  | .clear => if s.clearLock.isSome then none else some (.bump t, .wipeTable)
  | .lookup key mode =>
      match s.memory.lookup key with
      | some entry => some (.quiet, .touch key entry mode)
      | none => some (.quiet, .capture key mode)
  | .peek key => some (.quiet, .fetchQueue key .peek)
  | .flushToDisk => some (.quiet, .takeDirty s.clearGeneration)

/-- The next section of a thread, or nothing while it waits for
`clear_lock`. -/
def next (t : Nat) (a : Action ν) (s : Shared ν) : Position ν → Option (Effect ν × Position ν)
  | .idle => begin t s a.call
  | .persist key entry generation caller =>
      let ok := caller.ok key entry generation
      if s.table.isNone then some (.quiet, ok)
      else if a.encodeFails then some (.quiet, caller.failed key entry generation)
      else
        let stored : Stored ν :=
          ⟨entry.copy.through generation, (s.heap.cells entry.cell).lastSeq⟩
        let queued := shedOldest Stored.seq (s.queue.insert key (generation, stored))
        let shouldFlush := decide (insertFlushBatch ≤ queued.rows.length) && a.backoffOver
        some (.enqueue key generation stored,
          if shouldFlush then .flush (.persisted key entry generation caller) else ok)
  | .flush after =>
      if s.clearLock.isSome then none
      else if s.table.isNone || s.queue.rows.isEmpty then some (.quiet, after.position)
      else if (keptAt s.clearGeneration s.queue).rows.isEmpty then some (.discard, after.position)
      else some (.take t, .flushWrite after)
  | .flushWrite after =>
      if a.writeFails then some (.quiet, .flushRequeue after) else some (.commit, after.position)
  | .flushRequeue after => some (.requeue, after.position)
  | .removeQueue covers => some (.unqueue covers, .removeTable covers)
  | .removeTable covers => some (if a.writeFails then .quiet else .untable covers, .idle)
  | .wipeTable => some (if a.writeFails then .quiet else .wipeTable, .wipeQueue)
  | .wipeQueue => some (.wipeQueue, .wipeMemory)
  | .wipeMemory => some (.wipeMemory, .wipeDirty)
  | .wipeDirty => some (.takeDirty, .idle)
  | .markDirty key entry generation => some (.addDirty [key], .guard key entry generation)
  | .guard key entry generation =>
      some (.quiet, if s.clearGeneration ≠ generation then .cap else .store key entry generation)
  | .store key entry generation => some (.store key entry, .recheck key entry generation)
  | .recheck key entry generation =>
      some (.quiet, if s.clearGeneration ≠ generation then .rollback key entry generation else .cap)
  | .rollback key entry _ =>
      match s.memory.lookup key with
      | some current => some (if current.cell = entry.cell then .drop key else .quiet, .cap)
      | none => some (.quiet, .cap)
  | .cap => some (.quiet, if a.overCap then .capSnapshot s.clearGeneration else .idle)
  | .capSnapshot generation =>
      some (.quiet, .capLoop generation (a.victims.filter fun key => !s.dirty.contains key))
  | .capLoop _ [] => some (.quiet, .idle)
  | .capLoop generation (key :: keys) =>
      match s.memory.lookup key with
      | some entry =>
          let seq := (s.heap.cells entry.cell).lastSeq
          some (.quiet,
            if (s.heap.cells entry.cell).persistedSeq < seq then
              .persist key entry generation (.cap seq keys)
            else .capRemove generation key keys)
      | none => some (.quiet, .capRemove generation key keys)
  | .capMark generation key cell seq keys =>
      some (.mark cell seq, .capRemove generation key keys)
  | .capRemove generation key keys => some (.drop key, .capLoop generation keys)
  | .touch key entry mode =>
      some (if mode.promote then .touch entry.cell else .quiet, .judge key entry mode)
  | .judge key entry mode =>
      some (.quiet,
        if a.verdict = .gone ∨ (a.verdict = .stale ∧ mode.stale = .evict) then
          .evict key entry.cell
        else .idle)
  | .evict key cell =>
      match s.memory.lookup key with
      | some current =>
          if current.cell = cell then some (.drop key, .removeQueue fun key' => key' == key)
          else some (.quiet, .idle)
      | none => some (.quiet, .idle)
  | .capture key mode => some (.quiet, .fetchQueue key (.hydrate s.clearGeneration mode))
  | .fetchQueue key reader =>
      match s.queue.lookup key with
      | some (generation, stored) =>
          if generation ≠ s.clearGeneration then some (.quiet, .fetchTable key reader)
          else
            some (.hydrate stored.seq,
              .judgeFetched key ⟨reader.decode stored.copy, s.heap.next⟩ reader)
      | none => some (.quiet, .fetchTable key reader)
  | .fetchTable key reader =>
      if a.readFails then some (.quiet, .idle)
      else
        match s.table.bind fun rows => rows.lookup key with
        | none => some (.quiet, .idle)
        | some none => some (.quiet, .removeQueue fun key' => key' == key)
        | some (some stored) =>
            some (.hydrate stored.seq,
              .judgeFetched key ⟨reader.decode stored.copy, s.heap.next⟩ reader)
  | .judgeFetched key entry reader =>
      if a.verdict = .stale ∨ a.verdict = .gone then
        some (.quiet, .removeQueue fun key' => key' == key)
      else
        match reader with
        | .peek => some (.quiet, .idle)
        | .hydrate generation mode =>
            if a.verdict ≠ .fresh ∧ mode.requireFresh then some (.quiet, .idle)
            else
              some (if mode.promote then .touch entry.cell else .quiet,
                .guard key entry generation)
  | .takeDirty generation => some (.takeDirty, .snapshotDirty generation s.dirty)
  | .snapshotDirty generation keys =>
      let entries := keys.filterMap fun key =>
        (s.memory.lookup key).map fun entry => (key, entry)
      some (.quiet, .replay generation entries [])
  | .replay generation [] failed => some (.quiet, .snapshotPromoted generation failed)
  | .replay generation ((key, entry) :: entries) failed =>
      some (.quiet, .persist key entry generation (.replay entries failed))
  | .snapshotPromoted generation failed =>
      let promoted := s.memory.rows.filter fun row =>
        !failed.contains row.1 &&
          decide ((s.heap.cells row.2.cell).persistedSeq < (s.heap.cells row.2.cell).lastSeq)
      some (.quiet, .sweep generation promoted failed)
  | .sweep _ [] failed => some (.quiet, .flush (.swept failed))
  | .sweep generation ((key, entry) :: entries) failed =>
      let seqAtFlush := (s.heap.cells entry.cell).lastSeq
      some (.quiet, .persist key entry generation (.sweep seqAtFlush entries failed))
  | .sweepMark generation cell seq entries failed =>
      some (.mark cell seq, .sweep generation entries failed)
  | .restoreDirty failed => some (.addDirty failed, .idle)

def program : Program (Shared ν) (Position ν) (Action ν) := fun t a s position =>
  (next t a s position).map fun section_ => (section_.1.apply s, section_.2)

/-! ## Starting states -/

/-- A cache just built: nothing is queued, and memory holds some of the rows of
the table. -/
structure Initial (c : Config (Shared ν) (Position ν)) : Prop where
  idle : ∀ t, c.thread t = .idle
  queue : c.shared.queue = ∅
  inFlight : c.shared.inFlight = ∅
  clearLock : c.shared.clearLock = none
  mirrored : c.shared.memory.All fun key entry =>
    ∃ rows stored, c.shared.table = some rows ∧ rows.lookup key = some (some stored) ∧
      entry.copy = stored.copy
  cells : c.shared.memory.All fun _ entry => entry.cell < c.shared.heap.next
  history : ∀ rows, c.shared.table = some rows → rows.All fun _ row =>
    ∀ stored, row = some stored →
      stored.copy.writer < c.shared.nextWriter ∧ stored.copy.oldest ≤ c.shared.clearGeneration

def opened (ν : Type) : Config (Shared ν) (Position ν) where
  shared :=
    { memory := ∅
      queue := ∅
      table := some ∅
      inFlight := ∅
      clearGeneration := 0
      clearLock := none
      dirty := []
      heap := Heap.initial
      nextWriter := 0 }
  thread _ := .idle

theorem initial_opened (ν : Type) : Initial (opened ν) where
  idle _ := rfl
  queue := rfl
  inFlight := rfl
  clearLock := rfl
  mirrored := Keyed.all_empty _
  cells := Keyed.all_empty _
  history rows hrows := by
    cases hrows
    exact Keyed.all_empty _

/-- A thread that takes no step of a run from a starting state stays idle. -/
theorem Initial.idle_of_runs {c d : Config (Shared ν) (Position ν)}
    {guard : Config (Shared ν) (Position ν) → Nat → Action ν → Prop}
    {acts : List (Nat × Action ν)} (hc : Initial c) (h : Runs program guard c acts d) {u : Nat}
    (hu : u ∉ acts.map Prod.fst) : d.thread u = .idle := by
  rw [h.thread_of_notMem hu]
  exact hc.idle u

end ImportLens.Cache.Concurrent
