import ImportLens.Extension.PackageJsonRows
import Mathlib.Data.List.Perm.Subperm

/-!
# The bulk refresh of registry hints

A request names many targets.  What the cache can answer is reported at once, every
other target becomes a job of the registry lane, and a newer request for the same
manifest cancels what has not started.  The results arrive in any order over a channel,
go out in batches as they come, and once more together at the end.
-/

namespace ImportLens.Daemon.RegistryRefresh

open ImportLens.Extension.PackageJson (RegistryHint)

/-! ## Messages -/

structure RegistryHintTarget where
  name : String
  installedVersion : Option String
  deriving DecidableEq, Repr

inductive RegistryHintOrigin
  | cache
  | network
  deriving DecidableEq, Repr

structure RegistryHintLookup where
  hint : Option RegistryHint
  error : Option String
  origin : RegistryHintOrigin
  deriving DecidableEq, Repr

structure RegistryHintResult where
  target : RegistryHintTarget
  hint : Option RegistryHint
  error : Option String
  origin : Option String
  deriving DecidableEq, Repr

structure RefreshRegistryHintsResponse where
  version : Nat
  requestId : Nat
  results : List RegistryHintResult
  indexes : Option (List Nat)
  error : Option String
  diagnostics : List ImportDiagnostic
  deriving DecidableEq, Repr

def RefreshRegistryHintsResponse.indexed (response : RefreshRegistryHintsResponse) :
    List (Nat × RegistryHintResult) :=
  (response.indexes.getD []).zip response.results

def registryHintResultFromLookup (target : RegistryHintTarget) (lookup : RegistryHintLookup) :
    RegistryHintResult where
  target := target
  hint := lookup.hint
  error := lookup.error
  origin := some (match lookup.origin with
    | .cache => "cache"
    | .network => "network")

def workerPanicked (target : RegistryHintTarget) : RegistryHintResult where
  target := target
  hint := none
  error := some "registry worker panicked"
  origin := none

def noResult (target : RegistryHintTarget) : RegistryHintResult where
  target := target
  hint := none
  error := some "registry refresh worker did not return a result"
  origin := none

def finalRegistryResults (ordered : List (Option RegistryHintResult))
    (targets : List RegistryHintTarget) (cancelled : Bool) : List RegistryHintResult :=
  (ordered.zip targets).filterMap fun slot =>
    match slot.1 with
    | some result => some result
    | none => if cancelled then none else some (noResult slot.2)

/-! ## The block and its forwarder -/

abbrev Job : Type := Nat × RegistryHintTarget

def enumerate (targets : List RegistryHintTarget) : List Job :=
  targets.zipIdx.map fun entry => (entry.2, entry.1)

/-- Where `spawn_registry_refresh_block` stands in its two loops. -/
inductive Block
  | scanning (ahead pending : List Job)
  | answering (ahead : List (Job × Option RegistryHintLookup))
  deriving DecidableEq, Repr

inductive Forwarder
  /-- At `recv`, with nothing in hand. -/
  | receiving
  /-- At `try_recv`, with the vectors of a response. -/
  | draining (indexes : List Nat) (results : List RegistryHintResult)
  /-- The channel is closed and the hints are written to disk. -/
  | flushed
  /-- The response is queued, built under this reading of the flag. -/
  | answered (cancelled : Bool)
  deriving DecidableEq, Repr

structure Config where
  cancelled : Bool
  block : Block
  /-- Jobs on the lane. -/
  queued : List Job
  /-- Jobs that read the flag and fetch. -/
  fetching : List Job
  channel : List (Nat × RegistryHintResult)
  forwarder : Forwarder
  orderedResults : List (Option RegistryHintResult)
  /-- The streamed responses. -/
  outbound : List RefreshRegistryHintsResponse
  /-- The response that answers the request. -/
  answer : Option RefreshRegistryHintsResponse
  /-- Every result that was sent over the channel; nothing reads it. -/
  reported : List (Nat × RegistryHintResult)
  deriving DecidableEq, Repr

def start (targets : List RegistryHintTarget) : Config where
  cancelled := false
  block := .scanning (enumerate targets) []
  queued := []
  fetching := []
  channel := []
  forwarder := .receiving
  orderedResults := List.replicate targets.length none
  outbound := []
  answer := none
  reported := []

/-- `on_result`: a skipped job sends nothing. -/
def Config.onResult (c : Config) (index : Nat) : Option RegistryHintResult → Config
  | none => c
  | some result =>
      { c with
        channel := c.channel ++ [(index, result)]
        reported := c.reported ++ [(index, result)] }

/-- What the parties to a request do next, in any order. -/
inductive Action
  /-- A newer request for the manifest, or the end of the connection. -/
  | cancel
  /-- The next round of a loop of `spawn_registry_refresh_block`. -/
  | block
  /-- A queued job starts. -/
  | start (place : Nat)
  /-- A fetch ends with a lookup, or panics. -/
  | finish (place : Nat) (lookup : Option RegistryHintLookup)
  /-- A job unwinds before its call of `on_result`. -/
  | abandon (place : Nat)
  /-- The next step of the forwarder. -/
  | forward

section

variable (cachedLookups : List RegistryHintTarget → List (Option RegistryHintLookup))

def Config.answerJob (c : Config) (job : Job) (cachedLookup : Option RegistryHintLookup) :
    Config :=
  if c.cancelled then c.onResult job.1 none
  else
    match cachedLookup with
    | some lookup => c.onResult job.1 (some (registryHintResultFromLookup job.2 lookup))
    | none => { c with queued := c.queued ++ [job] }

def Config.advanceBlock (c : Config) : Option Config :=
  match c.block with
  | .scanning ((index, target) :: ahead) pending =>
      if c.cancelled then
        some ({ c with block := .scanning ahead pending }.onResult index none)
      else some { c with block := .scanning ahead (pending ++ [(index, target)]) }
  | .scanning [] pending =>
      some { c with block := .answering (pending.zip (cachedLookups (pending.map Prod.snd))) }
  | .answering ((job, cachedLookup) :: ahead) =>
      some ({ c with block := .answering ahead }.answerJob job cachedLookup)
  | .answering [] => none

def Config.startJob (c : Config) (place : Nat) : Option Config :=
  c.queued[place]?.map fun job =>
    let c := { c with queued := c.queued.eraseIdx place }
    if c.cancelled then c.onResult job.1 none else { c with fetching := c.fetching ++ [job] }

def Config.finishJob (c : Config) (place : Nat) (lookup : Option RegistryHintLookup) :
    Option Config :=
  c.fetching[place]?.map fun job =>
    let result := match lookup with
      | some lookup => registryHintResultFromLookup job.2 lookup
      | none => workerPanicked job.2
    { c with fetching := c.fetching.eraseIdx place }.onResult job.1 (some result)

def Config.abandonJob (c : Config) (place : Nat) : Option Config :=
  c.fetching[place]?.map fun _ => { c with fetching := c.fetching.eraseIdx place }

end

def Config.closed (c : Config) : Bool :=
  c.block == .answering [] && c.queued.isEmpty && c.fetching.isEmpty

variable (version requestId : Nat) (targets : List RegistryHintTarget)

def streamed (indexes : List Nat) (results : List RegistryHintResult) :
    RefreshRegistryHintsResponse where
  version := version
  requestId := requestId
  results := results
  indexes := some indexes
  error := none
  diagnostics := []

def finalResponse (results : List RegistryHintResult) : RefreshRegistryHintsResponse where
  version := version
  requestId := requestId
  results := results
  indexes := none
  error := none
  diagnostics := []

/-- `ordered_results[*index] = Some(result)` over the two vectors. -/
def place (ordered : List (Option RegistryHintResult)) (batch : List (Nat × RegistryHintResult)) :
    List (Option RegistryHintResult) :=
  batch.foldl (fun ordered entry => ordered.set entry.1 (some entry.2)) ordered

def Config.forward (c : Config) : Option Config :=
  if c.block ≠ .answering [] then none
  else
    match c.forwarder, c.channel with
    | .receiving, (index, result) :: channel =>
        some { c with channel := channel, forwarder := .draining [index] [result] }
    | .receiving, [] => if c.closed then some { c with forwarder := .flushed } else none
    | .draining indexes results, (index, result) :: channel =>
        some { c with
          channel := channel
          forwarder := .draining (indexes ++ [index]) (results ++ [result]) }
    | .draining indexes results, [] =>
        some { c with
          forwarder := .receiving
          orderedResults := place c.orderedResults (indexes.zip results)
          outbound := c.outbound ++ [streamed version requestId indexes results] }
    | .flushed, _ =>
        some { c with
          forwarder := .answered c.cancelled
          answer := some (finalResponse version requestId
            (finalRegistryResults c.orderedResults targets c.cancelled)) }
    | .answered _, _ => none

def Config.step (cachedLookups : List RegistryHintTarget → List (Option RegistryHintLookup))
    (c : Config) : Action → Option Config
  | .cancel => some { c with cancelled := true }
  | .block => c.advanceBlock cachedLookups
  | .start place => c.startJob place
  | .finish place lookup => c.finishJob place lookup
  | .abandon place => c.abandonJob place
  | .forward => c.forward version requestId targets

def Config.run (cachedLookups : List RegistryHintTarget → List (Option RegistryHintLookup))
    (c : Config) (actions : List Action) : Option Config :=
  actions.foldlM (fun c action => c.step version requestId targets cachedLookups action) c

/-! ## What is known of every target -/

def Block.jobs : Block → List Job
  | .scanning ahead pending => pending ++ ahead
  | .answering ahead => ahead.map Prod.fst

def Config.carried (c : Config) : List Job :=
  c.block.jobs ++ c.queued ++ c.fetching ++ c.reported.map fun entry => (entry.1, entry.2.target)

section

variable {c d : Config} {job : Job}

theorem count_eq_of_getElem? {jobs : List Job} {place : Nat} (h : jobs[place]? = some job)
    (other : Job) :
    jobs.count other = (jobs.eraseIdx place).count other + [job].count other := by
  obtain ⟨hlt, rfl⟩ := List.getElem?_eq_some_iff.mp h
  have hperm := List.getElem_cons_eraseIdx_perm hlt
  rw [← hperm.count_eq other, ← List.singleton_append, List.count_append, Nat.add_comm]

theorem count_onResult (c : Config) (index : Nat) (result : RegistryHintResult) (other : Job) :
    (c.onResult index (some result)).carried.count other =
      c.carried.count other + [(index, result.target)].count other := by
  simp only [Config.onResult, Config.carried, List.map_append, List.count_append, List.map_cons,
    List.map_nil]
  omega

theorem answerJob_carried (c : Config) (job : Job) (cachedLookup : Option RegistryHintLookup)
    (other : Job) :
    (c.answerJob job cachedLookup).carried.count other ≤
      c.carried.count other + [job].count other := by
  unfold Config.answerJob
  split
  · exact Nat.le_add_right _ _
  · split
    · exact Nat.le_of_eq (count_onResult ..)
    · simp only [Config.carried, List.count_append]
      omega

theorem advanceBlock_carried
    {cachedLookups : List RegistryHintTarget → List (Option RegistryHintLookup)}
    (h : c.advanceBlock cachedLookups = some d) (other : Job) :
    d.carried.count other ≤ c.carried.count other := by
  unfold Config.advanceBlock at h
  split at h
  · rename_i index target ahead pending hblock
    split at h
    · cases h
      simp only [Config.onResult, Config.carried, hblock, Block.jobs, List.count_append,
        List.count_cons]
      omega
    · cases h
      simp only [Config.carried, hblock, Block.jobs, List.count_append, List.count_cons,
        List.count_nil]
      omega
  · rename_i pending hblock
    cases h
    have hzip : ((pending.zip (cachedLookups (pending.map Prod.snd))).map Prod.fst).count other ≤
        pending.count other := by
      rw [List.zip_eq_zip_take_min, List.map_fst_zip (by simp)]
      exact (List.take_sublist _ _).count_le other
    simp only [Config.carried, hblock, Block.jobs, List.count_append, List.count_nil]
    omega
  · rename_i job cachedLookup ahead hblock
    cases h
    apply Nat.le_trans (answerJob_carried _ job cachedLookup other)
    simp only [Config.carried, hblock, Block.jobs, List.map_cons, List.count_append,
      List.count_cons, List.count_nil]
    omega
  · cases h

theorem startJob_carried {place : Nat} (h : c.startJob place = some d) (other : Job) :
    d.carried.count other ≤ c.carried.count other := by
  obtain ⟨job, hjob, rfl⟩ := Option.map_eq_some_iff.mp h
  have hcount := count_eq_of_getElem? hjob other
  dsimp only
  split
  · simp only [Config.onResult, Config.carried, List.count_append]
    omega
  · simp only [Config.carried, List.count_append]
    omega

theorem finishJob_carried {place : Nat} {lookup : Option RegistryHintLookup}
    (h : c.finishJob place lookup = some d) (other : Job) :
    d.carried.count other ≤ c.carried.count other := by
  obtain ⟨job, hjob, rfl⟩ := Option.map_eq_some_iff.mp h
  have hcount := count_eq_of_getElem? hjob other
  have htarget : ∀ result : RegistryHintResult, result.target = job.2 →
      ({ c with fetching := c.fetching.eraseIdx place }.onResult job.1
        (some result)).carried.count other = c.carried.count other := by
    intro result hresult
    rw [count_onResult, hresult, Prod.eta]
    simp only [Config.carried, List.count_append]
    omega
  apply Nat.le_of_eq
  cases lookup with
  | none => exact htarget _ rfl
  | some lookup => exact htarget _ rfl

theorem abandonJob_carried {place : Nat} (h : c.abandonJob place = some d) (other : Job) :
    d.carried.count other ≤ c.carried.count other := by
  obtain ⟨job, hjob, rfl⟩ := Option.map_eq_some_iff.mp h
  have hcount := count_eq_of_getElem? hjob other
  simp only [Config.carried, List.count_append]
  omega

end

/-! ## What is known of the forwarder -/

def Forwarder.inHand : Forwarder → List (Nat × RegistryHintResult)
  | .receiving => []
  | .draining indexes results => indexes.zip results
  | .flushed => []
  | .answered _ => []

def Forwarder.ended : Forwarder → Bool
  | .flushed => true
  | .answered _ => true
  | _ => false

/-- What a step of any other party leaves as it is. -/
structure Config.Sends (c d : Config) : Prop where
  forwarder : d.forwarder = c.forwarder
  orderedResults : d.orderedResults = c.orderedResults
  outbound : d.outbound = c.outbound
  answer : d.answer = c.answer
  sent : ∃ sent, d.channel = c.channel ++ sent ∧ d.reported = c.reported ++ sent
  idle : c.closed = true → d.closed = true ∧ d.channel = c.channel

section

variable {c d : Config}

theorem closed_iff :
    c.closed = true ↔ c.block = .answering [] ∧ c.queued = [] ∧ c.fetching = [] := by
  rw [Config.closed, Bool.and_eq_true, Bool.and_eq_true, beq_iff_eq, List.isEmpty_iff,
    List.isEmpty_iff, and_assoc]

/-- A step of an open block that sends `sent`. -/
theorem sends_of_open (hopen : c.closed = false) (sent : List (Nat × RegistryHintResult))
    (hforwarder : d.forwarder = c.forwarder) (hordered : d.orderedResults = c.orderedResults)
    (houtbound : d.outbound = c.outbound) (hanswer : d.answer = c.answer)
    (hchannel : d.channel = c.channel ++ sent) (hreported : d.reported = c.reported ++ sent) :
    c.Sends d where
  forwarder := hforwarder
  orderedResults := hordered
  outbound := houtbound
  answer := hanswer
  sent := ⟨sent, hchannel, hreported⟩
  idle := by
    intro hclosed
    rw [hopen] at hclosed
    cases hclosed

theorem open_of_queued {place : Nat} {job : Job} (h : c.queued[place]? = some job) :
    c.closed = false := by
  rw [← Bool.not_eq_true, closed_iff]
  rintro ⟨-, hqueued, -⟩
  rw [hqueued] at h
  cases h

theorem open_of_fetching {place : Nat} {job : Job} (h : c.fetching[place]? = some job) :
    c.closed = false := by
  rw [← Bool.not_eq_true, closed_iff]
  rintro ⟨-, -, hfetching⟩
  rw [hfetching] at h
  cases h

theorem open_of_block (h : c.block ≠ .answering []) : c.closed = false := by
  rw [← Bool.not_eq_true, closed_iff]
  exact fun hclosed => h hclosed.1

theorem advanceBlock_sends
    {cachedLookups : List RegistryHintTarget → List (Option RegistryHintLookup)}
    (h : c.advanceBlock cachedLookups = some d) : c.Sends d := by
  unfold Config.advanceBlock at h
  split at h
  · rename_i hblock
    have hopen : c.closed = false := open_of_block (by simp [hblock])
    split at h
    · cases h
      exact sends_of_open hopen [] rfl rfl rfl rfl (List.append_nil _).symm
        (List.append_nil _).symm
    · cases h
      exact sends_of_open hopen [] rfl rfl rfl rfl (List.append_nil _).symm
        (List.append_nil _).symm
  · rename_i hblock
    cases h
    exact sends_of_open (open_of_block (by simp [hblock])) [] rfl rfl rfl rfl
      (List.append_nil _).symm (List.append_nil _).symm
  · rename_i hblock
    have hopen : c.closed = false := open_of_block (by simp [hblock])
    cases h
    unfold Config.answerJob
    split
    · exact sends_of_open hopen [] rfl rfl rfl rfl (List.append_nil _).symm
        (List.append_nil _).symm
    · split
      · exact sends_of_open hopen [_] rfl rfl rfl rfl rfl rfl
      · exact sends_of_open hopen [] rfl rfl rfl rfl (List.append_nil _).symm
          (List.append_nil _).symm
  · cases h

theorem startJob_sends {place : Nat} (h : c.startJob place = some d) : c.Sends d := by
  obtain ⟨job, hjob, rfl⟩ := Option.map_eq_some_iff.mp h
  have hopen := open_of_queued hjob
  dsimp only
  split
  · exact sends_of_open hopen [] rfl rfl rfl rfl (List.append_nil _).symm (List.append_nil _).symm
  · exact sends_of_open hopen [] rfl rfl rfl rfl (List.append_nil _).symm (List.append_nil _).symm

theorem finishJob_sends {place : Nat} {lookup : Option RegistryHintLookup}
    (h : c.finishJob place lookup = some d) : c.Sends d := by
  obtain ⟨job, hjob, rfl⟩ := Option.map_eq_some_iff.mp h
  exact sends_of_open (open_of_fetching hjob) [_] rfl rfl rfl rfl rfl rfl

theorem abandonJob_sends {place : Nat} (h : c.abandonJob place = some d) : c.Sends d := by
  obtain ⟨job, hjob, rfl⟩ := Option.map_eq_some_iff.mp h
  exact sends_of_open (open_of_fetching hjob) [] rfl rfl rfl rfl (List.append_nil _).symm
    (List.append_nil _).symm

theorem cancel_sends (c : Config) : c.Sends { c with cancelled := true } where
  forwarder := rfl
  orderedResults := rfl
  outbound := rfl
  answer := rfl
  sent := ⟨[], (List.append_nil _).symm, (List.append_nil _).symm⟩
  idle := fun hclosed => ⟨hclosed, rfl⟩

end

/-! ## What is known of the responses -/

/-- The forwarder loses nothing, and holds every vector next to its indexes. -/
structure Config.Forwards (c : Config) (version requestId : Nat)
    (targets : List RegistryHintTarget) : Prop where
  passed : c.outbound.flatMap RefreshRegistryHintsResponse.indexed ++ c.forwarder.inHand ++
    c.channel = c.reported
  drained : ∀ indexes results, c.forwarder = .draining indexes results →
    indexes ≠ [] ∧ indexes.length = results.length
  batches : ∀ response ∈ c.outbound, ∃ indexes, response.indexes = some indexes ∧
    indexes ≠ [] ∧ indexes.length = response.results.length
  ordered : c.orderedResults = place (List.replicate targets.length none)
    (c.outbound.flatMap RefreshRegistryHintsResponse.indexed)
  ended : c.forwarder.ended = true → c.closed = true ∧ c.channel = []
  answered : ∀ cancelled, c.forwarder = .answered cancelled →
    c.answer = some (finalResponse version requestId
      (finalRegistryResults c.orderedResults targets cancelled))

section

variable {version requestId : Nat} {targets : List RegistryHintTarget} {c d : Config}

theorem forwards_start : (start targets).Forwards version requestId targets where
  passed := rfl
  drained := by
    intro indexes results h
    cases h
  batches := by
    intro response h
    cases h
  ordered := rfl
  ended := by
    intro h
    cases h
  answered := by
    intro cancelled h
    cases h

theorem Config.Sends.forwards (h : c.Sends d) (hc : c.Forwards version requestId targets) :
    d.Forwards version requestId targets where
  passed := by
    obtain ⟨sent, hchannel, hreported⟩ := h.sent
    rw [h.outbound, h.forwarder, hchannel, hreported, ← hc.passed, List.append_assoc _ c.channel]
  drained := by
    rw [h.forwarder]
    exact hc.drained
  batches := by
    rw [h.outbound]
    exact hc.batches
  ordered := by
    rw [h.orderedResults, h.outbound]
    exact hc.ordered
  ended := by
    intro hended
    rw [h.forwarder] at hended
    obtain ⟨hclosed, hchannel⟩ := hc.ended hended
    obtain ⟨hidle, hsame⟩ := h.idle hclosed
    exact ⟨hidle, hsame.trans hchannel⟩
  answered := by
    rw [h.forwarder, h.answer, h.orderedResults]
    exact hc.answered

theorem place_append (ordered : List (Option RegistryHintResult))
    (batch later : List (Nat × RegistryHintResult)) :
    place ordered (batch ++ later) = place (place ordered batch) later :=
  List.foldl_append

/-- The forwarder takes the first result of a batch. -/
theorem Config.Forwards.receive (hc : c.Forwards version requestId targets) {index : Nat}
    {result : RegistryHintResult} {channel : List (Nat × RegistryHintResult)}
    (hforwarder : c.forwarder = .receiving) (hchannel : c.channel = (index, result) :: channel) :
    Config.Forwards { c with channel := channel, forwarder := .draining [index] [result] }
      version requestId targets := by
  have hpassed := hc.passed
  rw [hforwarder, hchannel] at hpassed
  exact
    { hc with
      passed := by
        rw [← hpassed, Forwarder.inHand, Forwarder.inHand, List.append_nil, List.append_assoc]
        rfl
      drained := by
        intro indexes results hdraining
        cases hdraining
        exact ⟨List.cons_ne_nil _ _, rfl⟩
      ended := by
        intro hended
        cases hended
      answered := by
        intro cancelled hanswered
        cases hanswered }

theorem Config.Forwards.flush (hc : c.Forwards version requestId targets)
    (hforwarder : c.forwarder = .receiving) (hchannel : c.channel = [])
    (hclosed : c.closed = true) :
    Config.Forwards { c with forwarder := .flushed } version requestId targets := by
  have hpassed := hc.passed
  rw [hforwarder] at hpassed
  exact
    { hc with
      passed := hpassed
      drained := by
        intro indexes results hdraining
        cases hdraining
      ended := fun _ => ⟨hclosed, hchannel⟩
      answered := by
        intro cancelled hanswered
        cases hanswered }

/-- The forwarder adds a result to its batch. -/
theorem Config.Forwards.drain (hc : c.Forwards version requestId targets) {index : Nat}
    {result : RegistryHintResult} {channel : List (Nat × RegistryHintResult)} {indexes : List Nat}
    {results : List RegistryHintResult} (hforwarder : c.forwarder = .draining indexes results)
    (hchannel : c.channel = (index, result) :: channel) :
    Config.Forwards
      { c with
        channel := channel
        forwarder := .draining (indexes ++ [index]) (results ++ [result]) }
      version requestId targets := by
  have hpassed := hc.passed
  obtain ⟨-, hlength⟩ := hc.drained indexes results hforwarder
  rw [hforwarder, hchannel] at hpassed
  exact
    { hc with
      passed := by
        rw [← hpassed, Forwarder.inHand, Forwarder.inHand, List.zip_append hlength,
          List.append_assoc, List.append_assoc, List.append_assoc]
        rfl
      drained := by
        intro indexes' results' hdraining
        cases hdraining
        refine ⟨List.append_ne_nil_of_right_ne_nil _ (List.cons_ne_nil _ _), ?_⟩
        rw [List.length_append, List.length_append, hlength]
        rfl
      ended := by
        intro hended
        cases hended
      answered := by
        intro cancelled hanswered
        cases hanswered }

theorem Config.Forwards.send (hc : c.Forwards version requestId targets) {indexes : List Nat}
    {results : List RegistryHintResult} (hforwarder : c.forwarder = .draining indexes results) :
    Config.Forwards
      { c with
        forwarder := .receiving
        orderedResults := place c.orderedResults (indexes.zip results)
        outbound := c.outbound ++ [streamed version requestId indexes results] }
      version requestId targets := by
  have hpassed := hc.passed
  obtain ⟨hne, hlength⟩ := hc.drained indexes results hforwarder
  have houtbound : (c.outbound ++ [streamed version requestId indexes results]).flatMap
      RefreshRegistryHintsResponse.indexed =
      c.outbound.flatMap RefreshRegistryHintsResponse.indexed ++ indexes.zip results := by
    rw [List.flatMap_append, List.flatMap_singleton]
    rfl
  rw [hforwarder] at hpassed
  exact
    { hc with
      passed := by
        rw [← hpassed, houtbound, Forwarder.inHand, Forwarder.inHand, List.append_nil]
      drained := by
        intro indexes' results' hdraining
        cases hdraining
      batches := by
        intro response hresponse
        rw [List.mem_append, List.mem_singleton] at hresponse
        rcases hresponse with hearlier | rfl
        · exact hc.batches response hearlier
        · exact ⟨indexes, rfl, hne, hlength⟩
      ordered := by
        rw [houtbound, place_append, ← hc.ordered]
      ended := by
        intro hended
        cases hended
      answered := by
        intro cancelled hanswered
        cases hanswered }

theorem Config.Forwards.finish (hc : c.Forwards version requestId targets)
    (hforwarder : c.forwarder = .flushed) :
    Config.Forwards
      { c with
        forwarder := .answered c.cancelled
        answer := some (finalResponse version requestId
          (finalRegistryResults c.orderedResults targets c.cancelled)) }
      version requestId targets := by
  have hpassed := hc.passed
  rw [hforwarder] at hpassed
  obtain ⟨hclosed, hchannel⟩ := hc.ended (by rw [hforwarder]; rfl)
  exact
    { hc with
      passed := hpassed
      drained := by
        intro indexes results hdraining
        cases hdraining
      ended := fun _ => ⟨hclosed, hchannel⟩
      answered := by
        intro cancelled hanswered
        cases hanswered
        rfl }

theorem forward_forwards (hc : c.Forwards version requestId targets)
    (h : c.forward version requestId targets = some d) :
    d.Forwards version requestId targets := by
  unfold Config.forward at h
  split at h
  · cases h
  split at h
  · rename_i hforwarder hchannel
    cases h
    exact hc.receive hforwarder hchannel
  · rename_i hforwarder hchannel
    split at h
    · rename_i hclosed
      cases h
      exact hc.flush hforwarder hchannel hclosed
    · cases h
  · rename_i hforwarder hchannel
    cases h
    exact hc.drain hforwarder hchannel
  · rename_i hforwarder hchannel
    cases h
    exact hc.send hforwarder
  · rename_i hforwarder
    cases h
    exact hc.finish hforwarder
  · cases h

theorem forward_carried (h : c.forward version requestId targets = some d) :
    d.carried = c.carried := by
  unfold Config.forward at h
  split at h
  · cases h
  split at h
  · cases h
    rfl
  · split at h
    · cases h
      rfl
    · cases h
  · cases h
    rfl
  · cases h
    rfl
  · cases h
    rfl
  · cases h

end

/-! ## Runs -/

structure Config.Consistent (c : Config) (version requestId : Nat)
    (targets : List RegistryHintTarget) : Prop where
  carried : ∀ job, c.carried.count job ≤ (enumerate targets).count job
  forwards : c.Forwards version requestId targets

section

variable {version requestId : Nat} {targets : List RegistryHintTarget} {c d : Config}
variable {cachedLookups : List RegistryHintTarget → List (Option RegistryHintLookup)}

theorem consistent_start : (start targets).Consistent version requestId targets where
  carried := by
    intro job
    simp only [start, Config.carried, Block.jobs, List.nil_append, List.append_nil, List.map_nil]
    exact Nat.le_refl _
  forwards := forwards_start

theorem step_consistent {action : Action} (hc : c.Consistent version requestId targets)
    (h : c.step version requestId targets cachedLookups action = some d) :
    d.Consistent version requestId targets := by
  have hcarried : ∀ job, d.carried.count job ≤ c.carried.count job := by
    intro job
    cases action with
    | cancel =>
      cases h
      exact Nat.le_refl _
    | block => exact advanceBlock_carried h job
    | start place => exact startJob_carried h job
    | finish place lookup => exact finishJob_carried h job
    | abandon place => exact abandonJob_carried h job
    | forward => rw [forward_carried h]
  constructor
  · exact fun job => (hcarried job).trans (hc.carried job)
  · cases action with
    | cancel =>
      cases h
      exact (cancel_sends c).forwards hc.forwards
    | block => exact (advanceBlock_sends h).forwards hc.forwards
    | start place => exact (startJob_sends h).forwards hc.forwards
    | finish place lookup => exact (finishJob_sends h).forwards hc.forwards
    | abandon place => exact (abandonJob_sends h).forwards hc.forwards
    | forward => exact forward_forwards hc.forwards h

theorem run_consistent {actions : List Action} (hc : c.Consistent version requestId targets)
    (h : c.run version requestId targets cachedLookups actions = some d) :
    d.Consistent version requestId targets := by
  induction actions generalizing c with
  | nil =>
    cases h
    exact hc
  | cons action actions ih =>
    rw [Config.run, List.foldlM_cons] at h
    obtain ⟨e, hstep, hrun⟩ := Option.bind_eq_some_iff.mp h
    exact ih (step_consistent hc hstep) hrun

end

/-! ## The rows of the final response -/

section

variable {α β : Type}

/-- What `filterMap` keeps, with the place it comes from. -/
def keptRows (f : α → Option β) (l : List α) : List (Nat × β) :=
  l.zipIdx.filterMap fun entry => (f entry.1).map fun b => (entry.2, b)

theorem keptRows_map_snd (f : α → Option β) (l : List α) :
    (keptRows f l).map Prod.snd = l.filterMap f := by
  have hvalues : ∀ entry : α × Nat,
      ((f entry.1).map fun b => (entry.2, b)).map Prod.snd = f entry.1 := by
    intro entry
    rw [Option.map_map]
    exact Option.map_id'
  rw [keptRows, List.map_filterMap]
  simp only [hvalues]
  calc l.zipIdx.filterMap (fun entry => f entry.1)
      = (l.zipIdx.map Prod.fst).filterMap f := List.filterMap_map.symm
    _ = l.filterMap f := by rw [List.zipIdx_map_fst]

theorem keptRows_pairwise (f : α → Option β) (l : List α) :
    ((keptRows f l).map Prod.fst).Pairwise (· < ·) := by
  have hplaces : (l.zipIdx.map Prod.snd).Pairwise (· < ·) := by
    rw [List.zipIdx_map_snd]
    exact List.pairwise_lt_range'
  rw [List.pairwise_map] at hplaces ⊢
  refine hplaces.filterMap _ ?_
  intro entry entry' hlt row hrow row' hrow'
  obtain ⟨b, -, rfl⟩ := Option.map_eq_some_iff.mp hrow
  obtain ⟨b', -, rfl⟩ := Option.map_eq_some_iff.mp hrow'
  exact hlt

theorem mem_keptRows {f : α → Option β} {l : List α} {place : Nat} {b : β} :
    (place, b) ∈ keptRows f l ↔ ∃ a, l[place]? = some a ∧ f a = some b := by
  rw [keptRows, List.mem_filterMap]
  constructor
  · rintro ⟨⟨a, place'⟩, hmem, hrow⟩
    obtain ⟨b', hb, heq⟩ := Option.map_eq_some_iff.mp hrow
    cases heq
    exact ⟨a, List.mem_zipIdx_iff_getElem?.mp hmem, hb⟩
  · rintro ⟨a, hplace, hb⟩
    refine ⟨(a, place), List.mem_zipIdx_iff_getElem?.mpr hplace, ?_⟩
    rw [hb]
    rfl

end

section

variable {ordered : List (Option RegistryHintResult)} {batch : List (Nat × RegistryHintResult)}
variable {index : Nat} {result : RegistryHintResult}

theorem place_length : (place ordered batch).length = ordered.length := by
  induction batch generalizing ordered with
  | nil => rfl
  | cons entry batch ih =>
    rw [place, List.foldl_cons, ← place, ih, List.length_set]

theorem place_of_notMem (h : index ∉ batch.map Prod.fst) :
    (place ordered batch)[index]? = ordered[index]? := by
  induction batch generalizing ordered with
  | nil => rfl
  | cons entry batch ih =>
    rw [List.map_cons, List.mem_cons, not_or] at h
    rw [place, List.foldl_cons, ← place, ih h.2, List.getElem?_set_ne (Ne.symm h.1)]

theorem place_of_mem (hnodup : (batch.map Prod.fst).Nodup) (h : (index, result) ∈ batch)
    (hlt : index < ordered.length) : (place ordered batch)[index]? = some (some result) := by
  induction batch generalizing ordered with
  | nil => cases h
  | cons entry batch ih =>
    rw [List.map_cons, List.nodup_cons] at hnodup
    rw [place, List.foldl_cons, ← place]
    cases h with
    | head => rw [place_of_notMem hnodup.1, List.getElem?_set_self hlt]
    | tail _ hlater => exact ih hnodup.2 hlater (by rw [List.length_set]; exact hlt)

end

def finalResult (cancelled : Bool) (slot : Option RegistryHintResult × RegistryHintTarget) :
    Option RegistryHintResult :=
  match slot.1 with
  | some result => some result
  | none => if cancelled then none else some (noResult slot.2)

def finalRows (ordered : List (Option RegistryHintResult)) (targets : List RegistryHintTarget)
    (cancelled : Bool) : List (Nat × RegistryHintResult) :=
  keptRows (finalResult cancelled) (ordered.zip targets)

theorem finalRows_results (ordered : List (Option RegistryHintResult))
    (targets : List RegistryHintTarget) (cancelled : Bool) :
    (finalRows ordered targets cancelled).map Prod.snd =
      finalRegistryResults ordered targets cancelled :=
  keptRows_map_snd _ _

theorem finalResult_none {cancelled : Bool} {target : RegistryHintTarget}
    {result : RegistryHintResult} :
    finalResult cancelled (none, target) = some result ↔
      cancelled = false ∧ result = noResult target := by
  cases cancelled with
  | true => simp [finalResult]
  | false => simp [finalResult, eq_comm]

section

variable {targets : List RegistryHintTarget} {reported : List (Nat × RegistryHintResult)}
variable {index : Nat} {target : RegistryHintTarget} {result : RegistryHintResult}

theorem enumerate_nodup (targets : List RegistryHintTarget) :
    ((enumerate targets).map Prod.fst).Nodup := by
  have hfst : (enumerate targets).map Prod.fst = List.range' 0 targets.length := by
    rw [enumerate, List.map_map, ← List.zipIdx_map_snd 0 targets]
    rfl
  rw [hfst]
  exact List.nodup_range'

theorem mem_enumerate : (index, target) ∈ enumerate targets ↔ targets[index]? = some target := by
  rw [enumerate, List.mem_map]
  constructor
  · rintro ⟨⟨target', index'⟩, hmem, heq⟩
    cases heq
    exact List.mem_zipIdx_iff_getElem?.mp hmem
  · exact fun h => ⟨(target, index), List.mem_zipIdx_iff_getElem?.mpr h, rfl⟩

theorem slot_iff (hnodup : (reported.map Prod.fst).Nodup)
    (htarget : targets[index]? = some target) :
    (place (List.replicate targets.length none) reported)[index]? = some (some result) ↔
      (index, result) ∈ reported := by
  have hlt : index < (List.replicate targets.length (none : Option RegistryHintResult)).length := by
    rw [List.length_replicate]
    exact (List.getElem?_eq_some_iff.mp htarget).1
  constructor
  · intro hslot
    by_cases hmem : index ∈ reported.map Prod.fst
    · obtain ⟨⟨_, result'⟩, hsent, rfl⟩ := List.mem_map.mp hmem
      rw [place_of_mem hnodup hsent hlt] at hslot
      cases hslot
      exact hsent
    · rw [place_of_notMem hmem, List.getElem?_replicate_of_lt (by simpa using hlt)] at hslot
      cases hslot
  · exact fun hsent => place_of_mem hnodup hsent hlt

theorem empty_slot_iff (hnodup : (reported.map Prod.fst).Nodup)
    (htarget : targets[index]? = some target) :
    (place (List.replicate targets.length none) reported)[index]? = some none ↔
      ∀ result, (index, result) ∉ reported := by
  have hlt : index < (place (List.replicate targets.length none) reported).length := by
    rw [place_length, List.length_replicate]
    exact (List.getElem?_eq_some_iff.mp htarget).1
  constructor
  · intro hslot result hsent
    rw [(slot_iff hnodup htarget).mpr hsent] at hslot
    cases hslot
  · intro hnone
    cases hslot : (place (List.replicate targets.length none) reported)[index] with
    | none => rw [List.getElem?_eq_getElem hlt, hslot]
    | some result =>
      refine absurd ((slot_iff hnodup htarget).mp ?_) (hnone result)
      rw [List.getElem?_eq_getElem hlt, hslot]

theorem mem_finalRows (hnodup : (reported.map Prod.fst).Nodup)
    (hown : ∀ entry ∈ reported, targets[entry.1]? = some entry.2.target) {cancelled : Bool} :
    (index, result) ∈ finalRows (place (List.replicate targets.length none) reported) targets
        cancelled ↔
      (index, result) ∈ reported ∨ ∃ target, targets[index]? = some target ∧
        (∀ sent, (index, sent) ∉ reported) ∧ cancelled = false ∧ result = noResult target := by
  rw [finalRows, mem_keptRows]
  constructor
  · rintro ⟨⟨slot, target⟩, hzip, hresult⟩
    obtain ⟨hslot, htarget⟩ := List.getElem?_zip_eq_some.mp hzip
    cases slot with
    | some sent =>
      cases hresult
      exact .inl ((slot_iff hnodup htarget).mp hslot)
    | none =>
      exact .inr ⟨target, htarget, (empty_slot_iff hnodup htarget).mp hslot,
        finalResult_none.mp hresult⟩
  · rintro (hsent | ⟨target, htarget, hnone, hresult⟩)
    · have htarget := hown _ hsent
      exact ⟨(some result, result.target),
        List.getElem?_zip_eq_some.mpr ⟨(slot_iff hnodup htarget).mpr hsent, htarget⟩, rfl⟩
    · exact ⟨(none, target),
        List.getElem?_zip_eq_some.mpr ⟨(empty_slot_iff hnodup htarget).mpr hnone, htarget⟩,
        finalResult_none.mpr hresult⟩

end

/-! ## The answers to a request -/

section

variable {version requestId : Nat} {targets : List RegistryHintTarget} {c : Config}

theorem Config.Consistent.reported_count (hc : c.Consistent version requestId targets) (job : Job) :
    (c.reported.map fun entry => (entry.1, entry.2.target)).count job ≤
      (enumerate targets).count job := by
  apply Nat.le_trans _ (hc.carried job)
  rw [Config.carried, List.count_append]
  exact Nat.le_add_left _ _

theorem Config.Consistent.own_target (hc : c.Consistent version requestId targets)
    {entry : Nat × RegistryHintResult} (h : entry ∈ c.reported) :
    targets[entry.1]? = some entry.2.target := by
  apply mem_enumerate.mp
  apply List.count_pos_iff.mp
  apply Nat.lt_of_lt_of_le _ (hc.reported_count _)
  exact List.count_pos_iff.mpr (List.mem_map_of_mem h)

theorem Config.Consistent.nodup (hc : c.Consistent version requestId targets) :
    (c.reported.map Prod.fst).Nodup := by
  have hsub : (c.reported.map fun entry => (entry.1, entry.2.target)).Subperm
      (enumerate targets) := List.subperm_ext_iff.mpr fun job _ => hc.reported_count job
  obtain ⟨jobs, hperm, hsublist⟩ := hsub
  have hjobs : (jobs.map Prod.fst).Nodup := (enumerate_nodup targets).sublist (hsublist.map _)
  have hfst : (c.reported.map fun entry => (entry.1, entry.2.target)).map Prod.fst =
      c.reported.map Prod.fst := by
    rw [List.map_map]
    rfl
  rw [← hfst]
  exact ((hperm.map Prod.fst).nodup_iff).mp hjobs

end

theorem bulk_refresh_answers_in_target_order {version requestId : Nat}
    {targets : List RegistryHintTarget}
    {cachedLookups : List RegistryHintTarget → List (Option RegistryHintLookup)}
    {actions : List Action} {c : Config}
    (h : (start targets).run version requestId targets cachedLookups actions = some c) :
    (c.reported.map Prod.fst).Nodup ∧
    (∀ entry ∈ c.reported, targets[entry.1]? = some entry.2.target) ∧
    (∀ response ∈ c.outbound, ∃ indexes, response.indexes = some indexes ∧
      indexes ≠ [] ∧ indexes.length = response.results.length) ∧
    c.outbound.flatMap RefreshRegistryHintsResponse.indexed <+: c.reported ∧
    ∀ cancelled, c.forwarder = .answered cancelled →
      c.outbound.flatMap RefreshRegistryHintsResponse.indexed = c.reported ∧
      ∃ rows : List (Nat × RegistryHintResult),
        c.answer = some (finalResponse version requestId (rows.map Prod.snd)) ∧
        (rows.map Prod.fst).Pairwise (· < ·) ∧
        ∀ index result, (index, result) ∈ rows ↔
          (index, result) ∈ c.reported ∨ ∃ target, targets[index]? = some target ∧
            (∀ sent, (index, sent) ∉ c.reported) ∧ cancelled = false ∧
            result = noResult target := by
  have hc : c.Consistent version requestId targets := run_consistent consistent_start h
  refine ⟨hc.nodup, fun entry => hc.own_target, hc.forwards.batches, ?_, ?_⟩
  · rw [← hc.forwards.passed, List.append_assoc]
    exact List.prefix_append _ _
  · intro cancelled hanswered
    have hpassed := hc.forwards.passed
    obtain ⟨-, hchannel⟩ := hc.forwards.ended (by rw [hanswered]; rfl)
    rw [hanswered, hchannel, Forwarder.inHand, List.append_nil, List.append_nil] at hpassed
    refine ⟨hpassed, finalRows c.orderedResults targets cancelled, ?_, keptRows_pairwise _ _, ?_⟩
    · rw [finalRows_results]
      exact hc.forwards.answered cancelled hanswered
    · intro index result
      rw [hc.forwards.ordered, hpassed]
      exact mem_finalRows hc.nodup fun entry => hc.own_target

/-- The cache answers the first target, the second is fetched, and a newer request comes
before the third. -/
theorem bulk_refresh_answers_three_targets :
    ∃ c, (start [⟨"react", none⟩, ⟨"zod", some "3.0.0"⟩, ⟨"vite", none⟩]).run 4 7
        [⟨"react", none⟩, ⟨"zod", some "3.0.0"⟩, ⟨"vite", none⟩]
        (fun _ => [some ⟨none, none, .cache⟩, none, none])
        [.block, .block, .block, .block, .block, .block, .block, .forward, .start 0, .cancel,
          .start 0, .forward, .finish 0 (some ⟨none, none, .network⟩), .forward, .forward, .forward,
          .forward] = some c ∧
      c.forwarder = .answered true ∧ c.reported.map Prod.fst = [0, 1] ∧
      c.outbound.flatMap RefreshRegistryHintsResponse.indexed = c.reported := by
  have hrun : ((start [⟨"react", none⟩, ⟨"zod", some "3.0.0"⟩, ⟨"vite", none⟩]).run 4 7
        [⟨"react", none⟩, ⟨"zod", some "3.0.0"⟩, ⟨"vite", none⟩]
        (fun _ => [some ⟨none, none, .cache⟩, none, none])
        [.block, .block, .block, .block, .block, .block, .block, .forward, .start 0, .cancel,
          .start 0, .forward, .finish 0 (some ⟨none, none, .network⟩), .forward, .forward, .forward,
          .forward]).map (fun c => (c.forwarder, c.reported.map Prod.fst)) =
      some (.answered true, [0, 1]) := rfl
  obtain ⟨c, hc, heq⟩ := Option.map_eq_some_iff.mp hrun
  rw [Prod.mk.injEq] at heq
  exact ⟨c, hc, heq.1, heq.2,
    ((bulk_refresh_answers_in_target_order hc).2.2.2.2 true heq.1).1⟩

end ImportLens.Daemon.RegistryRefresh
