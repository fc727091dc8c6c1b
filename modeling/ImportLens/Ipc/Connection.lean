import ImportLens.Support.Interleaving

/-!
# The connection loop

One loop reads frames, hands each request to a task and writes what the tasks
queue.  It selects among four events: the pending invalidation has settled, a
queued frame can be written, a frame has come in, a tick of the clock.  A frame
is read only while no invalidation is pending.

The loop is one thread, whose position holds its local variables; every task it
spawns is run by a thread of its own.  What a handler computes, when a task goes
on, which event is selected and whether the socket fails is up to the
environment.  A frame is known by the length of its payload, which is all that
the framing codec looks at.
-/

namespace ImportLens.Ipc.Connection

open ImportLens.Support

/-! ## Messages -/

def protocolVersion : Nat := 8

def isSupportedProtocolVersion (version : Nat) : Bool :=
  decide (1 ≤ version ∧ version ≤ protocolVersion)

inductive RequestKind
  | analyzeDocument
  | analyzePackageJson (streaming : Bool)
  | analyzeSpecifiers
  | enumerateExports
  | fileSizeDocument
  | completeImportMembers
  | cacheStatus
  | cacheList
  | cacheRemove
  | refreshRegistryHints
  | workspaceReport
  deriving DecidableEq

/-- A message of the client that is owed a response. -/
structure Request where
  kind : RequestKind
  version : Nat
  requestId : Nat
  deriving DecidableEq

namespace Request

def streams (r : Request) : Bool :=
  match r.kind with
  | .analyzePackageJson streaming => decide (2 ≤ r.version) && streaming
  | .refreshRegistryHints => true
  | _ => false

def pushes (r : Request) : Bool :=
  match r.kind with
  | .analyzeDocument | .fileSizeDocument => true
  | _ => false

end Request

inductive Message
  | hello (version : Nat)
  | request (request : Request)
  | cacheInvalidate (packageName : String)
  | cacheInvalidateAll
  | nodeModulesChanged (packageJsonPaths tsconfigPaths : List String)
  | prewarmPackageJson
  | visibleDocuments
  | shutdown
  deriving DecidableEq

def Message.invalidates : Message → Bool
  | .cacheInvalidate _ | .cacheInvalidateAll => true
  | .nodeModulesChanged packageJsonPaths tsconfigPaths =>
      !(packageJsonPaths.isEmpty && tsconfigPaths.isEmpty)
  | _ => false

/-! ## Frames -/

def maxFrameBytes : Nat := 32 * 1024 * 1024

/-- Whom a frame answers.  Requests are numbered as they are handled. -/
inductive Origin
  | answer (number : Nat)
  | streamed (number : Nat)
  | push (number : Nat)
  -- the answer to a request that came before hello
  | refusal
  deriving DecidableEq

structure Frame where
  origin : Origin
  length : Nat
  deriving DecidableEq

/-- The framing codec rejects what is longer than its maximum. -/
def Frame.Fits (frame : Frame) : Prop := frame.length ≤ maxFrameBytes

instance (frame : Frame) : Decidable frame.Fits := inferInstanceAs (Decidable (_ ≤ _))

/-- What the loop uses of the response types. -/
structure Wire (ρ : Type) where
  /-- `encode_payload`: the length of the payload, or the encoder's reason. -/
  encode : ρ → Except String Nat
  /-- The `protocol_error_…_response` of the request. -/
  protocolError : Request → String → ρ

/-! ## Tasks -/

/-- What has become of the blocking work of a task, and of the task itself. -/
inductive Progress (α : Type)
  | running
  | ended (outcome : α)
  -- the loop has been told: the receiver has settled, or the response is queued
  | settled (outcome : α)
  | finished (outcome : α)
  deriving DecidableEq

namespace Progress

variable {α : Type}

def isRunning : Progress α → Bool
  | .running => true
  | _ => false

def isSettled : Progress α → Bool
  | .settled _ | .finished _ => true
  | _ => false

def isFinished : Progress α → Bool
  | .finished _ => true
  | _ => false

end Progress

inductive Finish
  | returned
  | panicked
  deriving DecidableEq

/-- The outcome of a handler. -/
inductive Outcome (ρ : Type)
  | value (response : ρ)
  -- the blocking task panicked or was cancelled, or the worker stopped
  | failed (reason : String)
  -- a size read that was replaced while it waited for its gate
  | superseded
  deriving DecidableEq

/-- Only a size read waits for a gate, and the forwarder of a registry refresh
makes up the response itself. -/
def Outcome.isOf {ρ : Type} (r : Request) : Outcome ρ → Bool
  | .value _ => true
  | .failed _ => decide (r.kind ≠ .refreshRegistryHints)
  | .superseded => decide (r.kind = .fileSizeDocument)

inductive Task (ρ : Type)
  | invalidation (message : Message) (progress : Progress Finish)
  | request (number : Nat) (request : Request) (progress : Progress (Outcome ρ))
  deriving DecidableEq

def Task.isFinished {ρ : Type} : Task ρ → Bool
  | .invalidation _ p => p.isFinished
  | .request _ _ p => p.isFinished

structure Shared (ρ : Type) where
  tasks : List (Task ρ) := []
  outbound : List Frame := []
  written : List Frame := []
  /-- History: the messages handled, with whether hello had been received, the
  requests handled after it, and every frame that was queued. -/
  handled : List (Message × Bool) := []
  requests : List Request := []
  queued : List Frame := []

namespace Shared

variable {ρ : Type}

def send (s : Shared ρ) (frame : Frame) : Shared ρ :=
  { s with outbound := s.outbound ++ [frame], queued := s.queued ++ [frame] }

def queueOutbound (s : Shared ρ) (wire : Wire ρ) (origin : Origin) (message : ρ) : Shared ρ :=
  match wire.encode message with
  | .ok length => s.send ⟨origin, length⟩
  | .error _ => s

/-- A response that cannot be encoded is replaced by `fallback`. -/
def queueResponse (s : Shared ρ) (wire : Wire ρ) (origin : Origin) (response : ρ)
    (fallback : String → ρ) : Shared ρ :=
  match wire.encode response with
  | .ok length => s.send ⟨origin, length⟩
  | .error reason =>
      s.queueOutbound wire origin
        (fallback ("the response could not be encoded: MessagePack encode failed: " ++ reason))

def setTask (s : Shared ρ) (k : Nat) (task : Task ρ) : Shared ρ :=
  { s with tasks := s.tasks.set k task }

/-- `invalidation_settled` resolves: the task has sent its word, or is gone. -/
def settled (s : Shared ρ) (k : Nat) : Bool :=
  match s.tasks[k]? with
  | some (.invalidation _ p) => p.isSettled
  | some (.request _ _ p) => p.isSettled
  | none => true

/-- `reap_finished_tasks`. -/
def reap (s : Shared ρ) (activeTasks : List Nat) : List Nat :=
  activeTasks.filter fun k => !(s.tasks[k]?.any Task.isFinished)

end Shared

/-- The reason `response_from_join` and the report's forwarder give. -/
def failureMessage (r : Request) (reason : String) : String :=
  if r.kind = .workspaceReport then "workspace report worker stopped before sending a response"
  else "analysis worker failed: " ++ reason

def answer {ρ : Type} (s : Shared ρ) (wire : Wire ρ) (number : Nat) (r : Request) :
    Outcome ρ → Shared ρ
  | .value response => s.queueResponse wire (.answer number) response (wire.protocolError r)
  | .failed reason =>
      s.queueResponse wire (.answer number) (wire.protocolError r (failureMessage r reason))
        (wire.protocolError r)
  | .superseded =>
      s.queueOutbound wire (.answer number)
        (wire.protocolError r "superseded by a newer size read for this document")

/-! ## The loop -/

inductive Ending
  | unsupportedHello
  | eof
  | readFailed
  | sendFailed
  | shutdown
  | recycled
  deriving DecidableEq

inductive Place
  | select
  | handle (message : Message)
  -- `recycle_if_needed` found tasks in flight
  | waitForActiveTasks
  -- `close_connection`, up to the pending invalidation and up to the join
  | close (ending : Ending)
  | join (ending : Ending)
  | drainOutbound (ending : Ending)
  | ended (ending : Ending)
  deriving DecidableEq

structure Loop where
  place : Place := .select
  helloReceived : Bool := false
  invalidation : Option Nat := none
  activeTasks : List Nat := []
  deriving DecidableEq

inductive Incoming
  | frame (message : Message)
  | undecodable
  | failed
  | eof

inductive Arm
  | invalidationSettled
  | outbound
  | next (incoming : Incoming)
  | sleep

structure Action (ρ : Type) where
  arm : Arm := .outbound
  shouldRecycle : Bool := false
  socketFails : Bool := false
  /-- For a task: a message it queues besides its response, and how its work ends. -/
  emits : Option ρ := none
  finish : Finish := .returned
  outcome : Outcome ρ := .failed ""

inductive Position
  | loop (l : Loop)
  | worker
  deriving DecidableEq

variable {ρ : Type}

/-- `track_active_task` for the task spawned last. -/
def Loop.track (l : Loop) (s : Shared ρ) : Loop :=
  { l with activeTasks := s.reap l.activeTasks ++ [s.tasks.length] }

def recycleIfNeeded (s : Shared ρ) (l : Loop) (shouldRecycle : Bool) : Loop :=
  if shouldRecycle then
    if s.reap l.activeTasks = [] then
      { l with activeTasks := [], place := .drainOutbound .recycled }
    else { l with activeTasks := s.reap l.activeTasks, place := .waitForActiveTasks }
  else { l with place := .select }

def spawnInvalidation (s : Shared ρ) (l : Loop) (message : Message) : Shared ρ × Loop :=
  ({ s with tasks := s.tasks ++ [.invalidation message .running] },
    { l.track s with invalidation := some s.tasks.length, place := .select })

/-- The arm of a request: a task of its own, but for a registry refresh of a
version that is not supported. -/
def handleRequest (wire : Wire ρ) (s : Shared ρ) (l : Loop) (r : Request) : Shared ρ × Loop :=
  let number := s.requests.length
  let registered := { s with requests := s.requests ++ [r] }
  if r.kind = .refreshRegistryHints ∧ isSupportedProtocolVersion r.version = false then
    (registered.queueOutbound wire (.answer number)
      (wire.protocolError r ("unsupported protocol version " ++ toString r.version)),
      { l with place := .select })
  else
    ({ registered with tasks := s.tasks ++ [.request number r .running] },
      { l.track s with place := .select })

/-- The `match message` of the loop. -/
def handle (wire : Wire ρ) (s : Shared ρ) (l : Loop) (shouldRecycle : Bool) (message : Message) :
    Shared ρ × Loop :=
  match message with
  | .hello version =>
      if isSupportedProtocolVersion version then
        (s, recycleIfNeeded s { l with helloReceived := true } shouldRecycle)
      else (s, { l with place := .ended .unsupportedHello })
  | .request r =>
      if l.helloReceived then handleRequest wire s l r
      else
        (s.queueOutbound wire .refusal (wire.protocolError r "hello message not received"),
          { l with place := .select })
  | .shutdown => (s, { l with place := .close .shutdown })
  | message =>
      if l.helloReceived ∧ message.invalidates = true then spawnInvalidation s l message
      else (s, { l with place := .select })

/-- The `select!` of the loop. -/
def select (s : Shared ρ) (l : Loop) (a : Action ρ) : Option (Shared ρ × Loop) :=
  match a.arm with
  | .invalidationSettled =>
      match l.invalidation with
      | some k => if s.settled k then some (s, { l with invalidation := none }) else none
      | none => none
  | .outbound =>
      match s.outbound with
      | [] => none
      | frame :: rest =>
          if frame.Fits ∧ a.socketFails = false then
            some ({ s with outbound := rest, written := s.written ++ [frame] }, l)
          else some ({ s with outbound := rest }, { l with place := .close .sendFailed })
  | .next incoming =>
      if l.invalidation = none then
        match incoming with
        | .frame message => some (s, { l with place := .handle message })
        | .undecodable => some (s, l)
        | .failed => some (s, { l with place := .close .readFailed })
        | .eof => some (s, { l with place := .close .eof })
      else none
  | .sleep => some (s, recycleIfNeeded s l a.shouldRecycle)

def loopStep (wire : Wire ρ) (s : Shared ρ) (l : Loop) (a : Action ρ) :
    Option (Shared ρ × Loop) :=
  match l.place with
  | .select => select s l a
  | .handle message =>
      some (handle wire { s with handled := s.handled ++ [(message, l.helloReceived)] } l
        a.shouldRecycle message)
  | .waitForActiveTasks =>
      some (s, { l with place := .select, activeTasks := s.reap l.activeTasks })
  | .close ending =>
      if l.invalidation.all s.settled then some (s, { l with place := .join ending }) else none
  | .join ending =>
      some (s, { l with
        place := if ending = .shutdown then .drainOutbound ending else .ended ending
        activeTasks := s.reap l.activeTasks })
  | .drainOutbound ending =>
      match s.outbound with
      | [] => some (s, { l with place := .ended ending })
      | frame :: rest =>
          if frame.Fits ∧ a.socketFails = false then
            some ({ s with outbound := rest, written := s.written ++ [frame] }, l)
          else some ({ s with outbound := rest }, { l with place := .ended ending })
  | .ended _ => none

def taskStep (wire : Wire ρ) (s : Shared ρ) (k : Nat) (a : Action ρ) : Option (Shared ρ) :=
  match s.tasks[k]? with
  | none => none
  | some (.invalidation message .running) =>
      some (s.setTask k (.invalidation message (.ended a.finish)))
  | some (.invalidation message (.ended finish)) =>
      some (s.setTask k (.invalidation message (.settled finish)))
  | some (.invalidation message (.settled finish)) =>
      some (s.setTask k (.invalidation message (.finished finish)))
  | some (.invalidation _ (.finished _)) => none
  | some (.request number r .running) =>
      match a.emits with
      | some message =>
          if r.streams then some (s.queueOutbound wire (.streamed number) message) else none
      | none =>
          if a.outcome.isOf r then some (s.setTask k (.request number r (.ended a.outcome)))
          else none
  | some (.request number r (.ended outcome)) =>
      some ((answer s wire number r outcome).setTask k (.request number r (.settled outcome)))
  | some (.request number r (.settled outcome)) =>
      match a.emits with
      | some message =>
          if r.pushes then some (s.queueOutbound wire (.push number) message) else none
      | none => some (s.setTask k (.request number r (.finished outcome)))
  | some (.request _ _ (.finished _)) => none

/-- Thread 0 runs the loop, thread `k + 1` the task `k`. -/
def program (wire : Wire ρ) : Program (Shared ρ) Position (Action ρ) := fun t a s position =>
  match position with
  | .loop l => (loopStep wire s l a).map fun next => (next.1, .loop next.2)
  | .worker => (taskStep wire s (t - 1) a).map fun next => (next, .worker)

def started : Config (Shared ρ) Position where
  shared := {}
  thread t := if t = 0 then .loop {} else .worker

/-! ## Runs -/

variable {wire : Wire ρ} {s s' : Shared ρ} {l l' : Loop} {a : Action ρ}

/-- What the steps of the loop and of the tasks keep holds all along a run. -/
theorem invariant_of_runs {guard : Config (Shared ρ) Position → Nat → Action ρ → Prop}
    {I : Shared ρ → Loop → Prop} {c d : Config (Shared ρ) Position} {acts : List (Nat × Action ρ)}
    (hzero : c.thread 0 = .loop l) (hworkers : ∀ t, t ≠ 0 → c.thread t = .worker)
    (hinit : I c.shared l)
    (hloop : ∀ {e a s' l l'}, guard e 0 a → e.thread 0 = .loop l →
      loopStep wire e.shared l a = some (s', l') → I e.shared l → I s' l')
    (htask : ∀ {e a s' l k}, guard e (k + 1) a → e.thread (k + 1) = .worker →
      taskStep wire e.shared k a = some s' → I e.shared l → I s' l)
    (h : Runs (program wire) guard c acts d) :
    ∃ l, d.thread 0 = .loop l ∧ (∀ t, t ≠ 0 → d.thread t = .worker) ∧ I d.shared l := by
  refine h.invariant (I := fun c => ∃ l, c.thread 0 = .loop l ∧
    (∀ t, t ≠ 0 → c.thread t = .worker) ∧ I c.shared l) ?_ ⟨l, hzero, hworkers, hinit⟩
  rintro e f t a hguard hstep ⟨l, hzero, hworkers, hI⟩
  obtain ⟨shared, position, hprog, rfl⟩ := Config.step_eq_some hstep
  cases t with
  | zero =>
      rw [hzero] at hprog
      simp only [program, Option.map_eq_some_iff] at hprog
      obtain ⟨⟨s', l'⟩, hstep', heq⟩ := hprog
      cases heq
      refine ⟨l', by simp, fun u hu => ?_, hloop hguard hzero hstep' hI⟩
      exact (Function.update_of_ne hu _ _).trans (hworkers u hu)
  | succ k =>
      have hworker := hworkers (k + 1) k.succ_ne_zero
      rw [hworker] at hprog
      simp only [program, Option.map_eq_some_iff] at hprog
      obtain ⟨s', hstep', heq⟩ := hprog
      cases heq
      refine ⟨l, ?_, fun u hu => ?_, htask hguard hworker hstep' hI⟩
      · simpa using hzero
      · by_cases huk : u = k + 1
        · subst huk
          exact Function.update_self _ _ _
        · exact (Function.update_of_ne huk _ _).trans (hworkers u hu)

theorem started_workers (t : Nat) (ht : t ≠ 0) :
    (started : Config (Shared ρ) Position).thread t = .worker := if_neg ht

theorem step_of_loopStep {c : Config (Shared ρ) Position} (hzero : c.thread 0 = .loop l)
    (h : loopStep wire c.shared l a = some (s', l')) :
    c.step (program wire) 0 a = some ⟨s', Function.update c.thread 0 (.loop l')⟩ := by
  simp only [Config.step, program, hzero, h, Option.map_some]

/-- The loop writes the head of the queue whenever it selects the outbound arm, so
whatever the socket takes of the queue is written. -/
theorem outbound_written (guard : Config (Shared ρ) Position → Nat → Action ρ → Prop)
    {c : Config (Shared ρ) Position} (hzero : c.thread 0 = .loop l) (hplace : l.place = .select)
    (hguard : ∀ e : Config (Shared ρ) Position, e.thread 0 = .loop l → guard e 0 {}) (n : Nat)
    (hn : n ≤ c.shared.outbound.length)
    (hfits : ∀ frame ∈ c.shared.outbound.take n, frame.Fits) :
    ∃ d, Runs (program wire) guard c (List.replicate n (0, {})) d ∧ d.thread 0 = .loop l ∧
      d.shared = { c.shared with
        outbound := c.shared.outbound.drop n
        written := c.shared.written ++ c.shared.outbound.take n } := by
  induction n generalizing c with
  | zero => exact ⟨c, .refl c, hzero, by simp⟩
  | succ n ih =>
      cases hqueue : c.shared.outbound with
      | nil =>
          rw [hqueue] at hn
          simp at hn
      | cons frame rest =>
          rw [hqueue] at hn hfits
          rw [List.take_succ_cons] at hfits
          have hloop : loopStep wire c.shared l {} = some
              ({ c.shared with outbound := rest, written := c.shared.written ++ [frame] }, l) := by
            simp [loopStep, hplace, select, hqueue, hfits frame List.mem_cons_self]
          obtain ⟨d, hrun, hloop', hshared⟩ := ih
            (c := ⟨{ c.shared with outbound := rest, written := c.shared.written ++ [frame] },
              Function.update c.thread 0 (.loop l)⟩)
            (by simp) (by simpa using hn)
            fun other hother => hfits other (List.mem_cons_of_mem _ hother)
          refine ⟨d, .cons (hguard c hzero) (step_of_loopStep hzero hloop) hrun, hloop', ?_⟩
          rw [hshared]
          simp

/-! ## The table of tasks -/

theorem getElem?_concat_cases {α : Type} {xs : List α} {x y : α} {k : Nat}
    (h : (xs ++ [x])[k]? = some y) : xs[k]? = some y ∨ k = xs.length ∧ y = x := by
  rcases Nat.lt_trichotomy k xs.length with hlt | rfl | hgt
  · rw [List.getElem?_append_left hlt] at h
    exact .inl h
  · rw [List.getElem?_concat_length] at h
    exact .inr ⟨rfl, (Option.some.inj h).symm⟩
  · rw [List.getElem?_eq_none (by simp; omega)] at h
    cases h

theorem getElem?_set_cases {α : Type} {xs : List α} {x y : α} {j k : Nat}
    (h : (xs.set k x)[j]? = some y) : xs[j]? = some y ∨ j = k ∧ y = x := by
  rw [List.getElem?_set] at h
  split at h
  · rename_i hjk
    split at h
    · exact .inr ⟨hjk.symm, (Option.some.inj h).symm⟩
    · cases h
  · exact .inl h

/-! ## What does not change -/

namespace Shared

@[simp] theorem queueOutbound_tasks (s : Shared ρ) (origin : Origin) (message : ρ) :
    (s.queueOutbound wire origin message).tasks = s.tasks := by
  unfold queueOutbound
  split <;> rfl

@[simp] theorem queueOutbound_handled (s : Shared ρ) (origin : Origin) (message : ρ) :
    (s.queueOutbound wire origin message).handled = s.handled := by
  unfold queueOutbound
  split <;> rfl

@[simp] theorem queueOutbound_requests (s : Shared ρ) (origin : Origin) (message : ρ) :
    (s.queueOutbound wire origin message).requests = s.requests := by
  unfold queueOutbound
  split <;> rfl

end Shared

/-- The response of a task is a frame in the queue, and nothing else. -/
theorem answer_frame (s : Shared ρ) (wire : Wire ρ) (number : Nat) (r : Request)
    (outcome : Outcome ρ) :
    (answer s wire number r outcome).tasks = s.tasks ∧
      (answer s wire number r outcome).handled = s.handled ∧
      (answer s wire number r outcome).requests = s.requests := by
  have hresponse : ∀ response, (s.queueResponse wire (.answer number) response
      (wire.protocolError r)).tasks = s.tasks ∧
      (s.queueResponse wire (.answer number) response (wire.protocolError r)).handled = s.handled ∧
      (s.queueResponse wire (.answer number) response (wire.protocolError r)).requests =
        s.requests := by
    intro response
    unfold Shared.queueResponse
    split
    · exact ⟨rfl, rfl, rfl⟩
    · simp
  cases outcome with
  | value response => exact hresponse _
  | failed reason => exact hresponse _
  | superseded => simp [answer]

def Progress.outcome {α : Type} : Progress α → Option α
  | .settled outcome | .finished outcome => some outcome
  | _ => none

namespace Task

def cause : Task ρ → Option Message
  | .invalidation message _ => some message
  | .request .. => none

/-- A task is for the same thing and is further on. -/
structure Advances (old new : Task ρ) : Prop where
  cause : new.cause = old.cause
  unfinished : new.isFinished = false → old.isFinished = false
  unsettled : ∀ message p, new = .invalidation message p → p.isSettled = false →
    ∃ q, old = .invalidation message q ∧ q.isSettled = false

end Task

/-- What a step of task `k` does: the task goes on, queues a message besides its
response, or queues its response. -/
inductive TaskMove (wire : Wire ρ) (emits : Option ρ) (s : Shared ρ) (k : Nat) : Shared ρ → Prop
  | invalidates (message : Message) (p q : Progress Finish)
      (htask : s.tasks[k]? = some (.invalidation message p)) (hfinished : p.isFinished = false)
      (hsettled : q.isSettled = false → p.isSettled = false) :
      TaskMove wire emits s k (s.setTask k (.invalidation message q))
  | goes (number : Nat) (r : Request) (p q : Progress (Outcome ρ))
      (htask : s.tasks[k]? = some (.request number r p)) (hfinished : p.isFinished = false)
      (houtcome : q.outcome = p.outcome) :
      TaskMove wire emits s k (s.setTask k (.request number r q))
  | emits (number : Nat) (r : Request) (p : Progress (Outcome ρ)) (origin : Origin) (message : ρ)
      (htask : s.tasks[k]? = some (.request number r p)) (hends : ∀ outcome, p ≠ .ended outcome)
      (hemits : emits = some message) (horigin : ∀ n, origin ≠ .answer n) :
      TaskMove wire emits s k (s.queueOutbound wire origin message)
  | answers (number : Nat) (r : Request) (outcome : Outcome ρ)
      (htask : s.tasks[k]? = some (.request number r (.ended outcome))) :
      TaskMove wire emits s k
        ((answer s wire number r outcome).setTask k (.request number r (.settled outcome)))

theorem taskStep_moves {k : Nat} (h : taskStep wire s k a = some s') :
    TaskMove wire a.emits s k s' := by
  unfold taskStep at h
  split at h
  · cases h
  · rename_i message htask
    cases h
    exact .invalidates message _ _ htask rfl fun _ => rfl
  · rename_i message finish htask
    cases h
    exact .invalidates message _ _ htask rfl nofun
  · rename_i message finish htask
    cases h
    exact .invalidates message _ _ htask rfl nofun
  · cases h
  · rename_i number r htask
    split at h
    · rename_i message hemits
      split at h <;> cases h
      exact .emits number r _ _ message htask nofun hemits nofun
    · split at h <;> cases h
      exact .goes number r _ _ htask rfl rfl
  · rename_i number r outcome htask
    cases h
    exact .answers number r outcome htask
  · rename_i number r outcome htask
    split at h
    · rename_i message hemits
      split at h <;> cases h
      exact .emits number r _ _ message htask nofun hemits nofun
    · cases h
      exact .goes number r _ _ htask rfl rfl
  · cases h

theorem taskStep_tasks {k : Nat} (h : taskStep wire s k a = some s') :
    s'.handled = s.handled ∧ (s'.tasks = s.tasks ∨
      ∃ old new, s.tasks[k]? = some old ∧ s'.tasks = s.tasks.set k new ∧ old.Advances new) := by
  cases taskStep_moves h with
  | invalidates message p q htask hfinished hsettled =>
      refine ⟨rfl, .inr ⟨_, _, htask, rfl, rfl, fun _ => hfinished, ?_⟩⟩
      rintro _ _ ⟨⟩ hq
      exact ⟨p, rfl, hsettled hq⟩
  | goes number r p q htask hfinished =>
      exact ⟨rfl, .inr ⟨_, _, htask, rfl, rfl, fun _ => hfinished, nofun⟩⟩
  | emits => simp
  | answers number r outcome htask =>
      obtain ⟨htasks, hhandled, _⟩ := answer_frame s wire number r outcome
      exact ⟨hhandled, .inr ⟨_, .request number r (.settled outcome), htask,
        by rw [Shared.setTask, htasks], rfl, fun _ => rfl, nofun⟩⟩

end ImportLens.Ipc.Connection
