import Mathlib.Data.List.Basic
import Mathlib.Algebra.Ring.Nat
import Mathlib.Logic.Function.Basic

/-!
# The daemon transport of the extension

`NativeDaemonTransport` owns one daemon process: it starts one on demand, restarts one
that went away, and stops trying after repeated crashes.  Everything between two awaits
runs at once, so an event is the code from one suspension of a call to the next: a call
from outside, an await that comes back, an event of the process or the socket, a timer.
-/

namespace ImportLens.Extension.DaemonTransport

/-! ## The restart policy -/

def firstRestartDelayMs : Nat := 1000

def maxRestartDelayMs : Nat := 30000

def crashWindowMs : Nat := 60000

def maxCrashesInWindow : Nat := 3

def restartDelayMs (attempt : Nat) : Nat :=
  min (firstRestartDelayMs * 2 ^ (attempt - 1)) maxRestartDelayMs

def recentCrashTimes (crashTimes : List Nat) (now : Nat) : List Nat :=
  crashTimes.filter fun crashTime => now - crashTime ≤ crashWindowMs

def shouldEnterCrashDegradedMode (crashTimes : List Nat) (now : Nat) : Bool :=
  maxCrashesInWindow ≤ (recentCrashTimes crashTimes now).length

def resolveDaemonStartRoot (analysisRoot workspaceRoot previousAnalysisRoot : Option String) :
    Option String :=
  analysisRoot <|> workspaceRoot <|> previousAnalysisRoot

/-! ## The state -/

def stableSessionResetMs : Nat := 60000

def cleanRecycleSessionMs : Nat := 30 * 60 * 1000

inductive DaemonState
  | ready
  | unavailable
  deriving DecidableEq, Repr

/-- Where a call of `#startDaemon` stands. -/
inductive Phase
  | idle
  /-- It awaits `#prepareLaunch`. -/
  | preparing (workspaceRoot : String) (generation : Nat)
  /-- It spawned a process and awaits `connect`. -/
  | connecting (workspaceRoot : String) (generation : Nat)
  | returned
  deriving DecidableEq, Repr

/-- A process.  One that was killed, or is being terminated, is `stopped`. -/
inductive Life
  | unborn
  | running
  | stopped
  | exited
  deriving DecidableEq, Repr

inductive Callback
  | restart
  | stability
  | cleanRecycle
  | disconnect
  deriving DecidableEq, Repr

structure Timer where
  due : Nat
  callback : Callback
  deriving DecidableEq, Repr

/-- A call of `#handleCrash`, with the start it is about. -/
structure Crash where
  instant : Nat
  subject : Option Nat
  generation : Nat
  deriving DecidableEq, Repr

/-- The fields of the class, and below them the event loop and the processes.  A start, the
process it spawned and the client it connected go by one number. -/
structure Transport where
  process : Option Nat := none
  client : Option Nat := none
  state : DaemonState := .unavailable
  isDisposed : Bool := false
  startPromise : Option Nat := none
  startGeneration : Nat := 0
  degraded : Bool := false
  restartAttempt : Nat := 0
  crashTimes : List Nat := []
  restartTimer : Option Nat := none
  stabilityTimer : Option Nat := none
  cleanRecycleTimer : Option Nat := none
  disconnectTimer : Option Nat := none
  lastAnalysisRoot : Option String := none
  now : Nat := 0
  /-- The timers that run. -/
  timers : Nat → Option Timer := fun _ => none
  nextTimer : Nat := 0
  attempts : Nat → Phase := fun _ => .idle
  nextAttempt : Nat := 0
  /-- The starts that ended with an exception, and those that scheduled restarts await. -/
  rejected : List Nat := []
  awaited : List Nat := []
  children : Nat → Life := fun _ => .unborn
  /-- The exits whose `#recordCleanRecycle` is awaited. -/
  recording : Nat := 0
  crashes : List Crash := []

namespace Transport

/-! ## Timers and processes -/

/-- `clearTimeout`. -/
def cancel (timers : Nat → Option Timer) (timer : Option Nat) : Nat → Option Timer :=
  fun t => if timer = some t then none else timers t

def arm (timers : Nat → Option Timer) (id : Nat) (timer : Timer) : Nat → Option Timer :=
  fun t => if t = id then some timer else timers t

/-- `kill`, or the begin of `terminateProcess`. -/
def stop (children : Nat → Life) (child : Option Nat) : Nat → Life :=
  fun c => if child = some c ∧ children c = .running then .stopped else children c

def enter (attempts : Nat → Phase) (attempt : Nat) (phase : Phase) : Nat → Phase :=
  fun a => if a = attempt then phase else attempts a

def live (children : Nat → Life) (child : Nat) (life : Life) : Nat → Life :=
  fun c => if c = child then life else children c

@[grind =] theorem cancel_apply (timers : Nat → Option Timer) (timer : Option Nat) (t : Nat) :
    cancel timers timer t = if timer = some t then none else timers t := rfl

@[grind =] theorem arm_apply (timers : Nat → Option Timer) (id : Nat) (timer : Timer) (t : Nat) :
    arm timers id timer t = if t = id then some timer else timers t := rfl

@[grind =] theorem stop_apply (children : Nat → Life) (child : Option Nat) (c : Nat) :
    stop children child c =
      if child = some c ∧ children c = .running then .stopped else children c := rfl

@[grind =] theorem enter_apply (attempts : Nat → Phase) (attempt : Nat) (phase : Phase) (a : Nat) :
    enter attempts attempt phase a = if a = attempt then phase else attempts a := rfl

@[grind =] theorem live_apply (children : Nat → Life) (child : Nat) (life : Life) (c : Nat) :
    live children child life c = if c = child then life else children c := rfl

def clearDisconnectTimer (s : Transport) : Transport :=
  { s with
    timers := cancel s.timers s.disconnectTimer
    disconnectTimer := none }

def cleanup (s : Transport) (killProcess : Bool) : Transport :=
  { s with
    timers :=
      cancel (cancel (cancel s.timers s.disconnectTimer) s.stabilityTimer) s.cleanRecycleTimer
    disconnectTimer := none
    stabilityTimer := none
    cleanRecycleTimer := none
    client := none
    process := none
    children := if killProcess then stop s.children s.process else s.children
    state := .unavailable }

def scheduleRestart (s : Transport) (delay : Nat) : Transport :=
  { s with
    state := .unavailable
    timers := arm s.timers s.nextTimer ⟨s.now + delay, .restart⟩
    nextTimer := s.nextTimer + 1
    restartTimer := some s.nextTimer }

def handleCrash (s : Transport) (subject : Option Nat) : Transport :=
  let crash : Crash := ⟨s.now, subject, s.startGeneration⟩
  let counted := { s with
    crashTimes := recentCrashTimes (s.crashTimes ++ [s.now]) s.now
    crashes := s.crashes ++ [crash] }
  if shouldEnterCrashDegradedMode counted.crashTimes s.now then
    { counted with
      degraded := true
      state := .unavailable }
  else
    { counted with restartAttempt := s.restartAttempt + 1 }.scheduleRestart
      (restartDelayMs (s.restartAttempt + 1))

def armStabilityReset (s : Transport) : Transport :=
  { s with
    timers := arm (cancel s.timers s.stabilityTimer) s.nextTimer
      ⟨s.now + stableSessionResetMs, .stability⟩
    nextTimer := s.nextTimer + 1
    stabilityTimer := some s.nextTimer }

def armCleanRecycleReset (s : Transport) : Transport :=
  { s with
    timers := arm (cancel s.timers s.cleanRecycleTimer) s.nextTimer
      ⟨s.now + cleanRecycleSessionMs, .cleanRecycle⟩
    nextTimer := s.nextTimer + 1
    cleanRecycleTimer := some s.nextTimer }

/-! ## Starting -/

def vacate (s : Transport) : Transport :=
  if s.process.isSome || s.client.isSome then s.cleanup true else s

/-- A new call of `#startDaemon`, as the one in flight. -/
def enlist (s : Transport) (phase : Phase) : Transport :=
  { s with
    attempts := enter s.attempts s.nextAttempt phase
    nextAttempt := s.nextAttempt + 1
    startPromise := some s.nextAttempt }

/-- `#startDaemon` up to its first await. -/
def startDaemon (s : Transport) (analysisRoot workspaceFallbackRoot : Option String) : Transport :=
  let vacant := s.clearDisconnectTimer.vacate
  match resolveDaemonStartRoot analysisRoot workspaceFallbackRoot s.lastAnalysisRoot with
  | none => { vacant with state := .unavailable }.enlist .returned
  | some workspaceRoot =>
      if workspaceRoot = "" then { vacant with state := .unavailable }.enlist .returned
      else vacant.enlist (.preparing workspaceRoot s.startGeneration)

def start (s : Transport) (analysisRoot workspaceFallbackRoot : Option String) : Transport :=
  let wanted := { s with isDisposed := false }
  if s.state = .ready ∧ s.process.isSome ∧ s.client.isSome then wanted
  else if s.degraded then wanted
  else if s.restartTimer.isSome then wanted
  else if s.startPromise.isSome then wanted
  else wanted.startDaemon analysisRoot workspaceFallbackRoot

/-- The start whose promise `start` returns, if it does not answer at once. -/
def joined (s : Transport) : Option Nat :=
  if s.state = .ready ∧ s.process.isSome ∧ s.client.isSome then none
  else if s.degraded then none
  else if s.restartTimer.isSome then none
  else some (s.startPromise.getD s.nextAttempt)

/-- A call of `#startDaemon` is over. -/
def endStart (s : Transport) (attempt : Nat) : Transport :=
  { s with attempts := enter s.attempts attempt .returned }

def stopChild (s : Transport) (child : Nat) : Transport :=
  { s with children := stop s.children (some child) }

def markExited (s : Transport) (child : Nat) : Transport :=
  { s with children := live s.children child .exited }

/-- How `#prepareLaunch`, and after it `spawn`, can end. -/
inductive Prepared
  | threw
  | refused
  | spawnThrew
  | spawned
  deriving DecidableEq, Repr

/-- `#startDaemon` from `#prepareLaunch` to its next await. -/
def prepared (s : Transport) (attempt : Nat) (outcome : Prepared) : Option Transport :=
  match s.attempts attempt with
  | .preparing workspaceRoot generation =>
      let ended := s.endStart attempt
      if outcome = .threw ∨ generation ≠ s.startGeneration then
        some { ended with
          rejected := if outcome = .threw then attempt :: s.rejected else s.rejected }
      else
        match outcome with
        | .threw => some ended
        | .refused => some { ended with degraded := true, state := .unavailable }
        | .spawnThrew =>
            let vacant := if s.process.isSome then ended.cleanup true else ended
            some (vacant.handleCrash (some attempt))
        | .spawned =>
            let vacant := if s.process.isSome then s.cleanup true else s
            some { vacant with
              process := some attempt
              children := live vacant.children attempt .running
              attempts := enter s.attempts attempt (.connecting workspaceRoot generation) }
  | _ => none

/-- How `connect`, and after it the sending of `hello`, can end. -/
inductive Connected
  | failed
  | helloThrew
  | sentHello
  deriving DecidableEq, Repr

/-- `#startDaemon` from `connect` to its end. -/
def connected (s : Transport) (attempt : Nat) (outcome : Connected) : Option Transport :=
  match s.attempts attempt with
  | .connecting workspaceRoot generation =>
      let ended := s.endStart attempt
      let failed := ended.stopChild attempt
      if generation ≠ s.startGeneration ∨ s.process ≠ some attempt then some failed
      else
        match outcome with
        | .sentHello =>
            let ready := { ended with
              client := some attempt
              lastAnalysisRoot := some workspaceRoot
              state := .ready }
            some ready.armStabilityReset.armCleanRecycleReset
        | _ => some ({ failed with client := none, process := none }.handleCrash (some attempt))
  | _ => none

/-- The `finally` of `start`. -/
def settled (s : Transport) (attempt : Nat) : Option Transport :=
  if s.attempts attempt = .returned then
    some (if s.startPromise = some attempt then { s with startPromise := none } else s)
  else none

/-! ## What happens to a process -/

def childError (s : Transport) (child : Nat) : Option Transport :=
  if s.children child = .unborn then none
  else if s.process ≠ some child then some s
  else some (({ s with startPromise := none }.cleanup true).handleCrash (some child))

def handleProcessExit (s : Transport) (child : Nat) (graceful : Bool) : Transport :=
  if s.isDisposed || s.restartTimer.isSome then s
  else
    let vacant := s.clearDisconnectTimer.cleanup false
    if graceful then { vacant with recording := s.recording + 1 }
    else vacant.handleCrash (some child)

def childExit (s : Transport) (child : Nat) (graceful : Bool) : Option Transport :=
  if s.children child = .running ∨ s.children child = .stopped then
    let exited := s.markExited child
    if s.process ≠ some child then some exited
    else some ({ exited with startPromise := none }.handleProcessExit child graceful)
  else none

/-- `#handleProcessExit` after `#recordCleanRecycle`. -/
def recycleRecorded (s : Transport) : Option Transport :=
  if s.recording = 0 then none
  else some ({ s with recording := s.recording - 1 }.scheduleRestart 1000)

/-- The `disconnect` of a client. -/
def disconnected (s : Transport) (client : Nat) : Transport :=
  if s.client ≠ some client then s
  else if s.isDisposed || s.restartTimer.isSome || s.disconnectTimer.isSome then s
  else
    { s with
      timers := arm s.timers s.nextTimer ⟨s.now + 100, .disconnect⟩
      nextTimer := s.nextTimer + 1
      disconnectTimer := some s.nextTimer }

def fire (s : Transport) (timer : Nat) (workspaceFallbackRoot : Option String) :
    Option Transport :=
  match s.timers timer with
  | none => none
  | some { due, callback } =>
      if s.now < due then none
      else
        let fired := { s with timers := cancel s.timers (some timer) }
        match callback with
        | .restart =>
            let cleared := { fired with restartTimer := none }
            if s.isDisposed then some cleared
            else
              some { cleared.start s.lastAnalysisRoot workspaceFallbackRoot with
                awaited := s.awaited ++ cleared.joined.toList }
        | .stability => some { fired with restartAttempt := 0, crashTimes := [] }
        | .cleanRecycle => some fired
        | .disconnect =>
            let cleared := { fired with disconnectTimer := none }
            if s.isDisposed || s.restartTimer.isSome then some cleared
            else some ((cleared.cleanup true).handleCrash s.process)

/-- The `catch` of a scheduled restart. -/
def restartFailed (s : Transport) (attempt : Nat) : Option Transport :=
  if attempt ∈ s.awaited ∧ attempt ∈ s.rejected then
    some { s with
      awaited := s.awaited.erase attempt
      state := .unavailable }
  else none

/-- `shutdown`, up to the termination of the process it takes. -/
def shutdown (s : Transport) : Transport :=
  { s with
    isDisposed := true
    startGeneration := s.startGeneration + 1
    startPromise := none
    degraded := false
    crashTimes := []
    restartAttempt := 0
    restartTimer := none
    disconnectTimer := none
    timers :=
      cancel
        (cancel (cancel (cancel s.timers s.restartTimer) s.stabilityTimer) s.cleanRecycleTimer)
        s.disconnectTimer
    client := none
    process := none
    children := stop s.children s.process
    state := .unavailable }

/-! ## Runs -/

inductive Event
  | elapsed (millis : Nat)
  | start (analysisRoot workspaceFallbackRoot : Option String)
  | prepared (attempt : Nat) (outcome : Prepared)
  | connected (attempt : Nat) (outcome : Connected)
  | settled (attempt : Nat)
  | childError (child : Nat)
  | childExit (child : Nat) (graceful : Bool)
  | recycleRecorded
  | disconnected (client : Nat)
  | fire (timer : Nat) (workspaceFallbackRoot : Option String)
  | restartFailed (attempt : Nat)
  | shutdown
  deriving DecidableEq, Repr

def step (s : Transport) : Event → Option Transport
  | .elapsed millis => some { s with now := s.now + millis }
  | .start analysisRoot workspaceFallbackRoot => some (s.start analysisRoot workspaceFallbackRoot)
  | .prepared attempt outcome => s.prepared attempt outcome
  | .connected attempt outcome => s.connected attempt outcome
  | .settled attempt => s.settled attempt
  | .childError child => s.childError child
  | .childExit child graceful => s.childExit child graceful
  | .recycleRecorded => s.recycleRecorded
  | .disconnected client => some (s.disconnected client)
  | .fire timer workspaceFallbackRoot => s.fire timer workspaceFallbackRoot
  | .restartFailed attempt => s.restartFailed attempt
  | .shutdown => some s.shutdown

def run (s : Transport) : List Event → Option Transport
  | [] => some s
  | event :: rest => (s.step event).bind fun next => next.run rest

end Transport

end ImportLens.Extension.DaemonTransport
