import ImportLens.Extension.FrameDecoder
import Mathlib.Data.List.Perm.Basic

/-!
# The IPC client of the extension

Requests wait in one of eleven pending maps, each with a timer.  A response, a
timeout, or the end of the connection settles a request; a partial response restarts
its timer.  What calls `resolve` and `reject` is kept as a log.
-/

namespace ImportLens.Extension.Ipc

open ImportLens.Support

inductive PendingMap
  | document
  | packageJson
  | specifiers
  | exports
  | fileSizeDocument
  | completion
  | cacheStatus
  | cacheList
  | cacheRemove
  | registryHintRefresh
  | workspaceReport
  deriving DecidableEq, Repr

/-- The guards a message is tested with, one for each type of response. -/
inductive ResponseType
  | cacheStatus
  | cacheList
  | cacheRemove
  | analyzePackageJson
  | completeImportMembers
  | fileSizeDocument
  | refreshRegistryHints
  | workspaceReport
  | refreshedResults
  | analyzeDocument
  | enumerateExports
  deriving DecidableEq, Repr

/-- A decoded message, by the guards that accept it. -/
structure Message where
  accepted : List ResponseType
  requestId : Nat
  /-- `indexes` is a list with an element. -/
  isPartial : Bool := false
  deriving DecidableEq, Repr

def Message.is (message : Message) (type : ResponseType) : Bool := message.accepted.contains type

inductive CloseError
  | decode (error : DecodeError)
  | socketClosed
  | socketError
  | disposed
  deriving DecidableEq, Repr

inductive Rejection
  | timedOut
  | clientClosed
  | frameTooLarge (payloadLength : Nat)
  | disconnected (error : CloseError)
  deriving DecidableEq, Repr

/-- A call of `resolve` or `reject`. -/
inductive Settlement
  | resolved (message : Message)
  | rejected (reason : Rejection)
  deriving DecidableEq, Repr

def Settlement.isResolved : Settlement → Bool
  | .resolved _ => true
  | .rejected _ => false

inductive Emission
  | partialResponse (map : PendingMap) (message : Message)
  | refreshedResults (message : Message)
  | disconnect (error : CloseError)
  deriving DecidableEq, Repr

abbrev Key : Type := PendingMap × Nat

structure Client where
  decoder : FrameDecoder := {}
  /-- The keys of all pending maps, in the order they were set. -/
  pending : List Key := []
  /-- The entries whose timer runs. -/
  timers : List Key := []
  settled : List (Nat × Settlement) := []
  emitted : List Emission := []
  closed : Bool := false
  disposed : Bool := false
  deriving DecidableEq, Repr

namespace Client

/-- The `resolve` or `reject` of an entry, which clears its timer first. -/
def settle (client : Client) (key : Key) (settlement : Settlement) : Client :=
  { client with
    timers := client.timers.erase key
    settled := client.settled ++ [(key.2, settlement)] }

/-- `#requestWithPending`, and the two requests that take partial responses.  A throw
in the executor rejects the promise and leaves what was set up. -/
def request (client : Client) (map : PendingMap) (requestId payloadLength : Nat) : Client :=
  if client.closed then
    { client with settled := client.settled ++ [(requestId, .rejected .clientClosed)] }
  else
    let waiting := { client with
      timers := client.timers ++ [(map, requestId)]
      pending :=
        if (map, requestId) ∈ client.pending then client.pending
        else client.pending ++ [(map, requestId)] }
    if payloadLength > maxFrameBytes then
      { waiting with
        settled := waiting.settled ++ [(requestId, .rejected (.frameTooLarge payloadLength))] }
    else waiting

def timeout (client : Client) (key : Key) : Client :=
  if key ∈ client.timers then
    let fired := { client with timers := client.timers.erase key }
    if key ∈ client.pending then
      { fired with
        pending := client.pending.erase key
        settled := client.settled ++ [(key.2, .rejected .timedOut)] }
    else fired
  else client

/-- `#resolvePending`, without its answer. -/
def resolvePending (client : Client) (map : PendingMap) (message : Message) : Client :=
  if (map, message.requestId) ∈ client.pending then
    { client with pending := client.pending.erase (map, message.requestId) }.settle
      (map, message.requestId) (.resolved message)
  else client

def routeStreaming (client : Client) (map : PendingMap) (message : Message) : Client :=
  if (map, message.requestId) ∈ client.pending then
    if message.isPartial then
      { client with
        timers := client.timers.erase (map, message.requestId) ++ [(map, message.requestId)]
        emitted := client.emitted ++ [.partialResponse map message] }
    else client.resolvePending map message
  else client

/-- `#routeIncomingMessage` -/
def route (client : Client) (message : Message) : Client :=
  if message.is .cacheStatus then client.resolvePending .cacheStatus message
  else if message.is .cacheList then client.resolvePending .cacheList message
  else if message.is .cacheRemove then client.resolvePending .cacheRemove message
  else if message.is .analyzePackageJson then client.routeStreaming .packageJson message
  else if message.is .completeImportMembers then client.resolvePending .completion message
  else if message.is .fileSizeDocument then client.resolvePending .fileSizeDocument message
  else if message.is .refreshRegistryHints then
    client.routeStreaming .registryHintRefresh message
  else if message.is .workspaceReport then client.resolvePending .workspaceReport message
  else if message.is .refreshedResults then
    { client with emitted := client.emitted ++ [.refreshedResults message] }
  else if message.is .analyzeDocument then
    if (.document, message.requestId) ∈ client.pending then
      client.resolvePending .document message
    else client.resolvePending .specifiers message
  else if message.is .enumerateExports then client.resolvePending .exports message
  else client

def closeOrder : List PendingMap :=
  [.document, .packageJson, .specifiers, .exports, .fileSizeDocument, .completion, .cacheStatus,
    .cacheList, .cacheRemove, .registryHintRefresh, .workspaceReport]

def closing (client : Client) : List Key :=
  closeOrder.flatMap fun map => client.pending.filter fun key => key.1 = map

def handleClose (client : Client) (error : CloseError) (emitDisconnect : Bool) : Client :=
  if client.closed then client
  else
    let rejected := client.closing.foldl
      (fun client key => client.settle key (.rejected (.disconnected error)))
      { client with closed := true, decoder := {} }
    { rejected with
      pending := []
      emitted :=
        if emitDisconnect && !client.disposed then client.emitted ++ [.disconnect error]
        else client.emitted }

def dispose (client : Client) : Client :=
  { client with disposed := true }.handleClose .disposed false

/-- `#handleData`: a chunk whose push throws delivers none of its messages. -/
def handleData (decode : List UInt8 → Option Message) (client : Client) (chunk : List UInt8) :
    Client :=
  let pushed := client.decoder.push decode chunk
  let fed := { client with decoder := pushed.1 }
  match pushed.2 with
  | .ok messages => messages.foldl route fed
  | .error error => fed.handleClose (.decode error) true

end Client

/-! ## Events -/

inductive Event
  | request (map : PendingMap) (requestId payloadLength : Nat)
  | data (chunk : List UInt8)
  | timeout (map : PendingMap) (requestId : Nat)
  | socketEnded (error : CloseError)
  | dispose
  deriving DecidableEq, Repr

def Event.requestIds : Event → List Nat
  | .request _ requestId _ => [requestId]
  | _ => []

def requestIds (events : List Event) : List Nat := events.flatMap Event.requestIds

variable (decode : List UInt8 → Option Message)

def step (client : Client) : Event → Client
  | .request map requestId payloadLength => client.request map requestId payloadLength
  | .data chunk => client.handleData decode chunk
  | .timeout map requestId => client.timeout (map, requestId)
  | .socketEnded error => client.handleClose error true
  | .dispose => client.dispose

def run (client : Client) (events : List Event) : Client := events.foldl (step decode) client

end ImportLens.Extension.Ipc
