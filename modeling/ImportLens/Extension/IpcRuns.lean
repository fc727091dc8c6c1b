import ImportLens.Extension.IpcClient
import ImportLens.Support.Bytes
import Mathlib.Data.List.Count
import Mathlib.Data.List.Nodup

/-!
# Runs of the IPC client

Two things go wrong in the client.  A send that throws leaves the entry and the timer
of its request behind, and a chunk that ends in a bad frame takes the messages before
it with it.  A run in which neither happens settles every request once, and resolves
the same requests however the stream is cut.
-/

namespace ImportLens.Extension.Ipc

open ImportLens.Support

namespace Client

variable {client : Client} {issued : List Nat} {key : Key}

/-! ## The books -/

/-- Every request made is settled or waits, and what waits has a timer. -/
structure Accounted (client : Client) (issued : List Nat) : Prop where
  requests : (client.settled.map Prod.fst ++ client.pending.map Prod.snd).Perm issued
  timed : client.timers.Perm client.pending

theorem accounted_empty : Accounted {} [] := ⟨.refl _, .refl _⟩

theorem Accounted.settle (h : Accounted client issued) (hkey : key ∈ client.pending)
    (settlement : Settlement) :
    Accounted ({ client with pending := client.pending.erase key }.settle key settlement)
      issued := by
  constructor
  · have hpending : (client.pending.map Prod.snd).Perm
        (key.2 :: (client.pending.erase key).map Prod.snd) :=
      (List.perm_cons_erase hkey).map Prod.snd
    refine List.Perm.trans ?_ h.requests
    simp only [Client.settle, List.map_append, List.map_cons, List.map_nil, List.append_assoc,
      List.singleton_append]
    exact hpending.symm.append_left _
  · exact h.timed.erase key

theorem Accounted.request (h : Accounted client issued) (map : PendingMap)
    {requestId payloadLength : Nat} (hfresh : requestId ∉ issued)
    (hfits : client.closed = true ∨ payloadLength ≤ maxFrameBytes) :
    Accounted (client.request map requestId payloadLength) (issued ++ [requestId]) := by
  unfold Client.request
  by_cases hclosed : client.closed = true
  · rw [if_pos hclosed]
    constructor
    · refine List.Perm.trans ?_ (h.requests.append_right [requestId])
      simp only [List.map_append, List.map_cons, List.map_nil, List.append_assoc]
      exact List.perm_append_comm.append_left _
    · exact h.timed
  · have hnew : (map, requestId) ∉ client.pending := by
      intro hmem
      apply hfresh
      apply h.requests.subset
      exact List.mem_append_right _ (List.mem_map_of_mem hmem)
    have hsmall : ¬ payloadLength > maxFrameBytes := by
      have := hfits.resolve_left hclosed
      omega
    rw [if_neg hclosed]
    dsimp only
    rw [if_neg hsmall, if_neg hnew]
    constructor
    · simp only [List.map_append, List.map_cons, List.map_nil, ← List.append_assoc]
      exact h.requests.append_right [requestId]
    · exact h.timed.append_right _

theorem Accounted.timeout (h : Accounted client issued) (key : Key) :
    Accounted (client.timeout key) issued := by
  unfold Client.timeout
  by_cases htimer : key ∈ client.timers
  · have hpending : key ∈ client.pending := h.timed.subset htimer
    rw [if_pos htimer, if_pos hpending]
    exact h.settle hpending (.rejected .timedOut)
  · rw [if_neg htimer]
    exact h

theorem Accounted.resolvePending (h : Accounted client issued) (map : PendingMap)
    (message : Message) : Accounted (client.resolvePending map message) issued := by
  unfold Client.resolvePending
  by_cases hpending : (map, message.requestId) ∈ client.pending
  · rw [if_pos hpending]
    exact h.settle hpending (.resolved message)
  · rw [if_neg hpending]
    exact h

theorem Accounted.routeStreaming (h : Accounted client issued) (map : PendingMap)
    (message : Message) : Accounted (client.routeStreaming map message) issued := by
  unfold Client.routeStreaming
  by_cases hpending : (map, message.requestId) ∈ client.pending
  · rw [if_pos hpending]
    by_cases hpartial : message.isPartial = true
    · -- the timer starts anew, so it only changes its place
      rw [if_pos hpartial]
      have htimer := h.timed.symm.subset hpending
      have hperm : (client.timers.erase (map, message.requestId) ++
          [(map, message.requestId)]).Perm client.timers :=
        List.perm_append_comm.trans (List.perm_cons_erase htimer).symm
      exact ⟨h.requests, hperm.trans h.timed⟩
    · rw [if_neg hpartial]
      exact h.resolvePending map message
  · rw [if_neg hpending]
    exact h

/-- What a message can do to the client. -/
inductive Routed (client : Client) (message : Message) : Client → Prop
  | resolve (map : PendingMap) : Routed client message (client.resolvePending map message)
  | stream (map : PendingMap) : Routed client message (client.routeStreaming map message)
  | emit : Routed client message
      { client with emitted := client.emitted ++ [.refreshedResults message] }
  | ignore : Routed client message client

theorem Routed.ite {message : Message} {next next' : Client} {p : Prop} [Decidable p]
    (h : Routed client message next) (h' : Routed client message next') :
    Routed client message (if p then next else next') := by
  split
  · exact h
  · exact h'

theorem routed (client : Client) (message : Message) :
    Routed client message (client.route message) := by
  unfold route
  repeat' with_reducible apply Routed.ite
  all_goals constructor

theorem Accounted.route (h : Accounted client issued) (message : Message) :
    Accounted (client.route message) issued := by
  have hrouted := routed client message
  generalize client.route message = next at hrouted ⊢
  cases hrouted with
  | resolve map => exact h.resolvePending map message
  | stream map => exact h.routeStreaming map message
  | emit => exact ⟨h.requests, h.timed⟩
  | ignore => exact h

theorem Accounted.routeAll (h : Accounted client issued) (messages : List Message) :
    Accounted (messages.foldl Client.route client) issued := by
  induction messages generalizing client with
  | nil => exact h
  | cons message messages ih => exact ih (h.route message)

/-! ### The end of the connection -/

theorem mem_closeOrder (map : PendingMap) : map ∈ closeOrder := by
  cases map <;> decide

theorem closeOrder_nodup : closeOrder.Nodup := by decide

theorem count_closing (client : Client) (key : Key) :
    client.closing.count key = client.pending.count key := by
  have hone : ∀ map : PendingMap,
      (client.pending.filter fun entry => decide (entry.1 = map)).count key =
        if key.1 = map then client.pending.count key else 0 := by
    intro map
    by_cases hmap : key.1 = map
    · rw [if_pos hmap, List.count_filter (by simp [hmap])]
    · rw [if_neg hmap, List.count_eq_zero]
      simp [hmap]
  have hsum : ∀ maps : List PendingMap, maps.Nodup →
      (maps.flatMap fun map => client.pending.filter fun entry => entry.1 = map).count key =
        if key.1 ∈ maps then client.pending.count key else 0 := by
    intro maps hnodup
    induction maps with
    | nil => rfl
    | cons map maps ih =>
      obtain ⟨hnew, hrest⟩ := List.nodup_cons.mp hnodup
      rw [List.flatMap_cons, List.count_append, hone, ih hrest]
      by_cases hmap : key.1 = map
      · subst hmap
        simp [hnew]
      · simp [hmap]
  unfold closing
  rw [hsum closeOrder closeOrder_nodup, if_pos (mem_closeOrder key.1)]

theorem closing_perm (client : Client) : client.closing.Perm client.pending :=
  List.perm_iff_count.mpr (count_closing client)

theorem foldl_settle (client : Client) (keys : List Key) (settlement : Settlement) :
    keys.foldl (fun client key => client.settle key settlement) client =
      { client with
        timers := client.timers.diff keys
        settled := client.settled ++ keys.map fun key => (key.2, settlement) } := by
  induction keys generalizing client with
  | nil => simp
  | cons key keys ih =>
    rw [List.foldl_cons, ih]
    simp [settle]

theorem diff_of_perm {keys keys' : List Key} (h : keys.Perm keys') : keys.diff keys' = [] := by
  rw [List.eq_nil_iff_forall_not_mem]
  intro key hmem
  have hcount := List.count_pos_iff.mpr hmem
  rw [List.count_diff, h.count_eq] at hcount
  omega

theorem Accounted.handleClose (h : Accounted client issued) (error : CloseError)
    (emitDisconnect : Bool) : Accounted (client.handleClose error emitDisconnect) issued := by
  unfold Client.handleClose
  by_cases hclosed : client.closed = true
  · rw [if_pos hclosed]
    exact h
  · rw [if_neg hclosed]
    dsimp only
    rw [foldl_settle]
    constructor
    · refine List.Perm.trans ?_ h.requests
      simp only [List.map_append, List.map_map, List.map_nil, List.append_nil]
      exact ((closing_perm client).map Prod.snd).append_left _
    · dsimp only
      rw [diff_of_perm (h.timed.trans (closing_perm client).symm)]

theorem Accounted.handleData (decode : List UInt8 → Option Message)
    (h : Accounted client issued) (chunk : List UInt8) :
    Accounted (client.handleData decode chunk) issued := by
  have hfed : Accounted { client with decoder := (client.decoder.push decode chunk).1 } issued :=
    ⟨h.requests, h.timed⟩
  unfold Client.handleData
  dsimp only
  split
  · exact hfed.routeAll _
  · exact hfed.handleClose _ true

/-! ## The wire -/

/-- What the bytes of an open client wait for, and what a closed one has given up. -/
structure Wired (decode : List UInt8 → Option Message) (client : Client) : Prop where
  decoder : client.decoder.Sound
  idle : client.closed = false → nextFrame decode client.decoder.buffered = .more
  shut : client.closed = true → client.pending = []

section

variable {decode : List UInt8 → Option Message}

theorem wired_empty (decode : List UInt8 → Option Message) : Wired decode {} :=
  ⟨FrameDecoder.sound_empty, fun _ => rfl, fun _ => rfl⟩

/-- An operation that leaves the decoder and the state of the connection alone. -/
structure Quiet (client next : Client) : Prop where
  decoder : next.decoder = client.decoder
  closed : next.closed = client.closed
  pending : client.pending = [] → next.pending = []

theorem Quiet.refl (client : Client) : Quiet client client := ⟨rfl, rfl, id⟩

theorem Quiet.trans {client next last : Client} (h : Quiet client next) (h' : Quiet next last) :
    Quiet client last :=
  ⟨h'.decoder.trans h.decoder, h'.closed.trans h.closed, fun hpending =>
    h'.pending (h.pending hpending)⟩

theorem Wired.quiet {next : Client} (h : Wired decode client) (hquiet : Quiet client next) :
    Wired decode next := by
  obtain ⟨hdecoder, hclosed, hpending⟩ := hquiet
  constructor
  · rw [hdecoder]
    exact h.decoder
  · rw [hdecoder, hclosed]
    exact h.idle
  · rw [hclosed]
    exact fun hshut => hpending (h.shut hshut)

theorem quiet_timeout (client : Client) (key : Key) : Quiet client (client.timeout key) := by
  unfold timeout
  split
  · dsimp only
    split
    · exact ⟨rfl, rfl, fun hpending => by simp [hpending]⟩
    · exact ⟨rfl, rfl, id⟩
  · exact .refl client

theorem quiet_resolvePending (client : Client) (map : PendingMap) (message : Message) :
    Quiet client (client.resolvePending map message) := by
  unfold resolvePending
  split
  · exact ⟨rfl, rfl, fun hpending => by simp [settle, hpending]⟩
  · exact .refl client

theorem quiet_routeStreaming (client : Client) (map : PendingMap) (message : Message) :
    Quiet client (client.routeStreaming map message) := by
  unfold routeStreaming
  split
  · split
    · exact ⟨rfl, rfl, id⟩
    · exact quiet_resolvePending client map message
  · exact .refl client

theorem quiet_route (client : Client) (message : Message) :
    Quiet client (client.route message) := by
  have hrouted := routed client message
  generalize client.route message = next at hrouted ⊢
  cases hrouted with
  | resolve map => exact quiet_resolvePending client map message
  | stream map => exact quiet_routeStreaming client map message
  | emit => exact ⟨rfl, rfl, id⟩
  | ignore => exact .refl client

theorem quiet_routeAll (client : Client) (messages : List Message) :
    Quiet client (messages.foldl route client) := by
  induction messages generalizing client with
  | nil => exact .refl client
  | cons message messages ih => exact (quiet_route client message).trans (ih _)

theorem Wired.request (h : Wired decode client) (map : PendingMap)
    (requestId payloadLength : Nat) :
    Wired decode (client.request map requestId payloadLength) := by
  unfold Client.request
  by_cases hclosed : client.closed = true
  · rw [if_pos hclosed]
    exact ⟨h.decoder, h.idle, h.shut⟩
  · rw [if_neg hclosed]
    dsimp only
    split <;> exact ⟨h.decoder, h.idle, fun hshut => absurd hshut hclosed⟩

theorem closed_handleClose (client : Client) (error : CloseError) (emitDisconnect : Bool) :
    (client.handleClose error emitDisconnect).closed = true := by
  unfold Client.handleClose
  by_cases hclosed : client.closed = true
  · rw [if_pos hclosed]
    exact hclosed
  · rw [if_neg hclosed]
    dsimp only
    rw [foldl_settle]

theorem wired_handleClose (client : Client) (hdecoder : client.decoder.Sound)
    (hshut : client.closed = true → client.pending = []) (error : CloseError)
    (emitDisconnect : Bool) : Wired decode (client.handleClose error emitDisconnect) := by
  unfold Client.handleClose
  by_cases hclosed : client.closed = true
  · rw [if_pos hclosed]
    exact ⟨hdecoder, fun hopen => absurd hclosed (by simp [hopen]), hshut⟩
  · rw [if_neg hclosed]
    dsimp only
    rw [foldl_settle]
    exact ⟨FrameDecoder.sound_empty, fun hopen => absurd hopen (by simp), fun _ => rfl⟩

def deliver (client : Client) (messages : List Message) : Ending UInt8 DecodeError → Client
  | .more _ => messages.foldl route client
  | .bad error => (messages.foldl route client).handleClose (.decode error) true

/-- A chunk that ends well delivers its messages, one that does not closes the client. -/
theorem handleData_of_drains (hdecoder : client.decoder.Sound) {chunk : List UInt8}
    {messages : List Message} {ending : Ending UInt8 DecodeError}
    (h : Drains (frames decode) (client.decoder.buffered ++ chunk) messages ending) :
    ∃ decoder : FrameDecoder, decoder.Sound ∧
      (∀ rest, ending = .more rest → decoder.buffered = rest ∧
        client.handleData decode chunk = messages.foldl route { client with decoder := decoder }) ∧
      ∀ error, ending = .bad error →
        client.handleData decode chunk =
          { client with decoder := decoder }.handleClose (.decode error) true := by
  have hpushed := FrameDecoder.push_spec hdecoder h
  unfold handleData
  generalize client.decoder.push decode chunk = pushed at hpushed ⊢
  cases hpushed with
  | @ok decoder rest hsound hrest =>
    refine ⟨decoder, hsound, ?_, ?_⟩
    · intro rest' hending
      cases hending
      exact ⟨hrest, rfl⟩
    · intro error hending
      cases hending
  | @thrown decoder error hsound =>
    refine ⟨decoder, hsound, ?_, ?_⟩
    · intro rest hending
      cases hending
    · intro error' hending
      cases hending
      rfl

theorem Wired.handleData (h : Wired decode client) (chunk : List UInt8) :
    Wired decode (client.handleData decode chunk) := by
  obtain ⟨messages, ending, hdrains⟩ :=
    Drains.total (frames decode) (client.decoder.buffered ++ chunk)
  obtain ⟨decoder, hsound, hmore, hbad⟩ := handleData_of_drains h.decoder hdrains
  cases ending with
  | more rest =>
    obtain ⟨hrest, hnext⟩ := hmore rest rfl
    have hfed : Wired decode { client with decoder := decoder } :=
      ⟨hsound, fun _ => by rw [hrest]; exact hdrains.next_rest, h.shut⟩
    rw [hnext]
    exact hfed.quiet (quiet_routeAll _ messages)
  | bad error =>
    rw [hbad error rfl]
    exact wired_handleClose { client with decoder := decoder } hsound h.shut (.decode error) true

end

/-! ## What the decoder and the emissions do not touch -/

def core (client : Client) : Client :=
  { client with decoder := {}, emitted := [], disposed := false }

theorem core_core (client : Client) : client.core.core = client.core := rfl

theorem core_emitted (client : Client) (emitted : List Emission) :
    { client with emitted := emitted }.core = client.core := rfl

theorem core_pending (client : Client) : client.core.pending = client.pending := rfl

theorem closed_of_core {client client' : Client} (h : client.core = client'.core) :
    client.closed = client'.closed := by
  change client.core.closed = client'.core.closed
  rw [h]

theorem settled_of_core {client client' : Client} (h : client.core = client'.core) :
    client.settled = client'.settled := by
  change client.core.settled = client'.core.settled
  rw [h]

theorem core_resolvePending (client : Client) (map : PendingMap) (message : Message) :
    (client.resolvePending map message).core = client.core.resolvePending map message := by
  unfold resolvePending
  rw [core_pending]
  split <;> rfl

theorem core_routeStreaming (client : Client) (map : PendingMap) (message : Message) :
    (client.routeStreaming map message).core = (client.core.routeStreaming map message).core := by
  unfold routeStreaming
  rw [core_pending]
  split
  · split
    · rfl
    · rw [core_resolvePending, core_resolvePending, core_core]
  · rfl

theorem core_route (client : Client) (message : Message) :
    (client.route message).core = (client.core.route message).core := by
  unfold route
  simp only [apply_ite core, core_resolvePending, core_emitted, core_core,
    core_routeStreaming client]
  rfl

theorem core_routeAll {client client' : Client} (h : client.core = client'.core)
    (messages : List Message) :
    (messages.foldl route client).core = (messages.foldl route client').core := by
  induction messages generalizing client client' with
  | nil => exact h
  | cons message messages ih =>
    apply ih
    rw [core_route client, core_route client', h]

theorem core_request (client : Client) (map : PendingMap) (requestId payloadLength : Nat) :
    (client.request map requestId payloadLength).core =
      client.core.request map requestId payloadLength := by
  unfold request
  rw [core_pending]
  split
  · rename_i hclosed
    rw [if_pos (show client.core.closed = true from hclosed)]
    rfl
  · rename_i hclosed
    rw [if_neg (show ¬ client.core.closed = true from hclosed)]
    dsimp only
    split <;> rfl

theorem core_timeout (client : Client) (key : Key) :
    (client.timeout key).core = client.core.timeout key := by
  unfold timeout
  rw [core_pending]
  split
  · rename_i htimer
    rw [if_pos (show key ∈ client.core.timers from htimer)]
    dsimp only
    split <;> rfl
  · rename_i htimer
    rw [if_neg (show ¬ key ∈ client.core.timers from htimer)]

theorem core_handleClose (client : Client) (error : CloseError) (emitDisconnect : Bool) :
    (client.handleClose error emitDisconnect).core =
      (client.core.handleClose error emitDisconnect).core := by
  unfold handleClose
  by_cases hclosed : client.closed = true
  · rw [if_pos hclosed, if_pos (show client.core.closed = true from hclosed), core_core]
  · rw [if_neg hclosed, if_neg (show ¬ client.core.closed = true from hclosed)]
    dsimp only
    rw [foldl_settle, foldl_settle]
    rfl

end Client

/-! ## Runs -/

section

variable (decode : List UInt8 → Option Message)

/-- Neither a send that throws on an open client, nor a chunk whose push throws after it
has completed a frame. -/
def Meets (client : Client) : Event → Prop
  | .request _ _ payloadLength => client.closed = true ∨ payloadLength ≤ maxFrameBytes
  | .data chunk =>
      client.closed = true ∨ ∀ messages error,
        Drains (frames decode) (client.decoder.buffered ++ chunk) messages (.bad error) →
          messages = []
  | _ => True

def MeetsAll : Client → List Event → Prop
  | _, [] => True
  | client, event :: events =>
      Meets decode client event ∧ MeetsAll (step decode client event) events

end

section

variable {decode : List UInt8 → Option Message} {client client' : Client}

theorem run_append (events events' : List Event) :
    run decode client (events ++ events') = run decode (run decode client events) events' :=
  List.foldl_append

theorem meetsAll_append (events events' : List Event) :
    MeetsAll decode client (events ++ events') ↔
      MeetsAll decode client events ∧ MeetsAll decode (run decode client events) events' := by
  induction events generalizing client with
  | nil => simp [MeetsAll, run]
  | cons event events ih =>
    rw [List.cons_append, MeetsAll, MeetsAll, ih, and_assoc]
    rfl

theorem wired_step (h : client.Wired decode) (event : Event) :
    (step decode client event).Wired decode := by
  cases event with
  | request map requestId payloadLength => exact h.request map requestId payloadLength
  | data chunk => exact h.handleData chunk
  | timeout map requestId => exact h.quiet (client.quiet_timeout (map, requestId))
  | socketEnded error => exact client.wired_handleClose h.decoder h.shut error true
  | dispose =>
    exact Client.wired_handleClose { client with disposed := true } h.decoder h.shut .disposed false

theorem wired_run (h : client.Wired decode) (events : List Event) :
    (run decode client events).Wired decode := by
  induction events generalizing client with
  | nil => exact h
  | cons event events ih => exact ih (wired_step h event)

theorem accounted_step {issued : List Nat} (h : client.Accounted issued) (event : Event)
    (hfresh : ∀ requestId ∈ event.requestIds, requestId ∉ issued)
    (hmeets : Meets decode client event) :
    (step decode client event).Accounted (issued ++ event.requestIds) := by
  cases event with
  | request map requestId payloadLength =>
    exact h.request map (hfresh requestId (List.mem_singleton_self requestId)) hmeets
  | data chunk =>
    rw [show Event.requestIds (.data chunk) = [] from rfl, List.append_nil]
    exact h.handleData decode chunk
  | timeout map requestId =>
    rw [show Event.requestIds (.timeout map requestId) = [] from rfl, List.append_nil]
    exact h.timeout (map, requestId)
  | socketEnded error =>
    rw [show Event.requestIds (.socketEnded error) = [] from rfl, List.append_nil]
    exact h.handleClose error true
  | dispose =>
    have hdisposed : Client.Accounted { client with disposed := true } issued :=
      ⟨h.requests, h.timed⟩
    rw [show Event.requestIds .dispose = [] from rfl, List.append_nil]
    exact hdisposed.handleClose .disposed false

theorem accounted_run {issued : List Nat} (h : client.Accounted issued) (events : List Event)
    (hnodup : (issued ++ requestIds events).Nodup) (hmeets : MeetsAll decode client events) :
    (run decode client events).Accounted (issued ++ requestIds events) := by
  induction events generalizing client issued with
  | nil =>
    rw [requestIds, List.flatMap_nil, List.append_nil]
    exact h
  | cons event events ih =>
    rw [requestIds, List.flatMap_cons, ← List.append_assoc] at hnodup ⊢
    refine ih (accounted_step h event ?_ hmeets.1) hnodup hmeets.2
    intro requestId hmem hissued
    have hearlier := (List.nodup_append.mp hnodup).1
    exact (List.nodup_append.mp hearlier).2.2 requestId hissued requestId hmem rfl

/-! ### Chunks on a closed client -/

theorem core_route_idle (hpending : client.pending = []) (message : Message) :
    (client.route message).core = client.core := by
  have hrouted := client.routed message
  generalize client.route message = next at hrouted ⊢
  cases hrouted with
  | resolve map => rw [Client.resolvePending, if_neg (by simp [hpending])]
  | stream map => rw [Client.routeStreaming, if_neg (by simp [hpending])]
  | emit => rfl
  | ignore => rfl

theorem core_routeAll_idle (hpending : client.pending = []) (messages : List Message) :
    (messages.foldl Client.route client).core = client.core := by
  induction messages generalizing client with
  | nil => rfl
  | cons message messages ih =>
    exact (ih ((client.quiet_route message).pending hpending)).trans
      (core_route_idle hpending message)

theorem core_handleData_closed (h : client.Wired decode) (hclosed : client.closed = true)
    (chunk : List UInt8) : (client.handleData decode chunk).core = client.core := by
  obtain ⟨messages, ending, hdrains⟩ :=
    Drains.total (frames decode) (client.decoder.buffered ++ chunk)
  obtain ⟨decoder, -, hmore, hbad⟩ := Client.handleData_of_drains h.decoder hdrains
  cases ending with
  | more rest =>
    rw [(hmore rest rfl).2]
    exact @core_routeAll_idle { client with decoder := decoder } (h.shut hclosed) messages
  | bad error =>
    rw [hbad error rfl, Client.handleClose, if_pos hclosed]
    rfl

theorem core_run_closed (h : client.Wired decode) (hclosed : client.closed = true)
    (chunks : List (List UInt8)) :
    (run decode client (chunks.map .data)).core = client.core := by
  induction chunks generalizing client with
  | nil => rfl
  | cons chunk chunks ih =>
    have hcore := core_handleData_closed h hclosed chunk
    have hstill : (client.handleData decode chunk).closed = true :=
      (Client.closed_of_core hcore).trans hclosed
    exact (ih (h.handleData chunk) hstill).trans hcore

/-! ### Chunks on an open client -/

theorem core_deliver (h : client.core = client'.core) (messages : List Message)
    (ending : Ending UInt8 DecodeError) :
    (client.deliver messages ending).core = (client'.deliver messages ending).core := by
  have hrouted := Client.core_routeAll h messages
  cases ending with
  | more rest => exact hrouted
  | bad error =>
    rw [Client.deliver, Client.deliver, Client.core_handleClose, hrouted,
      ← Client.core_handleClose]

/-- However a stream is cut, an open client delivers the messages it completes. -/
theorem run_data {chunks : List (List UInt8)} {messages : List Message}
    {ending : Ending UInt8 DecodeError} (h : client.Wired decode) (hopen : client.closed = false)
    (hmeets : MeetsAll decode client (chunks.map .data))
    (hdrains : Drains (frames decode) (client.decoder.buffered ++ chunks.flatten)
      messages ending) :
    (run decode client (chunks.map .data)).core = (client.deliver messages ending).core ∧
      ∀ rest, ending = .more rest →
        (run decode client (chunks.map .data)).decoder.buffered = rest := by
  induction chunks generalizing client messages ending with
  | nil =>
    rw [List.flatten_nil, List.append_nil] at hdrains
    obtain ⟨rfl, rfl⟩ := hdrains.unique (.more (h.idle hopen))
    refine ⟨rfl, ?_⟩
    intro rest hending
    cases hending
    rfl
  | cons chunk chunks ih =>
    rw [List.flatten_cons, ← List.append_assoc] at hdrains
    obtain ⟨first, ending', hfirst⟩ :=
      Drains.total (frames decode) (client.decoder.buffered ++ chunk)
    obtain ⟨decoder, hsound, hmore, hbad⟩ := Client.handleData_of_drains h.decoder hfirst
    have hwired : (client.handleData decode chunk).Wired decode := h.handleData chunk
    cases ending' with
    | more rest =>
      -- the chunk ends between two frames or in one, and the next chunk goes on there
      obtain ⟨hrest, hnext⟩ := hmore rest rfl
      have hquiet : Client.Quiet { client with decoder := decoder }
          (client.handleData decode chunk) := by
        rw [hnext]
        exact Client.quiet_routeAll _ first
      have hbuffered : (client.handleData decode chunk).decoder.buffered = rest := by
        rw [hquiet.decoder]
        exact hrest
      obtain ⟨later, ending'', hlater⟩ := Drains.total (frames decode) (rest ++ chunks.flatten)
      obtain ⟨rfl, rfl⟩ := hdrains.unique (hfirst.append hlater)
      rw [← hbuffered] at hlater
      obtain ⟨hcore, hlast⟩ := ih hwired (hquiet.closed.trans hopen) hmeets.2 hlater
      refine ⟨hcore.trans ?_, hlast⟩
      have hrouted : (client.handleData decode chunk).core =
          (first.foldl Client.route client).core := by
        rw [hnext]
        exact @Client.core_routeAll { client with decoder := decoder } client rfl first
      rw [core_deliver hrouted]
      cases ending with
      | more rest => rw [Client.deliver, Client.deliver, List.foldl_append]
      | bad error => rw [Client.deliver, Client.deliver, List.foldl_append]
    | bad error =>
      -- nothing was complete before the bad frame, and the client is closed behind it
      have hnone : first = [] :=
        (hmeets.1.resolve_left (by simp [hopen])) first error hfirst
      subst hnone
      obtain ⟨rfl, rfl⟩ := hdrains.unique (hfirst.append_bad chunks.flatten)
      have hnext := hbad error rfl
      have hclosed : (client.handleData decode chunk).closed = true := by
        rw [hnext]
        exact Client.closed_handleClose _ (.decode error) true
      constructor
      · refine (core_run_closed hwired hclosed chunks).trans ?_
        rw [hnext]
        exact @core_deliver { client with decoder := decoder } client rfl [] (.bad error)
      · intro rest hending
        cases hending

/-! ### Streams that are cut differently -/

/-- Two clients that differ in how the stream they have read was cut. -/
structure Alike (client client' : Client) : Prop where
  core : client.core = client'.core
  buffered : client.closed = false → client.decoder.buffered = client'.decoder.buffered

/-- The same events, with the chunks between two of them cut at other places. -/
inductive Rechunked : List Event → List Event → Prop
  | nil : Rechunked [] []
  | data {events events' : List Event} (chunks chunks' : List (List UInt8))
      (hstream : chunks.flatten = chunks'.flatten) (h : Rechunked events events') :
      Rechunked (chunks.map .data ++ events) (chunks'.map .data ++ events')
  | event {events events' : List Event} (event : Event)
      (hevent : ∀ chunk, event ≠ .data chunk) (h : Rechunked events events') :
      Rechunked (event :: events) (event :: events')

theorem Alike.closed (h : Alike client client') : client.closed = client'.closed :=
  Client.closed_of_core h.core

theorem open_step (event : Event) (hevent : ∀ chunk, event ≠ .data chunk)
    (hopen : (step decode client event).closed = false) :
    client.closed = false ∧ (step decode client event).decoder = client.decoder := by
  cases event with
  | request map requestId payloadLength =>
    revert hopen
    unfold step Client.request
    dsimp only
    split
    · exact fun hopen => ⟨hopen, rfl⟩
    · split <;> exact fun hopen => ⟨hopen, rfl⟩
  | data chunk => exact absurd rfl (hevent chunk)
  | timeout map requestId =>
    have hquiet := client.quiet_timeout (map, requestId)
    exact ⟨hquiet.closed.symm.trans hopen, hquiet.decoder⟩
  | socketEnded error =>
    rw [step, Client.closed_handleClose] at hopen
    cases hopen
  | dispose =>
    rw [step, Client.dispose, Client.closed_handleClose] at hopen
    cases hopen

theorem core_step (h : client.core = client'.core) (event : Event)
    (hevent : ∀ chunk, event ≠ .data chunk) :
    (step decode client event).core = (step decode client' event).core := by
  cases event with
  | request map requestId payloadLength =>
    rw [step, step, Client.core_request, Client.core_request, h]
  | data chunk => exact absurd rfl (hevent chunk)
  | timeout map requestId => rw [step, step, Client.core_timeout, Client.core_timeout, h]
  | socketEnded error => rw [step, step, Client.core_handleClose, h, ← Client.core_handleClose]
  | dispose =>
    have hdisposed : ∀ client : Client, { client with disposed := true }.core = client.core :=
      fun _ => rfl
    rw [step, step, Client.dispose, Client.dispose, Client.core_handleClose, hdisposed, h,
      ← hdisposed client', ← Client.core_handleClose]

theorem Alike.step (h : Alike client client') (event : Event)
    (hevent : ∀ chunk, event ≠ .data chunk) :
    Alike (step decode client event) (Ipc.step decode client' event) := by
  have hcore : (Ipc.step decode client event).core = (Ipc.step decode client' event).core :=
    core_step h.core event hevent
  refine ⟨hcore, fun hopen => ?_⟩
  have hopen' : (Ipc.step decode client' event).closed = false :=
    (Client.closed_of_core hcore).symm.trans hopen
  obtain ⟨hbefore, hdecoder⟩ := open_step event hevent hopen
  obtain ⟨-, hdecoder'⟩ := open_step event hevent hopen'
  rw [hdecoder, hdecoder']
  exact h.buffered hbefore

theorem Alike.data (h : Alike client client') (hwired : client.Wired decode)
    (hwired' : client'.Wired decode) {chunks chunks' : List (List UInt8)}
    (hstream : chunks.flatten = chunks'.flatten)
    (hmeets : MeetsAll decode client (chunks.map .data))
    (hmeets' : MeetsAll decode client' (chunks'.map .data)) :
    Alike (run decode client (chunks.map .data)) (run decode client' (chunks'.map .data)) := by
  by_cases hclosed : client.closed = true
  · have hcore := core_run_closed hwired hclosed chunks
    have hcore' := core_run_closed hwired' (h.closed.symm.trans hclosed) chunks'
    refine ⟨hcore.trans (h.core.trans hcore'.symm), fun hopen => ?_⟩
    have hstill : (run decode client (chunks.map .data)).closed = true :=
      (Client.closed_of_core hcore).trans hclosed
    exact absurd hstill (by simp [hopen])
  · have hopen : client.closed = false := by simpa using hclosed
    obtain ⟨messages, ending, hdrains⟩ :=
      Drains.total (frames decode) (client.decoder.buffered ++ chunks.flatten)
    have hdrains' := hdrains
    rw [h.buffered hopen, hstream] at hdrains'
    obtain ⟨hcore, hrest⟩ := run_data hwired hopen hmeets hdrains
    obtain ⟨hcore', hrest'⟩ := run_data hwired' (h.closed.symm.trans hopen) hmeets' hdrains'
    refine ⟨hcore.trans ((core_deliver h.core messages ending).trans hcore'.symm), ?_⟩
    intro hafter
    cases ending with
    | more rest => rw [hrest rest rfl, hrest' rest rfl]
    | bad error =>
      have hshut : (run decode client (chunks.map .data)).closed = true := by
        rw [Client.closed_of_core hcore]
        exact Client.closed_handleClose _ (.decode error) true
      exact absurd hshut (by simp [hafter])

theorem alike_run {events events' : List Event} (hrechunked : Rechunked events events')
    (h : Alike client client') (hwired : client.Wired decode) (hwired' : client'.Wired decode)
    (hmeets : MeetsAll decode client events) (hmeets' : MeetsAll decode client' events') :
    Alike (run decode client events) (run decode client' events') := by
  induction hrechunked generalizing client client' with
  | nil => exact h
  | data chunks chunks' hstream hrest ih =>
    rw [meetsAll_append] at hmeets hmeets'
    rw [run_append, run_append]
    exact ih (h.data hwired hwired' hstream hmeets.1 hmeets'.1) (wired_run hwired _)
      (wired_run hwired' _) hmeets.2 hmeets'.2
  | event event hevent hrest ih =>
    exact ih (h.step event hevent) (wired_step hwired event) (wired_step hwired' event)
      hmeets.2 hmeets'.2

/-! ## The promises -/

/-- A request is settled once and nothing of it remains, or it waits with its timer. -/
inductive Fate (client : Client) (requestId : Nat) : Prop
  | settled (honce : (client.settled.map Prod.fst).count requestId = 1)
      (hpending : requestId ∉ client.pending.map Prod.snd)
      (htimers : requestId ∉ client.timers.map Prod.snd)
  | waiting (map : PendingMap) (hnot : requestId ∉ client.settled.map Prod.fst)
      (hpending : (client.pending.map Prod.snd).count requestId = 1)
      (hentry : (map, requestId) ∈ client.pending) (htimer : (map, requestId) ∈ client.timers)

def resolvedIds (client : Client) : List Nat :=
  (client.settled.filter fun settled => settled.2.isResolved).map Prod.fst

/-- What the client promises in the runs that are allowed. -/
structure Promises (decode : List UInt8 → Option Message) (allowed : List Event → Prop) :
    Prop where
  settles : ∀ events, (requestIds events).Nodup → allowed events →
    ∀ requestId ∈ requestIds events, Fate (run decode {} events) requestId
  expires : ∀ events map requestId, (requestIds events).Nodup → allowed events →
    (map, requestId) ∈ (run decode {} events).pending →
      (run decode {} (events ++ [.timeout map requestId])).settled =
        (run decode {} events).settled ++ [(requestId, .rejected .timedOut)]
  throws : ∀ events map requestId payloadLength,
    (requestIds (events ++ [.request map requestId payloadLength])).Nodup →
    allowed (events ++ [.request map requestId payloadLength]) →
    maxFrameBytes < payloadLength →
      (run decode {} (events ++ [.request map requestId payloadLength])).pending =
        (run decode {} events).pending
  chunking : ∀ events events', Rechunked events events' → (requestIds events).Nodup →
    allowed events → allowed events' →
      resolvedIds (run decode {} events) = resolvedIds (run decode {} events')
  delivers : ∀ events (chunks : List (List UInt8)) messages ending,
    (requestIds events).Nodup → allowed (events ++ chunks.map .data) →
    (run decode {} events).closed = false →
    Drains (frames decode) ((run decode {} events).decoder.buffered ++ chunks.flatten)
      messages ending →
      resolvedIds (run decode {} (events ++ chunks.map .data)) =
        resolvedIds (messages.foldl Client.route (run decode {} events))

theorem fate_of_accounted {issued : List Nat} (h : client.Accounted issued)
    (hnodup : issued.Nodup) {requestId : Nat} (hissued : requestId ∈ issued) :
    Fate client requestId := by
  have hcount : (client.settled.map Prod.fst).count requestId +
      (client.pending.map Prod.snd).count requestId = 1 := by
    rw [← List.count_append, h.requests.count_eq]
    exact List.count_eq_one_of_mem hnodup hissued
  by_cases hpending : requestId ∈ client.pending.map Prod.snd
  · have hpos := List.count_pos_iff.mpr hpending
    obtain ⟨⟨map, id⟩, hentry, rfl⟩ := List.mem_map.mp hpending
    refine .waiting map ?_ (by omega) hentry (h.timed.symm.subset hentry)
    rw [← List.count_eq_zero]
    omega
  · have hzero := List.count_eq_zero.mpr hpending
    refine .settled (by omega) hpending ?_
    intro htimer
    exact hpending ((h.timed.map Prod.snd).subset htimer)

theorem core_resolvedIds (h : client.core = client'.core) :
    resolvedIds client = resolvedIds client' := by
  rw [resolvedIds, resolvedIds, Client.settled_of_core h]

theorem resolvedIds_handleClose (error : CloseError) (emitDisconnect : Bool) :
    resolvedIds (client.handleClose error emitDisconnect) = resolvedIds client := by
  unfold Client.handleClose
  by_cases hclosed : client.closed = true
  · rw [if_pos hclosed]
  · rw [if_neg hclosed]
    dsimp only
    rw [Client.foldl_settle]
    have hnone : (client.closing.map fun key => (key.2, Settlement.rejected
        (.disconnected error))).filter (fun settled => settled.2.isResolved) = [] := by
      rw [List.filter_eq_nil_iff]
      intro settled hmem
      obtain ⟨key, -, rfl⟩ := List.mem_map.mp hmem
      exact Bool.false_ne_true
    unfold resolvedIds
    dsimp only
    rw [List.filter_append]
    exact congrArg (List.map Prod.fst) ((congrArg _ hnone).trans (List.append_nil _))

end

/-- In the runs without a throwing send and without a frame lost to a bad one. -/
theorem promises_of_meetsAll (decode : List UInt8 → Option Message) :
    Promises decode (MeetsAll decode {}) := by
  have hwired : ∀ events, (run decode {} events).Wired decode :=
    wired_run (Client.wired_empty decode)
  have haccounted : ∀ events, (requestIds events).Nodup → MeetsAll decode {} events →
      (run decode {} events).Accounted (requestIds events) :=
    accounted_run Client.accounted_empty
  constructor
  · intro events hnodup hmeets requestId hmem
    exact fate_of_accounted (haccounted events hnodup hmeets) hnodup hmem
  · intro events map requestId hnodup hmeets hentry
    have htimer := (haccounted events hnodup hmeets).timed.symm.subset hentry
    rw [run_append]
    unfold run at hentry htimer ⊢
    rw [List.foldl_cons, List.foldl_nil, step, Client.timeout, if_pos htimer]
    dsimp only
    rw [if_pos hentry]
  · intro events map requestId payloadLength _ hmeets hlarge
    rw [meetsAll_append] at hmeets
    have hclosed : (run decode {} events).closed = true :=
      hmeets.2.1.resolve_right (by omega)
    rw [run_append]
    unfold run at hclosed ⊢
    rw [List.foldl_cons, List.foldl_nil, step, Client.request, if_pos hclosed]
  · intro events events' hrechunked _ hmeets hmeets'
    have halike := alike_run hrechunked ⟨rfl, fun _ => rfl⟩ (Client.wired_empty decode)
      (Client.wired_empty decode) hmeets hmeets'
    exact core_resolvedIds halike.core
  · intro events chunks messages ending _ hmeets hopen hdrains
    rw [meetsAll_append] at hmeets
    obtain ⟨hcore, -⟩ := run_data (hwired events) hopen hmeets.2 hdrains
    rw [run_append, core_resolvedIds hcore]
    cases ending with
    | more rest => rfl
    | bad error => exact resolvedIds_handleClose (.decode error) true

/-- A field of a MessagePack map. -/
def packedField (name : String) (value : List UInt8) : List UInt8 :=
  (0xa0 + UInt8.ofNat name.length) :: utf8 name.toList ++ value

/-- The `cache_status` response of an empty cache to request 7, as the daemon packs it. -/
def packedStatus : List UInt8 :=
  0x8b :: packedField "version" [8] ++ packedField "request_id" [7] ++
    packedField "total_size_bytes" [0] ++ packedField "project_count" [0] ++
    packedField "max_size_mb" [100] ++ packedField "current_project" [0xc0] ++
    packedField "total_bytes" [0] ++ packedField "budget_bytes" [0xce, 0x06, 0x40, 0, 0] ++
    packedField "registry_size_bytes" [0] ++ packedField "error" [0xc0] ++
    packedField "diagnostics" [0x90]

def decodeStatus (payload : List UInt8) : Option Message :=
  if payload = packedStatus then some { accepted := [.cacheStatus], requestId := 7 } else none

def statusFrame : List UInt8 := [0, 0, 0, 157] ++ packedStatus

/-- A request too large for a frame stays among those that wait, and a response is lost
when a bad frame arrives in the same chunk. -/
theorem promises_fail :
    ¬ Promises decodeStatus (fun _ => True) ∧
    resolvedIds (run decodeStatus {}
      [.request .cacheStatus 7 1, .data statusFrame, .data [0, 0, 0, 0]]) = [7] ∧
    resolvedIds (run decodeStatus {}
      [.request .cacheStatus 7 1, .data (statusFrame ++ [0, 0, 0, 0])]) = [] := by
  refine ⟨?_, by decide +kernel, by decide +kernel⟩
  intro h
  have hpending := h.throws [] .document 1 (maxFrameBytes + 1) (by decide) trivial (by decide)
  exact absurd hpending (by decide)

end ImportLens.Extension.Ipc
