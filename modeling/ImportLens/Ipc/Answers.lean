import ImportLens.Ipc.Connection

/-!
# The answer to a request

Every request handled after hello is owed one final response.  Its task queues
the encoded response, or the protocol error that names the encoder's reason; the
loop writes what is queued, and takes every failure to write for a failed socket.
The length of a frame is looked at by the framing codec only, after the response
has been queued.
-/

namespace ImportLens.Ipc.Connection

open ImportLens.Support

variable {ρ : Type} {wire : Wire ρ} {s s' : Shared ρ} {l l' : Loop} {a : Action ρ}

/-! ## What is queued -/

def Shared.finals (s : Shared ρ) (number : Nat) : List Frame :=
  s.queued.filter fun frame => decide (frame.origin = .answer number)

def outboundLength (wire : Wire ρ) (message : ρ) : Option Nat :=
  match wire.encode message with
  | .ok length => some length
  | .error _ => none

def responseLength (wire : Wire ρ) (response : ρ) (fallback : String → ρ) : Option Nat :=
  match wire.encode response with
  | .ok length => some length
  | .error reason =>
      outboundLength wire
        (fallback ("the response could not be encoded: MessagePack encode failed: " ++ reason))

def answerLength (wire : Wire ρ) (r : Request) : Outcome ρ → Option Nat
  | .value response => responseLength wire response (wire.protocolError r)
  | .failed reason =>
      responseLength wire (wire.protocolError r (failureMessage r reason)) (wire.protocolError r)
  | .superseded =>
      outboundLength wire (wire.protocolError r "superseded by a newer size read for this document")

def Request.isRefused (r : Request) : Bool :=
  decide (r.kind = .refreshRegistryHints) && !isSupportedProtocolVersion r.version

def refusalLength (wire : Wire ρ) (r : Request) : Option Nat :=
  outboundLength wire
    (wire.protocolError r ("unsupported protocol version " ++ toString r.version))

def finalFrames (number : Nat) (length : Option Nat) : List Frame :=
  length.toList.map fun length => ⟨.answer number, length⟩

theorem Shared.finals_send (s : Shared ρ) (frame : Frame) (number : Nat) :
    (s.send frame).finals number =
      s.finals number ++ if frame.origin = .answer number then [frame] else [] := by
  unfold Shared.finals Shared.send
  rw [List.filter_append]
  by_cases horigin : frame.origin = .answer number <;> simp [horigin]

theorem Shared.finals_queueOutbound (s : Shared ρ) (origin : Origin) (message : ρ)
    (number : Nat) :
    (s.queueOutbound wire origin message).finals number =
      s.finals number ++
        if origin = .answer number then finalFrames number (outboundLength wire message)
        else [] := by
  unfold Shared.queueOutbound finalFrames outboundLength
  cases wire.encode message with
  | ok length =>
      rw [Shared.finals_send]
      by_cases horigin : origin = .answer number <;> simp [horigin]
  | error reason => simp

/-- Only the frame of the answer is queued, if it can be encoded. -/
theorem finals_answer (s : Shared ρ) (wire : Wire ρ) (number : Nat) (r : Request)
    (outcome : Outcome ρ) (other : Nat) :
    (answer s wire number r outcome).finals other =
      s.finals other ++
        if number = other then finalFrames other (answerLength wire r outcome) else [] := by
  have horigin : (Origin.answer number = .answer other) = (number = other) := by simp
  have hresponse : ∀ response, (s.queueResponse wire (.answer number) response
      (wire.protocolError r)).finals other = s.finals other ++
        if number = other then finalFrames other (responseLength wire response
          (wire.protocolError r)) else [] := by
    intro response
    unfold Shared.queueResponse responseLength
    cases wire.encode response with
    | ok length =>
        rw [Shared.finals_send]
        by_cases hnumber : number = other <;> simp [hnumber, finalFrames]
    | error reason =>
        simp only [Shared.finals_queueOutbound, horigin]
  cases outcome with
  | value response => exact hresponse _
  | failed reason => exact hresponse _
  | superseded =>
      simp only [answer, answerLength, Shared.finals_queueOutbound, horigin]

/-! ## Accounts -/

def Place.ending : Place → Option Ending
  | .close ending | .join ending | .drainOutbound ending | .ended ending => some ending
  | _ => none

theorem ending_recycleIfNeeded {shouldRecycle : Bool} :
    (recycleIfNeeded s l shouldRecycle).place.ending ≠ some .sendFailed := by
  intro h
  unfold recycleIfNeeded at h
  split at h
  · split at h <;> cases h
  · cases h

/-- What handling a message queues and spawns. -/
inductive HandleMove (wire : Wire ρ) (s : Shared ρ) (l : Loop) : Message → Shared ρ → Prop
  | ignores (message : Message) : HandleMove wire s l message s
  | invalidates (message : Message) :
      HandleMove wire s l message (spawnInvalidation s l message).1
  | refuses (r : Request) (hhello : l.helloReceived = true) (hrefused : r.isRefused = true) :
      HandleMove wire s l (.request r)
        (({ s with requests := s.requests ++ [r] } : Shared ρ).queueOutbound wire
          (.answer s.requests.length)
          (wire.protocolError r ("unsupported protocol version " ++ toString r.version)))
  | serves (r : Request) (hserved : r.isRefused = false) :
      HandleMove wire s l (.request r)
        { s with
          requests := s.requests ++ [r]
          tasks := s.tasks ++ [.request s.requests.length r .running] }
  | rejects (r : Request) (hhello : l.helloReceived = false) :
      HandleMove wire s l (.request r)
        (s.queueOutbound wire .refusal (wire.protocolError r "hello message not received"))

theorem handle_moves (wire : Wire ρ) (s : Shared ρ) (l : Loop) (shouldRecycle : Bool)
    (message : Message) :
    HandleMove wire s l message (handle wire s l shouldRecycle message).1 ∧
      (handle wire s l shouldRecycle message).2.place.ending ≠ some .sendFailed := by
  have hinvalidation : ∀ asked : Message, HandleMove wire s l asked
      (if l.helloReceived ∧ asked.invalidates = true then spawnInvalidation s l asked
        else (s, { l with place := .select })).1 ∧
      (if l.helloReceived ∧ asked.invalidates = true then spawnInvalidation s l asked
        else (s, { l with place := .select })).2.place.ending ≠ some .sendFailed := by
    intro asked
    split
    · exact ⟨.invalidates asked, nofun⟩
    · exact ⟨.ignores asked, nofun⟩
  cases message with
  | hello version =>
      simp only [handle]
      split
      · exact ⟨.ignores _, ending_recycleIfNeeded⟩
      · exact ⟨.ignores _, nofun⟩
  | request r =>
      simp only [handle]
      split
      · rename_i hhello
        simp only [handleRequest]
        split
        · rename_i hrefused
          exact ⟨.refuses r hhello (by simp [Request.isRefused, hrefused]), nofun⟩
        · rename_i hserved
          exact ⟨.serves r (by simpa [Request.isRefused] using hserved), nofun⟩
      · rename_i hhello
        exact ⟨.rejects r (eq_false_of_ne_true hhello), nofun⟩
  | shutdown => exact ⟨.ignores _, nofun⟩
  | cacheInvalidate | cacheInvalidateAll | nodeModulesChanged | prewarmPackageJson
  | visibleDocuments => exact hinvalidation _

/-- What a step of the loop does to the queue and the tables; only a failed write ends
it as one. -/
inductive LoopMove (wire : Wire ρ) (s : Shared ρ) (l : Loop) (a : Action ρ) :
    Shared ρ → Loop → Prop
  | goes (l' : Loop)
      (hending : l.place.ending ≠ some .sendFailed → l'.place.ending ≠ some .sendFailed) :
      LoopMove wire s l a s l'
  | writes (frame : Frame) (rest : List Frame) (hqueue : s.outbound = frame :: rest)
      (hfits : frame.Fits) :
      LoopMove wire s l a { s with outbound := rest, written := s.written ++ [frame] } l
  | fails (frame : Frame) (rest : List Frame) (l' : Loop) (hqueue : s.outbound = frame :: rest)
      (hfails : ¬ (frame.Fits ∧ a.socketFails = false)) :
      LoopMove wire s l a { s with outbound := rest } l'
  | handles (message : Message) (s' : Shared ρ) (l' : Loop) (hplace : l.place = .handle message)
      (hmove : HandleMove wire { s with handled := s.handled ++ [(message, l.helloReceived)] } l
        message s')
      (hending : l'.place.ending ≠ some .sendFailed) : LoopMove wire s l a s' l'

theorem select_moves (hstep : select s l a = some (s', l')) : LoopMove wire s l a s' l' := by
  unfold select at hstep
  split at hstep
  · split at hstep
    · split at hstep <;> cases hstep
      exact .goes _ id
    · cases hstep
  · split at hstep
    · cases hstep
    · rename_i frame rest hqueue
      split at hstep
      · rename_i hboth
        cases hstep
        exact .writes frame rest hqueue hboth.1
      · rename_i hnot
        cases hstep
        exact .fails frame rest _ hqueue hnot
  · split at hstep
    · split at hstep <;> cases hstep
      · exact .goes _ nofun
      · exact .goes _ id
      · exact .goes _ nofun
      · exact .goes _ nofun
    · cases hstep
  · cases hstep
    exact .goes _ fun _ => ending_recycleIfNeeded

theorem loopStep_moves (hstep : loopStep wire s l a = some (s', l')) :
    LoopMove wire s l a s' l' := by
  unfold loopStep at hstep
  split at hstep
  · exact select_moves hstep
  · rename_i message hplace
    obtain ⟨hmove, hending⟩ := handle_moves wire
      { s with handled := s.handled ++ [(message, l.helloReceived)] } l a.shouldRecycle message
    rw [Option.some.inj hstep] at hmove hending
    exact .handles message s' l' hplace hmove hending
  · cases hstep
    exact .goes _ nofun
  · rename_i ending hplace
    split at hstep <;> cases hstep
    refine .goes _ ?_
    rw [hplace]
    exact id
  · rename_i ending hplace
    cases hstep
    refine .goes _ ?_
    rw [hplace]
    dsimp only
    split <;> exact id
  · rename_i ending hplace
    split at hstep
    · cases hstep
      refine .goes _ ?_
      rw [hplace]
      exact id
    · rename_i frame rest hqueue
      split at hstep
      · rename_i hboth
        cases hstep
        exact .writes frame rest hqueue hboth.1
      · rename_i hnot
        cases hstep
        exact .fails frame rest _ hqueue hnot
  · cases hstep

/-- What holds of the requests and their responses in every configuration. -/
structure Accounts (wire : Wire ρ) (s : Shared ρ) : Prop where
  numbered : ∀ (k n : Nat) (r : Request) (p : Progress (Outcome ρ)),
    s.tasks[k]? = some (.request n r p) → s.requests[n]? = some r ∧ r.isRefused = false
  apart : ∀ (j k n : Nat) (r r' : Request) (p p' : Progress (Outcome ρ)),
    s.tasks[j]? = some (.request n r p) → s.tasks[k]? = some (.request n r' p') → j = k
  answered : ∀ (k n : Nat) (r : Request) (p : Progress (Outcome ρ)),
    s.tasks[k]? = some (.request n r p) →
    s.finals n = p.outcome.elim [] fun outcome => finalFrames n (answerLength wire r outcome)
  refused : ∀ (n : Nat) (r : Request), s.requests[n]? = some r → r.isRefused = true →
    s.finals n = finalFrames n (refusalLength wire r)
  served : ∀ (n : Nat) (r : Request), s.requests[n]? = some r → r.isRefused = false →
    ∃ (k : Nat) (p : Progress (Outcome ρ)), s.tasks[k]? = some (.request n r p)
  fresh : ∀ n, s.requests.length ≤ n → s.finals n = []

theorem accounts_started (wire : Wire ρ) : Accounts wire {} where
  numbered _ _ _ _ h := by cases h
  apart _ _ _ _ _ _ _ h := by cases h
  answered _ _ _ _ h := by cases h
  refused _ _ h := by cases h
  served _ _ h := by cases h
  fresh _ _ := rfl

/-- A step that queues no final response. -/
theorem Accounts.moves (h : Accounts wire s) (htasks : s'.tasks = s.tasks)
    (hrequests : s'.requests = s.requests) (hfinals : s'.finals = s.finals) : Accounts wire s' where
  numbered := by rw [htasks, hrequests]; exact h.numbered
  apart := by rw [htasks]; exact h.apart
  answered := by rw [htasks, hfinals]; exact h.answered
  refused := by rw [hrequests, hfinals]; exact h.refused
  served := by rw [hrequests, htasks]; exact h.served
  fresh := by rw [hrequests, hfinals]; exact h.fresh

/-- A message that is no final response is queued. -/
theorem Accounts.queue (h : Accounts wire s) {origin : Origin} (message : ρ)
    (horigin : ∀ n, origin ≠ .answer n) : Accounts wire (s.queueOutbound wire origin message) := by
  refine h.moves (by simp) (by simp) ?_
  funext n
  rw [Shared.finals_queueOutbound, if_neg (horigin n), List.append_nil]

theorem lt_of_requested {requests : List Request} {n : Nat} {r : Request}
    (h : requests[n]? = some r) : n < requests.length :=
  (List.getElem?_eq_some_iff.mp h).1

theorem requested_append {requests : List Request} {n : Nat} {r : Request}
    (h : requests[n]? = some r) (next : Request) : (requests ++ [next])[n]? = some r := by
  rw [List.getElem?_append_left (lt_of_requested h)]
  exact h

theorem Accounts.refuse (h : Accounts wire s) {r : Request} (hrefused : r.isRefused = true) :
    Accounts wire
      (({ s with requests := s.requests ++ [r] } : Shared ρ).queueOutbound wire
        (.answer s.requests.length)
        (wire.protocolError r ("unsupported protocol version " ++ toString r.version))) := by
  have hfinals : ∀ n, (({ s with requests := s.requests ++ [r] } : Shared ρ).queueOutbound wire
      (.answer s.requests.length) (wire.protocolError r
        ("unsupported protocol version " ++ toString r.version))).finals n =
      s.finals n ++ if s.requests.length = n then finalFrames n (refusalLength wire r) else [] := by
    intro n
    rw [Shared.finals_queueOutbound]
    simp only [Origin.answer.injEq]
    rfl
  have hold : ∀ n, n < s.requests.length → s.finals n ++
      (if s.requests.length = n then finalFrames n (refusalLength wire r) else []) =
        s.finals n := by
    intro n hn
    rw [if_neg hn.ne', List.append_nil]
  refine ⟨?_, ?_, ?_, ?_, ?_, ?_⟩
  · intro k n r' p htask
    simp only [Shared.queueOutbound_tasks, Shared.queueOutbound_requests] at htask ⊢
    obtain ⟨hrequest, hserved⟩ := h.numbered k n r' p htask
    exact ⟨requested_append hrequest r, hserved⟩
  · simp only [Shared.queueOutbound_tasks]
    exact h.apart
  · intro k n r' p htask
    simp only [Shared.queueOutbound_tasks] at htask
    rw [hfinals, hold n (lt_of_requested (h.numbered k n r' p htask).1)]
    exact h.answered k n r' p htask
  · intro n r' hr' hrefused'
    simp only [Shared.queueOutbound_requests] at hr'
    rcases getElem?_concat_cases hr' with hr' | ⟨rfl, rfl⟩
    · rw [hfinals, hold n (lt_of_requested hr')]
      exact h.refused n r' hr' hrefused'
    · rw [hfinals, if_pos rfl, h.fresh _ le_rfl, List.nil_append]
  · intro n r' hr' hserved
    simp only [Shared.queueOutbound_requests, Shared.queueOutbound_tasks] at hr' ⊢
    rcases getElem?_concat_cases hr' with hr' | ⟨_, rfl⟩
    · exact h.served n r' hr' hserved
    · rw [hrefused] at hserved
      cases hserved
  · intro n hn
    simp only [Shared.queueOutbound_requests, List.length_append, List.length_singleton] at hn
    rw [hfinals, if_neg (by omega), List.append_nil]
    exact h.fresh n (by omega)

theorem Accounts.spawn (h : Accounts wire s) {r : Request} (hserved : r.isRefused = false) :
    Accounts wire
      { s with
        requests := s.requests ++ [r]
        tasks := s.tasks ++ [.request s.requests.length r .running] } := by
  refine ⟨?_, ?_, ?_, ?_, ?_, ?_⟩
  · intro k n r' p htask
    rcases getElem?_concat_cases htask with htask | ⟨_, htask⟩
    · obtain ⟨hrequest, hserved'⟩ := h.numbered k n r' p htask
      exact ⟨requested_append hrequest r, hserved'⟩
    · cases htask
      exact ⟨List.getElem?_concat_length, hserved⟩
  · intro j k n r' r'' p p' hj hk
    rcases getElem?_concat_cases hj with hj | ⟨hjlast, hj⟩
    · rcases getElem?_concat_cases hk with hk | ⟨_, hk⟩
      · exact h.apart j k n r' r'' p p' hj hk
      · cases hk
        exact absurd (lt_of_requested (h.numbered j _ r' p hj).1) (lt_irrefl _)
    · rcases getElem?_concat_cases hk with hk | ⟨hklast, _⟩
      · cases hj
        exact absurd (lt_of_requested (h.numbered k _ r'' p' hk).1) (lt_irrefl _)
      · rw [hjlast, hklast]
  · intro k n r' p htask
    rcases getElem?_concat_cases htask with htask | ⟨_, htask⟩
    · exact h.answered k n r' p htask
    · cases htask
      exact h.fresh _ le_rfl
  · intro n r' hr' hrefused
    rcases getElem?_concat_cases hr' with hr' | ⟨_, rfl⟩
    · exact h.refused n r' hr' hrefused
    · rw [hserved] at hrefused
      cases hrefused
  · intro n r' hr' hserved'
    rcases getElem?_concat_cases hr' with hr' | ⟨rfl, rfl⟩
    · obtain ⟨k, p, htask⟩ := h.served n r' hr' hserved'
      refine ⟨k, p, ?_⟩
      rw [List.getElem?_append_left (List.getElem?_eq_some_iff.mp htask).1]
      exact htask
    · exact ⟨s.tasks.length, .running, List.getElem?_concat_length⟩
  · intro n hn
    simp only [List.length_append, List.length_singleton] at hn
    exact h.fresh n (by omega)

theorem accounts_spawnInvalidation (h : Accounts wire s) (l : Loop) (message : Message) :
    Accounts wire (spawnInvalidation s l message).1 := by
  refine ⟨?_, ?_, ?_, h.refused, ?_, h.fresh⟩
  · intro k n r p htask
    rcases getElem?_concat_cases htask with htask | ⟨_, htask⟩
    · exact h.numbered k n r p htask
    · cases htask
  · intro j k n r r' p p' hj hk
    rcases getElem?_concat_cases hj with hj | ⟨_, hj⟩
    · rcases getElem?_concat_cases hk with hk | ⟨_, hk⟩
      · exact h.apart j k n r r' p p' hj hk
      · cases hk
    · cases hj
  · intro k n r p htask
    rcases getElem?_concat_cases htask with htask | ⟨_, htask⟩
    · exact h.answered k n r p htask
    · cases htask
  · intro n r hr hserved
    obtain ⟨k, p, htask⟩ := h.served n r hr hserved
    refine ⟨k, p, ?_⟩
    dsimp only [spawnInvalidation]
    rw [List.getElem?_append_left (List.getElem?_eq_some_iff.mp htask).1]
    exact htask

theorem accounts_loopStep (h : Accounts wire s)
    (hstep : loopStep wire s l a = some (s', l')) : Accounts wire s' := by
  cases loopStep_moves hstep with
  | goes => exact h
  | writes | fails => exact h.moves rfl rfl rfl
  | handles message _ _ _ hmove =>
      have hrecorded : Accounts wire
          { s with handled := s.handled ++ [(message, l.helloReceived)] } := h.moves rfl rfl rfl
      cases hmove with
      | ignores => exact hrecorded
      | invalidates => exact accounts_spawnInvalidation hrecorded l message
      | refuses _ _ hrefused => exact hrecorded.refuse hrefused
      | serves _ hserved => exact hrecorded.spawn hserved
      | rejects => exact hrecorded.queue _ nofun

/-- A task is replaced in the table by one for the same request, further on. -/
theorem Accounts.advances (h : Accounts wire s) {k : Nat} {old new : Task ρ}
    (hold : s.tasks[k]? = some old) (htasks : s'.tasks = s.tasks.set k new)
    (hrequests : s'.requests = s.requests)
    (hback : ∀ n r p, new = .request n r p → ∃ q, old = .request n r q)
    (hforth : ∀ n r q, old = .request n r q → ∃ p, new = .request n r p)
    (hothers : ∀ n, (∀ r q, old ≠ .request n r q) → s'.finals n = s.finals n)
    (hself : ∀ n r p, new = .request n r p → s'.finals n =
      p.outcome.elim [] fun outcome => finalFrames n (answerLength wire r outcome)) :
    Accounts wire s' := by
  have hlt : k < s.tasks.length := (List.getElem?_eq_some_iff.mp hold).1
  have hset : ∀ {j : Nat} {task : Task ρ}, s'.tasks[j]? = some task →
      (j ≠ k ∧ s.tasks[j]? = some task) ∨ j = k ∧ task = new := by
    intro j task hj
    rw [htasks] at hj
    by_cases hjk : j = k
    · subst hjk
      rw [List.getElem?_set_self hlt] at hj
      exact .inr ⟨rfl, (Option.some.inj hj).symm⟩
    · rw [List.getElem?_set_ne (Ne.symm hjk)] at hj
      exact .inl ⟨hjk, hj⟩
  refine ⟨?_, ?_, ?_, ?_, ?_, ?_⟩
  · intro j n r p hj
    rw [hrequests]
    rcases hset hj with ⟨_, hj⟩ | ⟨_, hnew⟩
    · exact h.numbered j n r p hj
    · obtain ⟨q, rfl⟩ := hback n r p hnew.symm
      exact h.numbered k n r q hold
  · intro i j n r r' p p' hi hj
    rcases hset hi with ⟨_, hi⟩ | ⟨hik, hnew⟩
    · rcases hset hj with ⟨_, hj⟩ | ⟨hjk, hnew⟩
      · exact h.apart i j n r r' p p' hi hj
      · obtain ⟨q, rfl⟩ := hback n r' p' hnew.symm
        exact (h.apart i k n r r' p q hi hold).trans hjk.symm
    · rcases hset hj with ⟨_, hj⟩ | ⟨hjk, _⟩
      · obtain ⟨q, rfl⟩ := hback n r p hnew.symm
        exact hik.trans (h.apart k j n r r' q p' hold hj)
      · rw [hik, hjk]
  · intro j n r p hj
    rcases hset hj with ⟨hjk, hj⟩ | ⟨_, hnew⟩
    · rw [hothers n]
      · exact h.answered j n r p hj
      · rintro r' q rfl
        exact hjk (h.apart j k n r r' p q hj hold)
    · exact hself n r p hnew.symm
  · intro n r hr hrefused
    rw [hrequests] at hr
    rw [hothers n]
    · exact h.refused n r hr hrefused
    · rintro r' q rfl
      obtain ⟨hr', hserved⟩ := h.numbered k n r' q hold
      rw [hr] at hr'
      cases hr'
      rw [hrefused] at hserved
      cases hserved
  · intro n r hr hserved
    rw [hrequests] at hr
    obtain ⟨j, p, hj⟩ := h.served n r hr hserved
    by_cases hjk : j = k
    · subst hjk
      rw [hold] at hj
      cases hj
      obtain ⟨p', rfl⟩ := hforth n r p rfl
      exact ⟨j, p', by rw [htasks, List.getElem?_set_self hlt]⟩
    · exact ⟨j, p, by rw [htasks, List.getElem?_set_ne (Ne.symm hjk)]; exact hj⟩
  · intro n hn
    rw [hrequests] at hn
    rw [hothers n]
    · exact h.fresh n hn
    · rintro r q rfl
      exact absurd (lt_of_requested (h.numbered k n r q hold).1) (Nat.not_lt_of_le hn)

theorem accounts_taskStep (h : Accounts wire s) {k : Nat}
    (hstep : taskStep wire s k a = some s') : Accounts wire s' := by
  cases taskStep_moves hstep with
  | invalidates message p q htask =>
      exact h.advances htask rfl rfl nofun nofun (fun _ _ => rfl) nofun
  | goes n r p q htask _ houtcome =>
      refine h.advances htask rfl rfl ?_ ?_ (fun _ _ => rfl) ?_
      · rintro _ _ _ ⟨⟩
        exact ⟨p, rfl⟩
      · rintro _ _ _ ⟨⟩
        exact ⟨q, rfl⟩
      · rintro _ _ _ ⟨⟩
        rw [houtcome]
        exact h.answered k n r p htask
  | emits _ _ _ _ message _ _ _ horigin => exact h.queue message horigin
  | answers n r outcome htask =>
      obtain ⟨htasks, _, hrequests⟩ := answer_frame s wire n r outcome
      have hnone : s.finals n = [] := h.answered k n r _ htask
      refine h.advances htask (by rw [Shared.setTask, htasks]) hrequests ?_ ?_ ?_ ?_
      · rintro _ _ _ ⟨⟩
        exact ⟨_, rfl⟩
      · rintro _ _ _ ⟨⟩
        exact ⟨_, rfl⟩
      · intro other hother
        have hne : n ≠ other := by
          rintro rfl
          exact hother r _ rfl
        refine (finals_answer s wire n r outcome other).trans ?_
        rw [if_neg hne, List.append_nil]
      · rintro _ _ _ ⟨⟩
        refine (finals_answer s wire n r outcome n).trans ?_
        rw [hnone, if_pos rfl, List.nil_append]
        rfl

/-! ## What fits into a frame -/

/-- A message of this length, if it can be encoded at all, fits into a frame. -/
def writable (length : Option Nat) : Bool := length.all fun bytes => decide (bytes ≤ maxFrameBytes)

/-- It can be encoded and fits. -/
def sendable (length : Option Nat) : Bool := length.any fun bytes => decide (bytes ≤ maxFrameBytes)

theorem writable_of_sendable {length : Option Nat} (h : sendable length = true) :
    writable length = true := by
  cases length with
  | none => rfl
  | some bytes => exact h

/-- What the loop is about to queue itself: the refusal of a registry refresh, or
the answer to a request that came before hello. -/
def Loop.sized (wire : Wire ρ) (l : Loop) : Bool :=
  match l.place with
  | .handle (.request r) =>
      if l.helloReceived then !r.isRefused || sendable (refusalLength wire r)
      else writable (outboundLength wire (wire.protocolError r "hello message not received"))
  | _ => true

/-- What a task is about to queue: the answer of its handler, a partial or a push. -/
def Task.sized (wire : Wire ρ) (emits : Option ρ) : Task ρ → Bool
  | .request _ r (.ended outcome) => sendable (answerLength wire r outcome)
  | .request _ _ _ => emits.all fun message => writable (outboundLength wire message)
  | .invalidation _ _ => true

abbrev healthy (a : Action ρ) : Prop := a.socketFails = false

/-- The socket is healthy, and what the step queues fits into a frame. -/
def Sized (wire : Wire ρ) (c : Config (Shared ρ) Position) (t : Nat) (a : Action ρ) : Prop :=
  healthy a ∧
    (match c.thread t with
      | .loop l => l.sized wire
      | .worker => c.shared.tasks[t - 1]?.all (Task.sized wire a.emits)) = true

instance (wire : Wire ρ) (c : Config (Shared ρ) Position) (t : Nat) (a : Action ρ) :
    Decidable (Sized wire c t a) :=
  inferInstanceAs (Decidable (_ ∧ _ = true))

/-! ## Nothing is dropped -/

/-- Every frame that was queued fits, and has been written or waits in order; no
write has failed. -/
structure Flows (s : Shared ρ) (l : Loop) : Prop where
  queue : s.queued = s.written ++ s.outbound
  fits : ∀ frame ∈ s.queued, frame.Fits
  alive : l.place.ending ≠ some .sendFailed

theorem flows_started : Flows ({} : Shared ρ) {} := ⟨rfl, nofun, nofun⟩

theorem Flows.goes (h : Flows s l) (hending : l'.place.ending ≠ some .sendFailed) : Flows s l' :=
  ⟨h.queue, h.fits, hending⟩

theorem Flows.moves (h : Flows s l) (hqueued : s'.queued = s.queued)
    (hwritten : s'.written = s.written) (houtbound : s'.outbound = s.outbound) : Flows s' l :=
  ⟨by rw [hqueued, hwritten, houtbound]; exact h.queue, by rw [hqueued]; exact h.fits, h.alive⟩

theorem Flows.send (h : Flows s l) {frame : Frame} (hfits : frame.Fits) :
    Flows (s.send frame) l := by
  refine ⟨?_, fun other hother => ?_, h.alive⟩
  · simp only [Shared.send, h.queue, List.append_assoc]
  · rcases List.mem_append.mp hother with hother | hother
    · exact h.fits other hother
    · rw [List.mem_singleton.mp hother]
      exact hfits

theorem Flows.queueOutbound (h : Flows s l) (origin : Origin) {message : ρ}
    (hsize : writable (outboundLength wire message) = true) :
    Flows (s.queueOutbound wire origin message) l := by
  unfold Shared.queueOutbound
  unfold outboundLength at hsize
  cases hencode : wire.encode message with
  | ok length =>
      rw [hencode] at hsize
      exact h.send (of_decide_eq_true hsize)
  | error reason => exact h

theorem Flows.answer (h : Flows s l) (number : Nat) {r : Request} {outcome : Outcome ρ}
    (hsize : writable (answerLength wire r outcome) = true) :
    Flows (answer s wire number r outcome) l := by
  have hresponse : ∀ response,
      writable (responseLength wire response (wire.protocolError r)) = true →
      Flows (s.queueResponse wire (.answer number) response (wire.protocolError r)) l := by
    intro response hsize
    unfold Shared.queueResponse
    unfold responseLength at hsize
    cases hencode : wire.encode response with
    | ok length =>
        rw [hencode] at hsize
        exact h.send (of_decide_eq_true hsize)
    | error reason =>
        rw [hencode] at hsize
        exact h.queueOutbound _ hsize
  cases outcome with
  | value response => exact hresponse _ hsize
  | failed reason => exact hresponse _ hsize
  | superseded => exact h.queueOutbound _ hsize

/-- The socket takes the head of the queue. -/
theorem Flows.writes (h : Flows s l) {frame : Frame} {rest : List Frame}
    (hqueue : s.outbound = frame :: rest) :
    frame.Fits ∧ Flows { s with outbound := rest, written := s.written ++ [frame] } l := by
  have hall := h.queue
  rw [hqueue] at hall
  refine ⟨h.fits frame (by simp [hall]), ?_, h.fits, h.alive⟩
  simp [hall]

theorem flows_loopStep (h : Flows s l) (hsocket : healthy a) (hsized : l.sized wire = true)
    (hstep : loopStep wire s l a = some (s', l')) : Flows s' l' := by
  cases loopStep_moves hstep with
  | goes _ hending => exact h.goes (hending h.alive)
  | writes frame rest hqueue => exact (h.writes hqueue).2
  | fails frame rest _ hqueue hfails => exact absurd ⟨(h.writes hqueue).1, hsocket⟩ hfails
  | handles message _ _ hplace hmove hending =>
      simp only [Loop.sized, hplace] at hsized
      refine Flows.goes (l := l) ?_ hending
      cases hmove with
      | ignores | invalidates | serves => exact h.moves rfl rfl rfl
      | refuses r hhello hrefused =>
          have hsend : sendable (refusalLength wire r) = true := by
            simpa [hhello, hrefused] using hsized
          refine Flows.queueOutbound ?_ _ (writable_of_sendable hsend)
          exact h.moves rfl rfl rfl
      | rejects r hhello =>
          simp only [hhello, Bool.false_eq_true, if_false] at hsized
          refine Flows.queueOutbound ?_ _ hsized
          exact h.moves rfl rfl rfl

/-- A task that queues a message besides its response queues one that fits. -/
theorem writable_of_emits {k number : Nat} {r : Request} {p : Progress (Outcome ρ)} {message : ρ}
    (hsized : s.tasks[k]?.all (Task.sized wire a.emits) = true)
    (htask : s.tasks[k]? = some (.request number r p)) (hends : ∀ outcome, p ≠ .ended outcome)
    (hemits : a.emits = some message) : writable (outboundLength wire message) = true := by
  rw [htask, hemits] at hsized
  cases p with
  | ended outcome => exact absurd rfl (hends outcome)
  | running | settled | finished => exact hsized

theorem flows_taskStep (h : Flows s l) {k : Nat}
    (hsized : s.tasks[k]?.all (Task.sized wire a.emits) = true)
    (hstep : taskStep wire s k a = some s') : Flows s' l := by
  cases taskStep_moves hstep with
  | invalidates | goes => exact h.moves rfl rfl rfl
  | emits number r p origin message htask hends hemits =>
      exact h.queueOutbound origin (writable_of_emits hsized htask hends hemits)
  | answers number r outcome htask =>
      rw [htask] at hsized
      exact (h.answer number (writable_of_sendable hsized)).moves rfl rfl rfl

/-! ## Nothing is owed -/

/-- What was to be queued as a final response could be. -/
structure Sent (wire : Wire ρ) (s : Shared ρ) : Prop where
  answered : ∀ (k n : Nat) (r : Request) (p : Progress (Outcome ρ)) (outcome : Outcome ρ),
    s.tasks[k]? = some (.request n r p) → p.outcome = some outcome →
    sendable (answerLength wire r outcome) = true
  refused : ∀ (n : Nat) (r : Request), s.requests[n]? = some r → r.isRefused = true →
    sendable (refusalLength wire r) = true

theorem Sent.append (h : Sent wire s) {task : Task ρ}
    (htask : ∀ n r p, task = .request n r p → p = .running) :
    Sent wire { s with tasks := s.tasks ++ [task] } := by
  refine ⟨fun k n r p outcome hk houtcome => ?_, h.refused⟩
  rcases getElem?_concat_cases hk with hk | ⟨_, hk⟩
  · exact h.answered k n r p outcome hk houtcome
  · rw [htask n r p hk.symm] at houtcome
    cases houtcome

theorem Sent.register (h : Sent wire s) {r : Request}
    (hsend : r.isRefused = true → sendable (refusalLength wire r) = true) :
    Sent wire { s with requests := s.requests ++ [r] } := by
  refine ⟨h.answered, fun n r' hr' hrefused => ?_⟩
  rcases getElem?_concat_cases hr' with hr' | ⟨_, rfl⟩
  · exact h.refused n r' hr' hrefused
  · exact hsend hrefused

theorem Sent.moves (h : Sent wire s) (htasks : s'.tasks = s.tasks)
    (hrequests : s'.requests = s.requests) : Sent wire s' :=
  ⟨by rw [htasks]; exact h.answered, by rw [hrequests]; exact h.refused⟩

theorem sent_loopStep (h : Sent wire s) (hsized : l.sized wire = true)
    (hstep : loopStep wire s l a = some (s', l')) : Sent wire s' := by
  cases loopStep_moves hstep with
  | goes => exact h
  | writes | fails => exact h.moves rfl rfl
  | handles message _ _ hplace hmove =>
      simp only [Loop.sized, hplace] at hsized
      have hrecorded : Sent wire
          { s with handled := s.handled ++ [(message, l.helloReceived)] } := h.moves rfl rfl
      cases hmove with
      | ignores => exact hrecorded
      | invalidates => exact hrecorded.append nofun
      | refuses r hhello =>
          have hsend : r.isRefused = true → sendable (refusalLength wire r) = true := by
            intro hrefused
            simpa [hhello, hrefused] using hsized
          exact (hrecorded.register hsend).moves (by simp) (by simp)
      | serves r hserved =>
          have hregister := hrecorded.register (r := r) fun hrefused => by
            rw [hserved] at hrefused
            cases hrefused
          refine hregister.append ?_
          rintro _ _ _ ⟨⟩
          rfl
      | rejects => exact hrecorded.moves (by simp) (by simp)

/-- A task goes on, without an outcome or with one that could be sent. -/
theorem Sent.setTask (h : Sent wire s) (k : Nat) {new : Task ρ}
    (hnew : ∀ n r p outcome, new = .request n r p → p.outcome = some outcome →
      sendable (answerLength wire r outcome) = true) : Sent wire (s.setTask k new) := by
  refine ⟨fun j n r p outcome hj houtcome => ?_, h.refused⟩
  rcases getElem?_set_cases hj with hj | ⟨_, hj⟩
  · exact h.answered j n r p outcome hj houtcome
  · exact hnew n r p outcome hj.symm houtcome

theorem sent_taskStep (h : Sent wire s) {k : Nat}
    (hsized : s.tasks[k]?.all (Task.sized wire a.emits) = true)
    (hstep : taskStep wire s k a = some s') : Sent wire s' := by
  cases taskStep_moves hstep with
  | invalidates => exact h.setTask k nofun
  | goes number r p q htask _ houtcome =>
      refine h.setTask k ?_
      rintro _ _ _ outcome ⟨⟩ hq
      exact h.answered k number r p outcome htask (houtcome.symm.trans hq)
  | emits => exact h.moves (by simp) (by simp)
  | answers number r outcome htask =>
      rw [htask] at hsized
      obtain ⟨htasks, _, hrequests⟩ := answer_frame s wire number r outcome
      refine (h.moves htasks hrequests).setTask k ?_
      rintro _ _ _ _ ⟨⟩ ⟨⟩
      exact hsized

theorem Shared.queueOutbound_written (s : Shared ρ) (origin : Origin) (message : ρ) :
    (s.queueOutbound wire origin message).written = s.written := by
  unfold queueOutbound
  split <;> rfl

theorem answer_written (s : Shared ρ) (wire : Wire ρ) (number : Nat) (r : Request)
    (outcome : Outcome ρ) : (answer s wire number r outcome).written = s.written := by
  have hresponse : ∀ response, (s.queueResponse wire (.answer number) response
      (wire.protocolError r)).written = s.written := by
    intro response
    unfold Shared.queueResponse
    split
    · rfl
    · exact Shared.queueOutbound_written s _ _
  cases outcome with
  | value response => exact hresponse _
  | failed reason => exact hresponse _
  | superseded => exact Shared.queueOutbound_written s _ _

/-- Only the loop writes. -/
theorem taskStep_written {k : Nat} (hstep : taskStep wire s k a = some s') :
    s'.written = s.written := by
  cases taskStep_moves hstep with
  | invalidates | goes => rfl
  | emits _ _ _ origin message => exact Shared.queueOutbound_written s origin message
  | answers number r outcome => exact answer_written s wire number r outcome

/-! ## The final response -/

/-- Exactly one final response was handed to the writer, and it is written or
waits to be. -/
def HandedOver (s : Shared ρ) (number : Nat) : Prop :=
  ∃ frame, s.finals number = [frame] ∧ (frame ∈ s.written ∨ frame ∈ s.outbound)

/-- Exactly one final response was handed to the writer, and it is written. -/
def Served (s : Shared ρ) (number : Nat) : Prop :=
  ∃ frame, s.finals number = [frame] ∧ frame ∈ s.written

theorem Flows.handedOver (h : Flows s l) {n : Nat} {length : Option Nat}
    (hfinals : s.finals n = finalFrames n length) (hsend : sendable length = true) :
    HandedOver s n := by
  obtain ⟨bytes, rfl, -⟩ := (Option.any_eq_true _ _).mp hsend
  refine ⟨_, hfinals, List.mem_append.mp ?_⟩
  rw [← h.queue]
  have hmem : (⟨.answer n, bytes⟩ : Frame) ∈ s.finals n := by
    rw [hfinals]
    exact List.mem_singleton_self _
  exact List.mem_of_mem_filter hmem

/-- A loop that failed to write writes nothing more. -/
theorem written_of_sendFailed {c d : Config (Shared ρ) Position} {acts : List (Nat × Action ρ)}
    {guard : Config (Shared ρ) Position → Nat → Action ρ → Prop}
    (hzero : c.thread 0 = .loop l) (hworkers : ∀ t, t ≠ 0 → c.thread t = .worker)
    (hplace : l.place = .close .sendFailed) (h : Runs (program wire) guard c acts d) :
    d.shared.written = c.shared.written := by
  obtain ⟨_, _, _, -, hwritten⟩ := invariant_of_runs (I := fun s l =>
      l.place ∈ [Place.close .sendFailed, .join .sendFailed, .ended .sendFailed] ∧
        s.written = c.shared.written) hzero hworkers ⟨by simp [hplace], rfl⟩
    (fun _ _ hstep hI => by
      obtain ⟨hplaces, hwritten⟩ := hI
      simp only [List.mem_cons, List.not_mem_nil, or_false] at hplaces
      rcases hplaces with hplace | hplace | hplace
      · simp only [loopStep, hplace] at hstep
        split at hstep <;> cases hstep
        exact ⟨by simp, hwritten⟩
      · simp only [loopStep, hplace] at hstep
        cases hstep
        exact ⟨by simp, hwritten⟩
      · simp [loopStep, hplace] at hstep)
    (fun _ _ hstep hI => ⟨hI.1, (taskStep_written hstep).trans hI.2⟩) h
  exact hwritten

/-- A reply that serializes to its text, known by the length of the text, or fails
to serialize at all. -/
inductive Reply
  | unencodable
  | text (length : Nat)
  deriving DecidableEq

def Reply.encode : Reply → Except String Nat
  | .unencodable => .error "refuses to encode"
  | .text length =>
      .ok (if length < 32 then 1 + length else if length < 256 then 2 + length
        else if length < 65536 then 3 + length else 5 + length)

def replyWire : Wire Reply where
  encode := Reply.encode
  protocolError _ message := .text message.length

end ImportLens.Ipc.Connection
