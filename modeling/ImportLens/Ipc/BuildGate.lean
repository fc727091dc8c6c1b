import ImportLens.Support.Interleaving
import ImportLens.Support.Semaphore
import ImportLens.Ipc.Lifecycles

/-!
# The gate of combined builds

A size read tagged with an analysis generation waits for the gate of its
document, a semaphore of one permit, and builds only if its flag is unset once
it has the permit.  The gates are kept by document key; a gate that only the map
refers to is pruned when the next one is asked for.

Every frame is handled by the connection loop in one step, which alone touches
the maps; the tasks it spawns interleave with it and with each other.  The clones
of a gate are counted as the reads take and drop them: the bound keeps one until
the flag has been looked at, the acquisition and then the permit another one.
-/

namespace ImportLens.Ipc.BuildGate

open ImportLens.Support
open ImportLens.Support.Semaphore
open ImportLens.Ipc.ConnectionLifecycles

/-! ## Frames -/

inductive Frame
  | fileSizeDocument (workspaceRoot documentPath : String) (analysisGeneration : Option Nat)
  | analyzeDocument (workspaceRoot documentPath : String)
  | refreshRegistryHints (source : String)
  | visibleDocuments (documentPaths : List String)
  -- not a frame of the client: the connection ends
  | close

def Frame.NulFree : Frame → Prop
  | .fileSizeDocument root _ _ | .analyzeDocument root _ => Ipc.NulFree root
  | _ => True

instance : (frame : Frame) → Decidable frame.NulFree
  | .fileSizeDocument root _ _ | .analyzeDocument root _ =>
      inferInstanceAs (Decidable (Ipc.NulFree root))
  | .refreshRegistryHints _ | .visibleDocuments _ | .close => .isTrue trivial

/-- A tagged size read with its `CombinedBuildBound`: its gate and its flag. -/
structure Read where
  workspaceRoot : String
  documentPath : String
  gate : Nat
  superseded : Nat
  deriving DecidableEq

def Read.key (r : Read) : String := documentKey r.workspaceRoot r.documentPath

/-- What is queued for the client. -/
inductive Answer
  | superseded
  | sized
  | workerFailed
  deriving DecidableEq

/-- What a read does that can be seen from outside. -/
inductive Event
  | built
  | answered (answer : Answer)
  deriving DecidableEq

structure Shared where
  lifecycles : ConnectionLifecycles := .new
  gates : Keyed String Nat := ∅
  semaphores : Nat → Semaphore := fun _ => .new 1
  /-- The clones of a gate outside the map. -/
  references : Nat → Nat := fun _ => 0
  nextGate : Nat := 0
  /-- History: the calls on the lifecycles, and the events of the reads by flag. -/
  calls : List Op := []
  events : List (Nat × Event) := []

namespace Shared

def call (s : Shared) (op : Op) : Shared :=
  { s with lifecycles := s.lifecycles.apply op, calls := s.calls ++ [op] }

def record (s : Shared) (r : Read) (e : Event) : Shared :=
  { s with events := s.events ++ [(r.superseded, e)] }

def log (s : Shared) (flag : Nat) : List Event :=
  (s.events.filter fun e => e.1 == flag).map Prod.snd

def clone (s : Shared) (gate : Nat) : Shared :=
  { s with references := Function.update s.references gate (s.references gate + 1) }

def unclone (s : Shared) (gate : Nat) : Shared :=
  { s with references := Function.update s.references gate (s.references gate - 1) }

def onGate (s : Shared) (gate : Nat) (f : Semaphore → Semaphore) : Shared :=
  { s with semaphores := Function.update s.semaphores gate (f (s.semaphores gate)) }

/-- The `retain` of `gate_for`.  It looks at one gate after the other, so it may
have seen a clone that is dropped by now. -/
def prune (s : Shared) (seenHeld : Nat → Bool) : Shared :=
  { s with gates := s.gates.filterMapVal fun gate =>
      if 0 < s.references gate ∨ seenHeld gate = true then some gate else none }

/-- `gate_for`: the gate in the map, or a new one. -/
def gateFor (s : Shared) (seenHeld : Nat → Bool) (workspaceRoot documentPath : String) :
    Shared × Nat :=
  let s := s.prune seenHeld
  match s.gates.lookup (documentKey workspaceRoot documentPath) with
  | some gate => (s.clone gate, gate)
  | none =>
      (({ s with
          gates := s.gates.insert (documentKey workspaceRoot documentPath) s.nextGate
          semaphores := Function.update s.semaphores s.nextGate (.new 1)
          references := Function.update s.references s.nextGate 0
          nextGate := s.nextGate + 1 } : Shared).clone s.nextGate, s.nextGate)

end Shared

/-! ## Tasks -/

/-- Where the task of a tagged read is. -/
inductive Progress
  -- spawned, with the bound
  | queued
  -- `acquire_owned` has joined the queue of the gate
  | waiting
  | acquired
  -- the flag was unset, the bound is about to be dropped
  | passing
  -- the flag was set and the answer is queued, the bound is about to be dropped
  | leaving
  | building
  -- the answer is queued, the permit is about to be dropped
  | releasing
  deriving DecidableEq

inductive Position
  | idle
  | task (progress : Progress) (read : Read)
  deriving DecidableEq

structure Action where
  frame : Frame := .close
  seenHeld : Nat → Bool := fun _ => false
  workerFails : Bool := false

def handle (s : Shared) (seenHeld : Nat → Bool) : Frame → Shared × Position
  | .fileSizeDocument root path none => (s.call (.startDocument .swrRefresh root path), .idle)
  | .fileSizeDocument root path (some _) =>
      let s := s.call (.startDocument .swrRefresh root path)
      let (s, gate) := s.gateFor seenHeld root path
      (s.call (.startDocument .sizeBuilds root path),
        .task .queued ⟨root, path, gate, s.lifecycles.sizeBuilds.next⟩)
  | .analyzeDocument root path => (s.call (.startDocument .documentStream root path), .idle)
  | .refreshRegistryHints source => (s.call (.startNewBlock source), .idle)
  | .visibleDocuments paths => (s.call (.retainVisible paths), .idle)
  | .close => (s.call .cancelAll, .idle)

/-- The next step of a task of `spawn_file_size_document`. -/
def advance (s : Shared) (t : Nat) (workerFails : Bool) (r : Read) :
    Progress → Option (Shared × Position)
  | .queued => some ((s.clone r.gate).onGate r.gate (·.acquire t), .task .waiting r)
  | .waiting =>
      if t ∈ (s.semaphores r.gate).holders then some (s, .task .acquired r) else none
  | .acquired =>
      if s.lifecycles.sizeBuilds.cancelled r.superseded = true then
        some (s.record r (.answered .superseded), .task .leaving r)
      else some (s, .task .passing r)
  | .passing => some ((s.unclone r.gate).record r .built, .task .building r)
  | .leaving => some (s.unclone r.gate, .task .releasing r)
  | .building =>
      some (s.record r (.answered (if workerFails then .workerFailed else .sized)),
        .task .releasing r)
  | .releasing => some ((s.onGate r.gate (·.release t)).unclone r.gate, .idle)

def program : Program Shared Position Action := fun t a s position =>
  match position with
  | .idle => some (handle s a.seenHeld a.frame)
  | .task progress read => advance s t a.workerFails read progress

def started : Config Shared Position where
  shared := {}
  thread _ := .idle

/-! ## The gates -/

namespace Progress

def bound : Progress → Bool
  | .building | .releasing => false
  | _ => true

def permit : Progress → Bool
  | .queued => false
  | _ => true

def stage : Progress → Stage
  | .queued => .outside
  | .waiting => .waiting
  | _ => .holding

def unchecked : Progress → Bool
  | .queued | .waiting | .acquired => true
  | _ => false

end Progress

namespace Position

def boundTo (gate : Nat) : Position → Prop
  | .idle => False
  | .task p r => r.gate = gate ∧ p.bound = true

def permitOf (gate : Nat) : Position → Prop
  | .idle => False
  | .task p r => r.gate = gate ∧ p.permit = true

def stageAt (gate : Nat) : Position → Stage
  | .idle => .outside
  | .task p r => if r.gate = gate then p.stage else .outside

def read : Position → Option Read
  | .idle => none
  | .task _ r => some r

def flag : Position → Option Nat
  | .idle => none
  | .task _ r => some r.superseded

def pastGate : Position → Bool
  | .idle => false
  | .task p _ => decide (p.stage = .holding)

theorem stageAt_of_ne {p : Progress} {r : Read} {gate : Nat} (h : gate ≠ r.gate) :
    (task p r).stageAt gate = .outside := if_neg (Ne.symm h)

theorem stageAt_self (p : Progress) (r : Read) : (task p r).stageAt r.gate = p.stage := if_pos rfl

end Position

/-- The threads have `k` clones of a gate. -/
def Clones (gate : Nat) (thread : Nat → Position) (k : Nat) : Prop :=
  ∃ n m, Counts (Position.boundTo gate) thread n ∧ Counts (Position.permitOf gate) thread m ∧
    k = n + m

namespace Clones

variable {gate k t : Nat} {thread : Nat → Position} {position : Position}

theorem none_at (h : ∀ t r, (thread t).read = some r → r.gate ≠ gate) : Clones gate thread 0 := by
  refine ⟨0, 0, .none_at fun t => ?_, .none_at fun t => ?_, rfl⟩ <;>
  · have hread := h t
    cases hthread : thread t with
    | idle => exact id
    | task p r =>
        rw [hthread] at hread
        exact fun hgate => hread r rfl hgate.1

theorem stay (h : Clones gate thread k)
    (hbound : position.boundTo gate ↔ (thread t).boundTo gate)
    (hpermit : position.permitOf gate ↔ (thread t).permitOf gate) :
    Clones gate (Function.update thread t position) k := by
  obtain ⟨n, m, hn, hm, rfl⟩ := h
  exact ⟨n, m, hn.stay hbound, hm.stay hpermit, rfl⟩

theorem bind (h : Clones gate thread k) (hout : ¬ (thread t).boundTo gate)
    (hin : position.boundTo gate) (hpermit : position.permitOf gate ↔ (thread t).permitOf gate) :
    Clones gate (Function.update thread t position) (k + 1) := by
  obtain ⟨n, m, hn, hm, rfl⟩ := h
  exact ⟨n + 1, m, hn.enter hout hin, hm.stay hpermit, by omega⟩

theorem acquire (h : Clones gate thread k) (hout : ¬ (thread t).permitOf gate)
    (hin : position.permitOf gate) (hbound : position.boundTo gate ↔ (thread t).boundTo gate) :
    Clones gate (Function.update thread t position) (k + 1) := by
  obtain ⟨n, m, hn, hm, rfl⟩ := h
  exact ⟨n, m + 1, hn.stay hbound, hm.enter hout hin, by omega⟩

theorem unbind (h : Clones gate thread k) (hin : (thread t).boundTo gate)
    (hout : ¬ position.boundTo gate) (hpermit : position.permitOf gate ↔ (thread t).permitOf gate) :
    Clones gate (Function.update thread t position) (k - 1) := by
  obtain ⟨n, m, hn, hm, rfl⟩ := h
  obtain ⟨n', rfl, hn'⟩ := hn.leave hin hout
  exact ⟨n', m, hn', hm.stay hpermit, by omega⟩

theorem release (h : Clones gate thread k) (hin : (thread t).permitOf gate)
    (hout : ¬ position.permitOf gate) (hbound : position.boundTo gate ↔ (thread t).boundTo gate) :
    Clones gate (Function.update thread t position) (k - 1) := by
  obtain ⟨n, m, hn, hm, rfl⟩ := h
  obtain ⟨m', rfl, hm'⟩ := hm.leave hin hout
  exact ⟨n, m', hn.stay hbound, hm', by omega⟩

theorem pos {p : Progress} {r : Read} (h : Clones r.gate thread k) (ht : thread t = .task p r) :
    0 < k := by
  obtain ⟨n, m, hn, hm, rfl⟩ := h
  cases hpermit : p.permit with
  | true =>
      have : 0 < m := hm.pos (t := t) (by rw [ht]; exact ⟨rfl, hpermit⟩)
      omega
  | false =>
      have hbound : p.bound = true := by cases p <;> first | rfl | cases hpermit
      have : 0 < n := hn.pos (t := t) (by rw [ht]; exact ⟨rfl, hbound⟩)
      omega

end Clones

/-- What holds of the gates in every configuration. -/
structure Gated (c : Config Shared Position) : Prop where
  allocated : c.shared.gates.All fun _ gate => gate < c.shared.nextGate
  mapped : ∀ t r, (c.thread t).read = some r → c.shared.gates.lookup r.key = some r.gate
  references : ∀ gate, Clones gate c.thread (c.shared.references gate)
  fair : ∀ gate, Fair 1 (c.shared.semaphores gate)
  fits : ∀ gate t, (c.shared.semaphores gate).Fits t ((c.thread t).stageAt gate)

theorem gated_started : Gated started where
  allocated := Keyed.all_empty _
  mapped _ _ h := by cases h
  references _ := .none_at fun _ _ h => by cases h
  fair _ := fair_new 1
  fits _ t := fits_new 1 t

variable {c d : Config Shared Position} {t : Nat} {a : Action}

theorem Gated.gate_lt (hc : Gated c) {r : Read} (ht : (c.thread t).read = some r) :
    r.gate < c.shared.nextGate :=
  hc.allocated _ _ (hc.mapped t r ht)

theorem Gated.call (hc : Gated c) (op : Op) : Gated ⟨c.shared.call op, c.thread⟩ :=
  ⟨hc.allocated, hc.mapped, hc.references, hc.fair, hc.fits⟩

theorem Gated.prune (hc : Gated c) (seenHeld : Nat → Bool) :
    Gated ⟨c.shared.prune seenHeld, c.thread⟩ := by
  refine ⟨?_, ?_, hc.references, hc.fair, hc.fits⟩
  · intro key gate hlookup
    simp only [Shared.prune, Keyed.lookup_filterMapVal, Option.bind_eq_some_iff] at hlookup
    obtain ⟨gate', hlookup, hkept⟩ := hlookup
    split at hkept
    · cases hkept
      exact hc.allocated key gate hlookup
    · cases hkept
  · intro t r hr
    have hmapped := hc.mapped t r hr
    have hpos : 0 < c.shared.references r.gate := by
      cases hthread : c.thread t with
      | idle =>
          dsimp only at hr
          rw [hthread] at hr
          cases hr
      | task p r' =>
          dsimp only at hr
          rw [hthread] at hr
          cases hr
          exact (hc.references r.gate).pos hthread
    simp [Shared.prune, hmapped, hpos]

theorem Gated.allocate (hc : Gated c) {key : String} (hnone : c.shared.gates.lookup key = none) :
    Gated ⟨{ c.shared with
      gates := c.shared.gates.insert key c.shared.nextGate
      semaphores := Function.update c.shared.semaphores c.shared.nextGate (.new 1)
      references := Function.update c.shared.references c.shared.nextGate 0
      nextGate := c.shared.nextGate + 1 }, c.thread⟩ := by
  refine ⟨?_, ?_, fun gate => ?_, fun gate => ?_, fun gate t => ?_⟩
  · exact Keyed.All.insert (fun k gate hlookup => (hc.allocated k gate hlookup).trans
      (Nat.lt_succ_self _)) (Nat.lt_succ_self _)
  · intro t r hr
    have hmapped := hc.mapped t r hr
    simp only [Keyed.lookup_insert_eq]
    rw [if_neg]
    · exact hmapped
    · rintro rfl
      rw [hnone] at hmapped
      cases hmapped
  · by_cases hgate : gate = c.shared.nextGate
    · subst hgate
      simp only [Function.update_self]
      exact .none_at fun t r hr => (hc.gate_lt hr).ne
    · simp only [Function.update_of_ne hgate]
      exact hc.references gate
  · by_cases hgate : gate = c.shared.nextGate
    · subst hgate
      simp only [Function.update_self]
      exact fair_new 1
    · simp only [Function.update_of_ne hgate]
      exact hc.fair gate
  · by_cases hgate : gate = c.shared.nextGate
    · subst hgate
      simp only [Function.update_self]
      have hout : (c.thread t).stageAt c.shared.nextGate = .outside := by
        cases hthread : c.thread t with
        | idle => rfl
        | task p r =>
            have hlt := hc.gate_lt (t := t) (r := r) (by rw [hthread]; rfl)
            exact Position.stageAt_of_ne hlt.ne'
      rw [hout]
      exact fits_new 1 t
    · simp only [Function.update_of_ne hgate]
      exact hc.fits gate t

theorem Gated.join (hc : Gated c) (ht : c.thread t = .idle) {r : Read}
    (hlookup : c.shared.gates.lookup r.key = some r.gate) :
    Gated ⟨c.shared.clone r.gate, Function.update c.thread t (.task .queued r)⟩ := by
  refine ⟨hc.allocated, ?_, fun gate => ?_, hc.fair, fun gate u => ?_⟩
  · intro u r' hr'
    dsimp only at hr'
    by_cases hu : u = t
    · subst hu
      rw [Function.update_self] at hr'
      cases hr'
      exact hlookup
    · rw [Function.update_of_ne hu] at hr'
      exact hc.mapped u r' hr'
  · by_cases hgate : gate = r.gate
    · subst hgate
      simp only [Shared.clone, Function.update_self]
      refine (hc.references r.gate).bind ?_ ?_ ?_ <;> simp [ht, Position.permitOf,
        Position.boundTo, Progress.permit, Progress.bound]
    · simp only [Shared.clone, Function.update_of_ne hgate]
      refine (hc.references gate).stay ?_ ?_ <;> simp [ht, Position.permitOf,
        Position.boundTo, Ne.symm hgate]
  · have hfits := hc.fits gate u
    by_cases hu : u = t
    · subst hu
      rw [ht] at hfits
      simp only [Function.update_self, Position.stageAt, Progress.stage]
      split <;> exact hfits
    · simp only [Function.update_of_ne hu]
      exact hfits

theorem Gated.gateFor (hc : Gated c) (ht : c.thread t = .idle) (seenHeld : Nat → Bool)
    (root path : String) (flag : Nat) :
    Gated ⟨(c.shared.gateFor seenHeld root path).1, Function.update c.thread t
      (.task .queued ⟨root, path, (c.shared.gateFor seenHeld root path).2, flag⟩)⟩ := by
  have hpruned := hc.prune seenHeld
  unfold Shared.gateFor
  dsimp only
  split
  · rename_i gate hlookup
    exact hpruned.join (r := ⟨root, path, gate, flag⟩) ht hlookup
  · rename_i hnone
    refine (hpruned.allocate hnone).join (r := ⟨root, path, c.shared.nextGate, flag⟩) ht ?_
    simp [Read.key, Shared.prune]

theorem gated_handle (hc : Gated c) (ht : c.thread t = .idle) (seenHeld : Nat → Bool)
    (frame : Frame) :
    Gated ⟨(handle c.shared seenHeld frame).1,
      Function.update c.thread t (handle c.shared seenHeld frame).2⟩ := by
  have hidle : ∀ op, Gated ⟨c.shared.call op, Function.update c.thread t .idle⟩ := by
    intro op
    rw [← ht, Function.update_eq_self]
    exact hc.call op
  cases frame with
  | fileSizeDocument root path generation =>
      cases generation with
      | none => exact hidle _
      | some generation =>
          exact ((hc.call _).gateFor ht seenHeld root path _).call _
  | _ => exact hidle _

theorem Gated.fits_self (hc : Gated c) {p : Progress} {r : Read} (ht : c.thread t = .task p r) :
    (c.shared.semaphores r.gate).Fits t p.stage := by
  have hfits := hc.fits r.gate t
  rwa [ht, Position.stageAt_self] at hfits

/-- A step of a task changes nothing but its own gate. -/
theorem Gated.moves (hc : Gated c) {p : Progress} {r : Read} (ht : c.thread t = .task p r)
    {shared : Shared} {position : Position} {k : Nat} {s : Semaphore}
    (hgates : shared.gates = c.shared.gates) (hnext : shared.nextGate = c.shared.nextGate)
    (hreferences : shared.references = Function.update c.shared.references r.gate k)
    (hsemaphores : shared.semaphores = Function.update c.shared.semaphores r.gate s)
    (hposition : position = .idle ∨ ∃ p', position = .task p' r)
    (hclones : Clones r.gate (Function.update c.thread t position) k) (hfair : Fair 1 s)
    (hother : ∀ u, u ≠ t → s.Fits u ((c.thread u).stageAt r.gate))
    (hself : s.Fits t (position.stageAt r.gate)) :
    Gated ⟨shared, Function.update c.thread t position⟩ := by
  refine ⟨?_, ?_, fun gate => ?_, fun gate => ?_, fun gate u => ?_⟩
  · simp only [hgates, hnext]
    exact hc.allocated
  · intro u r' hr'
    simp only [hgates]
    dsimp only at hr'
    by_cases hu : u = t
    · subst hu
      rw [Function.update_self] at hr'
      rcases hposition with rfl | ⟨p', rfl⟩
      · cases hr'
      · cases hr'
        exact hc.mapped u r (by rw [ht]; rfl)
    · rw [Function.update_of_ne hu] at hr'
      exact hc.mapped u r' hr'
  · simp only [hreferences]
    by_cases hgate : gate = r.gate
    · subst hgate
      rw [Function.update_self]
      exact hclones
    · rw [Function.update_of_ne hgate]
      refine (hc.references gate).stay ?_ ?_
      · rw [ht]
        rcases hposition with rfl | ⟨p', rfl⟩ <;>
          simp [Position.boundTo, Ne.symm hgate]
      · rw [ht]
        rcases hposition with rfl | ⟨p', rfl⟩ <;>
          simp [Position.permitOf, Ne.symm hgate]
  · simp only [hsemaphores]
    by_cases hgate : gate = r.gate
    · subst hgate
      rwa [Function.update_self]
    · rw [Function.update_of_ne hgate]
      exact hc.fair gate
  · simp only [hsemaphores]
    by_cases hgate : gate = r.gate
    · subst hgate
      rw [Function.update_self]
      by_cases hu : u = t
      · subst hu
        rwa [Function.update_self]
      · rw [Function.update_of_ne hu]
        exact hother u hu
    · rw [Function.update_of_ne hgate]
      have hfits := hc.fits gate u
      by_cases hu : u = t
      · subst hu
        rw [ht, Position.stageAt_of_ne hgate] at hfits
        rw [Function.update_self]
        rcases hposition with rfl | ⟨p', rfl⟩
        · exact hfits
        · rwa [Position.stageAt_of_ne hgate]
      · rwa [Function.update_of_ne hu]

theorem gated_advance (hc : Gated c) {p : Progress} {r : Read} (ht : c.thread t = .task p r)
    {workerFails : Bool} {shared : Shared} {position : Position}
    (h : advance c.shared t workerFails r p = some (shared, position)) :
    Gated ⟨shared, Function.update c.thread t position⟩ := by
  have hself := hc.fits_self ht
  have hsame : ∀ u, u ≠ t →
      (c.shared.semaphores r.gate).Fits u ((c.thread u).stageAt r.gate) :=
    fun u _ => hc.fits r.gate u
  have hkept := Function.update_eq_self r.gate c.shared.references
  have hfair := hc.fair r.gate
  have hclones := hc.references r.gate
  cases p with
  | queued =>
      cases h
      refine hc.moves ht rfl rfl rfl rfl (.inr ⟨_, rfl⟩) ?_ (hfair.acquire hself)
        (fun u hu => (hsame u hu).acquire hu) ?_
      · refine hclones.acquire ?_ ?_ ?_ <;> simp [ht, Position.permitOf, Position.boundTo,
          Progress.permit, Progress.bound]
      · rw [Position.stageAt_self]
        exact acquire_self _ _
  | waiting =>
      simp only [advance] at h
      split at h
      · rename_i hholds
        cases h
        refine hc.moves ht rfl rfl hkept.symm (Function.update_eq_self _ _).symm
          (.inr ⟨_, rfl⟩) ?_ hfair hsame ?_
        · refine hclones.stay ?_ ?_ <;> simp [ht, Position.permitOf, Position.boundTo,
            Progress.permit, Progress.bound]
        · rw [Position.stageAt_self]
          exact hholds
      · cases h
  | acquired =>
      have hmoves : ∀ (shared : Shared) (p' : Progress), shared.gates = c.shared.gates →
          shared.nextGate = c.shared.nextGate → shared.references = c.shared.references →
          shared.semaphores = c.shared.semaphores → p' = .leaving ∨ p' = .passing →
          Gated ⟨shared, Function.update c.thread t (.task p' r)⟩ := by
        intro shared p' hgates hnext hreferences hsemaphores hp'
        refine hc.moves ht hgates hnext (hreferences.trans hkept.symm)
          (hsemaphores.trans (Function.update_eq_self _ _).symm) (.inr ⟨_, rfl⟩) ?_ hfair hsame ?_
        · refine hclones.stay ?_ ?_ <;> rcases hp' with rfl | rfl <;> simp [ht, Position.permitOf,
            Position.boundTo, Progress.permit, Progress.bound]
        · rw [Position.stageAt_self]
          rcases hp' with rfl | rfl <;> exact hself
      simp only [advance] at h
      split at h
      · cases h
        exact hmoves _ .leaving rfl rfl rfl rfl (.inl rfl)
      · cases h
        exact hmoves _ .passing rfl rfl rfl rfl (.inr rfl)
  | passing | leaving =>
      cases h
      refine hc.moves ht rfl rfl rfl (Function.update_eq_self _ _).symm (.inr ⟨_, rfl⟩) ?_
        hfair hsame ?_
      · refine hclones.unbind ?_ ?_ ?_ <;> simp [ht, Position.permitOf, Position.boundTo,
          Progress.permit, Progress.bound]
      · rw [Position.stageAt_self]
        exact hself
  | building =>
      cases h
      refine hc.moves ht rfl rfl hkept.symm (Function.update_eq_self _ _).symm (.inr ⟨_, rfl⟩) ?_
        hfair hsame ?_
      · refine hclones.stay ?_ ?_ <;> simp [ht, Position.permitOf, Position.boundTo,
          Progress.permit, Progress.bound]
      · rw [Position.stageAt_self]
        exact hself
  | releasing =>
      cases h
      refine hc.moves ht rfl rfl rfl rfl (.inl rfl) ?_ (hfair.release hself)
        (fun u hu => (hsame u hu).release hu) (hfair.release_self hself)
      refine hclones.release ?_ ?_ ?_ <;> simp [ht, Position.permitOf, Position.boundTo,
        Progress.permit, Progress.bound]

theorem gated_step (hc : Gated c) (h : c.step program t a = some d) : Gated d := by
  obtain ⟨shared, position, hprog, rfl⟩ := Config.step_eq_some h
  cases hthread : c.thread t with
  | idle =>
      have hgated := gated_handle hc hthread a.seenHeld a.frame
      rw [hthread] at hprog
      rwa [Option.some.inj hprog] at hgated
  | task p r =>
      rw [hthread] at hprog
      exact gated_advance hc hthread hprog

/-- Two reads of a document have one gate, and it has one permit. -/
theorem Gated.pastGate_unique (hc : Gated c) {t u : Nat} {p q : Progress} {r r' : Read}
    (ht : c.thread t = .task p r) (hu : c.thread u = .task q r')
    (hroot : r.workspaceRoot = r'.workspaceRoot) (hpath : r.documentPath = r'.documentPath)
    (hp : p.stage = .holding) (hq : q.stage = .holding) : t = u := by
  have hmapped := hc.mapped t r (by rw [ht]; rfl)
  have hmapped' := hc.mapped u r' (by rw [hu]; rfl)
  have hgate : r.gate = r'.gate := by
    rw [Read.key, hroot, hpath] at hmapped
    rw [Read.key] at hmapped'
    exact Option.some.inj (hmapped.symm.trans hmapped')
  have hholds := hc.fits_self ht
  have hholds' := hc.fits_self hu
  rw [hp] at hholds
  rw [hq, ← hgate] at hholds'
  by_contra hne
  have hcard : ({t, u} : Finset Nat).card ≤ 1 := by
    refine (hc.fair r.gate).card_le ?_
    intro v hv
    rcases Finset.mem_insert.mp hv with rfl | hv
    · exact hholds
    · rw [Finset.mem_singleton.mp hv]
      exact hholds'
  rw [Finset.card_pair hne] at hcard
  omega

/-! ## The answers -/

namespace Progress

def Logged (log : List Event) : Progress → Prop
  | .queued | .waiting | .acquired | .passing => log = []
  | .leaving => log = [.answered .superseded]
  | .building => log = [.built]
  | .releasing => log = [.answered .superseded] ∨
      ∃ answer, answer ≠ .superseded ∧ log = [.built, .answered answer]

end Progress

/-- What a read has done in the end: it was answered once, with the superseded
error exactly if it did not build. -/
def Ended (log : List Event) : Prop :=
  log = [.answered .superseded] ∨
    ∃ answer, answer ≠ .superseded ∧ log = [.built, .answered answer]

@[simp] theorem Shared.log_record (s : Shared) (r : Read) (e : Event) (flag : Nat) :
    (s.record r e).log flag = if r.superseded = flag then s.log flag ++ [e] else s.log flag := by
  by_cases hflag : r.superseded = flag
  · simp [log, record, hflag]
  · simp [log, record, hflag]

/-- Asking for a gate is no call on the lifecycles and no event. -/
theorem Shared.gateFor_frame (s : Shared) (seenHeld : Nat → Bool) (root path : String) :
    (s.gateFor seenHeld root path).1.lifecycles = s.lifecycles ∧
      (s.gateFor seenHeld root path).1.calls = s.calls ∧
      (s.gateFor seenHeld root path).1.events = s.events := by
  unfold Shared.gateFor
  dsimp only
  split <;> exact ⟨rfl, rfl, rfl⟩

abbrev sizeBuilds : Kind := .document .sizeBuilds

/-- What holds of the flags and the events in every configuration. -/
structure Accounted (c : Config Shared Position) : Prop where
  calls : c.shared.lifecycles = ConnectionLifecycles.run c.shared.calls
  issued : ∀ t flag, (c.thread t).flag = some flag → flag < (c.shared.lifecycles.of sizeBuilds).next
  apart : ∀ t u flag, (c.thread t).flag = some flag → (c.thread u).flag = some flag → t = u
  handedOut : ∀ t r, (c.thread t).read = some r → ∃ after, Issued c.shared.calls sizeBuilds
    (.document r.workspaceRoot r.documentPath) r.superseded after
  logged : ∀ t p r, c.thread t = .task p r → p.Logged (c.shared.log r.superseded)
  ended : ∀ flag, flag < (c.shared.lifecycles.of sizeBuilds).next →
    (∃ t, (c.thread t).flag = some flag) ∨ Ended (c.shared.log flag)
  fresh : ∀ flag, (c.shared.lifecycles.of sizeBuilds).next ≤ flag → c.shared.log flag = []
  cancelled : ∀ flag, .answered .superseded ∈ c.shared.log flag →
    (c.shared.lifecycles.of sizeBuilds).cancelled flag = true

theorem accounted_started : Accounted started where
  calls := rfl
  issued _ _ h := by cases h
  apart _ _ _ h := by cases h
  handedOut _ _ h := by cases h
  logged _ _ _ h := by cases h
  ended flag h := absurd h (Nat.not_lt_zero flag)
  fresh _ _ := rfl
  cancelled _ h := by cases h

theorem Accounted.cancelled_call (hc : Accounted c) (op : Op) (flag : Nat)
    (hanswered : .answered .superseded ∈ c.shared.log flag) :
    ((c.shared.lifecycles.apply op).of sizeBuilds).cancelled flag = true := by
  refine cancelled_apply ?_ (hc.cancelled flag hanswered) op
  by_contra hnot
  rw [hc.fresh flag (Nat.le_of_not_lt hnot)] at hanswered
  cases hanswered

theorem Accounted.calls_call (hc : Accounted c) (op : Op) :
    (c.shared.call op).lifecycles = ConnectionLifecycles.run (c.shared.call op).calls := by
  simp [Shared.call, ConnectionLifecycles.run, List.foldl_append, hc.calls]

theorem Accounted.call (hc : Accounted c) {op : Op}
    (hop : op.starts.map Prod.fst ≠ some sizeBuilds) : Accounted ⟨c.shared.call op, c.thread⟩ := by
  have hnext : ((c.shared.call op).lifecycles.of sizeBuilds).next =
      (c.shared.lifecycles.of sizeBuilds).next := by
    simp [Shared.call, next_apply, hop]
  refine ⟨hc.calls_call op, ?_, hc.apart, ?_, hc.logged, ?_, ?_, hc.cancelled_call op⟩
  · simpa only [hnext] using hc.issued
  · intro t r hr
    obtain ⟨after, hafter⟩ := hc.handedOut t r hr
    exact ⟨after ++ [op], hafter.append [op]⟩
  · simp only [hnext]
    exact hc.ended
  · simp only [hnext]
    exact hc.fresh

/-- A size read starts with a flag that no read has had. -/
theorem Accounted.issue (hc : Accounted c) (ht : c.thread t = .idle) {r : Read}
    (hflag : r.superseded = (c.shared.lifecycles.of sizeBuilds).next) :
    Accounted ⟨c.shared.call (.startDocument .sizeBuilds r.workspaceRoot r.documentPath),
      Function.update c.thread t (.task .queued r)⟩ := by
  have hnext : ((c.shared.call (.startDocument .sizeBuilds r.workspaceRoot
      r.documentPath)).lifecycles.of sizeBuilds).next =
      (c.shared.lifecycles.of sizeBuilds).next + 1 := by
    simp [Shared.call, next_apply, Op.starts]
  refine ⟨hc.calls_call _, ?_, ?_, ?_, ?_, ?_, ?_, hc.cancelled_call _⟩
  · intro u flag hu
    simp only [hnext]
    dsimp only at hu
    by_cases hut : u = t
    · subst hut
      rw [Function.update_self] at hu
      cases hu
      omega
    · rw [Function.update_of_ne hut] at hu
      exact (hc.issued u flag hu).trans (Nat.lt_succ_self _)
  · refine Config.apart_of_update Position.flag hc.issued ?_ hc.apart
    intro flag hheld
    cases hheld
    exact .inr hflag.ge
  · intro u r' hr'
    dsimp only at hr'
    by_cases hut : u = t
    · subst hut
      rw [Function.update_self] at hr'
      cases hr'
      refine ⟨[], c.shared.calls, _, rfl, rfl, ?_⟩
      rw [hflag, hc.calls]
    · rw [Function.update_of_ne hut] at hr'
      obtain ⟨after, hafter⟩ := hc.handedOut u r' hr'
      exact ⟨after ++ [_], hafter.append _⟩
  · intro u p r' hu
    dsimp only at hu
    by_cases hut : u = t
    · subst hut
      rw [Function.update_self] at hu
      cases hu
      exact hc.fresh _ hflag.ge
    · rw [Function.update_of_ne hut] at hu
      exact hc.logged u p r' hu
  · intro flag hlt
    simp only [hnext] at hlt
    by_cases hself : flag = r.superseded
    · exact .inl ⟨t, by simp [Position.flag, hself]⟩
    · rcases hc.ended flag (by omega) with ⟨u, hu⟩ | hended
      · refine .inl ⟨u, ?_⟩
        have hut : u ≠ t := by
          rintro rfl
          rw [ht] at hu
          cases hu
        simpa only [Function.update_of_ne hut] using hu
      · exact .inr hended
  · intro flag hle
    simp only [hnext] at hle
    exact hc.fresh flag (by omega)

theorem accounted_handle (hc : Accounted c) (ht : c.thread t = .idle) (seenHeld : Nat → Bool)
    (frame : Frame) :
    Accounted ⟨(handle c.shared seenHeld frame).1,
      Function.update c.thread t (handle c.shared seenHeld frame).2⟩ := by
  have hidle : ∀ op : Op, op.starts.map Prod.fst ≠ some sizeBuilds →
      Accounted ⟨c.shared.call op, Function.update c.thread t .idle⟩ := by
    intro op hop
    rw [← ht, Function.update_eq_self]
    exact hc.call hop
  cases frame with
  | fileSizeDocument root path generation =>
      have hswr : (Op.startDocument .swrRefresh root path).starts.map Prod.fst ≠
          some sizeBuilds := by
        simp [Op.starts]
      cases generation with
      | none => exact hidle _ hswr
      | some generation =>
          obtain ⟨hlifecycles, hcalls, hevents⟩ := Shared.gateFor_frame
            (c.shared.call (.startDocument .swrRefresh root path)) seenHeld root path
          have hbefore := hc.call hswr
          have hgate : Accounted ⟨((c.shared.call (.startDocument .swrRefresh root path)).gateFor
              seenHeld root path).1, c.thread⟩ := by
            refine ⟨?_, ?_, hbefore.apart, ?_, ?_, ?_, ?_, ?_⟩ <;>
              simp only [Shared.log, hlifecycles, hcalls, hevents]
            exacts [hbefore.calls, hbefore.issued, hbefore.handedOut, hbefore.logged,
              hbefore.ended, hbefore.fresh, hbefore.cancelled]
          exact hgate.issue (r := ⟨root, path, _, _⟩) ht rfl
  | _ => exact hidle _ (by simp [Op.starts])

/-- A step of a task changes the log of its own read only. -/
theorem Accounted.moves (hc : Accounted c) {p : Progress} {r : Read} (ht : c.thread t = .task p r)
    {shared : Shared} {position : Position}
    (hlifecycles : shared.lifecycles = c.shared.lifecycles)
    (hcalls : shared.calls = c.shared.calls)
    (hother : ∀ flag, flag ≠ r.superseded → shared.log flag = c.shared.log flag)
    (hposition : (position = .idle ∧ Ended (shared.log r.superseded)) ∨
      ∃ p', position = .task p' r ∧ p'.Logged (shared.log r.superseded))
    (hcancelled : .answered .superseded ∈ shared.log r.superseded →
      (c.shared.lifecycles.of sizeBuilds).cancelled r.superseded = true) :
    Accounted ⟨shared, Function.update c.thread t position⟩ := by
  have hflag : (c.thread t).flag = some r.superseded := by
    rw [ht]
    rfl
  have hheld : ∀ flag, position.flag = some flag → flag = r.superseded := by
    rcases hposition with ⟨rfl, _⟩ | ⟨p', rfl, _⟩
    · exact nofun
    · rintro flag ⟨⟩
      rfl
  refine ⟨?_, ?_, ?_, ?_, ?_, ?_, ?_, ?_⟩
  · simp only [hlifecycles, hcalls]
    exact hc.calls
  · intro u flag hu
    simp only [hlifecycles]
    dsimp only at hu
    by_cases hut : u = t
    · subst hut
      rw [Function.update_self] at hu
      exact hc.issued u flag (by rw [hflag, hheld flag hu])
    · rw [Function.update_of_ne hut] at hu
      exact hc.issued u flag hu
  · refine Config.apart_of_update Position.flag hc.issued ?_ hc.apart
    intro flag hu
    exact .inl (by rw [hflag, hheld flag hu])
  · intro u r' hr'
    simp only [hcalls]
    dsimp only at hr'
    by_cases hut : u = t
    · subst hut
      rw [Function.update_self] at hr'
      rcases hposition with ⟨rfl, _⟩ | ⟨p', rfl, _⟩
      · cases hr'
      · cases hr'
        exact hc.handedOut u r (by rw [ht]; rfl)
    · rw [Function.update_of_ne hut] at hr'
      exact hc.handedOut u r' hr'
  · intro u p' r' hu
    dsimp only at hu
    by_cases hut : u = t
    · subst hut
      rw [Function.update_self] at hu
      rcases hposition with ⟨rfl, _⟩ | ⟨q, rfl, hlogged⟩
      · cases hu
      · cases hu
        exact hlogged
    · rw [Function.update_of_ne hut] at hu
      have hne : r'.superseded ≠ r.superseded := by
        intro heq
        exact hut (hc.apart u t r'.superseded (by rw [hu]; rfl) (by rw [hflag, heq]))
      simp only [hother _ hne]
      exact hc.logged u p' r' hu
  · intro flag hlt
    simp only [hlifecycles] at hlt
    by_cases hself : flag = r.superseded
    · subst hself
      rcases hposition with ⟨_, hended⟩ | ⟨p', rfl, _⟩
      · exact .inr hended
      · exact .inl ⟨t, by simp [Position.flag]⟩
    · simp only [hother _ hself]
      rcases hc.ended flag hlt with ⟨u, hu⟩ | hended
      · refine .inl ⟨u, ?_⟩
        have hut : u ≠ t := by
          rintro rfl
          rw [hflag] at hu
          exact hself (Option.some.inj hu).symm
        simpa only [Function.update_of_ne hut] using hu
      · exact .inr hended
  · intro flag hle
    simp only [hlifecycles] at hle
    have hne : flag ≠ r.superseded := by
      rintro rfl
      exact absurd (hc.issued t _ hflag) (Nat.not_lt_of_le hle)
    rw [hother _ hne]
    exact hc.fresh flag hle
  · intro flag hmem
    simp only [hlifecycles]
    dsimp only at hmem
    by_cases hself : flag = r.superseded
    · subst hself
      exact hcancelled hmem
    · rw [hother _ hself] at hmem
      exact hc.cancelled flag hmem

theorem accounted_advance (hc : Accounted c) {p : Progress} {r : Read}
    (ht : c.thread t = .task p r) {workerFails : Bool} {shared : Shared} {position : Position}
    (h : advance c.shared t workerFails r p = some (shared, position)) :
    Accounted ⟨shared, Function.update c.thread t position⟩ := by
  have hlogged := hc.logged t p r ht
  have hcancelled := hc.cancelled r.superseded
  -- a step that is no event
  have hquiet : ∀ (shared : Shared) (position : Position),
      shared.lifecycles = c.shared.lifecycles → shared.calls = c.shared.calls →
      shared.events = c.shared.events →
      ((position = .idle ∧ Ended (c.shared.log r.superseded)) ∨
        ∃ p', position = .task p' r ∧ p'.Logged (c.shared.log r.superseded)) →
      Accounted ⟨shared, Function.update c.thread t position⟩ := by
    intro shared position hlifecycles hcalls hevents hposition
    have hlog : shared.log = c.shared.log := by
      funext flag
      simp [Shared.log, hevents]
    exact hc.moves ht hlifecycles hcalls (fun flag _ => by rw [hlog]) (by rwa [hlog])
      (by rwa [hlog])
  have hothers : ∀ (s : Shared) (e : Event) (flag : Nat), flag ≠ r.superseded →
      (s.record r e).log flag = s.log flag := by
    intro s e flag hne
    rw [Shared.log_record, if_neg (Ne.symm hne)]
  cases p with
  | queued =>
      cases h
      exact hquiet _ _ rfl rfl rfl (.inr ⟨_, rfl, hlogged⟩)
  | waiting =>
      simp only [advance] at h
      split at h
      · cases h
        exact hquiet _ _ rfl rfl rfl (.inr ⟨_, rfl, hlogged⟩)
      · cases h
  | acquired =>
      simp only [advance] at h
      split at h
      · rename_i hset
        cases h
        refine hc.moves ht rfl rfl (hothers _ _) (.inr ⟨_, rfl, ?_⟩) fun _ => hset
        rw [Shared.log_record, if_pos rfl, show c.shared.log r.superseded = [] from hlogged]
        rfl
      · cases h
        exact hquiet _ _ rfl rfl rfl (.inr ⟨_, rfl, hlogged⟩)
  | passing =>
      cases h
      have hempty : (c.shared.unclone r.gate).log r.superseded = [] := hlogged
      refine hc.moves ht rfl rfl (hothers _ _) (.inr ⟨_, rfl, ?_⟩) fun hmem => ?_
      · rw [Shared.log_record, if_pos rfl, hempty]
        rfl
      · rw [Shared.log_record, if_pos rfl, hempty] at hmem
        simp at hmem
  | leaving =>
      cases h
      exact hquiet _ _ rfl rfl rfl (.inr ⟨_, rfl, .inl hlogged⟩)
  | building =>
      cases h
      have hbuilt : c.shared.log r.superseded = [.built] := hlogged
      refine hc.moves ht rfl rfl (hothers _ _) (.inr ⟨_, rfl, .inr
        ⟨if workerFails then .workerFailed else .sized, ?_, ?_⟩⟩) fun hmem => ?_
      · cases workerFails <;> decide
      · rw [Shared.log_record, if_pos rfl, hbuilt]
        rfl
      · rw [Shared.log_record, if_pos rfl, hbuilt] at hmem
        cases workerFails <;> simp at hmem
  | releasing =>
      cases h
      exact hquiet _ _ rfl rfl rfl (.inl ⟨rfl, hlogged⟩)

theorem accounted_step (hc : Accounted c) (h : c.step program t a = some d) : Accounted d := by
  obtain ⟨shared, position, hprog, rfl⟩ := Config.step_eq_some h
  cases hthread : c.thread t with
  | idle =>
      have haccounted := accounted_handle hc hthread a.seenHeld a.frame
      rw [hthread] at hprog
      rwa [Option.some.inj hprog] at haccounted
  | task p r =>
      rw [hthread] at hprog
      exact accounted_advance hc hthread hprog

/-! ## Superseded reads -/

theorem log_handle (s : Shared) (seenHeld : Nat → Bool) (frame : Frame) :
    (handle s seenHeld frame).1.log = s.log := by
  funext flag
  cases frame with
  | fileSizeDocument root path generation =>
      cases generation with
      | none => rfl
      | some generation =>
          have hevents := (Shared.gateFor_frame (s.call (.startDocument .swrRefresh root path))
            seenHeld root path).2.2
          simp only [handle, Shared.log, Shared.call] at hevents ⊢
          rw [hevents]
  | _ => rfl

/-- A frame sets flags, and clears none that was handed out. -/
theorem cancelled_handle {s : Shared} {flag : Nat}
    (hissued : flag < (s.lifecycles.of sizeBuilds).next)
    (hset : (s.lifecycles.of sizeBuilds).cancelled flag = true) (seenHeld : Nat → Bool)
    (frame : Frame) :
    ((handle s seenHeld frame).1.lifecycles.of sizeBuilds).cancelled flag = true := by
  cases frame with
  | fileSizeDocument root path generation =>
      have hswr := cancelled_apply hissued hset (.startDocument .swrRefresh root path)
      cases generation with
      | none => exact hswr
      | some generation =>
          have hlifecycles := (Shared.gateFor_frame (s.call (.startDocument .swrRefresh root path))
            seenHeld root path).1
          simp only [handle, Shared.call] at hlifecycles ⊢
          rw [hlifecycles]
          refine cancelled_apply ?_ hswr _
          rwa [next_apply, if_neg (by simp [Op.starts])]
  | _ => exact cancelled_apply hissued hset _

theorem lifecycles_advance {s shared : Shared} {workerFails : Bool} {r : Read} {p : Progress}
    {position : Position} (h : advance s t workerFails r p = some (shared, position)) :
    shared.lifecycles = s.lifecycles := by
  cases p with
  | waiting | acquired =>
      simp only [advance] at h
      split at h <;> cases h <;> rfl
  | _ =>
      cases h
      rfl

/-- The task adds to the log of its own read, and only where it answers or
starts to build. -/
theorem log_advance {s shared : Shared} {workerFails : Bool} {r : Read} {p : Progress}
    {position : Position} (h : advance s t workerFails r p = some (shared, position)) (flag : Nat) :
    shared.log flag = s.log flag ∨
      r.superseded = flag ∧ (p = .acquired ∨ p = .passing ∨ p = .building) := by
  have hrecord : ∀ (s : Shared) (e : Event),
      (s.record r e).log flag = s.log flag ∨ r.superseded = flag := by
    intro s e
    by_cases hflag : r.superseded = flag
    · exact .inr hflag
    · exact .inl (by rw [Shared.log_record, if_neg hflag])
  cases p with
  | waiting =>
      simp only [advance] at h
      split at h
      · cases h
        exact .inl rfl
      · cases h
  | acquired =>
      simp only [advance] at h
      split at h
      · cases h
        exact (hrecord _ _).imp id fun hflag => ⟨hflag, by decide⟩
      · cases h
        exact .inl rfl
  | passing | building =>
      cases h
      exact (hrecord _ _).imp id fun hflag => ⟨hflag, by decide⟩
  | queued | leaving | releasing =>
      cases h
      exact .inl rfl

theorem Accounted.log_superseded_step (hc : Accounted c) (h : c.step program t a = some d)
    {flag : Nat} (hlog : c.shared.log flag = [.answered .superseded]) :
    d.shared.log flag = [.answered .superseded] := by
  obtain ⟨shared, position, hprog, rfl⟩ := Config.step_eq_some h
  cases hthread : c.thread t with
  | idle =>
      have hhandle := log_handle c.shared a.seenHeld a.frame
      rw [hthread] at hprog
      rw [Option.some.inj hprog] at hhandle
      rw [← hlog, ← hhandle]
  | task p r =>
      have hlogged := hc.logged t p r hthread
      rw [hthread] at hprog
      rcases log_advance hprog flag with hsame | ⟨rfl, hp⟩
      · rw [← hlog, ← hsame]
      · rw [hlog] at hlogged
        rcases hp with rfl | rfl | rfl <;> cases hlogged

/-- The read waits for its gate, or has the permit and has not looked at its flag. -/
def Unchecked (c : Config Shared Position) (t : Nat) (r : Read) : Prop :=
  ∃ p, c.thread t = .task p r ∧ p.unchecked = true

/-- The flag of the read is set while it waits, or it has answered with the
superseded error and nothing else. -/
def Superseded (c : Config Shared Position) (t : Nat) (r : Read) : Prop :=
  ((c.shared.lifecycles.of sizeBuilds).cancelled r.superseded = true ∧ Unchecked c t r) ∨
    c.shared.log r.superseded = [.answered .superseded]

theorem superseded_step (hc : Accounted c) (h : c.step program t a = some d) {u : Nat} {r : Read}
    (hr : Superseded c u r) : Superseded d u r := by
  rcases hr with ⟨hset, p, hthread, hp⟩ | hlog
  · obtain ⟨shared, position, hprog, rfl⟩ := Config.step_eq_some h
    by_cases htu : u = t
    · subst htu
      rw [hthread] at hprog
      have hlogged := hc.logged u p r hthread
      cases p with
      | queued =>
          cases hprog
          exact .inl ⟨hset, _, Function.update_self _ _ _, rfl⟩
      | waiting =>
          simp only [program, advance] at hprog
          split at hprog
          · cases hprog
            exact .inl ⟨hset, _, Function.update_self _ _ _, rfl⟩
          · cases hprog
      | acquired =>
          simp only [program, advance] at hprog
          rw [if_pos (show c.shared.lifecycles.sizeBuilds.cancelled r.superseded = true from hset)]
            at hprog
          cases hprog
          refine .inr ?_
          rw [Shared.log_record, if_pos rfl, show c.shared.log r.superseded = [] from hlogged]
          rfl
      | _ => cases hp
    · have hissued := hc.issued u r.superseded (by rw [hthread]; rfl)
      refine .inl ⟨?_, p, by simpa only [Function.update_of_ne htu] using hthread, hp⟩
      cases hother : c.thread t with
      | idle =>
          have hcancelled := cancelled_handle hissued hset a.seenHeld a.frame
          rw [hother] at hprog
          rwa [Option.some.inj hprog] at hcancelled
      | task q r' =>
          rw [hother] at hprog
          simp only [lifecycles_advance hprog]
          exact hset
  · exact .inr (hc.log_superseded_step h hlog)

/-! ## Every read is answered -/

def Progress.remaining : Progress → Nat
  | .queued | .waiting => 4
  | .acquired => 3
  | .passing => 2
  | .leaving | .building => 1
  | .releasing => 0

/-- A task that holds the permit of its gate goes on, whatever the others do. -/
theorem advance_holder {s : Shared} {r : Read} {p : Progress} (workerFails : Bool)
    (hholds : t ∈ (s.semaphores r.gate).holders) (hp : p ≠ .queued) (hlast : p ≠ .releasing) :
    ∃ shared p', advance s t workerFails r p = some (shared, .task p' r) ∧
      shared.semaphores = s.semaphores ∧ p'.remaining < p.remaining ∧ p' ≠ .queued := by
  cases p with
  | queued => exact absurd rfl hp
  | releasing => exact absurd rfl hlast
  | waiting => exact ⟨_, _, if_pos hholds, rfl, by decide, by decide⟩
  | acquired =>
      by_cases hset : s.lifecycles.sizeBuilds.cancelled r.superseded = true
      · exact ⟨_, _, if_pos hset, rfl, by decide, by decide⟩
      · exact ⟨_, _, if_neg hset, rfl, by decide, by decide⟩
  | _ => exact ⟨_, _, rfl, rfl, by decide, by decide⟩

/-- The guard of the runs: workspace roots hold no NUL character. -/
abbrev nulFree (_ : Config Shared Position) (_ : Nat) (a : Action) : Prop := a.frame.NulFree

theorem step_of_advance {p : Progress} {r : Read} (ht : c.thread t = .task p r) {shared : Shared}
    {position : Position} (h : advance c.shared t false r p = some (shared, position)) :
    c.step program t {} = some ⟨shared, Function.update c.thread t position⟩ := by
  simp only [Config.step, program, ht, h, Option.map_some]

/-- A task with a permit comes to the point where it drops it, by its own steps. -/
theorem holder_answers {p : Progress} {r : Read} (ht : c.thread t = .task p r)
    (hp : p ≠ .queued) (hholds : t ∈ (c.shared.semaphores r.gate).holders) :
    ∃ more d, Runs program nulFree c more d ∧ d.thread t = .task .releasing r ∧
      d.shared.semaphores = c.shared.semaphores ∧ ∀ u, u ≠ t → d.thread u = c.thread u := by
  induction hn : p.remaining using Nat.strong_induction_on generalizing c p with
  | _ n ih =>
      by_cases hlast : p = .releasing
      · exact ⟨[], c, .refl c, by rw [ht, hlast], rfl, fun _ _ => rfl⟩
      · obtain ⟨shared, p', hadvance, hsemaphores, hlt, hp'⟩ :=
          advance_holder false hholds hp hlast
        obtain ⟨more, d, hrun, hthread, hsame, hothers⟩ := ih p'.remaining (by omega)
          (c := ⟨shared, Function.update c.thread t (.task p' r)⟩) (Function.update_self _ _ _)
          hp' (by simpa only [hsemaphores] using hholds) rfl
        refine ⟨(t, {}) :: more, d, .cons trivial (step_of_advance ht hadvance) hrun, hthread,
          hsame.trans hsemaphores, fun u hu => ?_⟩
        rw [hothers u hu]
        exact Function.update_of_ne hu _ _

theorem holder_leaves (hc : Gated c) {gate : Nat}
    (hholds : t ∈ (c.shared.semaphores gate).holders) :
    ∃ more d, Runs program nulFree c more d ∧
      d.shared.semaphores gate = (c.shared.semaphores gate).release t ∧
      ∀ u, u ≠ t → d.thread u = c.thread u := by
  have hfits := hc.fits gate t
  cases hthread : c.thread t with
  | idle =>
      rw [hthread] at hfits
      exact absurd hholds hfits.1
  | task p r =>
      rw [hthread] at hfits
      have hgate : r.gate = gate := by
        by_contra hne
        rw [Position.stageAt_of_ne (Ne.symm hne)] at hfits
        exact hfits.1 hholds
      subst hgate
      have hp : p ≠ .queued := by
        rintro rfl
        rw [Position.stageAt_self] at hfits
        exact hfits.1 hholds
      obtain ⟨more, d, hrun, hreleasing, hsame, hothers⟩ := holder_answers hthread hp hholds
      have hstep := step_of_advance hreleasing
        (show advance d.shared t false r .releasing = _ from rfl)
      refine ⟨more ++ [(t, {})], _, hrun.append (.cons (a := ({} : Action)) trivial hstep
        (.refl _)), ?_, fun u hu => ?_⟩
      · simp [Shared.onGate, Shared.unclone, hsame]
      · exact (Function.update_of_ne hu _ _).trans (hothers u hu)

theorem gated_of_runs {more : List (Nat × Action)} (hc : Gated c)
    (h : Runs program nulFree c more d) : Gated d :=
  h.invariant (fun _ _ _ _ _ hstep hgated => gated_step hgated hstep) hc

theorem waiter_acquires (hc : Gated c) {r : Read} (ht : c.thread t = .task .waiting r) :
    ∃ more d, Runs program nulFree c more d ∧ d.thread t = .task .waiting r ∧
      t ∈ (d.shared.semaphores r.gate).holders := by
  have hfits := hc.fits_self ht
  by_cases hholds : t ∈ (c.shared.semaphores r.gate).holders
  · exact ⟨[], c, .refl c, ht, hholds⟩
  have hwaits : t ∈ (c.shared.semaphores r.gate).waiters := hfits.resolve_left hholds
  -- by the length of the queue: its head gets the permit that is dropped
  induction hn : (c.shared.semaphores r.gate).waiters.length using Nat.strong_induction_on
    generalizing c with
  | _ n ih =>
      have hlength := (hc.fair r.gate).length_of_waits hwaits
      obtain ⟨u, hu⟩ := List.exists_mem_of_length_pos
        (l := (c.shared.semaphores r.gate).holders) (by omega)
      have hne : t ≠ u := by
        rintro rfl
        exact hholds hu
      obtain ⟨more, d, hrun, hrelease, hothers⟩ := holder_leaves hc hu
      have hd := gated_of_runs hc hrun
      have ht' : d.thread t = .task .waiting r := (hothers t hne).trans ht
      have hfits' := hd.fits_self ht'
      by_cases hholds' : t ∈ (d.shared.semaphores r.gate).holders
      · exact ⟨more, d, hrun, ht', hholds'⟩
      · have hwaits' : t ∈ (d.shared.semaphores r.gate).waiters := hfits'.resolve_left hholds'
        have hlt : (d.shared.semaphores r.gate).waiters.length < n := by
          rw [hrelease, Semaphore.length_release_waiters, hn]
          have := List.length_pos_of_mem hwaits
          omega
        obtain ⟨more', e, hrun', hthread, hserved⟩ := ih _ hlt hd ht' hfits' hholds' hwaits' rfl
        exact ⟨more ++ more', e, hrun.append hrun', hthread, hserved⟩

theorem read_answers (hc : Gated c) {p : Progress} {r : Read} (ht : c.thread t = .task p r) :
    ∃ more d, Runs program nulFree c more d ∧ d.thread t = .task .releasing r := by
  have hwaiting : ∀ {c : Config Shared Position}, Gated c → c.thread t = .task .waiting r →
      ∃ more d, Runs program nulFree c more d ∧ d.thread t = .task .releasing r := by
    intro c hc ht
    obtain ⟨more, d, hrun, hthread, hholds⟩ := waiter_acquires hc ht
    obtain ⟨more', e, hrun', hreleasing, _⟩ := holder_answers hthread (by decide) hholds
    exact ⟨more ++ more', e, hrun.append hrun', hreleasing⟩
  cases p with
  | queued =>
      have hstep := step_of_advance ht (show advance c.shared t false r .queued = _ from rfl)
      obtain ⟨more, d, hrun, hthread⟩ := hwaiting (gated_step hc hstep) (Function.update_self _ _ _)
      exact ⟨(t, {}) :: more, d, .cons trivial hstep hrun, hthread⟩
  | waiting => exact hwaiting hc ht
  | _ =>
      obtain ⟨more, d, hrun, hreleasing, _⟩ :=
        holder_answers ht (by decide) (hc.fits_self ht)
      exact ⟨more, d, hrun, hreleasing⟩

/-! ## The gate -/

theorem accounted_of_runs {more : List (Nat × Action)} (hc : Accounted c)
    (h : Runs program nulFree c more d) : Accounted d :=
  h.invariant (fun _ _ _ _ _ hstep haccounted => accounted_step haccounted hstep) hc

theorem superseded_of_runs {more : List (Nat × Action)} (hc : Accounted c)
    (h : Runs program nulFree c more d) {u : Nat} {r : Read} (hr : Superseded c u r) :
    Superseded d u r := by
  have hboth : Accounted d ∧ Superseded d u r :=
    h.invariant (I := fun c => Accounted c ∧ Superseded c u r)
      (fun _ _ _ _ _ hstep hI => ⟨accounted_step hI.1 hstep, superseded_step hI.1 hstep hI.2⟩)
      ⟨hc, hr⟩
  exact hboth.2

theorem calls_handle {s : Shared} (seenHeld : Nat → Bool) {frame : Frame} (hframe : frame.NulFree)
    (hs : ∀ op ∈ s.calls, op.NulFree) : ∀ op ∈ (handle s seenHeld frame).1.calls, op.NulFree := by
  have hcall : ∀ (s : Shared) (op : Op), (∀ op ∈ s.calls, op.NulFree) → op.NulFree →
      ∀ op' ∈ (s.call op).calls, op'.NulFree := by
    intro s op hs hop op' hop'
    rcases List.mem_append.mp hop' with hop' | hop'
    · exact hs op' hop'
    · rw [List.mem_singleton.mp hop']
      exact hop
  cases frame with
  | fileSizeDocument root path generation =>
      have hswr := hcall s (.startDocument .swrRefresh root path) hs hframe
      cases generation with
      | none => exact hswr
      | some generation =>
          have hcalls := (Shared.gateFor_frame (s.call (.startDocument .swrRefresh root path))
            seenHeld root path).2.1
          exact hcall ((s.call (.startDocument .swrRefresh root path)).gateFor seenHeld root path).1
            (.startDocument .sizeBuilds root path) (by rwa [hcalls]) hframe
  | analyzeDocument root path => exact hcall s (.startDocument .documentStream root path) hs hframe
  | _ => exact hcall s _ hs trivial

theorem calls_step (hguard : a.frame.NulFree) (h : c.step program t a = some d)
    (hc : ∀ op ∈ c.shared.calls, op.NulFree) : ∀ op ∈ d.shared.calls, op.NulFree := by
  obtain ⟨shared, position, hprog, rfl⟩ := Config.step_eq_some h
  cases hthread : c.thread t with
  | idle =>
      have hhandle := calls_handle a.seenHeld hguard hc
      rw [hthread] at hprog
      rwa [Option.some.inj hprog] at hhandle
  | task p r =>
      rw [hthread] at hprog
      have hcalls : shared.calls = c.shared.calls := by
        cases p with
        | waiting | acquired =>
            simp only [program, advance] at hprog
            split at hprog <;> cases hprog <;> rfl
        | _ =>
            cases hprog
            rfl
      simpa only [hcalls] using hc

/-- A later call replaced the read, hid its document or ended the connection. -/
def Replaced (c : Config Shared Position) (r : Read) : Prop :=
  ∃ after later, Issued c.shared.calls sizeBuilds (.document r.workspaceRoot r.documentPath)
    r.superseded after ∧ later ∈ after ∧
    later.cancels sizeBuilds (.document r.workspaceRoot r.documentPath)

/-- Every sequence of frames over workspace roots without a NUL character, and
every interleaving of the tasks: at most one read of a document is past its gate;
a read that is replaced while it waits answers once, with the superseded error,
builds nothing and can be brought to that answer; and a read that no later call
ends is never answered so. -/
theorem build_gate {acts : List (Nat × Action)} (h : Runs program nulFree started acts c) :
    (∀ t u p q r r', c.thread t = .task p r → c.thread u = .task q r' →
      r.workspaceRoot = r'.workspaceRoot → r.documentPath = r'.documentPath →
      (c.thread t).pastGate = true → (c.thread u).pastGate = true → t = u) ∧
    (∀ t r, Unchecked c t r → Replaced c r →
      (∀ more d, Runs program nulFree c more d →
        d.shared.log r.superseded = [.answered .superseded] ∨
          d.shared.log r.superseded = [] ∧ Unchecked d t r) ∧
      ∃ more d, Runs program nulFree c more d ∧
        d.shared.log r.superseded = [.answered .superseded]) ∧
    (∀ root path flag after, Issued c.shared.calls sizeBuilds (.document root path) flag after →
      (∀ later ∈ after, ¬ later.cancels sizeBuilds (.document root path)) →
      .answered .superseded ∉ c.shared.log flag) := by
  have hgated := gated_of_runs gated_started h
  have haccounted := accounted_of_runs accounted_started h
  have hfree : ∀ op ∈ c.shared.calls, op.NulFree :=
    h.invariant (I := fun c => ∀ op ∈ c.shared.calls, op.NulFree)
      (fun _ _ _ _ hguard hstep hcalls => calls_step hguard hstep hcalls) nofun
  refine ⟨?_, ?_, ?_⟩
  · intro t u p q r r' ht hu hroot hpath hp hq
    rw [ht] at hp
    rw [hu] at hq
    exact hgated.pastGate_unique ht hu hroot hpath (of_decide_eq_true hp) (of_decide_eq_true hq)
  · rintro t r hunchecked ⟨after, later, hissued, hlater, hcancels⟩
    have hset := (hissued.set_iff hfree).mpr ⟨later, hlater, hcancels⟩
    rw [← haccounted.calls] at hset
    have hrun : ∀ more d, Runs program nulFree c more d →
        d.shared.log r.superseded = [.answered .superseded] ∨
          d.shared.log r.superseded = [] ∧ Unchecked d t r := by
      intro more d hmore
      have hd := accounted_of_runs haccounted hmore
      rcases superseded_of_runs haccounted hmore (.inl ⟨hset, hunchecked⟩) with
        ⟨_, p, hthread, hp⟩ | hlog
      · have hlogged := hd.logged t p r hthread
        refine .inr ⟨?_, p, hthread, hp⟩
        cases p with
        | queued | waiting | acquired => exact hlogged
        | _ => cases hp
      · exact .inl hlog
    obtain ⟨p, hthread, _⟩ := hunchecked
    obtain ⟨more, d, hmore, hreleasing⟩ := read_answers hgated hthread
    refine ⟨hrun, more, d, hmore, ?_⟩
    rcases hrun more d hmore with hlog | ⟨_, q, hq, hunchecked⟩
    · exact hlog
    · rw [hreleasing] at hq
      cases hq
      cases hunchecked
  · intro root path flag after hissued hnone hanswered
    have hset := haccounted.cancelled flag hanswered
    rw [haccounted.calls, hissued.set_iff hfree] at hset
    obtain ⟨later, hlater, hcancels⟩ := hset
    exact hnone later hlater hcancels

/-- A read in the queue of its gate is replaced by the next one of its document. -/
theorem build_gate_of_replaced_read :
    ∃ c : Config Shared Position, c.thread 0 = .task .waiting ⟨"w", "a.ts", 0, 0⟩ ∧
      c.thread 1 = .task .queued ⟨"w", "a.ts", 0, 1⟩ ∧
      ∃ more d, Runs program nulFree c more d ∧ d.shared.log 0 = [.answered .superseded] := by
  have hrun : ((started.run program nulFree
      [(0, { frame := .fileSizeDocument "w" "a.ts" (some 4) }), (0, {}),
        (1, { frame := .fileSizeDocument "w" "a.ts" (some 5) })]).any fun c =>
      decide (c.thread 0 = .task .waiting ⟨"w", "a.ts", 0, 0⟩ ∧
        c.thread 1 = .task .queued ⟨"w", "a.ts", 0, 1⟩ ∧
        c.shared.calls = [.startDocument .swrRefresh "w" "a.ts",
          .startDocument .sizeBuilds "w" "a.ts", .startDocument .swrRefresh "w" "a.ts",
          .startDocument .sizeBuilds "w" "a.ts"])) = true := by
    decide
  obtain ⟨c, hc, htest⟩ := Runs.of_run_any hrun
  obtain ⟨hfirst, hsecond, hcalls⟩ := of_decide_eq_true htest
  have hreplaced : Replaced c ⟨"w", "a.ts", 0, 0⟩ := by
    refine ⟨[.startDocument .swrRefresh "w" "a.ts", .startDocument .sizeBuilds "w" "a.ts"], _,
      ⟨[.startDocument .swrRefresh "w" "a.ts"], _, hcalls, rfl, rfl⟩,
      List.mem_cons_of_mem _ List.mem_cons_self, .inl rfl⟩
  exact ⟨c, hfirst, hsecond, ((build_gate hc).2.1 0 _ ⟨_, hfirst, rfl⟩ hreplaced).2⟩

/-- The read of the document `b\0c` of the root `a` ends the one of the document
`c` of the root `a\0b`, which is the newest of its document. -/
theorem newest_read_superseded_by_other_document :
    ¬ ∀ (acts : List (Nat × Action)) (c : Config Shared Position),
      Runs program (fun _ _ _ => True) started acts c →
      ∀ root path flag after, Issued c.shared.calls sizeBuilds (.document root path) flag after →
        (∀ later ∈ after, ¬ later.cancels sizeBuilds (.document root path)) →
        .answered .superseded ∉ c.shared.log flag := by
  intro hnewest
  have hrun : ((started.run program (fun _ _ _ => True)
      [(0, { frame := .fileSizeDocument "a\x00b" "c" (some 4) }), (0, {}),
        (1, { frame := .fileSizeDocument "a" "b\x00c" (some 5) }), (0, {}), (0, {})]).any fun c =>
      decide (c.shared.log 0 = [.answered .superseded] ∧
        c.shared.calls = [.startDocument .swrRefresh "a\x00b" "c",
          .startDocument .sizeBuilds "a\x00b" "c", .startDocument .swrRefresh "a" "b\x00c",
          .startDocument .sizeBuilds "a" "b\x00c"])) = true := by
    decide
  obtain ⟨c, hc, htest⟩ := Runs.of_run_any hrun
  obtain ⟨hlog, hcalls⟩ := of_decide_eq_true htest
  refine hnewest _ c hc "a\x00b" "c" 0
    [.startDocument .swrRefresh "a" "b\x00c", .startDocument .sizeBuilds "a" "b\x00c"]
    ⟨[.startDocument .swrRefresh "a\x00b" "c"], _, hcalls, rfl, rfl⟩ ?_ ?_
  · intro later hlater
    simp only [List.mem_cons, List.not_mem_nil, or_false] at hlater
    rcases hlater with rfl | rfl <;> simp [Op.cancels, Op.starts]
  · rw [hlog]
    exact List.mem_singleton.mpr rfl

end ImportLens.Ipc.BuildGate
