import ImportLens.Pipeline.AssetBudget
import ImportLens.Support.Shares

/-!
# The asset budget under every interleaving

Stylesheet readers and resource snapshots share one ledger.  A thread of the
machine is one call; a stylesheet read holds its reservation between its begin
and its finish and may be given up there, and `snapshot` takes its sections one
by one while it holds the snapshot gate.  What the deadline says, what a path
canonicalizes to and what a stat or a read answers are choices of the
environment, so a file may change between any two of them.
-/

namespace ImportLens.Pipeline.AssetBudget

open ImportLens.Daemon ImportLens.Cache ImportLens.Support

structure Shared where
  ledger : BudgetState
  /-- The holder of `snapshot_gate`. -/
  gate : Option Nat
  /-- History: the metadata lengths under which paths entered the ledger. -/
  recorded : List (String × Nat)
  /-- History: the lengths of the reads that finished. -/
  finished : List (String × Nat)

inductive Call
  | chargeCssSnapshot (asset : CollectedAsset)
  | beginCssRead (path : String) (metadata : Metadata)
  | snapshot (requestedPath : String) (kind : AssetKind)
  | checkDeadline
  | recordFailedPath (path : String) (missing : Bool)
  | observeMetadata (path : String) (metadata : Metadata)

structure Action where
  call : Call := .checkDeadline
  /-- What `deadline.is_expired()` answers. -/
  expired : Bool := false
  /-- What `canonical_path` answers. -/
  canonical : String := ""
  stat : Except ErrorKind Metadata := .error .notFound
  read : Except ErrorKind Bytes := .error .notFound

inductive Position
  | idle
  /-- Between `begin_css_read` and `finish_css_read`. -/
  | reading (reservation : CssReadReservation)
  -- `snapshot`, under the gate
  | lookUp (requestedPath : String) (kind : AssetKind)
  | lookUpCanonical (requestedPath : String) (kind : AssetKind)
  | present
  | nameAlias (requestedPath path : String) (kind : AssetKind)
  | available (path : String) (kind : AssetKind)
  | statResource (path : String) (kind : AssetKind)
  | readResource (reservation : CssReadReservation) (kind : AssetKind)
  -- the call has ended: with success, with an error, or without an answer to give
  | succeeded
  | failed (fault : Fault)
  | noted

def Shared.settle {α : Type} (s : Shared) (outcome : Except Fault α × BudgetState)
    (next : α → Position) : Shared × Position :=
  match outcome.1 with
  | .ok value => ({ s with ledger := outcome.2 }, next value)
  | .error fault => ({ s with ledger := outcome.2 }, .failed fault)

def Shared.settleBegin (s : Shared) (outcome : Except Fault CssReadReservation × BudgetState)
    (next : CssReadReservation → Position) : Shared × Position :=
  match outcome.1 with
  | .ok reservation =>
      ({ s with
        ledger := outcome.2
        recorded :=
          if (s.ledger.uniqueFiles.lookup reservation.path).isSome then s.recorded
          else (reservation.path, reservation.metadata.len) :: s.recorded }, next reservation)
  | .error fault => ({ s with ledger := outcome.2 }, .failed fault)

def Shared.settleFinish (s : Shared) (reservation : CssReadReservation) (bytes : Bytes)
    (outcome : Except Fault CollectedAsset × BudgetState) : Shared × Position :=
  match outcome.1 with
  | .ok _ =>
      ({ s with
        ledger := outcome.2
        finished := (reservation.path, bytes.length) :: s.finished }, .succeeded)
  | .error fault => ({ s with ledger := outcome.2 }, .failed fault)

/-- Leave `snapshot`, and the gate with it, when the call has ended. -/
def release (next : Shared × Position) : Shared × Position :=
  match next.2 with
  | .succeeded => ({ next.1 with gate := none }, .succeeded)
  | .failed fault => ({ next.1 with gate := none }, .failed fault)
  | position => (next.1, position)

section

variable (limits : AssetBudgetLimits) (contentHash : Bytes → Nat)

def program : Program Shared Position Action := fun t a s position =>
  match position with
  | .idle =>
      match a.call with
      | .chargeCssSnapshot asset =>
          some (s.settle (chargeCssSnapshot limits a.expired asset s.ledger) fun _ => .succeeded)
      | .beginCssRead path metadata =>
          some (s.settleBegin (beginCssRead limits a.expired path metadata s.ledger) .reading)
      | .snapshot requestedPath kind =>
          if s.gate.isSome then none
          else some ({ s with gate := some t }, .lookUp requestedPath kind)
      | .checkDeadline =>
          some (s.settle (checkAvailable a.expired s.ledger) fun _ => .succeeded)
      | .recordFailedPath path missing =>
          some (s.settle (recordFailedPath path missing s.ledger) fun _ => .noted)
      | .observeMetadata path metadata =>
          some (s.settle (observeMetadata path metadata s.ledger) fun _ => .noted)
  | .reading reservation =>
      match a.read with
      -- the read failed or was given up: the reservation is dropped
      | .error _ => some (s, .noted)
      | .ok bytes =>
          some (s.settleFinish reservation bytes
            (finishRead limits contentHash a.expired reservation .css bytes s.ledger))
  | .lookUp requestedPath kind =>
      let identity := (s.ledger.aliases.lookup requestedPath).getD requestedPath
      if (s.ledger.snapshots.lookup identity).isSome then some (s, .present)
      else some (s, .lookUpCanonical requestedPath kind)
  | .lookUpCanonical requestedPath kind =>
      if (s.ledger.snapshots.lookup a.canonical).isSome then some (s, .present)
      else some (s, .nameAlias requestedPath a.canonical kind)
  | .present =>
      some (release (s.settle (checkAvailable a.expired s.ledger) fun _ => .succeeded))
  | .nameAlias requestedPath path kind =>
      some ({ s with
        ledger := { s.ledger with aliases := s.ledger.aliases.insert requestedPath path } },
        .available path kind)
  | .available path kind =>
      some (release
        (s.settle (checkAvailable a.expired s.ledger) fun _ => .statResource path kind))
  | .statResource path kind =>
      match a.stat with
      | .error error =>
          some (release (s.settle (recordFailedPath a.canonical (error == .notFound) s.ledger)
            fun _ => .failed (.file error)))
      | .ok metadata =>
          some (release (s.settleBegin (beginResourceRead limits a.expired path metadata s.ledger)
            fun reservation => .readResource reservation kind))
  | .readResource reservation kind =>
      match a.read with
      | .error error =>
          some (release (s.settle (recordFailedPath a.canonical (error == .notFound) s.ledger)
            fun _ => .failed (.file error)))
      | .ok bytes =>
          some (release (s.settleFinish reservation bytes
            (finishRead limits contentHash a.expired reservation kind bytes s.ledger)))
  | .succeeded | .failed _ | .noted => some (s, .idle)

def started (graphSourceBytes : Nat) (graphLoadedPaths : List String)
    (directAssets : List CollectedAsset) : Config Shared Position where
  shared :=
    { ledger := newState limits graphSourceBytes graphLoadedPaths directAssets
      gate := none
      recorded := []
      finished := [] }
  thread _ := .idle

end

def Position.reservation : Position → Option CssReadReservation
  | .reading reservation => some reservation
  | .readResource reservation _ => some reservation
  | _ => none

def Position.outstanding (position : Position) : Nat :=
  (position.reservation.map CssReadReservation.work).getD 0

/-! ## What one step does -/

variable {limits : AssetBudgetLimits} {contentHash : Bytes → Nat} {graphSourceBytes : Nat}

/-- What a step does to the ledger, to the histories and to the reservation of
its thread. -/
structure Step (limits : AssetBudgetLimits) (graphSourceBytes : Nat) (s : Shared) (p : Position)
    (s' : Shared) (p' : Position) : Prop where
  kept : Kept limits graphSourceBytes s.ledger s'.ledger
  work : s.ledger.cssWorkBytes + p'.outstanding ≤ s'.ledger.cssWorkBytes + p.outstanding
  calm : ∀ expectation, p' ≠ .failed (.panicked expectation)
  held : ∀ r, p'.reservation = some r → (s'.ledger.uniqueFiles.lookup r.path).isSome
  recorded :
    (s'.recorded = s.recorded ∧ ∀ path, (s'.ledger.uniqueFiles.lookup path).isSome →
      (s.ledger.uniqueFiles.lookup path).isSome) ∨
    ∃ path bytes, s.ledger.uniqueFiles.lookup path = none ∧
      s'.ledger.uniqueFiles.lookup path = some bytes ∧
      s'.recorded = (path, bytes) :: s.recorded ∧
      ∀ other, other ≠ path → s'.ledger.uniqueFiles.lookup other =
        s.ledger.uniqueFiles.lookup other
  finished :
    s'.finished = s.finished ∨
    ∃ path bytes, s'.finished = (path, bytes) :: s.finished ∧
      (path ∉ s.ledger.graphFiles →
        ∃ charge, s'.ledger.uniqueFiles.lookup path = some charge ∧ bytes ≤ charge)

theorem Step.release {s s' : Shared} {p p' : Position}
    (h : Step limits graphSourceBytes s p s' p') :
    Step limits graphSourceBytes s p (release (s', p')).1 (release (s', p')).2 := by
  cases p' with
  | succeeded => exact ⟨h.kept, h.work, h.calm, h.held, h.recorded, h.finished⟩
  | failed fault => exact ⟨h.kept, h.work, h.calm, h.held, h.recorded, h.finished⟩
  | _ => exact h

theorem step_same {s : Shared} (gate : Option Nat) {p p' : Position}
    (hreservation : p'.reservation = none)
    (hcalm : ∀ expectation, p' ≠ .failed (.panicked expectation)) :
    Step limits graphSourceBytes s p { s with gate := gate } p' where
  kept := .refl _
  work := by simp [Position.outstanding, hreservation]
  calm := hcalm
  held := by simp [hreservation]
  recorded := .inl ⟨rfl, fun _ h => h⟩
  finished := .inl rfl

/-- A section that does not end with a failed expectation. -/
def Calm {α : Type} (m : Locked α) : Prop :=
  ∀ state expectation next, m state ≠ (.error (.panicked expectation), next)

theorem step_settle {α : Type} {m : Locked α} {s : Shared} {p : Position} {next : α → Position}
    (hkeeps : Keeps limits graphSourceBytes m) (hspends : Spends 0 m) (hpaths : AddsNoPath m)
    (hcalm : Calm m) (hreservation : ∀ value, (next value).reservation = none)
    (hnext : ∀ value expectation, next value ≠ .failed (.panicked expectation)) :
    Step limits graphSourceBytes s p (s.settle (m s.ledger) next).1
      (s.settle (m s.ledger) next).2 := by
  have hk := hkeeps s.ledger
  have hs := hspends s.ledger
  have ha := hpaths s.ledger
  unfold Shared.settle
  cases hm : m s.ledger with
  | mk outcome ledger =>
      rw [hm] at hk hs ha
      cases outcome with
      | ok value =>
          refine ⟨hk, ?_, hnext value, ?_, .inl ⟨rfl, ha⟩, .inl rfl⟩
          · simp only [Position.outstanding, hreservation]
            exact hs.trans (Nat.add_le_add_left (Nat.zero_le _) _)
          · simp [hreservation]
      | error fault =>
          refine ⟨hk, ?_, ?_, ?_, .inl ⟨rfl, ha⟩, .inl rfl⟩
          · exact hs.trans (Nat.add_le_add_left (Nat.zero_le _) _)
          · intro expectation heq
            cases heq
            exact hcalm _ _ _ hm
          · simp [Position.reservation]

theorem step_settleBegin {m : Locked CssReadReservation} {s : Shared} {p : Position}
    {next : CssReadReservation → Position} (path : String) (metadata : Metadata)
    (hkeeps : Keeps limits graphSourceBytes m) (hspends : Spends 0 m) (hcalm : Calm m)
    (hfails : FailsUncharged m)
    (hnext : ∀ reservation, (next reservation).reservation = some reservation)
    (hok : ∀ reservation ledger, m s.ledger = (.ok reservation, ledger) →
      reservation.path = path ∧ reservation.metadata = metadata ∧
        s.ledger.cssWorkBytes + reservation.work ≤ ledger.cssWorkBytes ∧
        Entered path metadata.len s.ledger ledger) :
    Step limits graphSourceBytes s p (s.settleBegin (m s.ledger) next).1
      (s.settleBegin (m s.ledger) next).2 := by
  have hk := hkeeps s.ledger
  have hs := hspends s.ledger
  unfold Shared.settleBegin
  cases hm : m s.ledger with
  | mk outcome ledger =>
      rw [hm] at hk hs
      cases outcome with
      | ok reservation =>
          obtain ⟨hpath, hmetadata, hwork, hentered⟩ := hok reservation ledger hm
          have hcharge := hentered.charge
          refine ⟨hk, ?_, ?_, ?_, ?_, .inl rfl⟩
          · simp only [Position.outstanding, hnext]
            exact hwork.trans (Nat.le_add_right _ _)
          · intro expectation heq
            have hholds := hnext reservation
            dsimp only at heq
            rw [heq] at hholds
            cases hholds
          · intro r hr
            dsimp only at hr
            rw [hnext] at hr
            cases hr
            rw [hpath, hcharge]
            rfl
          · dsimp only
            rw [hpath, hmetadata]
            cases hold : s.ledger.uniqueFiles.lookup path with
            | some charge =>
                refine .inl ⟨by simp, fun other hother => ?_⟩
                by_cases hsame : other = path
                · rw [hsame, hold]
                  rfl
                · rwa [hentered.others other hsame] at hother
            | none =>
                rw [hold] at hcharge
                exact .inr ⟨path, metadata.len, hold, hcharge, by simp, hentered.others⟩
      | error fault =>
          have hfiles := hfails _ _ _ hm
          refine ⟨hk, ?_, ?_, ?_, .inl ⟨rfl, fun path hpath => ?_⟩, .inl rfl⟩
          · exact hs.trans (Nat.add_le_add_left (Nat.zero_le _) _)
          · intro expectation heq
            cases heq
            exact hcalm _ _ _ hm
          · simp [Position.reservation]
          · rwa [hfiles] at hpath

theorem step_settleFinish {s : Shared} {p : Position} {reservation : CssReadReservation}
    {expired : Bool} {kind : AssetKind} {bytes : Bytes} (hp : p.reservation = some reservation)
    (hwork : reservation.work ≤ s.ledger.cssWorkBytes)
    (hcharged : (s.ledger.uniqueFiles.lookup reservation.path).isSome) :
    Step limits graphSourceBytes s p
      (s.settleFinish reservation bytes
        (finishRead limits contentHash expired reservation kind bytes s.ledger)).1
      (s.settleFinish reservation bytes
        (finishRead limits contentHash expired reservation kind bytes s.ledger)).2 := by
  have hkeeps : Keeps limits graphSourceBytes
      (finishRead limits contentHash expired reservation kind bytes) := keeps_finishRead _ _ _ _ _
  have hspends : Spends reservation.work
      (finishRead limits contentHash expired reservation kind bytes) := spends_finishRead _ _ _ _ _
  have hpaths : AddsNoPath (finishRead limits contentHash expired reservation kind bytes) :=
    addsNoPath_finishRead _ _ _ _ _
  have hk := hkeeps s.ledger
  have hs := hspends s.ledger
  have ha := hpaths s.ledger
  have hspent : p.outstanding = reservation.work := by simp [Position.outstanding, hp]
  unfold Shared.settleFinish
  cases hm : finishRead limits contentHash expired reservation kind bytes s.ledger with
  | mk outcome ledger =>
      rw [hm] at hk hs ha
      cases outcome with
      | ok asset =>
          refine ⟨hk, ?_, ?_, ?_, .inl ⟨rfl, ha⟩, .inr ⟨_, _, rfl, finishRead_ok hm⟩⟩
          · rw [hspent]
            exact hs
          · exact fun _ heq => by cases heq
          · simp [Position.reservation]
      | error fault =>
          refine ⟨hk, ?_, ?_, ?_, .inl ⟨rfl, ha⟩, .inl rfl⟩
          · rw [hspent]
            exact hs
          · intro expectation heq
            cases heq
            exact finishRead_no_panic hwork hcharged hm
          · simp [Position.reservation]

/-! ## Every step of the program -/

theorem calm_checkAvailable (expired : Bool) : Calm (checkAvailable expired) := by
  intro state expectation next h
  simp only [checkAvailable, Section.get_bind, limitIoError] at h
  split at h
  · cases h
  · split at h <;> cases h

theorem calm_breach {α : Type} (message : String) : Calm (breach message : Locked α) := by
  intro state expectation next h
  cases h

theorem Calm.bind {α β : Type} {m : Locked α} {f : α → Locked β} (hm : Calm m)
    (hf : ∀ a, Calm (f a)) : Calm (m >>= f) := by
  intro state expectation next h
  rcases Section.bind_error_iff.mp h with ⟨a, between, _, hsecond⟩ | hfirst
  · exact hf a _ _ _ hsecond
  · exact hm _ _ _ hfirst

theorem calm_observe (path : String) (fingerprint : FileFingerprint) :
    Calm (observe path fingerprint) := by
  intro state expectation next h
  cases h

theorem calm_pure {α : Type} (a : α) : Calm (pure a : Locked α) := by
  intro state expectation next h
  cases h

theorem calm_metadataBytes (metadata : Metadata) (path : String) :
    Calm (metadataBytes metadata path) := by
  intro state expectation next h
  rw [metadataBytes] at h
  split at h <;> cases h

theorem calm_chargeCssWork (bytes : Nat) (path : String) :
    Calm (chargeCssWork limits bytes path) := by
  intro state expectation next h
  simp only [chargeCssWork] at h
  split at h
  · exact calm_breach _ _ _ _ h
  · cases h

theorem calm_reserveUnique (path : String) (bytes : Nat) :
    Calm (reserveUnique limits path bytes) := by
  intro state expectation next h
  simp only [reserveUnique] at h
  split at h
  · exact calm_breach _ _ _ _ h
  · split at h
    · cases h
    · split at h
      · exact calm_breach _ _ _ _ h
      · split at h
        · exact calm_breach _ _ _ _ h
        · cases h

theorem calm_chargeCssSnapshot (expired : Bool) (asset : CollectedAsset) :
    Calm (chargeCssSnapshot limits expired asset) :=
  (calm_checkAvailable expired).bind fun _ =>
    (calm_observe _ _).bind fun _ => calm_chargeCssWork _ _

theorem calm_beginCssRead (expired : Bool) (path : String) (metadata : Metadata) :
    Calm (beginCssRead limits expired path metadata) :=
  (calm_metadataBytes metadata path).bind fun _ => (calm_checkAvailable expired).bind fun _ =>
    (calm_observe _ _).bind fun _ => (calm_chargeCssWork _ _).bind fun _ =>
      (calm_reserveUnique _ _).bind fun _ => calm_pure _

theorem calm_beginResourceRead (expired : Bool) (path : String) (metadata : Metadata) :
    Calm (beginResourceRead limits expired path metadata) :=
  (calm_metadataBytes metadata path).bind fun _ => (calm_checkAvailable expired).bind fun _ =>
    (calm_observe _ _).bind fun _ => (calm_reserveUnique _ _).bind fun _ => calm_pure _

/-- The check of the deadline, with any way to go on. -/
theorem step_check {s : Shared} {p : Position} {next : Position} (expired : Bool)
    (hreservation : next.reservation = none)
    (hnext : ∀ expectation, next ≠ .failed (.panicked expectation)) :
    Step limits graphSourceBytes s p
      (s.settle (checkAvailable expired s.ledger) fun _ => next).1
      (s.settle (checkAvailable expired s.ledger) fun _ => next).2 :=
  step_settle (keeps_checkAvailable expired) (spends_checkAvailable expired)
    (addsNoPath_of_files (files_checkAvailable expired)) (calm_checkAvailable expired)
    (fun _ => hreservation) fun _ => hnext

/-- An observation, with any way to go on. -/
theorem step_observe {s : Shared} {p : Position} {next : Position} (path : String)
    (fingerprint : FileFingerprint) (hreservation : next.reservation = none)
    (hnext : ∀ expectation, next ≠ .failed (.panicked expectation)) :
    Step limits graphSourceBytes s p
      (s.settle (observe path fingerprint s.ledger) fun _ => next).1
      (s.settle (observe path fingerprint s.ledger) fun _ => next).2 :=
  step_settle (keeps_observe path fingerprint) (spends_observe path fingerprint)
    (addsNoPath_of_files fun _ => rfl) (calm_observe path fingerprint)
    (fun _ => hreservation) fun _ => hnext

/-- Every step of the program, from a position whose reservation stands. -/
theorem step_of_program {t : Nat} {a : Action} {s s' : Shared} {p p' : Position}
    (hstands : ∀ r, p.reservation = some r → r.work ≤ s.ledger.cssWorkBytes ∧
      (s.ledger.uniqueFiles.lookup r.path).isSome)
    (h : program limits contentHash t a s p = some (s', p')) :
    Step limits graphSourceBytes s p s' p' := by
  -- the pair of a step, with its two components named
  have hpair : ∀ next : Shared × Position, Step limits graphSourceBytes s p next.1 next.2 →
      some next = some (s', p') → Step limits graphSourceBytes s p s' p' := by
    intro next hstep heq
    cases heq
    exact hstep
  cases p with
  | idle =>
      simp only [program] at h
      split at h
      · exact hpair _ (step_settle (keeps_chargeCssSnapshot _ _) (spends_chargeCssSnapshot _ _)
          (addsNoPath_chargeCssSnapshot _ _) (calm_chargeCssSnapshot _ _) (fun _ => rfl)
          fun _ _ heq => by cases heq) h
      · rename_i path metadata _
        refine hpair _
          (step_settleBegin path metadata (keeps_beginCssRead _ _ _) (spends_beginCssRead _ _ _)
          (calm_beginCssRead _ _ _) (failsUncharged_beginCssRead _ _ _) (fun _ => rfl) ?_) h
        intro reservation ledger hok
        obtain ⟨rfl, hwork, hentered⟩ := beginCssRead_ok hok
        exact ⟨rfl, rfl, Nat.le_of_eq hwork.symm, hentered⟩
      · split at h
        · cases h
        · exact hpair _ (step_same _ rfl fun _ heq => by cases heq) h
      · exact hpair _ (step_check _ rfl fun _ heq => by cases heq) h
      · exact hpair _ (step_observe _ _ rfl fun _ heq => by cases heq) h
      · exact hpair _ (step_observe _ _ rfl fun _ heq => by cases heq) h
  | reading reservation =>
      obtain ⟨hwork, hcharged⟩ := hstands reservation rfl
      simp only [program] at h
      split at h
      · exact hpair _ (step_same _ rfl fun _ heq => by cases heq) h
      · exact hpair _ (step_settleFinish rfl hwork hcharged) h
  | lookUp requestedPath kind =>
      simp only [program] at h
      split at h <;> exact hpair _ (step_same _ rfl fun _ heq => by cases heq) h
  | lookUpCanonical requestedPath kind =>
      simp only [program] at h
      split at h <;> exact hpair _ (step_same _ rfl fun _ heq => by cases heq) h
  | present =>
      exact hpair _ (step_check _ rfl fun _ heq => by cases heq).release h
  | nameAlias requestedPath path kind =>
      refine hpair _ ?_ h
      refine ⟨.of_eq rfl rfl rfl rfl rfl rfl, Nat.le_refl _, (fun _ heq => by cases heq), ?_,
        .inl ⟨rfl, fun _ h => h⟩, .inl rfl⟩
      intro r hr
      cases hr
  | available path kind =>
      exact hpair _ (step_check _ rfl fun _ heq => by cases heq).release h
  | statResource path kind =>
      simp only [program] at h
      split at h
      · exact hpair _ (step_observe _ _ rfl fun _ heq => by cases heq).release h
      · rename_i metadata _
        refine hpair _ (Step.release (step_settleBegin path metadata (keeps_beginResourceRead _ _ _)
          (spends_beginResourceRead _ _ _) (calm_beginResourceRead _ _ _)
          (failsUncharged_beginResourceRead _ _ _) (fun _ => rfl) ?_)) h
        intro reservation ledger hok
        obtain ⟨rfl, hwork, hentered⟩ := beginResourceRead_ok hok
        exact ⟨rfl, rfl, Nat.le_of_eq hwork.symm, hentered⟩
  | readResource reservation kind =>
      obtain ⟨hwork, hcharged⟩ := hstands reservation rfl
      simp only [program] at h
      split at h
      · exact hpair _ (step_observe _ _ rfl fun _ heq => by cases heq).release h
      · exact hpair _ (Step.release (step_settleFinish rfl hwork hcharged)) h
  | succeeded =>
      exact hpair _ (step_same _ rfl fun _ heq => by cases heq) h
  | failed fault =>
      exact hpair _ (step_same _ rfl fun _ heq => by cases heq) h
  | noted =>
      exact hpair _ (step_same _ rfl fun _ heq => by cases heq) h

/-! ## The ledger in every reachable state -/

/-- What holds of the shared state and of the threads together. -/
structure Sound (limits : AssetBudgetLimits) (graphSourceBytes : Nat) (s : Shared)
    (thread : Nat → Position) : Prop where
  balanced : Balanced limits graphSourceBytes s.ledger
  work : ∃ n, Sums Position.outstanding thread n ∧ n ≤ s.ledger.cssWorkBytes
  charged : ∀ t r, (thread t).reservation = some r → (s.ledger.uniqueFiles.lookup r.path).isSome
  calm : ∀ t expectation, thread t ≠ .failed (.panicked expectation)
  recorded : ∀ path bytes, (path, bytes) ∈ s.recorded →
    ∃ charge, s.ledger.uniqueFiles.lookup path = some charge ∧ bytes ≤ charge
  once : (s.recorded.map Prod.fst).Nodup
  known : ∀ path, (s.ledger.uniqueFiles.lookup path).isSome → path ∉ s.ledger.graphFiles →
    ∃ bytes, (path, bytes) ∈ s.recorded
  finished : ∀ path bytes, (path, bytes) ∈ s.finished → path ∉ s.ledger.graphFiles →
    ∃ charge, s.ledger.uniqueFiles.lookup path = some charge ∧ bytes ≤ charge

variable {s s' : Shared} {thread : Nat → Position} {t : Nat} {p' : Position}

theorem Sound.stands (hc : Sound limits graphSourceBytes s thread) (r : CssReadReservation)
    (hr : (thread t).reservation = some r) :
    r.work ≤ s.ledger.cssWorkBytes ∧ (s.ledger.uniqueFiles.lookup r.path).isSome := by
  obtain ⟨n, hsums, hle⟩ := hc.work
  have hshare := hsums.share_le t
  rw [Position.outstanding, hr, Option.map_some, Option.getD_some] at hshare
  exact ⟨hshare.trans hle, hc.charged t r hr⟩

/-- A charge that covers some bytes covers them after a step. -/
theorem Step.still_charged {p : Position} (h : Step limits graphSourceBytes s p s' p')
    {path : String} {bytes : Nat}
    (hcharge : ∃ charge, s.ledger.uniqueFiles.lookup path = some charge ∧ bytes ≤ charge) :
    ∃ charge, s'.ledger.uniqueFiles.lookup path = some charge ∧ bytes ≤ charge := by
  obtain ⟨charge, hlookup, hle⟩ := hcharge
  obtain ⟨more, hmore, hle'⟩ := h.kept.extends_.charge path charge hlookup
  exact ⟨more, hmore, hle.trans hle'⟩

/-- The histories after a step say of the ledger after it what they said before. -/
theorem Sound.recorded_step (hc : Sound limits graphSourceBytes s thread)
    (h : Step limits graphSourceBytes s (thread t) s' p') :
    (∀ path bytes, (path, bytes) ∈ s'.recorded →
      ∃ charge, s'.ledger.uniqueFiles.lookup path = some charge ∧ bytes ≤ charge) ∧
    (s'.recorded.map Prod.fst).Nodup := by
  rcases h.recorded with ⟨hsame, _⟩ | ⟨path', bytes', hfresh, hnew, hrecorded, _⟩
  · rw [hsame]
    exact ⟨fun path bytes hmem => h.still_charged (hc.recorded path bytes hmem), hc.once⟩
  · rw [hrecorded]
    constructor
    · intro path bytes hmem
      rcases List.mem_cons.mp hmem with heq | hmem
      · cases heq
        exact ⟨_, hnew, Nat.le_refl _⟩
      · exact h.still_charged (hc.recorded path bytes hmem)
    · rw [List.map_cons, List.nodup_cons]
      refine ⟨fun hmem => ?_, hc.once⟩
      obtain ⟨⟨path, bytes⟩, hmem, heq⟩ := List.mem_map.mp hmem
      cases heq
      obtain ⟨charge, hcharge, _⟩ := hc.recorded _ _ hmem
      rw [hfresh] at hcharge
      cases hcharge

theorem Sound.known_step (hc : Sound limits graphSourceBytes s thread)
    (h : Step limits graphSourceBytes s (thread t) s' p') (path : String)
    (hpath : (s'.ledger.uniqueFiles.lookup path).isSome) (hout : path ∉ s'.ledger.graphFiles) :
    ∃ bytes, (path, bytes) ∈ s'.recorded := by
  rw [h.kept.extends_.graph] at hout
  rcases h.recorded with ⟨hsame, hadds⟩ | ⟨path', bytes', _, _, hrecorded, hothers⟩
  · rw [hsame]
    exact hc.known path (hadds path hpath) hout
  · rw [hrecorded]
    by_cases hp : path = path'
    · exact ⟨bytes', by simp [hp]⟩
    · rw [hothers path hp] at hpath
      obtain ⟨bytes, hmem⟩ := hc.known path hpath hout
      exact ⟨bytes, List.mem_cons_of_mem _ hmem⟩

theorem Sound.finished_step (hc : Sound limits graphSourceBytes s thread)
    (h : Step limits graphSourceBytes s (thread t) s' p') (path : String) (bytes : Nat)
    (hmem : (path, bytes) ∈ s'.finished) (hout : path ∉ s'.ledger.graphFiles) :
    ∃ charge, s'.ledger.uniqueFiles.lookup path = some charge ∧ bytes ≤ charge := by
  rw [h.kept.extends_.graph] at hout
  rcases h.finished with hsame | ⟨path', bytes', hfinished, hcharge⟩
  · rw [hsame] at hmem
    exact h.still_charged (hc.finished path bytes hmem hout)
  · rw [hfinished] at hmem
    rcases List.mem_cons.mp hmem with heq | hmem
    · cases heq
      exact hcharge hout
    · exact h.still_charged (hc.finished path bytes hmem hout)

theorem Sound.step (hc : Sound limits graphSourceBytes s thread)
    (h : Step limits graphSourceBytes s (thread t) s' p') :
    Sound limits graphSourceBytes s' (Function.update thread t p') where
  balanced := h.kept.balanced hc.balanced
  work := by
    obtain ⟨n, hsums, hle⟩ := hc.work
    obtain ⟨m, hm, hsums'⟩ := hsums.update t p'
    have hwork := h.work
    exact ⟨m, hsums', by omega⟩
  charged := by
    intro u r hr
    by_cases hu : u = t
    · subst hu
      rw [Function.update_self] at hr
      exact h.held r hr
    · rw [Function.update_of_ne hu] at hr
      obtain ⟨charge, hcharge⟩ := Option.isSome_iff_exists.mp (hc.charged u r hr)
      obtain ⟨more, hmore, _⟩ := h.still_charged ⟨charge, hcharge, Nat.le_refl _⟩
      exact Option.isSome_iff_exists.mpr ⟨more, hmore⟩
  calm := by
    intro u expectation
    by_cases hu : u = t
    · subst hu
      rw [Function.update_self]
      exact h.calm expectation
    · rw [Function.update_of_ne hu]
      exact hc.calm u expectation
  recorded := (hc.recorded_step h).1
  once := (hc.recorded_step h).2
  known := hc.known_step h
  finished := hc.finished_step h

/-! ## The ledger at the start -/

section

variable (limits) (graphLoadedPaths : List String) (directAssets : List CollectedAsset)

abbrev graphPaths : List String :=
  (graphLoadedPaths ++ directAssets.map fun asset => asset.path).dedup

theorem checked_eq (state : BudgetState) :
    ∃ message, checkInputBytes limits (checkFileCount limits state) =
      { state with moduleLimitMessage := message } := by
  unfold checkInputBytes checkFileCount
  split <;> split <;> exact ⟨_, rfl⟩

theorem newState_eq : ∃ message,
    newState limits graphSourceBytes graphLoadedPaths directAssets =
      { uncheckedState graphSourceBytes graphLoadedPaths directAssets with
        moduleLimitMessage := message } :=
  checked_eq limits _

theorem newState_graphFiles :
    (newState limits graphSourceBytes graphLoadedPaths directAssets).graphFiles =
      graphPaths graphLoadedPaths directAssets := by
  obtain ⟨message, heq⟩ := newState_eq limits graphLoadedPaths directAssets
  rw [heq]
  rfl

theorem uncheckedState_uniqueFiles :
    (uncheckedState graphSourceBytes graphLoadedPaths directAssets).uniqueFiles =
      Keyed.insertAll
        ((graphPaths graphLoadedPaths directAssets).map fun path => (path, 0)) ∅ := by
  have hrows : ∀ (rows : List (String × CollectedAsset)) (files : Keyed String Nat),
      (∀ row ∈ rows, (files.lookup row.1).isSome) →
        rows.foldl (fun files row => files.orInsert row.1 row.2.bytes.length) files = files := by
    intro rows
    induction rows with
    | nil => exact fun _ _ => rfl
    | cons row rest ih =>
        intro files hthere
        have hrow : files.orInsert row.1 row.2.bytes.length = files := by
          rw [Keyed.orInsert, if_pos (hthere row (by simp))]
        rw [List.foldl_cons, hrow]
        exact ih files fun r hr => hthere r (by simp [hr])
  have hempty : Keyed.All (fun path _ => path ∈ graphPaths graphLoadedPaths directAssets)
      (∅ : Keyed String CollectedAsset) := Keyed.all_empty _
  have hassets : Keyed.All (fun path _ => path ∈ graphPaths graphLoadedPaths directAssets)
      (Keyed.insertAll (directAssets.map fun asset => (asset.path, asset)) ∅) := by
    refine hempty.insertAll fun r hr => ?_
    obtain ⟨asset, hasset, rfl⟩ := List.mem_map.mp hr
    exact List.mem_dedup.mpr (List.mem_append_right _ (List.mem_map.mpr ⟨asset, hasset, rfl⟩))
  have hnodup : (((graphPaths graphLoadedPaths directAssets).map
      fun path => (path, 0)).map Prod.fst).Nodup := by
    simpa [List.map_map, Function.comp_def] using List.nodup_dedup _
  apply hrows
  intro row hrow
  have hpath := hassets row.1 row.2 (Keyed.mem_rows.mp hrow)
  have hlookup : (Keyed.insertAll ((graphPaths graphLoadedPaths directAssets).map
      fun path => (path, 0)) ∅ : Keyed String Nat).lookup row.1 = some 0 :=
    Keyed.lookup_insertAll_of_mem hnodup (List.mem_map.mpr ⟨row.1, hpath, rfl⟩) _
  exact Option.isSome_iff_exists.mpr ⟨0, hlookup⟩

theorem newState_charge (path : String) :
    (newState limits graphSourceBytes graphLoadedPaths directAssets).uniqueFiles.lookup path =
      if path ∈ graphPaths graphLoadedPaths directAssets then some 0 else none := by
  obtain ⟨message, heq⟩ := @newState_eq limits graphSourceBytes
    graphLoadedPaths directAssets
  rw [heq]
  dsimp only
  rw [uncheckedState_uniqueFiles]
  have hkeys : ((graphPaths graphLoadedPaths directAssets).map
      fun path => (path, 0)).map Prod.fst = graphPaths graphLoadedPaths directAssets := by
    simp [List.map_map, Function.comp_def]
  have hnodup : (((graphPaths graphLoadedPaths directAssets).map
      fun path => (path, 0)).map Prod.fst).Nodup := by
    rw [hkeys]
    exact List.nodup_dedup _
  by_cases hpath : path ∈ graphPaths graphLoadedPaths directAssets
  · rw [if_pos hpath]
    exact Keyed.lookup_insertAll_of_mem hnodup (List.mem_map.mpr ⟨path, hpath, rfl⟩) _
  · rw [if_neg hpath, Keyed.lookup_insertAll_of_notMem (by rwa [hkeys])]
    rfl

theorem within_newState
    (h : (newState limits graphSourceBytes graphLoadedPaths directAssets).moduleLimitMessage =
      none) :
    Within limits (newState limits graphSourceBytes graphLoadedPaths directAssets) := by
  unfold newState checkInputBytes checkFileCount at h ⊢
  have hreads : (uncheckedState graphSourceBytes graphLoadedPaths directAssets).cssWorkReads = 0 :=
    rfl
  have hwork : (uncheckedState graphSourceBytes graphLoadedPaths directAssets).cssWorkBytes = 0 :=
    rfl
  generalize uncheckedState graphSourceBytes graphLoadedPaths directAssets = state at *
  by_cases hfiles : limits.maxUniqueFiles < state.uniqueFiles.rows.length
  · rw [if_pos hfiles] at h
    split at h <;> simp [recordLimit] at h
  · rw [if_neg hfiles] at h ⊢
    by_cases hinput : limits.maxInputBytes < state.inputBytes
    · rw [if_pos hinput] at h
      simp [recordLimit] at h
    · rw [if_neg hinput]
      exact ⟨Nat.not_lt.mp hfiles, Nat.not_lt.mp hinput, by omega, by omega⟩

theorem balanced_newState :
    Balanced limits graphSourceBytes
      (newState limits graphSourceBytes graphLoadedPaths directAssets) where
  graph := by
    intro path hpath
    rw [newState_graphFiles] at hpath
    rw [newState_charge, if_pos hpath]
    rfl
  balance := by
    have hnone : chargedBytes (newState limits graphSourceBytes graphLoadedPaths directAssets) =
        0 := by
      apply Keyed.total_retain_eq_zero
      intro path charge hcharge
      rw [newState_charge] at hcharge
      split at hcharge
      · rename_i hpath
        rw [newState_graphFiles]
        simp [hpath]
      · cases hcharge
    rw [hnone, Nat.add_zero]
    obtain ⟨message, heq⟩ := @newState_eq limits graphSourceBytes
      graphLoadedPaths directAssets
    rw [heq]
    rfl
  within := within_newState limits graphLoadedPaths directAssets

variable (graphSourceBytes)

theorem sound_started :
    Sound limits graphSourceBytes
      (started limits graphSourceBytes graphLoadedPaths directAssets).shared
      (started limits graphSourceBytes graphLoadedPaths directAssets).thread where
  balanced := balanced_newState limits graphLoadedPaths directAssets
  work := ⟨0, Sums.none_hold fun _ => rfl, Nat.zero_le _⟩
  charged := fun _ _ h => by cases h
  calm := fun _ _ h => by cases h
  recorded := fun _ _ h => by cases h
  once := List.nodup_nil
  known := by
    intro path hpath hout
    simp only [started, newState_graphFiles] at hout
    simp only [started, newState_charge, if_neg hout] at hpath
    cases hpath
  finished := fun _ _ h => by cases h

end

theorem sound_of_runs {graphLoadedPaths : List String} {directAssets : List CollectedAsset}
    {acts : List (Nat × Action)} {c : Config Shared Position}
    (h : Runs (program limits contentHash) (fun _ _ _ => True)
      (started limits graphSourceBytes graphLoadedPaths directAssets) acts c) :
    Sound limits graphSourceBytes c.shared c.thread := by
  refine h.invariant (I := fun c => Sound limits graphSourceBytes c.shared c.thread)
    (fun c d t a _ hstep hc => ?_)
    (sound_started limits graphSourceBytes graphLoadedPaths directAssets)
  obtain ⟨s', p', hprog, rfl⟩ := Config.step_eq_some hstep
  exact hc.step (step_of_program hc.stands hprog)

/-! ## After a breach -/

def Position.admitted : Position → Bool
  | .reading _ | .readResource _ _ | .succeeded => true
  | _ => false

theorem chargeCssSnapshot_breached {expired : Bool} {asset : CollectedAsset} {state : BudgetState}
    {message : String} (h : state.moduleLimitMessage = some message) :
    chargeCssSnapshot limits expired asset state = (.error (.other message), state) :=
  Section.bind_error (checkAvailable_breached h)

theorem beginRead_breached {α : Type} {expired : Bool} {path : String} {metadata : Metadata}
    {state : BudgetState} {message : String} {rest : Nat → Unit → Locked α}
    (h : state.moduleLimitMessage = some message) :
    ∃ fault, (metadataBytes metadata path >>= fun bytes =>
      checkAvailable expired >>= rest bytes) state = (.error fault, state) := by
  unfold metadataBytes
  split
  · have hcheck : (checkAvailable expired >>= rest metadata.len) state =
        (.error (.other message), state) := Section.bind_error (checkAvailable_breached h)
    exact ⟨_, hcheck⟩
  · exact ⟨_, rfl⟩

theorem finishRead_breached {expired : Bool} {reservation : CssReadReservation} {kind : AssetKind}
    {bytes : Bytes} {state : BudgetState} {message : String}
    (h : state.moduleLimitMessage = some message) :
    finishRead limits contentHash expired reservation kind bytes state =
      (.error (.other message), state) :=
  Section.bind_error (checkAvailable_breached h)

theorem not_admitted_of_breached {t : Nat} {a : Action} {s s' : Shared} {p p' : Position}
    {message : String} (hbreach : s.ledger.moduleLimitMessage = some message)
    (h : program limits contentHash t a s p = some (s', p')) : p'.admitted = false := by
  have hcheck : checkAvailable a.expired s.ledger = (.error (.other message), s.ledger) :=
    checkAvailable_breached hbreach
  cases p with
  | idle =>
      simp only [program] at h
      split at h
      · rw [chargeCssSnapshot_breached hbreach] at h
        cases h
        rfl
      · obtain ⟨fault, hfault⟩ := beginRead_breached hbreach
        unfold beginCssRead at h
        rw [hfault] at h
        cases h
        rfl
      · split at h <;> cases h
        rfl
      · rw [hcheck] at h
        cases h
        rfl
      · cases h
        rfl
      · cases h
        rfl
  | reading reservation =>
      simp only [program] at h
      split at h
      · cases h
        rfl
      · rw [finishRead_breached hbreach] at h
        cases h
        rfl
  | lookUp | lookUpCanonical =>
      simp only [program] at h
      split at h <;> cases h <;> rfl
  | present | available =>
      simp only [program] at h
      rw [hcheck] at h
      cases h
      rfl
  | nameAlias =>
      cases h
      rfl
  | statResource path kind =>
      simp only [program] at h
      split at h
      · cases h
        rfl
      · obtain ⟨fault, hfault⟩ := beginRead_breached hbreach
        unfold beginResourceRead at h
        rw [hfault] at h
        cases h
        rfl
  | readResource reservation kind =>
      simp only [program] at h
      split at h
      · cases h
        rfl
      · rw [finishRead_breached hbreach] at h
        cases h
        rfl
  | succeeded | failed | noted =>
      cases h
      rfl

/-- The first message of a breach stays for the rest of the run. -/
theorem message_of_runs {acts : List (Nat × Action)} {c d : Config Shared Position}
    {message : String} (hc : Sound limits graphSourceBytes c.shared c.thread)
    (h : Runs (program limits contentHash) (fun _ _ _ => True) c acts d)
    (hbreach : c.shared.ledger.moduleLimitMessage = some message) :
    d.shared.ledger.moduleLimitMessage = some message := by
  refine (h.invariant (I := fun c => Sound limits graphSourceBytes c.shared c.thread ∧
    c.shared.ledger.moduleLimitMessage = some message) (fun c d t a _ hstep hc => ?_)
    ⟨hc, hbreach⟩).2
  obtain ⟨s', p', hprog, rfl⟩ := Config.step_eq_some hstep
  have hone : Step limits graphSourceBytes c.shared (c.thread t) s' p' :=
    step_of_program hc.1.stands hprog
  exact ⟨hc.1.step hone, hone.kept.extends_.message _ hc.2⟩

/-! ## The ledger of a build -/

/-- Every interleaving of the calls on one context: the input bytes are the
graph's and the charges of the other paths, each charge covers the reservation
that put its path on the ledger and every read of it that finished, the counters
are within their limits until a breach is recorded, the outstanding reservations
are part of the CSS work and no expectation of `finish_read` fails, and after a
breach its message stays and no charge succeeds. -/
theorem asset_budget_ledger {graphLoadedPaths : List String} {directAssets : List CollectedAsset}
    {acts : List (Nat × Action)} {c : Config Shared Position}
    (h : Runs (program limits contentHash) (fun _ _ _ => True)
      (started limits graphSourceBytes graphLoadedPaths directAssets) acts c) :
    c.shared.ledger.inputBytes = graphSourceBytes + chargedBytes c.shared.ledger ∧
    (c.shared.recorded.map Prod.fst).Nodup ∧
    (∀ path charge, c.shared.ledger.uniqueFiles.lookup path = some charge →
      path ∉ c.shared.ledger.graphFiles →
      ∃ bytes, (path, bytes) ∈ c.shared.recorded ∧ bytes ≤ charge) ∧
    (∀ path bytes, (path, bytes) ∈ c.shared.finished → path ∉ c.shared.ledger.graphFiles →
      ∃ charge, c.shared.ledger.uniqueFiles.lookup path = some charge ∧ bytes ≤ charge) ∧
    (c.shared.ledger.moduleLimitMessage = none → Within limits c.shared.ledger) ∧
    (∀ reads : Finset Nat, ∑ t ∈ reads, (c.thread t).outstanding ≤ c.shared.ledger.cssWorkBytes) ∧
    (∀ t expectation, c.thread t ≠ .failed (.panicked expectation)) ∧
    (∀ message, c.shared.ledger.moduleLimitMessage = some message → ∀ more d,
      Runs (program limits contentHash) (fun _ _ _ => True) c more d →
      d.shared.ledger.moduleLimitMessage = some message ∧
      ∀ t a e, d.step (program limits contentHash) t a = some e →
        (e.thread t).admitted = false) := by
  have hc := sound_of_runs h
  refine ⟨hc.balanced.balance, hc.once, ?_, hc.finished, hc.balanced.within, ?_, hc.calm, ?_⟩
  · intro path charge hcharge hout
    obtain ⟨bytes, hmem⟩ := hc.known path (by rw [hcharge]; rfl) hout
    obtain ⟨charge', hcharge', hle⟩ := hc.recorded path bytes hmem
    rw [hcharge] at hcharge'
    cases hcharge'
    exact ⟨bytes, hmem, hle⟩
  · intro reads
    obtain ⟨n, hsums, hle⟩ := hc.work
    exact (hsums.sum_le reads).trans hle
  · intro message hmessage more d hmore
    have hbreach := message_of_runs hc hmore hmessage
    refine ⟨hbreach, fun t a e hstep => ?_⟩
    obtain ⟨s', p', hprog, rfl⟩ := Config.step_eq_some hstep
    simpa using not_admitted_of_breached hbreach hprog

/-- A stylesheet that grows between its stat and its read. -/
theorem asset_budget_ledger_grown :
    ∃ c : Config Shared Position, c.shared.finished = [("/p/a.css", 3)] ∧
      c.shared.recorded = [("/p/a.css", 1)] ∧
      c.shared.ledger.uniqueFiles.lookup "/p/a.css" = some 3 ∧
      c.shared.ledger.inputBytes = 10 + chargedBytes c.shared.ledger := by
  have hrun : (((started (.production 100) 10 [] []).run
      (program (.production 100) fun _ => 0) (fun _ _ _ => True)
      [(0, { call := .beginCssRead "/p/a.css" ⟨1, 0⟩ }), (0, { read := .ok [97, 98, 99] })]).any
      fun c => decide (c.shared.finished = [("/p/a.css", 3)] ∧
        c.shared.recorded = [("/p/a.css", 1)] ∧
        c.shared.ledger.uniqueFiles.lookup "/p/a.css" = some 3)) = true := by
    decide
  obtain ⟨c, hc, htest⟩ := Runs.of_run_any hrun
  obtain ⟨hfinished, hrecorded, hcharge⟩ := of_decide_eq_true htest
  exact ⟨c, hfinished, hrecorded, hcharge, (asset_budget_ledger hc).1⟩

/-- A path that is reserved again, at a greater length, keeps its first charge
until the read is finished. -/
theorem reservation_above_charge :
    ¬ ∀ (acts : List (Nat × Action)) (c : Config Shared Position),
      Runs (program (.production 100) fun _ => 0) (fun _ _ _ => True)
        (started (.production 100) 10 [] []) acts c →
      ∀ t r, (c.thread t).reservation = some r → r.path ∉ c.shared.ledger.graphFiles →
        ∃ charge, c.shared.ledger.uniqueFiles.lookup r.path = some charge ∧
          r.metadata.len ≤ charge := by
  intro hall
  have hrun : (((started (.production 100) 10 [] []).run
      (program (.production 100) fun _ => 0) (fun _ _ _ => True)
      [(0, { call := .beginCssRead "/p/a.css" ⟨1, 0⟩ }), (0, { read := .error .other }),
        (1, { call := .beginCssRead "/p/a.css" ⟨5, 1⟩ })]).any
      fun c => decide ((c.thread 1).reservation = some ⟨"/p/a.css", ⟨5, 1⟩, some 5⟩ ∧
        "/p/a.css" ∉ c.shared.ledger.graphFiles ∧
        c.shared.ledger.uniqueFiles.lookup "/p/a.css" = some 1)) = true := by
    decide
  obtain ⟨c, hc, htest⟩ := Runs.of_run_any hrun
  obtain ⟨hreservation, hout, hcharge⟩ := of_decide_eq_true htest
  obtain ⟨charge, hlookup, hle⟩ := hall _ c hc 1 _ hreservation hout
  rw [hcharge] at hlookup
  cases hlookup
  exact absurd hle (by decide)

end ImportLens.Pipeline.AssetBudget
