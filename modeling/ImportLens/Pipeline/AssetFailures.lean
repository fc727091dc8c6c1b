import ImportLens.Pipeline.AssetLedger

/-!
# Failures of the asset budget

A breach of a limit and an expired deadline both stay in the ledger once they are
recorded, whatever the threads that share it do next.
-/

namespace ImportLens.Pipeline.AssetBudget

open ImportLens.Daemon ImportLens.Cache ImportLens.Support

/-- What is recorded as failed stays recorded. -/
structure Later (state next : BudgetState) : Prop where
  message : ∀ first, state.moduleLimitMessage = some first →
    next.moduleLimitMessage = some first
  timedOut : state.timedOut = true → next.timedOut = true

namespace Later

theorem refl (state : BudgetState) : Later state state := ⟨fun _ h => h, id⟩

theorem trans {a b c : BudgetState} (hab : Later a b) (hbc : Later b c) : Later a c :=
  ⟨fun m hm => hbc.message m (hab.message m hm), fun ht => hbc.timedOut (hab.timedOut ht)⟩

theorem of_eq {state next : BudgetState}
    (hmessage : next.moduleLimitMessage = state.moduleLimitMessage)
    (htimedOut : next.timedOut = state.timedOut) : Later state next :=
  ⟨fun _ hm => hmessage.trans hm, fun ht => htimedOut.trans ht⟩

end Later

theorem later_recordLimit (message : String) (state : BudgetState) :
    Later state (recordLimit message state) :=
  ⟨fun _ hm => by simp [recordLimit, hm], id⟩

theorem later_checkAvailable (expired : Bool) : Section.Frame Later (checkAvailable expired) := by
  refine .bind (fun _ _ _ => Later.trans) (.get Later.refl) fun state => ?_
  split
  · exact .fail Later.refl _
  · split
    · exact .bind (fun _ _ _ => Later.trans) (.update fun _ => ⟨fun _ hm => hm, fun _ => rfl⟩)
        fun _ => .fail Later.refl _
    · exact .pure Later.refl _

section

variable (limits : AssetBudgetLimits) (contentHash : Bytes → Nat)

theorem later_breach {α : Type} (message : String) :
    Section.Frame Later (breach message : Locked α) := later_recordLimit message

theorem later_observe (path : String) (fingerprint : FileFingerprint) :
    Section.Frame Later (observe path fingerprint) := .update fun _ => .of_eq rfl rfl

theorem later_metadataBytes (metadata : Metadata) (path : String) :
    Section.Frame Later (metadataBytes metadata path) := by
  unfold metadataBytes
  split
  · exact .pure Later.refl _
  · exact .fail Later.refl _

theorem later_chargeCssWork (bytes : Nat) (path : String) :
    Section.Frame Later (chargeCssWork limits bytes path) := by
  intro state
  unfold chargeCssWork
  dsimp only
  split
  · exact later_breach _ state
  · exact .of_eq rfl rfl

theorem later_reserveUnique (path : String) (bytes : Nat) :
    Section.Frame Later (reserveUnique limits path bytes) := by
  intro state
  unfold reserveUnique
  split
  · exact later_breach _ state
  split
  · exact .refl state
  split
  · exact later_breach _ state
  split
  · exact later_breach _ state
  · exact .of_eq rfl rfl

theorem later_reconcileCssWork (reservation : CssReadReservation) (actualBytes : Nat) :
    Section.Frame Later (reconcileCssWork limits reservation actualBytes) := by
  intro state
  unfold reconcileCssWork
  split
  · exact .refl state
  · split
    · exact .refl state
    · dsimp only
      split
      · exact later_breach _ state
      · exact .of_eq rfl rfl

theorem later_checkFileBytes (reservation : CssReadReservation) (actualBytes : Nat) :
    Section.Frame Later (checkFileBytes limits reservation actualBytes) := by
  unfold checkFileBytes
  split
  · exact later_breach _
  · exact .pure Later.refl _

theorem later_reconcilePath (path : String) (actualBytes : Nat) :
    Section.Frame Later (reconcilePath limits path actualBytes) := by
  intro state
  unfold reconcilePath
  split
  · exact .refl state
  · split
    · exact .refl state
    · dsimp only
      split
      · exact later_breach _ state
      · exact .of_eq rfl rfl

theorem later_chargeCssSnapshot (expired : Bool) (asset : CollectedAsset) :
    Section.Frame Later (chargeCssSnapshot limits expired asset) :=
  .bind (fun _ _ _ => Later.trans) (later_checkAvailable expired) fun _ =>
    .bind (fun _ _ _ => Later.trans) (later_observe _ _) fun _ => later_chargeCssWork limits _ _

theorem later_beginCssRead (expired : Bool) (path : String) (metadata : Metadata) :
    Section.Frame Later (beginCssRead limits expired path metadata) :=
  .bind (fun _ _ _ => Later.trans) (later_metadataBytes _ _) fun _ =>
    .bind (fun _ _ _ => Later.trans) (later_checkAvailable expired) fun _ =>
      .bind (fun _ _ _ => Later.trans) (later_observe _ _) fun _ =>
        .bind (fun _ _ _ => Later.trans) (later_chargeCssWork limits _ _) fun _ =>
          .bind (fun _ _ _ => Later.trans) (later_reserveUnique limits _ _) fun _ =>
            .pure Later.refl _

theorem later_beginResourceRead (expired : Bool) (path : String) (metadata : Metadata) :
    Section.Frame Later (beginResourceRead limits expired path metadata) :=
  .bind (fun _ _ _ => Later.trans) (later_metadataBytes _ _) fun _ =>
    .bind (fun _ _ _ => Later.trans) (later_checkAvailable expired) fun _ =>
      .bind (fun _ _ _ => Later.trans) (later_observe _ _) fun _ =>
        .bind (fun _ _ _ => Later.trans) (later_reserveUnique limits _ _) fun _ =>
          .pure Later.refl _

theorem later_finishRead (expired : Bool) (reservation : CssReadReservation) (kind : AssetKind)
    (bytes : Bytes) :
    Section.Frame Later (finishRead limits contentHash expired reservation kind bytes) :=
  .bind (fun _ _ _ => Later.trans) (later_checkAvailable expired) fun _ =>
    .bind (fun _ _ _ => Later.trans) (later_observe _ _) fun _ =>
      .bind (fun _ _ _ => Later.trans) (later_reconcileCssWork limits _ _) fun _ =>
        .bind (fun _ _ _ => Later.trans) (later_checkFileBytes limits _ _) fun _ =>
          .bind (fun _ _ _ => Later.trans) (later_reconcilePath limits _ _) fun _ =>
            .bind (fun _ _ _ => Later.trans) (.update fun _ => .of_eq rfl rfl) fun _ =>
              .pure Later.refl _

@[simp] theorem ledger_settle {α : Type} (s : Shared) (outcome : Except Fault α × BudgetState)
    (next : α → Position) : (s.settle outcome next).1.ledger = outcome.2 := by
  unfold Shared.settle
  split
  · rfl
  · rfl

@[simp] theorem ledger_settleBegin (s : Shared)
    (outcome : Except Fault CssReadReservation × BudgetState)
    (next : CssReadReservation → Position) : (s.settleBegin outcome next).1.ledger = outcome.2 := by
  unfold Shared.settleBegin
  split
  · rfl
  · rfl

@[simp] theorem ledger_settleFinish (s : Shared) (reservation : CssReadReservation) (bytes : Bytes)
    (outcome : Except Fault CollectedAsset × BudgetState) :
    (s.settleFinish reservation bytes outcome).1.ledger = outcome.2 := by
  unfold Shared.settleFinish
  split
  · rfl
  · rfl

@[simp] theorem ledger_release (next : Shared × Position) :
    (release next).1.ledger = next.1.ledger := by
  unfold release
  split
  · rfl
  · rfl
  · rfl

theorem later_program {t : Nat} {a : Action} {s : Shared} {p : Position}
    {next : Shared × Position} (h : program limits contentHash t a s p = some next) :
    Later s.ledger next.1.ledger := by
  have hcheck := later_checkAvailable a.expired s.ledger
  cases p with
  | idle =>
    unfold program at h
    cases hcall : a.call with
    | chargeCssSnapshot asset =>
      rw [hcall] at h
      cases h
      rw [ledger_settle]
      exact later_chargeCssSnapshot limits _ _ _
    | beginCssRead path metadata =>
      rw [hcall] at h
      cases h
      rw [ledger_settleBegin]
      exact later_beginCssRead limits _ _ _ _
    | snapshot requestedPath kind =>
      rw [hcall] at h
      dsimp only at h
      split at h
      · cases h
      · cases h
        exact .refl _
    | checkDeadline =>
      rw [hcall] at h
      cases h
      rw [ledger_settle]
      exact hcheck
    | recordFailedPath path missing =>
      rw [hcall] at h
      cases h
      rw [ledger_settle]
      exact later_observe _ _ _
    | observeMetadata path metadata =>
      rw [hcall] at h
      cases h
      rw [ledger_settle]
      exact later_observe _ _ _
  | reading reservation =>
    simp only [program] at h
    split at h
    · cases h
      exact .refl _
    · cases h
      rw [ledger_settleFinish]
      exact later_finishRead limits contentHash _ _ _ _ _
  | lookUp | lookUpCanonical =>
    simp only [program] at h
    split at h
    · cases h
      exact .refl _
    · cases h
      exact .refl _
  | present | available =>
    cases h
    rw [ledger_release, ledger_settle]
    exact hcheck
  | nameAlias =>
    cases h
    exact .of_eq rfl rfl
  | statResource path kind =>
    simp only [program] at h
    split at h
    · cases h
      rw [ledger_release, ledger_settle]
      exact later_observe _ _ _
    · cases h
      rw [ledger_release, ledger_settleBegin]
      exact later_beginResourceRead limits _ _ _ _
  | readResource reservation kind =>
    simp only [program] at h
    split at h
    · cases h
      rw [ledger_release, ledger_settle]
      exact later_observe _ _ _
    · cases h
      rw [ledger_release, ledger_settleFinish]
      exact later_finishRead limits contentHash _ _ _ _ _
  | succeeded | failed | noted =>
    cases h
    exact .refl _

/-- Whatever threads do with the ledger, in any order, it only fails further. -/
theorem later_of_runs {acts : List (Nat × Action)} {c d : Config Shared Position}
    (h : Runs (program limits contentHash) (fun _ _ _ => True) c acts d) :
    Later c.shared.ledger d.shared.ledger := by
  have hstep : ∀ (b e : Config Shared Position) (t : Nat) (a : Action), True →
      b.step (program limits contentHash) t a = some e → Later c.shared.ledger b.shared.ledger →
        Later c.shared.ledger e.shared.ledger := by
    intro b e t a _ hone hb
    obtain ⟨s', p', hprogram, rfl⟩ := Config.step_eq_some hone
    exact hb.trans (later_program limits contentHash hprogram)
  exact h.invariant (I := fun d => Later c.shared.ledger d.shared.ledger) hstep (.refl _)

end

theorem failure_eq_none {state : BudgetState} :
    AssetBudget.failure state = none ↔
      state.moduleLimitMessage = none ∧ state.timedOut = false := by
  unfold AssetBudget.failure
  cases state.moduleLimitMessage with
  | some message => simp
  | none => cases state.timedOut <;> simp

/-- A failed check leaves a failure in the ledger. -/
theorem checkAvailable_error {expired : Bool} {state next : BudgetState} {fault : Fault}
    (h : checkAvailable expired state = (.error fault, next)) :
    AssetBudget.failure next ≠ none := by
  rw [Ne, failure_eq_none]
  simp only [checkAvailable, Section.get_bind] at h
  split at h
  · rename_i hbreach
    cases h
    rintro ⟨hnone, -⟩
    rw [hnone] at hbreach
    cases hbreach
  · split at h
    · cases h
      rintro ⟨-, hfalse⟩
      cases hfalse
    · cases h

theorem Later.clear {state next : BudgetState} (h : Later state next)
    (hnext : AssetBudget.failure next = none) : AssetBudget.failure state = none := by
  rw [failure_eq_none] at hnext ⊢
  constructor
  · cases hmessage : state.moduleLimitMessage with
    | none => rfl
    | some first =>
      rw [h.message first hmessage] at hnext
      exact nomatch hnext.1
  · by_contra htimedOut
    rw [h.timedOut (Bool.of_not_eq_false htimedOut)] at hnext
    exact nomatch hnext.2

end ImportLens.Pipeline.AssetBudget
