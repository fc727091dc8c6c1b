import ImportLens.Extension.Budgets
import Mathlib.Data.List.Induction

/-!
# The history of import costs

`recordImportCostHistory` of the extension's `history.ts`: the rows of a document's
imports replace the rows of the same imports in a store that outlives the session.
The writes follow each other on a chain of promises, which a failed one does not break.
-/

namespace ImportLens.Extension.CostHistory

open ImportLens.Daemon

/-! ## Rows -/

structure ImportCostHistoryItem where
  identity : String
  timestamp : Int
  specifier : String
  importKind : String
  named : List String
  sizes : MeasuredSizes
  imprecise : Bool
  deriving DecidableEq, Repr

def importCostHistoryIdentity (detected : DetectedImport) (projectRoot : String) : String :=
  String.intercalate "\x00" [projectRoot, detected.specifier, importKindName detected.importKind,
    importRuntimeName detected.runtime, String.intercalate "," detected.named]

def importCostHistoryItem (detected : DetectedImport) (result : ImportResult)
    (projectRoot : String) (timestamp : Int) : Option ImportCostHistoryItem :=
  if isDurableImportResult (some result) then
    (measuredSizes (some result)).map fun sizes =>
      { identity := importCostHistoryIdentity detected projectRoot
        timestamp := timestamp
        specifier := detected.specifier
        importKind := importKindName detected.importKind
        named := detected.named
        sizes := sizes
        imprecise := hasNonBudgetableDiagnostic result.diagnostics }
  else none

def importCostHistoryItemsForStates (states : List ImportAnalysisState) (projectRoot : String)
    (now : Int) : List ImportCostHistoryItem :=
  states.filterMap fun state =>
    if state.status = .ready then
      state.result.bind fun result => importCostHistoryItem state.detected result projectRoot now
    else none

def sameImportCost (left right : ImportCostHistoryItem) : Bool := left.sizes == right.sizes

/-- `!previous || !sameImportCost(item, previous)` -/
def isChanged (existing : List ImportCostHistoryItem) (item : ImportCostHistoryItem) : Bool :=
  (existing.find? fun entry => entry.identity == item.identity).all fun previous =>
    !sameImportCost item previous

/-- `Math.max(1, limit)` -/
def rowCap (limit : Int) : Nat := (max 1 limit).toNat

def mergedRows (existing changedItems : List ImportCostHistoryItem) :
    List ImportCostHistoryItem :=
  let changedIdentities := changedItems.map ImportCostHistoryItem.identity
  changedItems ++ existing.filter fun entry => entry.identity ∉ changedIdentities

def nextRows (limit : Int) (existing items : List ImportCostHistoryItem) :
    List ImportCostHistoryItem :=
  (mergedRows existing (items.filter (isChanged existing))).take (rowCap limit)

/-! ## Writes -/

/-- The promise of a write.  What was stored before, and what the write stores, is kept
for reference. -/
inductive WriteState
  | waiting
  | updating (before next : List ImportCostHistoryItem)
  | fulfilled (before after : List ImportCostHistoryItem)
  | rejected
  deriving DecidableEq, Repr

/-- `write.catch(..)` is fulfilled. -/
def WriteState.settled : WriteState → Bool
  | .waiting => false
  | .updating _ _ => false
  | .fulfilled _ _ => true
  | .rejected => true

structure Write where
  items : List ImportCostHistoryItem
  state : WriteState
  deriving DecidableEq, Repr

structure History where
  stored : List ImportCostHistoryItem
  /-- The chain, first write first. -/
  writes : List Write
  deriving DecidableEq, Repr

inductive Action
  | record (states : List ImportAnalysisState) (projectRoot : String) (now : Int)
  /-- The callback of a write runs up to its update. -/
  | start (place : Nat)
  /-- The update of a write succeeds, or fails. -/
  | settle (place : Nat) (succeeds : Bool)

namespace History

def chained (history : History) : Nat → Bool
  | 0 => true
  | place + 1 => history.writes[place]?.any fun write => write.state.settled

def withState (history : History) (place : Nat) (items : List ImportCostHistoryItem)
    (state : WriteState) : History :=
  { history with writes := history.writes.set place ⟨items, state⟩ }

def startWrite (limit : Int) (history : History) (place : Nat)
    (items : List ImportCostHistoryItem) : History :=
  let existing := history.stored
  if (items.filter (isChanged existing)).length = 0 then
    history.withState place items (.fulfilled existing existing)
  else history.withState place items (.updating existing (nextRows limit existing items))

def settleWrite (history : History) (place : Nat) (items before next : List ImportCostHistoryItem)
    (succeeds : Bool) : History :=
  if succeeds then { history.withState place items (.fulfilled before next) with stored := next }
  else history.withState place items .rejected

def step (limit : Int) (history : History) : Action → Option History
  | .record states projectRoot now =>
      some { history with writes := history.writes ++
        [⟨importCostHistoryItemsForStates states projectRoot now, .waiting⟩] }
  | .start place =>
      history.writes[place]?.bind fun write =>
        if write.state = .waiting ∧ history.chained place then
          some (history.startWrite limit place write.items)
        else none
  | .settle place succeeds =>
      history.writes[place]?.bind fun write =>
        match write.state with
        | .updating before next =>
            some (history.settleWrite place write.items before next succeeds)
        | _ => none

def run (limit : Int) (history : History) (actions : List Action) : Option History :=
  actions.foldlM (step limit) history

end History

/-! ## What a write should do -/

/-- As many rows as the cap allows, one for each import. -/
structure Kept (limit : Int) (stored : List ImportCostHistoryItem) : Prop where
  length_le : stored.length ≤ rowCap limit
  nodup : (stored.map ImportCostHistoryItem.identity).Nodup

def Latest (items : List ImportCostHistoryItem) (item : ImportCostHistoryItem) : Prop :=
  ∃ before after, items = before ++ item :: after ∧
    ∀ other ∈ after, other.identity ≠ item.identity

def isOther (items : List ImportCostHistoryItem) (row : ImportCostHistoryItem) : Bool :=
  row.identity ∉ items.map ImportCostHistoryItem.identity

/-- An import of the items has a row with its latest sizes, unless the cap cut its rows,
and the rows of other imports are what they were, short of a suffix that the cap cut. -/
structure Recorded (limit : Int) (items before after : List ImportCostHistoryItem) : Prop where
  latest : ∀ item, Latest items item →
    (∃ row ∈ after, row.identity = item.identity ∧ sameImportCost item row = true) ∨
    after.length = rowCap limit ∧ ∀ row ∈ after, row.identity ≠ item.identity
  others : ∃ cut, before.filter (isOther items) = after.filter (isOther items) ++ cut ∧
    (cut ≠ [] → after.length = rowCap limit)

/-- Of the changed items below the cap no two are of one import, and none has other sizes
than the last item of its import. -/
structure Distinct (limit : Int) (existing items : List ImportCostHistoryItem) : Prop where
  nodup : (((items.filter (isChanged existing)).take (rowCap limit)).map
    ImportCostHistoryItem.identity).Nodup
  latest : ∀ item, Latest items item →
    ∀ row ∈ (items.filter (isChanged existing)).take (rowCap limit),
      row.identity = item.identity → sameImportCost item row = true

/-! ## One write -/

section

variable {limit : Int} {existing items : List ImportCostHistoryItem}

theorem Latest.mem {item : ImportCostHistoryItem} (h : Latest items item) : item ∈ items := by
  obtain ⟨before, after, rfl, -⟩ := h
  simp

theorem sameImportCost_self (item : ImportCostHistoryItem) : sameImportCost item item = true := by
  rw [sameImportCost, beq_self_eq_true]

theorem exists_row_of_unchanged {item : ImportCostHistoryItem}
    (h : isChanged existing item = false) :
    ∃ row ∈ existing, row.identity = item.identity ∧ sameImportCost item row = true := by
  unfold isChanged at h
  cases hfind : existing.find? fun entry => entry.identity == item.identity with
  | none =>
    rw [hfind] at h
    cases h
  | some row =>
    rw [hfind] at h
    refine ⟨row, List.mem_of_find?_eq_some hfind, ?_, ?_⟩
    · simpa using List.find?_some hfind
    · simpa using h

theorem recorded_unchanged (h : items.filter (isChanged existing) = []) :
    Recorded limit items existing existing := by
  constructor
  · intro item hitem
    apply Or.inl
    apply exists_row_of_unchanged
    rw [List.filter_eq_nil_iff] at h
    exact Bool.not_eq_true _ ▸ h item hitem.mem
  · exact ⟨[], (List.append_nil _).symm, fun hne => absurd rfl hne⟩

/-- A row that stays although its import was named is of an import that did not change. -/
theorem mem_retained {row : ImportCostHistoryItem}
    (h : row ∈ existing.filter fun entry =>
      entry.identity ∉ (items.filter (isChanged existing)).map ImportCostHistoryItem.identity) :
    row ∈ existing ∧ ∀ item ∈ items, item.identity = row.identity →
      isChanged existing item = false := by
  rw [List.mem_filter, decide_eq_true_eq] at h
  refine ⟨h.1, fun item hitem heq => ?_⟩
  by_contra hchanged
  apply h.2
  rw [← heq]
  exact List.mem_map_of_mem (List.mem_filter.mpr ⟨hitem, by simpa using hchanged⟩)

theorem nextRows_eq_append :
    nextRows limit existing items =
      (items.filter (isChanged existing)).take (rowCap limit) ++
        (existing.filter fun entry =>
          entry.identity ∉ (items.filter (isChanged existing)).map
            ImportCostHistoryItem.identity).take
          (rowCap limit - (items.filter (isChanged existing)).length) :=
  List.take_append

theorem exists_mergedRow {item : ImportCostHistoryItem} (hitem : item ∈ items) :
    ∃ row ∈ mergedRows existing (items.filter (isChanged existing)),
      row.identity = item.identity := by
  rw [mergedRows]
  by_cases hmem : item.identity ∈
      (items.filter (isChanged existing)).map ImportCostHistoryItem.identity
  · obtain ⟨row, hrow, heq⟩ := List.mem_map.mp hmem
    exact ⟨row, List.mem_append_left _ hrow, heq⟩
  · have hunchanged : isChanged existing item = false := by
      by_contra hchanged
      apply hmem
      exact List.mem_map_of_mem (List.mem_filter.mpr ⟨hitem, by simpa using hchanged⟩)
    obtain ⟨row, hrow, heq, -⟩ := exists_row_of_unchanged hunchanged
    refine ⟨row, List.mem_append_right _ ?_, heq⟩
    rw [List.mem_filter, decide_eq_true_eq, heq]
    exact ⟨hrow, hmem⟩

theorem others_mergedRows :
    ∃ cut, existing.filter (isOther items) =
        (nextRows limit existing items).filter (isOther items) ++ cut ∧
      (cut ≠ [] → (nextRows limit existing items).length = rowCap limit) := by
  let rows := mergedRows existing (items.filter (isChanged existing))
  have hrows : rows.filter (isOther items) = existing.filter (isOther items) := by
    have hchanged : (items.filter (isChanged existing)).filter (isOther items) = [] := by
      rw [List.filter_eq_nil_iff]
      intro row hrow
      simpa [isOther] using ⟨row, (List.mem_filter.mp hrow).1, rfl⟩
    change (items.filter (isChanged existing) ++ existing.filter _).filter (isOther items) = _
    rw [List.filter_append, hchanged, List.nil_append, List.filter_filter]
    apply List.filter_congr
    intro row _
    rw [Bool.and_eq_left_iff_imp, isOther, decide_eq_true_eq, decide_eq_true_eq]
    intro hnot hmem
    apply hnot
    obtain ⟨item, hitem, heq⟩ := List.mem_map.mp hmem
    exact List.mem_map.mpr ⟨item, (List.mem_filter.mp hitem).1, heq⟩
  refine ⟨(rows.drop (rowCap limit)).filter (isOther items), ?_, ?_⟩
  · rw [← List.filter_append, nextRows, List.take_append_drop, hrows]
  · intro hne
    have hpos : 0 < (rows.drop (rowCap limit)).length := by
      apply List.length_pos_of_ne_nil
      intro hnil
      rw [hnil] at hne
      exact hne rfl
    rw [List.length_drop] at hpos
    change (rows.take (rowCap limit)).length = rowCap limit
    rw [List.length_take]
    omega

theorem recorded_merged (hkept : Kept limit existing) (hdistinct : Distinct limit existing items) :
    Recorded limit items existing (nextRows limit existing items) := by
  refine ⟨fun item hitem => ?_, others_mergedRows⟩
  by_cases hrow : ∃ row ∈ nextRows limit existing items, row.identity = item.identity
  · obtain ⟨row, hrow, heq⟩ := hrow
    refine Or.inl ⟨row, hrow, heq, ?_⟩
    rw [nextRows_eq_append, List.mem_append] at hrow
    rcases hrow with hchanged | hretained
    · exact hdistinct.latest item hitem row hchanged heq
    · obtain ⟨hstored, hunchanged⟩ := mem_retained (List.mem_of_mem_take hretained)
      obtain ⟨previous, hprevious, hidentity, hsame⟩ :=
        exists_row_of_unchanged (hunchanged item hitem.mem heq.symm)
      have hone : row = previous :=
        List.inj_on_of_nodup_map hkept.nodup hstored hprevious (heq.trans hidentity.symm)
      rw [hone]
      exact hsame
  · refine Or.inr ⟨?_, fun row hmem heq => hrow ⟨row, hmem, heq⟩⟩
    obtain ⟨row, hmem, heq⟩ := @exists_mergedRow existing items item hitem.mem
    rw [nextRows, List.length_take]
    by_contra hshort
    apply hrow
    refine ⟨row, ?_, heq⟩
    rw [nextRows, List.take_of_length_le (by omega)]
    exact hmem

theorem distinct_of_nodup (h : (items.map ImportCostHistoryItem.identity).Nodup) :
    Distinct limit existing items := by
  have hsublist : ((items.filter (isChanged existing)).take (rowCap limit)).Sublist items :=
    (List.take_sublist _ _).trans List.filter_sublist
  constructor
  · exact h.sublist (hsublist.map _)
  · intro item hlatest row hrow heq
    rw [List.inj_on_of_nodup_map h (hsublist.subset hrow) hlatest.mem heq]
    exact sameImportCost_self item

theorem kept_merged (hkept : Kept limit existing) (hdistinct : Distinct limit existing items) :
    Kept limit (nextRows limit existing items) := by
  constructor
  · exact List.length_take_le _ _
  · rw [nextRows_eq_append, List.map_append, List.nodup_append']
    refine ⟨hdistinct.nodup, ?_, ?_⟩
    · exact hkept.nodup.sublist (((List.take_sublist _ _).trans List.filter_sublist).map _)
    · intro identity hchanged hretained
      obtain ⟨item, hitem, rfl⟩ := List.mem_map.mp hchanged
      obtain ⟨row, hrow, heq⟩ := List.mem_map.mp hretained
      obtain ⟨hin, hchanged⟩ := List.mem_filter.mp (List.mem_of_mem_take hitem)
      have hunchanged := (mem_retained (List.mem_of_mem_take hrow)).2 item hin heq.symm
      rw [hchanged] at hunchanged
      cases hunchanged

theorem distinct_of_merged
    (hkept : Kept limit (nextRows limit existing items))
    (hrecorded : Recorded limit items existing (nextRows limit existing items)) :
    Distinct limit existing items := by
  have hnodup := hkept.nodup
  rw [nextRows_eq_append, List.map_append] at hnodup
  refine ⟨hnodup.of_append_left, fun item hitem row hrow heq => ?_⟩
  have hmem : row ∈ nextRows limit existing items := by
    rw [nextRows_eq_append]
    exact List.mem_append_left _ hrow
  rcases hrecorded.latest item hitem with ⟨stored, hstored, hidentity, hsame⟩ | ⟨-, hnone⟩
  · have hone : row = stored :=
      List.inj_on_of_nodup_map hkept.nodup hmem hstored (heq.trans hidentity.symm)
    rw [hone]
    exact hsame
  · exact absurd heq (hnone row hmem)

end

/-! ## The chain -/

/-- A write begins after the earlier ones have ended, and the one in hand still goes with
what is stored. -/
structure Serial (limit : Int) (history : History) : Prop where
  ordered : ∀ (i j : Nat) (earlier later : Write), i < j → history.writes[i]? = some earlier →
    history.writes[j]? = some later → later.state ≠ .waiting → earlier.state.settled = true
  updating : ∀ (i : Nat) (write : Write) (before next : List ImportCostHistoryItem),
    history.writes[i]? = some write → write.state = .updating before next →
      before = history.stored ∧
        next = nextRows limit before write.items

/-- What is stored may be stored, and what a fulfilled write has stored records its items. -/
structure Correct (limit : Int) (history : History) : Prop where
  kept : Kept limit history.stored
  recorded : ∀ (i : Nat) (write : Write) (before after : List ImportCostHistoryItem),
    history.writes[i]? = some write → write.state = .fulfilled before after →
      Recorded limit write.items before after

section

variable {limit : Int} {history next : History} {action : Action}

theorem step_cases (h : History.step limit history action = some next) :
    (∃ states projectRoot now, action = .record states projectRoot now ∧
      next = { history with writes := history.writes ++
        [⟨importCostHistoryItemsForStates states projectRoot now, .waiting⟩] }) ∨
    (∃ place write, action = .start place ∧ history.writes[place]? = some write ∧
      write.state = .waiting ∧ history.chained place = true ∧
      next = history.startWrite limit place write.items) ∨
    (∃ place succeeds write before after, action = .settle place succeeds ∧
      history.writes[place]? = some write ∧ write.state = .updating before after ∧
      next = history.settleWrite place write.items before after succeeds) := by
  cases action with
  | record states projectRoot now => exact .inl ⟨states, projectRoot, now, rfl, by cases h; rfl⟩
  | start place =>
    obtain ⟨write, hwrite, h⟩ := Option.bind_eq_some_iff.mp h
    split at h
    · rename_i hready
      cases h
      exact .inr (.inl ⟨place, write, rfl, hwrite, hready.1, hready.2, rfl⟩)
    · cases h
  | settle place succeeds =>
    obtain ⟨write, hwrite, h⟩ := Option.bind_eq_some_iff.mp h
    split at h
    · rename_i before after hstate
      cases h
      exact .inr (.inr ⟨place, succeeds, write, before, after, rfl, hwrite, hstate, rfl⟩)
    · cases h

theorem getElem?_withState {place i : Nat} {write : Write} {state : WriteState}
    (h : history.writes[place]? = some write) :
    (history.withState place write.items state).writes[i]? =
      if place = i then some ⟨write.items, state⟩ else history.writes[i]? := by
  have hlt : place < history.writes.length := (List.getElem?_eq_some_iff.mp h).1
  rw [History.withState, List.getElem?_set]
  simp only [hlt, if_true]

/-- A write that starts either has nothing to change or updates what is stored. -/
theorem startWrite_cases {place : Nat} {items : List ImportCostHistoryItem} :
    ∃ state, history.startWrite limit place items = history.withState place items state ∧
      ((state = .fulfilled history.stored history.stored ∧
          items.filter (isChanged history.stored) = []) ∨
        state = .updating history.stored (nextRows limit history.stored items)) := by
  rw [History.startWrite]
  split
  · rename_i hnone
    exact ⟨_, rfl, Or.inl ⟨rfl, List.length_eq_zero_iff.mp hnone⟩⟩
  · exact ⟨_, rfl, Or.inr rfl⟩

theorem settleWrite_writes {place : Nat} {items before after : List ImportCostHistoryItem}
    {succeeds : Bool} :
    ∃ state : WriteState, state.settled = true ∧
      (history.settleWrite place items before after succeeds).writes =
        (history.withState place items state).writes := by
  cases succeeds
  · exact ⟨.rejected, rfl, rfl⟩
  · exact ⟨.fulfilled before after, rfl, rfl⟩

/-! ### Its order -/

/-- Before a write that may start all others have ended. -/
theorem Serial.settled_of_chained (hserial : Serial limit history) {place i : Nat}
    {write earlier : Write} (hwrite : history.writes[place]? = some write)
    (hchained : history.chained place = true) (hlt : i < place)
    (hearlier : history.writes[i]? = some earlier) : earlier.state.settled = true := by
  cases place with
  | zero => omega
  | succ last =>
    rw [History.chained, Option.any_eq_true] at hchained
    obtain ⟨previous, hprevious, hsettled⟩ := hchained
    by_cases heq : i = last
    · subst heq
      rw [hearlier] at hprevious
      cases hprevious
      exact hsettled
    · apply hserial.ordered i last earlier previous (by omega) hearlier hprevious
      intro hwaiting
      rw [hwaiting] at hsettled
      cases hsettled

theorem serial_record (hserial : Serial limit history) (items : List ImportCostHistoryItem) :
    Serial limit { history with writes := history.writes ++ [⟨items, .waiting⟩] } := by
  have hold : ∀ (i : Nat) (write : Write),
      (history.writes ++ [⟨items, .waiting⟩])[i]? = some write →
      write.state ≠ .waiting → i < history.writes.length := by
    intro i write hwrite hstate
    by_contra hge
    rw [List.getElem?_append_right (by omega), List.getElem?_singleton] at hwrite
    split at hwrite
    · cases hwrite
      exact hstate rfl
    · cases hwrite
  constructor
  · intro i j earlier later hlt hearlier hlater hstate
    have hj := hold j later hlater hstate
    rw [List.getElem?_append_left (by omega)] at hearlier hlater
    exact hserial.ordered i j earlier later hlt hearlier hlater hstate
  · intro i write before next hwrite hstate
    have hi := hold i write hwrite (by rw [hstate]; intro h; cases h)
    rw [List.getElem?_append_left hi] at hwrite
    exact hserial.updating i write before next hwrite hstate

theorem serial_start (hserial : Serial limit history) {place : Nat} {write : Write}
    (hwrite : history.writes[place]? = some write) (hwaiting : write.state = .waiting)
    (hchained : history.chained place = true) :
    Serial limit (history.startWrite limit place write.items) := by
  obtain ⟨state, heq, hstate⟩ :=
    @startWrite_cases limit history place write.items
  rw [heq]
  constructor
  · intro i j earlier later hlt hearlier hlater hbegun
    rw [getElem?_withState hwrite] at hearlier hlater
    by_cases hi : place = i
    · -- A later write would have begun while this one was waiting.
      rw [if_neg (by omega)] at hlater
      subst hi
      have hsettled := hserial.ordered place j write later hlt hwrite hlater hbegun
      rw [hwaiting] at hsettled
      cases hsettled
    · rw [if_neg hi] at hearlier
      by_cases hj : place = j
      · subst hj
        exact hserial.settled_of_chained hwrite hchained hlt hearlier
      · rw [if_neg hj] at hlater
        exact hserial.ordered i j earlier later hlt hearlier hlater hbegun
  · intro i other before next hother hupdating
    rw [getElem?_withState hwrite] at hother
    by_cases hi : place = i
    · rw [if_pos hi] at hother
      cases hother
      rcases hstate with ⟨hfulfilled, -⟩ | hnext
      · cases hfulfilled.symm.trans hupdating
      · cases hnext.symm.trans hupdating
        exact ⟨rfl, rfl⟩
    · rw [if_neg hi] at hother
      exact hserial.updating i other before next hother hupdating

theorem serial_settle (hserial : Serial limit history) {place : Nat} {write : Write}
    {before after : List ImportCostHistoryItem} {succeeds : Bool}
    (hwrite : history.writes[place]? = some write) (hstate : write.state = .updating before after) :
    Serial limit (history.settleWrite place write.items before after succeeds) := by
  obtain ⟨state, hsettled, heq⟩ :=
    @settleWrite_writes history place write.items before after succeeds
  have hbegun : write.state ≠ .waiting := by rw [hstate]; intro h; cases h
  have hopen : write.state.settled ≠ true := by rw [hstate]; intro h; cases h
  constructor
  · intro i j earlier later hlt hearlier hlater hlaterBegun
    rw [heq, getElem?_withState hwrite] at hearlier hlater
    by_cases hi : place = i
    · rw [if_pos hi] at hearlier
      cases hearlier
      exact hsettled
    · rw [if_neg hi] at hearlier
      by_cases hj : place = j
      · exact hserial.ordered i j earlier write hlt hearlier (hj ▸ hwrite) hbegun
      · rw [if_neg hj] at hlater
        exact hserial.ordered i j earlier later hlt hearlier hlater hlaterBegun
  · intro i other first second hother hupdating
    rw [heq, getElem?_withState hwrite] at hother
    by_cases hi : place = i
    · rw [if_pos hi] at hother
      cases hother
      change state = _ at hupdating
      rw [hupdating] at hsettled
      cases hsettled
    · -- No second write is in hand.
      rw [if_neg hi] at hother
      have hotherBegun : other.state ≠ .waiting := by rw [hupdating]; intro h; cases h
      have hotherOpen : other.state.settled ≠ true := by rw [hupdating]; intro h; cases h
      by_cases hlt : i < place
      · exact absurd (hserial.ordered i place other write hlt hother hwrite hbegun) hotherOpen
      · exact absurd
          (hserial.ordered place i write other (by omega) hwrite hother hotherBegun) hopen

theorem serial_step (hserial : Serial limit history)
    (h : History.step limit history action = some next) : Serial limit next := by
  obtain ⟨states, projectRoot, now, -, rfl⟩ | ⟨place, write, -, hwrite, hwaiting, hchained, rfl⟩ |
    ⟨place, succeeds, write, before, after, -, hwrite, hstate, rfl⟩ := step_cases h
  · exact serial_record hserial _
  · exact serial_start hserial hwrite hwaiting hchained
  · exact serial_settle hserial hwrite hstate

/-- Nothing waits for ever: a write that has not ended waits for one that can go on. -/
theorem exists_enabled {place : Nat} {write : Write}
    (hwrite : history.writes[place]? = some write) (hopen : write.state.settled = false) :
    ∃ first ≤ place, (History.step limit history (.start first)).isSome ∨
      ∀ succeeds, (History.step limit history (.settle first succeeds)).isSome := by
  induction place using Nat.strong_induction_on generalizing write with
  | _ place ih =>
    cases hstate : write.state with
    | waiting =>
      by_cases hchained : history.chained place = true
      · refine ⟨place, le_rfl, Or.inl ?_⟩
        simp only [History.step, hwrite, Option.bind_some, hstate, hchained, and_self, if_true,
          Option.isSome_some]
      · cases place with
        | zero => exact absurd rfl hchained
        | succ last =>
          have hlast : last < history.writes.length :=
            Nat.lt_of_succ_lt (List.getElem?_eq_some_iff.mp hwrite).1
          have hprevious := List.getElem?_eq_getElem hlast
          have hunsettled : history.writes[last].state.settled = false := by
            rw [History.chained, hprevious] at hchained
            simpa using hchained
          obtain ⟨first, hle, hfirst⟩ := ih last (by omega) hprevious hunsettled
          exact ⟨first, by omega, hfirst⟩
    | updating before next =>
      refine ⟨place, le_rfl, Or.inr fun succeeds => ?_⟩
      simp only [History.step, hwrite, Option.bind_some, hstate, Option.isSome_some]
    | fulfilled before after =>
      rw [hstate] at hopen
      cases hopen
    | rejected =>
      rw [hstate] at hopen
      cases hopen

/-! ### What it stores -/

theorem correct_record (hcorrect : Correct limit history) (items : List ImportCostHistoryItem) :
    Correct limit { history with writes := history.writes ++ [⟨items, .waiting⟩] } := by
  refine ⟨hcorrect.kept, fun i write before after hwrite hstate => ?_⟩
  change (history.writes ++ [⟨items, .waiting⟩])[i]? = some write at hwrite
  by_cases hi : i < history.writes.length
  · rw [List.getElem?_append_left hi] at hwrite
    exact hcorrect.recorded i write before after hwrite hstate
  · rw [List.getElem?_append_right (by omega), List.getElem?_singleton] at hwrite
    split at hwrite
    · cases hwrite
      cases hstate
    · cases hwrite

theorem correct_start (hcorrect : Correct limit history) {place : Nat} {write : Write}
    (hwrite : history.writes[place]? = some write) :
    Correct limit (history.startWrite limit place write.items) := by
  obtain ⟨state, heq, hstate⟩ :=
    @startWrite_cases limit history place write.items
  rw [heq]
  refine ⟨hcorrect.kept, fun i other before after hother hfulfilled => ?_⟩
  rw [getElem?_withState hwrite] at hother
  by_cases hi : place = i
  · rw [if_pos hi] at hother
    cases hother
    change state = _ at hfulfilled
    rcases hstate with ⟨hstate, hnone⟩ | hstate
    · cases hfulfilled.symm.trans hstate
      exact recorded_unchanged hnone
    · cases hfulfilled.symm.trans hstate
  · rw [if_neg hi] at hother
    exact hcorrect.recorded i other before after hother hfulfilled

theorem correct_reject (hcorrect : Correct limit history) {place : Nat} {write : Write}
    {before after : List ImportCostHistoryItem} (hwrite : history.writes[place]? = some write) :
    Correct limit (history.settleWrite place write.items before after false) := by
  refine ⟨hcorrect.kept, fun i other first second hother hfulfilled => ?_⟩
  change (history.withState place write.items .rejected).writes[i]? = some other at hother
  rw [getElem?_withState hwrite] at hother
  by_cases hi : place = i
  · rw [if_pos hi] at hother
    cases hother
    cases hfulfilled
  · rw [if_neg hi] at hother
    exact hcorrect.recorded i other first second hother hfulfilled

/-- An update that succeeds is correct exactly if its items were distinct. -/
theorem correct_fulfill_iff (hserial : Serial limit history) (hcorrect : Correct limit history)
    {place : Nat} {write : Write} {before after : List ImportCostHistoryItem}
    (hwrite : history.writes[place]? = some write) (hstate : write.state = .updating before after) :
    Correct limit (history.settleWrite place write.items before after true) ↔
      Distinct limit history.stored write.items := by
  have hplace : (history.settleWrite place write.items before after true).writes[place]? =
      some ⟨write.items, .fulfilled before after⟩ := by
    change (history.withState place write.items _).writes[place]? = _
    rw [getElem?_withState hwrite, if_pos rfl]
  obtain ⟨rfl, rfl⟩ := hserial.updating place write before after hwrite hstate
  constructor
  · intro hnext
    have hrecorded := hnext.recorded place _ _ _ hplace rfl
    exact distinct_of_merged hnext.kept hrecorded
  · intro hdistinct
    refine ⟨kept_merged hcorrect.kept hdistinct, fun i other first second hother hfulfilled => ?_⟩
    change (history.withState place write.items _).writes[i]? = some other at hother
    rw [getElem?_withState hwrite] at hother
    by_cases hi : place = i
    · rw [if_pos hi] at hother
      cases hother
      cases hfulfilled
      exact recorded_merged hcorrect.kept hdistinct
    · rw [if_neg hi] at hother
      exact hcorrect.recorded i other first second hother hfulfilled

/-- The items of the write in hand are distinct, if its update succeeds. -/
def Apart (limit : Int) (history : History) (action : Action) : Prop :=
  ∀ place, action = .settle place true → ∀ write before after,
    history.writes[place]? = some write → write.state = .updating before after →
      Distinct limit history.stored write.items

theorem correct_step (hserial : Serial limit history) (hcorrect : Correct limit history)
    (h : History.step limit history action = some next) :
    Correct limit next ↔ Apart limit history action := by
  obtain ⟨states, projectRoot, now, rfl, rfl⟩ | ⟨place, write, rfl, hwrite, -, -, rfl⟩ |
    ⟨place, succeeds, write, before, after, rfl, hwrite, hstate, rfl⟩ := step_cases h
  · refine iff_of_true (correct_record hcorrect _) fun place heq => ?_
    cases heq
  · refine iff_of_true (correct_start hcorrect hwrite) fun place heq => ?_
    cases heq
  · cases succeeds with
    | false =>
      refine iff_of_true (correct_reject hcorrect hwrite) fun place heq => ?_
      cases heq
    | true =>
      rw [correct_fulfill_iff hserial hcorrect hwrite hstate]
      constructor
      · intro hdistinct settled heq other first second hother _
        cases heq
        cases hwrite.symm.trans hother
        exact hdistinct
      · intro hapart
        exact hapart place rfl write before after hwrite hstate

end

/-! ## Any run -/

section

variable {limit : Int} {stored : List ImportCostHistoryItem}

theorem History.run_concat (history : History) (actions : List Action) (action : Action) :
    history.run limit (actions ++ [action]) =
      (history.run limit actions).bind fun reached => reached.step limit action := by
  rw [History.run, History.run, List.foldlM_append]
  apply congrArg
  funext reached
  rw [List.foldlM_cons]
  cases History.step limit reached action <;> rfl

theorem serial_run {actions : List Action} {reached : History}
    (h : History.run limit ⟨stored, []⟩ actions = some reached) : Serial limit reached := by
  induction actions using List.reverseRecOn generalizing reached with
  | nil =>
    cases h
    constructor
    · intro i j earlier later _ hearlier
      cases hearlier
    · intro i write before next hwrite
      cases hwrite
  | append_singleton actions action ih =>
    rw [History.run_concat] at h
    obtain ⟨before, hbefore, hstep⟩ := Option.bind_eq_some_iff.mp h
    exact serial_step (ih hbefore) hstep

theorem correct_run {actions : List Action} {reached : History} (hkept : Kept limit stored)
    (hapart : ∀ before action after, actions = before ++ action :: after →
      ∀ history, History.run limit ⟨stored, []⟩ before = some history →
        Apart limit history action)
    (h : History.run limit ⟨stored, []⟩ actions = some reached) : Correct limit reached := by
  induction actions using List.reverseRecOn generalizing reached with
  | nil =>
    cases h
    refine ⟨hkept, fun i write before after hwrite => ?_⟩
    cases hwrite
  | append_singleton actions action ih =>
    rw [History.run_concat] at h
    obtain ⟨before, hbefore, hstep⟩ := Option.bind_eq_some_iff.mp h
    have hcorrect : Correct limit before := by
      apply ih _ hbefore
      intro first next rest heq
      apply hapart first next (rest ++ [action])
      rw [heq, List.append_assoc, List.cons_append]
    apply (correct_step (serial_run hbefore) hcorrect hstep).mpr
    exact hapart actions action [] rfl before hbefore

end

theorem recordImportCostHistory_correct_iff {limit : Int} {stored : List ImportCostHistoryItem}
    {actions : List Action} (hkept : Kept limit stored) :
    ((∀ before after, actions = before ++ after →
        ∀ reached, History.run limit ⟨stored, []⟩ before = some reached → Correct limit reached) ↔
      ∀ before action after, actions = before ++ action :: after →
        ∀ reached, History.run limit ⟨stored, []⟩ before = some reached →
          Apart limit reached action) ∧
    ∀ reached, History.run limit ⟨stored, []⟩ actions = some reached →
      (∀ place next, reached.step limit (.settle place false) = some next →
        next.stored = reached.stored) ∧
      ∀ place write, reached.writes[place]? = some write → write.state.settled = false →
        ∃ first ≤ place, (reached.step limit (.start first)).isSome ∨
          ∀ succeeds, (reached.step limit (.settle first succeeds)).isSome := by
  refine ⟨⟨?_, ?_⟩, fun reached _ => ⟨?_, ?_⟩⟩
  · intro hcorrect before action after heq reached hreached
    by_cases hnext : ∃ next, reached.step limit action = some next
    · obtain ⟨next, hnext⟩ := hnext
      have hbefore := hcorrect before (action :: after) heq reached hreached
      apply (correct_step (serial_run hreached) hbefore hnext).mp
      apply hcorrect (before ++ [action]) after (by rw [heq]; simp)
      rw [History.run_concat, hreached]
      exact hnext
    · intro place hsettle write first second hwrite hstate
      apply absurd _ hnext
      rw [hsettle]
      refine ⟨reached.settleWrite place write.items first second true, ?_⟩
      simp only [History.step, hwrite, Option.bind_some, hstate]
  · intro hapart before after heq reached hreached
    apply correct_run hkept _ hreached
    intro first action rest hsplit
    apply hapart first action (rest ++ after)
    rw [heq, hsplit, List.append_assoc, List.cons_append]
  · intro place next h
    obtain ⟨_, _, _, heq, -⟩ | ⟨_, _, heq, -⟩ |
      ⟨settled, succeeds, write, before, after, heq, -, -, rfl⟩ := step_cases h
    · cases heq
    · cases heq
    · cases heq
      rfl
  · intro place write hwrite hopen
    exact exists_enabled hwrite hopen

/-- The default import of `specifier`, measured. -/
def measuredImport (specifier : String) (sizes : MeasuredSizes) : ImportAnalysisState where
  detected :=
    { specifier := specifier
      packageName := specifier
      named := []
      importKind := .defaultExport
      importSyntax := .staticImport
      runtime := .component
      line := 0
      quoteEnd := ⟨0, 17⟩
      specifierRange := ⟨⟨0, 14⟩, ⟨0, 17⟩⟩
      statementRange := ⟨⟨0, 0⟩, ⟨0, 18⟩⟩ }
  status := .ready
  result := some (.measured specifier sizes)

def callActions (states : List ImportAnalysisState) : List Action :=
  [.record states "/project" 0, .start 0, .settle 0 true]

def smallSizes : MeasuredSizes := ⟨400, 200, 100, 90, 95⟩

def grownSizes : MeasuredSizes := ⟨800, 400, 200, 180, 190⟩

def olderRows : List ImportCostHistoryItem :=
  importCostHistoryItemsForStates
    [measuredImport "a" smallSizes, measuredImport "b" smallSizes, measuredImport "c" smallSizes]
    "/project" 0

/-- One import grew, one stayed as it was and one is new. -/
def newerStates : List ImportAnalysisState :=
  [measuredImport "a" grownSizes, measuredImport "b" smallSizes, measuredImport "d" smallSizes]

theorem newer_rows_cut_the_oldest :
    ∃ reached, History.run 3 ⟨olderRows, []⟩ (callActions newerStates) = some reached ∧
      reached.stored.map ImportCostHistoryItem.specifier = ["a", "d", "b"] ∧
      Correct 3 reached := by
  have hkept : Kept 3 olderRows := ⟨by decide, by decide⟩
  have hcorrect := (@recordImportCostHistory_correct_iff 3 olderRows (callActions newerStates)
    hkept).1
  refine ⟨_, rfl, by decide, hcorrect.mpr ?_ (callActions newerStates) [] rfl _ rfl⟩
  intro before action after heq reached hreached place hsettle write first second hwrite hstate
  match before, heq with
  | [], heq =>
    cases heq
    cases hsettle
  | [_], heq =>
    cases heq
    cases hsettle
  | [_, _], heq =>
    cases heq
    cases hsettle
    cases hreached
    cases hwrite
    exact distinct_of_nodup (by decide)
  | _ :: _ :: _ :: _, heq => simp [callActions] at heq

/-- A document that imports the same thing twice leaves two rows of it. -/
theorem repeated_import_leaves_two_rows :
    Kept 200 [] ∧
      ∃ reached, History.run 200 ⟨[], []⟩
          (callActions [measuredImport "a" smallSizes, measuredImport "a" smallSizes]) =
            some reached ∧
        reached.stored.length = 2 ∧
        ¬ (reached.stored.map ImportCostHistoryItem.identity).Nodup := by
  refine ⟨⟨Nat.zero_le _, List.nodup_nil⟩, _, rfl, rfl, fun hnodup => ?_⟩
  exact (List.nodup_cons.mp hnodup).1 (List.mem_singleton.mpr rfl)

end ImportLens.Extension.CostHistory
