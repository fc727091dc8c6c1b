import ImportLens.Support.Keyed

/-!
# Cancellation flags

A connection hands a flag to every piece of background work it starts, and keeps
the flag of the newest work for each subject.  Starting newer work for the same
subject sets the flag of the older one; a list of visible documents sets and
forgets the flags of the others; the end of the connection sets them all.

The registry refresh is keyed by its source manifest.  The three kinds of
document work are keyed by the workspace root and the document path, joined by a
NUL character and split again at the first one.
-/

namespace ImportLens.Ipc

open ImportLens.Support

/-! ## Document keys -/

def nul : Char := '\x00'

def splitOnce (separator : Char) (text : String) : Option (String × String) :=
  match text.toList.span (· != separator) with
  | (_, []) => none
  | (front, _ :: back) => some (String.ofList front, String.ofList back)

def documentKey (workspaceRoot documentPath : String) : String :=
  workspaceRoot ++ String.singleton nul ++ documentPath

def documentPathOf (key : String) : String :=
  match splitOnce nul key with
  | some (_, path) => path
  | none => key

/-- The string can be told from what follows it in a key. -/
def NulFree (text : String) : Prop := nul ∉ text.toList

instance (text : String) : Decidable (NulFree text) := inferInstanceAs (Decidable (¬ _))

theorem splitOnce_documentKey {root : String} (hroot : NulFree root) (path : String) :
    splitOnce nul (documentKey root path) = some (root, path) := by
  have hkey : (documentKey root path).toList = root.toList ++ nul :: path.toList := by
    simp [documentKey]
  have hfront : ∀ c ∈ root.toList, (c != nul) = true := by
    intro c hc
    rw [bne_iff_ne]
    rintro rfl
    exact hroot hc
  have hspan : (root.toList ++ nul :: path.toList).span (· != nul) =
      (root.toList, nul :: path.toList) := by
    rw [List.span_eq_takeWhile_dropWhile, List.takeWhile_append_of_pos hfront,
      List.dropWhile_append_of_pos hfront]
    simp
  rw [splitOnce, hkey, hspan]
  simp

theorem documentPathOf_documentKey {root : String} (hroot : NulFree root) (path : String) :
    documentPathOf (documentKey root path) = path := by
  rw [documentPathOf, splitOnce_documentKey hroot]

theorem documentKey_inj {root root' path path' : String} (hroot : NulFree root)
    (hroot' : NulFree root') :
    documentKey root path = documentKey root' path' ↔ root = root' ∧ path = path' := by
  constructor
  · intro h
    have hsplit := splitOnce_documentKey hroot path
    rw [h, splitOnce_documentKey hroot'] at hsplit
    simpa [eq_comm] using hsplit
  · rintro ⟨rfl, rfl⟩
    rfl

/-! ## One lifecycle -/

/-- `RegistryRefreshLifecycle` and `DocumentTaskLifecycle`, with the flags they
have handed out; a flag is known by its number. -/
structure TaskLifecycle where
  active : Keyed String Nat
  cancelled : Nat → Bool
  next : Nat

namespace TaskLifecycle

def new : TaskLifecycle := ⟨∅, fun _ => false, 0⟩

/-- `start_new_block` and, under a document key, `start_document`: the flag
handed out is `next`. -/
def start (l : TaskLifecycle) (key : String) : TaskLifecycle where
  active := l.active.insert key l.next
  cancelled :=
    let handedOut := Function.update l.cancelled l.next false
    match l.active.lookup key with
    | some previous => Function.update handedOut previous true
    | none => handedOut
  next := l.next + 1

/-- `retain_visible`: cancel and forget the work of every other document. -/
def retainVisible (l : TaskLifecycle) (visible : List String) : TaskLifecycle :=
  let keep := fun key => decide (documentPathOf key ∈ visible)
  { l with
    active := l.active.retain keep
    cancelled := fun flag =>
      l.cancelled flag || l.active.rows.any fun row => !keep row.1 && row.2 == flag }

/-- `cancel_all`, also run by `Drop`. -/
def cancelAll (l : TaskLifecycle) : TaskLifecycle :=
  { l with cancelled := fun flag => l.cancelled flag || l.active.rows.any fun row => row.2 == flag }

inductive Step
  | start (key : String)
  | retainVisible (visible : List String)
  | cancelAll

def step (l : TaskLifecycle) : Step → TaskLifecycle
  | .start key => l.start key
  | .retainVisible visible => l.retainVisible visible
  | .cancelAll => l.cancelAll

def Step.cancels (key : String) : Step → Prop
  | .start key' => key' = key
  | .retainVisible visible => documentPathOf key ∉ visible
  | .cancelAll => True

def Bounded (l : TaskLifecycle) : Prop := l.active.All fun _ flag => flag < l.next

/-- What the lifecycle knows of a flag that it handed out for a key. -/
structure Tracks (l : TaskLifecycle) (key : String) (flag : Nat) : Prop where
  issued : flag < l.next
  live : l.cancelled flag = false → l.active.lookup key = some flag
  only : ∀ key', l.active.lookup key' = some flag → key' = key

variable {l : TaskLifecycle} {key : String} {flag : Nat}

@[simp] theorem active_start (l : TaskLifecycle) (key : String) :
    (l.start key).active = l.active.insert key l.next := rfl

@[simp] theorem active_retainVisible (l : TaskLifecycle) (visible : List String) :
    (l.step (.retainVisible visible)).active =
      l.active.retain fun key => decide (documentPathOf key ∈ visible) := rfl

theorem bounded_new : Bounded new := Keyed.all_empty _

theorem Bounded.step (h : Bounded l) (s : Step) : Bounded (l.step s) := by
  cases s with
  | start key =>
      exact Keyed.All.insert (fun k flag hlookup => (h k flag hlookup).trans (Nat.lt_succ_self _))
        (Nat.lt_succ_self _)
  | retainVisible visible => exact h.retain _
  | cancelAll => exact h

theorem Tracks.sweep (h : Tracks l key flag) (swept : String → Bool) :
    (l.cancelled flag || l.active.rows.any fun row => swept row.1 && row.2 == flag) = true ↔
      l.cancelled flag = true ∨ swept key = true := by
  have hrows : (l.active.rows.any fun row => swept row.1 && row.2 == flag) = true ↔
      l.active.lookup key = some flag ∧ swept key = true := by
    rw [List.any_eq_true]
    constructor
    · rintro ⟨⟨key', other⟩, hmem, hrow⟩
      simp only [Bool.and_eq_true, beq_iff_eq] at hrow
      obtain ⟨hswept, rfl⟩ := hrow
      have hlookup := Keyed.mem_rows.mp hmem
      obtain rfl := h.only key' hlookup
      exact ⟨hlookup, hswept⟩
    · rintro ⟨hlookup, hswept⟩
      exact ⟨(key, flag), Keyed.mem_rows.mpr hlookup, by simp [hswept]⟩
  rw [Bool.or_eq_true, hrows]
  constructor
  · rintro (hset | ⟨_, hswept⟩)
    · exact .inl hset
    · exact .inr hswept
  · rintro (hset | hswept)
    · exact .inl hset
    · by_cases hset : l.cancelled flag = true
      · exact .inl hset
      · exact .inr ⟨h.live (eq_false_of_ne_true hset), hswept⟩

theorem Tracks.start (h : Tracks l key flag) (key' : String) :
    Tracks (l.start key') key flag ∧
      ((l.start key').cancelled flag = true ↔ l.cancelled flag = true ∨ key' = key) := by
  have hfresh : flag ≠ l.next := h.issued.ne
  have hcancelled : (l.start key').cancelled flag =
      (l.cancelled flag || decide (l.active.lookup key' = some flag)) := by
    unfold TaskLifecycle.start
    cases hprevious : l.active.lookup key' with
    | some previous =>
        by_cases hflag : flag = previous
        · subst hflag
          simp
        · simp [Function.update_of_ne hflag, Function.update_of_ne hfresh, Ne.symm hflag]
    | none => simp [Function.update_of_ne hfresh]
  have hset : (l.start key').cancelled flag = true ↔ l.cancelled flag = true ∨ key' = key := by
    rw [hcancelled, Bool.or_eq_true, decide_eq_true_eq]
    constructor
    · rintro (hset | hlookup)
      · exact .inl hset
      · exact .inr (h.only key' hlookup)
    · rintro (hset | rfl)
      · exact .inl hset
      · by_cases hset : l.cancelled flag = true
        · exact .inl hset
        · exact .inr (h.live (eq_false_of_ne_true hset))
  refine ⟨⟨h.issued.trans (Nat.lt_succ_self _), ?_, ?_⟩, hset⟩
  · intro hunset
    have hnot : ¬ (l.cancelled flag = true ∨ key' = key) := by
      rw [← hset, hunset]
      exact Bool.false_ne_true
    simp only [not_or] at hnot
    simp only [active_start, Keyed.lookup_insert_eq, if_neg (Ne.symm hnot.2)]
    exact h.live (eq_false_of_ne_true hnot.1)
  · intro k hlookup
    simp only [active_start, Keyed.lookup_insert_eq] at hlookup
    split at hlookup
    · cases hlookup
      exact absurd rfl hfresh
    · exact h.only k hlookup

theorem Tracks.step (h : Tracks l key flag) (s : Step) :
    Tracks (l.step s) key flag ∧
      ((l.step s).cancelled flag = true ↔ l.cancelled flag = true ∨ s.cancels key) := by
  cases s with
  | start key' => exact h.start key'
  | retainVisible visible =>
      have hset := h.sweep fun key => !decide (documentPathOf key ∈ visible)
      simp only [Bool.not_eq_true', decide_eq_false_iff_not] at hset
      refine ⟨⟨h.issued, ?_, ?_⟩, hset⟩
      · intro hunset
        have hnot : ¬ (l.cancelled flag = true ∨ documentPathOf key ∉ visible) := by
          rw [← hset]
          exact ne_true_of_eq_false hunset
        simp only [not_or, not_not] at hnot
        simp [hnot.2, h.live (eq_false_of_ne_true hnot.1)]
      · intro key' hlookup
        simp only [active_retainVisible, Keyed.lookup_retain] at hlookup
        split at hlookup
        · exact h.only key' hlookup
        · cases hlookup
  | cancelAll =>
      have hset := h.sweep fun _ => true
      simp only [Bool.true_and] at hset
      have htrue : (l.step .cancelAll).cancelled flag = true := hset.mpr (.inr trivial)
      refine ⟨⟨h.issued, ?_, h.only⟩, iff_of_true htrue (.inr trivial)⟩
      intro hunset
      rw [hunset] at htrue
      cases htrue

theorem Bounded.tracks_start (hbounded : Bounded l) (key : String) :
    Tracks (l.start key) key l.next ∧ (l.start key).cancelled l.next = false := by
  have hother : ∀ key', l.active.lookup key' ≠ some l.next := by
    intro key' hlookup
    exact absurd (hbounded key' _ hlookup) (Nat.lt_irrefl _)
  refine ⟨⟨Nat.lt_succ_self _, fun _ => ?_, ?_⟩, ?_⟩
  · simp
  · intro key' hlookup
    by_contra hne
    simp only [active_start, Keyed.lookup_insert_eq, if_neg hne] at hlookup
    exact hother key' hlookup
  · unfold TaskLifecycle.start
    cases hprevious : l.active.lookup key with
    | some previous =>
        have hne : l.next ≠ previous := by
          rintro rfl
          exact hother key hprevious
        simp [Function.update_of_ne hne]
    | none => simp

theorem cancelled_step (hissued : flag < l.next) (hset : l.cancelled flag = true) (s : Step) :
    (l.step s).cancelled flag = true := by
  cases s with
  | start key =>
      simp only [TaskLifecycle.step, TaskLifecycle.start]
      have hhanded : Function.update l.cancelled l.next false flag = true := by
        rwa [Function.update_of_ne hissued.ne]
      cases l.active.lookup key with
      | none => exact hhanded
      | some previous =>
          by_cases hprevious : flag = previous
          · subst hprevious
            exact Function.update_self _ _ _
          · dsimp only
            rwa [Function.update_of_ne hprevious]
  | retainVisible visible => simp [TaskLifecycle.step, retainVisible, hset]
  | cancelAll => simp [TaskLifecycle.step, cancelAll, hset]

theorem Tracks.runs (h : Tracks l key flag) (steps : List Step) :
    (steps.foldl TaskLifecycle.step l).cancelled flag = true ↔
      l.cancelled flag = true ∨ ∃ s ∈ steps, s.cancels key := by
  induction steps generalizing l with
  | nil => simp
  | cons s rest ih =>
      obtain ⟨hnext, hset⟩ := h.step s
      rw [List.foldl_cons, ih hnext, hset]
      simp [or_assoc]

end TaskLifecycle

/-! ## The lifecycles of a connection -/

def TaskLifecycle.startDocument (l : TaskLifecycle) (workspaceRoot documentPath : String) :
    TaskLifecycle :=
  l.start (documentKey workspaceRoot documentPath)

structure ConnectionLifecycles where
  registryRefresh : TaskLifecycle
  documentStream : TaskLifecycle
  swrRefresh : TaskLifecycle
  sizeBuilds : TaskLifecycle

/-- The kinds of document work. -/
inductive DocumentKind
  | documentStream
  | swrRefresh
  | sizeBuilds
  deriving DecidableEq

inductive Kind
  | registryRefresh
  | document (kind : DocumentKind)
  deriving DecidableEq

/-- What a piece of work is for. -/
inductive Subject
  | source (source : String)
  | document (workspaceRoot documentPath : String)
  deriving DecidableEq

def Subject.key : Subject → String
  | .source manifest => manifest
  | .document root path => documentKey root path

namespace ConnectionLifecycles

def new : ConnectionLifecycles := ⟨.new, .new, .new, .new⟩

def of (c : ConnectionLifecycles) : Kind → TaskLifecycle
  | .registryRefresh => c.registryRefresh
  | .document .documentStream => c.documentStream
  | .document .swrRefresh => c.swrRefresh
  | .document .sizeBuilds => c.sizeBuilds

def cancelAll (c : ConnectionLifecycles) : ConnectionLifecycles where
  registryRefresh := c.registryRefresh.cancelAll
  documentStream := c.documentStream.cancelAll
  swrRefresh := c.swrRefresh.cancelAll
  sizeBuilds := c.sizeBuilds.cancelAll

/-- `ConnectionLifecycles::retain_visible`: a registry refresh belongs to a
manifest. -/
def retainVisible (c : ConnectionLifecycles) (documentPaths : List String) :
    ConnectionLifecycles :=
  { c with
    documentStream := c.documentStream.retainVisible documentPaths
    swrRefresh := c.swrRefresh.retainVisible documentPaths
    sizeBuilds := c.sizeBuilds.retainVisible documentPaths }

inductive Op
  | startNewBlock (source : String)
  | startDocument (kind : DocumentKind) (workspaceRoot documentPath : String)
  | retainVisible (documentPaths : List String)
  | cancelAll
  | drop
  deriving DecidableEq

def apply (c : ConnectionLifecycles) : Op → ConnectionLifecycles
  | .startNewBlock source => { c with registryRefresh := c.registryRefresh.start source }
  | .startDocument .documentStream root path =>
      { c with documentStream := c.documentStream.startDocument root path }
  | .startDocument .swrRefresh root path =>
      { c with swrRefresh := c.swrRefresh.startDocument root path }
  | .startDocument .sizeBuilds root path =>
      { c with sizeBuilds := c.sizeBuilds.startDocument root path }
  | .retainVisible documentPaths => c.retainVisible documentPaths
  -- the drop of each lifecycle cancels it
  | .cancelAll | .drop => c.cancelAll

def run (ops : List Op) : ConnectionLifecycles := ops.foldl apply new

namespace Op

def starts : Op → Option (Kind × Subject)
  | .startNewBlock source => some (.registryRefresh, .source source)
  | .startDocument kind root path => some (.document kind, .document root path)
  | _ => none

/-- The call ends the work for a subject on a lifecycle. -/
def cancels (kind : Kind) (subject : Subject) (op : Op) : Prop :=
  op.starts = some (kind, subject) ∨
    match op with
    | .retainVisible documentPaths =>
        ∃ root path, subject = .document root path ∧ path ∉ documentPaths
    | .cancelAll | .drop => True
    | _ => False

def NulFree : Op → Prop
  | .startDocument _ root _ => Ipc.NulFree root
  | _ => True

def on (kind : Kind) (op : Op) : Option TaskLifecycle.Step :=
  match kind, op with
  | .registryRefresh, .startNewBlock source => some (.start source)
  | .document kind, .startDocument kind' root path =>
      if kind = kind' then some (.start (documentKey root path)) else none
  | .document _, .retainVisible documentPaths => some (.retainVisible documentPaths)
  | _, .cancelAll | _, .drop => some .cancelAll
  | _, _ => none

end Op

variable {c : ConnectionLifecycles} {kind : Kind} {subject : Subject} {op : Op}

theorem apply_of (c : ConnectionLifecycles) (kind : Kind) (op : Op) :
    (c.apply op).of kind =
      match op.on kind with
      | some step => (c.of kind).step step
      | none => c.of kind := by
  cases kind with
  | registryRefresh =>
      cases op with
      | startDocument kind' root path => cases kind' <;> rfl
      | _ => rfl
  | document kind =>
      cases op with
      | startDocument kind' root path => cases kind <;> cases kind' <;> rfl
      | _ => cases kind <;> rfl

theorem cancelled_apply {flag : Nat} (hissued : flag < (c.of kind).next)
    (hset : (c.of kind).cancelled flag = true) (op : Op) :
    ((c.apply op).of kind).cancelled flag = true := by
  rw [apply_of]
  cases op.on kind with
  | none => exact hset
  | some step => exact TaskLifecycle.cancelled_step hissued hset step

theorem next_apply (c : ConnectionLifecycles) (kind : Kind) (op : Op) :
    ((c.apply op).of kind).next =
      (c.of kind).next + if op.starts.map Prod.fst = some kind then 1 else 0 := by
  rw [apply_of]
  cases kind with
  | registryRefresh =>
      cases op <;> simp [Op.on, Op.starts, TaskLifecycle.step, TaskLifecycle.start,
        TaskLifecycle.cancelAll]
  | document kind =>
      cases op with
      | startDocument kind' root path =>
          by_cases hkind : kind = kind'
          · simp [Op.on, Op.starts, hkind, TaskLifecycle.step, TaskLifecycle.start]
          · simp [Op.on, Op.starts, hkind, Ne.symm hkind]
      | _ => simp [Op.on, Op.starts, TaskLifecycle.step, TaskLifecycle.retainVisible,
          TaskLifecycle.cancelAll]

theorem foldl_of (ops : List Op) (c : ConnectionLifecycles) (kind : Kind) :
    (ops.foldl apply c).of kind =
      (ops.filterMap (Op.on kind)).foldl TaskLifecycle.step (c.of kind) := by
  induction ops generalizing c with
  | nil => rfl
  | cons op rest ih =>
      rw [List.foldl_cons, ih, apply_of, List.filterMap_cons]
      cases op.on kind <;> rfl

theorem bounded_of_run (ops : List Op) (kind : Kind) : ((run ops).of kind).Bounded := by
  suffices h : ∀ (steps : List TaskLifecycle.Step) (l : TaskLifecycle), l.Bounded →
      (steps.foldl TaskLifecycle.step l).Bounded by
    rw [run, foldl_of]
    refine h _ _ ?_
    rcases kind with _ | ⟨_ | _ | _⟩ <;> exact TaskLifecycle.bounded_new
  intro steps
  induction steps with
  | nil => exact fun l hl => hl
  | cons step rest ih => exact fun l hl => ih _ (hl.step step)

theorem on_of_starts (h : op.starts = some (kind, subject)) :
    op.on kind = some (.start subject.key) := by
  cases op with
  | startNewBlock source =>
      cases h
      rfl
  | startDocument kind' root path =>
      cases h
      simp [Op.on, Subject.key]
  | _ => cases h

theorem cancels_iff {later : Op} (hstarts : op.starts = some (kind, subject)) (hop : op.NulFree)
    (hlater : later.NulFree) :
    (∃ step, later.on kind = some step ∧ step.cancels subject.key) ↔
      later.cancels kind subject := by
  cases op with
  | startNewBlock source =>
      cases hstarts
      cases later <;> simp [Op.on, Op.cancels, Op.starts, TaskLifecycle.Step.cancels, Subject.key]
  | startDocument kind' root path =>
      cases hstarts
      cases later with
      | startDocument kind'' root' path' =>
          by_cases hkind : kind' = kind''
          · subst hkind
            simp [Op.on, Op.cancels, Op.starts, TaskLifecycle.Step.cancels, Subject.key,
              documentKey_inj hlater hop]
          · simp [Op.on, Op.cancels, Op.starts, hkind, Ne.symm hkind]
      | retainVisible documentPaths =>
          simp [Op.on, Op.cancels, Op.starts, TaskLifecycle.Step.cancels, Subject.key,
            documentPathOf_documentKey hop]
      | _ => simp [Op.on, Op.cancels, Op.starts, TaskLifecycle.Step.cancels, Subject.key]
  | _ => cases hstarts

/-- The flag of a start is set exactly if a later call ends the work of its
subject on its lifecycle. -/
theorem flag_set_iff {before after : List Op} (hstarts : op.starts = some (kind, subject))
    (hop : op.NulFree) (hafter : ∀ later ∈ after, later.NulFree) :
    ((run (before ++ op :: after)).of kind).cancelled ((run before).of kind).next = true ↔
      ∃ later ∈ after, later.cancels kind subject := by
  have hbounded := bounded_of_run before kind
  obtain ⟨htracks, hunset⟩ := hbounded.tracks_start subject.key
  have hrun : (run (before ++ op :: after)).of kind =
      (after.filterMap (Op.on kind)).foldl TaskLifecycle.step
        (((run before).of kind).start subject.key) := by
    rw [run, List.foldl_append, List.foldl_cons, foldl_of, apply_of, on_of_starts hstarts]
    rfl
  rw [hrun, htracks.runs, hunset]
  constructor
  · rintro (hset | ⟨step, hmem, hcancels⟩)
    · cases hset
    · obtain ⟨later, hlater, hon⟩ := List.mem_filterMap.mp hmem
      exact ⟨later, hlater,
        (cancels_iff hstarts hop (hafter later hlater)).mp ⟨step, hon, hcancels⟩⟩
  · rintro ⟨later, hlater, hcancels⟩
    obtain ⟨step, hon, hstep⟩ := (cancels_iff hstarts hop (hafter later hlater)).mpr hcancels
    exact .inr ⟨step, List.mem_filterMap.mpr ⟨later, hlater, hon⟩, hstep⟩

/-- The flag was handed out for a subject, and the calls `after` followed. -/
def Issued (ops : List Op) (kind : Kind) (subject : Subject) (flag : Nat) (after : List Op) :
    Prop :=
  ∃ before op, ops = before ++ op :: after ∧ op.starts = some (kind, subject) ∧
    flag = ((run before).of kind).next

theorem Issued.append {ops after : List Op} {flag : Nat} (h : Issued ops kind subject flag after)
    (more : List Op) : Issued (ops ++ more) kind subject flag (after ++ more) := by
  obtain ⟨before, op, rfl, hstarts, hflag⟩ := h
  exact ⟨before, op, by simp, hstarts, hflag⟩

theorem Issued.set_iff {ops after : List Op} {flag : Nat} (h : Issued ops kind subject flag after)
    (hfree : ∀ op ∈ ops, op.NulFree) :
    ((run ops).of kind).cancelled flag = true ↔ ∃ later ∈ after, later.cancels kind subject := by
  obtain ⟨before, op, rfl, hstarts, rfl⟩ := h
  exact flag_set_iff hstarts (hfree op (by simp)) fun later hlater => hfree later (by simp [hlater])

theorem split_cases {ops before before' after after' : List Op} {op op' : Op}
    (h : ops = before ++ op :: after) (h' : ops = before' ++ op' :: after') :
    before = before' ∨ op' ∈ after ∨ op ∈ after' := by
  rw [h] at h'
  rcases List.append_eq_append_iff.mp h' with ⟨rest, rfl, hrest⟩ | ⟨rest, rfl, hrest⟩
  · cases rest with
    | nil => exact .inl (by simp)
    | cons first rest =>
        simp only [List.cons_append, List.cons.injEq] at hrest
        exact .inr (.inl (by simp [hrest.2]))
  · cases rest with
    | nil => exact .inl (by simp)
    | cons first rest =>
        simp only [List.cons_append, List.cons.injEq] at hrest
        exact .inr (.inr (by simp [hrest.2]))

/-- Every sequence of calls over workspace roots without a NUL character: a flag
is set exactly if a later call ends the work it was handed out for, at most one
flag for a subject is unset on a lifecycle, and a start changes no lifecycle but
its own. -/
theorem flags_follow_calls {ops : List Op} (hfree : ∀ op ∈ ops, op.NulFree) :
    (∀ kind subject flag after, Issued ops kind subject flag after →
      (((run ops).of kind).cancelled flag = true ↔
        ∃ later ∈ after, later.cancels kind subject)) ∧
    (∀ kind subject flag flag' after after', Issued ops kind subject flag after →
      Issued ops kind subject flag' after' →
      ((run ops).of kind).cancelled flag = false → ((run ops).of kind).cancelled flag' = false →
      flag = flag') ∧
    (∀ kind kind' subject op, op.starts = some (kind', subject) → kind ≠ kind' →
      (run (ops ++ [op])).of kind = (run ops).of kind) := by
  have hset : ∀ kind subject flag after, Issued ops kind subject flag after →
      (((run ops).of kind).cancelled flag = true ↔
        ∃ later ∈ after, later.cancels kind subject) :=
    fun _ _ _ _ hissued => hissued.set_iff hfree
  refine ⟨hset, ?_, ?_⟩
  · intro kind subject flag flag' after after' hissued hissued' hunset hunset'
    obtain ⟨before, op, hops, hstarts, hflag⟩ := hissued
    obtain ⟨before', op', hops', hstarts', hflag'⟩ := hissued'
    rcases split_cases hops hops' with rfl | hlater | hlater
    · rw [hflag, hflag']
    · have htrue := (hset kind subject flag after ⟨before, op, hops, hstarts, hflag⟩).mpr
        ⟨op', hlater, .inl hstarts'⟩
      rw [hunset] at htrue
      cases htrue
    · have htrue := (hset kind subject flag' after' ⟨before', op', hops', hstarts', hflag'⟩).mpr
        ⟨op, hlater, .inl hstarts⟩
      rw [hunset'] at htrue
      cases htrue
  · intro kind kind' subject op hstarts hne
    rw [run, List.foldl_append, List.foldl_cons, List.foldl_nil, apply_of]
    have hon : op.on kind = none := by
      cases op with
      | startNewBlock source =>
          cases hstarts
          cases kind with
          | registryRefresh => exact absurd rfl hne
          | document => rfl
      | startDocument kind'' root path =>
          cases hstarts
          cases kind with
          | registryRefresh => rfl
          | document kind => simpa [Op.on] using hne
      | _ => cases hstarts
    rw [hon]
    rfl

/-- A size read replaces the one before it, and leaves the stream of the document
alone. -/
theorem flags_of_replaced_size_read :
    ((run [.startDocument .documentStream "w" "a.ts", .startDocument .sizeBuilds "w" "a.ts",
      .startDocument .sizeBuilds "w" "a.ts"]).of (.document .sizeBuilds)).cancelled 0 = true ∧
    ((run [.startDocument .documentStream "w" "a.ts", .startDocument .sizeBuilds "w" "a.ts",
      .startDocument .sizeBuilds "w" "a.ts"]).of (.document .documentStream)).cancelled 0 =
        false := by
  have hfree : ∀ op ∈ [Op.startDocument .documentStream "w" "a.ts",
      .startDocument .sizeBuilds "w" "a.ts", .startDocument .sizeBuilds "w" "a.ts"],
      op.NulFree := by
    have hroot : Ipc.NulFree "w" := by decide
    simpa [Op.NulFree] using hroot
  have hset := (flags_follow_calls hfree).1
  constructor
  · rw [hset (.document .sizeBuilds) (.document "w" "a.ts") 0
      [.startDocument .sizeBuilds "w" "a.ts"]
      ⟨[.startDocument .documentStream "w" "a.ts"], _, rfl, rfl, rfl⟩]
    exact ⟨_, List.mem_singleton.mpr rfl, .inl rfl⟩
  · rw [← Bool.not_eq_true, hset (.document .documentStream) (.document "w" "a.ts") 0
      [.startDocument .sizeBuilds "w" "a.ts", .startDocument .sizeBuilds "w" "a.ts"]
      ⟨[], _, rfl, rfl, rfl⟩]
    simp [Op.cancels, Op.starts]

/-- The document `b\0c` of the root `a` and the document `c` of the root `a\0b`
have one key: starting the one cancels the other. -/
theorem flag_set_by_other_document :
    ¬ ∀ (ops : List Op) (kind : Kind) (subject : Subject) (flag : Nat) (after : List Op),
      Issued ops kind subject flag after →
      (((run ops).of kind).cancelled flag = true ↔
        ∃ later ∈ after, later.cancels kind subject) := by
  intro hflags
  have hset := hflags [.startDocument .documentStream "a\x00b" "c",
      .startDocument .documentStream "a" "b\x00c"] (.document .documentStream)
    (.document "a\x00b" "c") 0 [.startDocument .documentStream "a" "b\x00c"]
    ⟨[], _, rfl, rfl, rfl⟩
  have htrue : ((run [.startDocument .documentStream "a\x00b" "c",
      .startDocument .documentStream "a" "b\x00c"]).of
        (.document .documentStream)).cancelled 0 = true := by
    decide
  obtain ⟨later, hlater, hcancels⟩ := hset.mp htrue
  rw [List.mem_singleton.mp hlater] at hcancels
  simp [Op.cancels, Op.starts] at hcancels

end ConnectionLifecycles

end ImportLens.Ipc
