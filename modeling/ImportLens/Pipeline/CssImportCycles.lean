import ImportLens.Support.Acyclic
import ImportLens.Support.Keyed
import Mathlib.Data.Finset.Card

/-!
# Cycles of stylesheet imports

A browser walks the imports of a stylesheet depth-first and skips one whose target is
an ancestor of the importing sheet.  The walk here finds those edges, and the bundler
is given the tree without them.

A sheet is whatever tells two paths apart.  The order of the imports of a sheet is the
order the walk takes them in, and one target may be imported more than once.
-/

namespace ImportLens.Pipeline.CssImportCycles

open Relation ImportLens.Support

variable {Sheet : Type} [DecidableEq Sheet]

/-! ## The walk -/

structure Walk (Sheet : Type) [DecidableEq Sheet] where
  onStack : List Sheet := []
  /-- The sheet finished last stands first. -/
  finished : List Sheet := []
  closing : Finset (Sheet × Sheet) := ∅

section

variable (imports : Sheet → List Sheet)

/-- `Walk::visit`, cut off at a depth of `fuel`. -/
def visit : Nat → Sheet → Walk Sheet → Option (Walk Sheet)
  | 0, _, _ => none
  | fuel + 1, sheet, walk =>
      let enter := { walk with onStack := sheet :: walk.onStack }
      let take (walk : Walk Sheet) (target : Sheet) : Option (Walk Sheet) :=
        if target ∈ walk.onStack then
          some { walk with closing := insert (sheet, target) walk.closing }
        else if target ∈ walk.finished then some walk
        else visit fuel target walk
      ((imports sheet).foldlM take enter).map fun walk =>
        { walk with
          onStack := walk.onStack.erase sheet
          finished := sheet :: walk.finished }

def take (fuel : Nat) (sheet : Sheet) (walk : Walk Sheet) (target : Sheet) :
    Option (Walk Sheet) :=
  if target ∈ walk.onStack then
    some { walk with closing := insert (sheet, target) walk.closing }
  else if target ∈ walk.finished then some walk
  else visit imports fuel target walk

theorem visit_succ (fuel : Nat) (sheet : Sheet) (walk : Walk Sheet) :
    visit imports (fuel + 1) sheet walk =
      ((imports sheet).foldlM (take imports fuel sheet)
        { walk with onStack := sheet :: walk.onStack }).map fun walk =>
          { walk with
            onStack := walk.onStack.erase sheet
            finished := sheet :: walk.finished } := rfl

/-- `closing_edges`, cut off at a depth of `fuel`. -/
def closingEdges (fuel : Nat) (entry : Sheet) : Option (Finset (Sheet × Sheet)) :=
  (visit imports fuel entry {}).map Walk.closing

end

/-! ## What a visit does -/

section

variable (imports : Sheet → List Sheet)

def Imports (a b : Sheet) : Prop := b ∈ imports a

def Kept (closing : Finset (Sheet × Sheet)) (a b : Sheet) : Prop :=
  b ∈ imports a ∧ (a, b) ∉ closing

/-- An import whose target leads back to it. -/
def OnCycle (a b : Sheet) : Prop := b ∈ imports a ∧ ReflTransGen (Imports imports) b a

/-- A walk that has come to `sheet`, over a set of sheets. -/
structure At (sheets : Finset Sheet) (sheet : Sheet) (walk : Walk Sheet) : Prop where
  nodup : walk.onStack.Nodup
  within : ∀ s ∈ walk.onStack, s ∈ sheets
  /-- The stack is the way to the sheet. -/
  reaches : ∀ s ∈ walk.onStack, ReflTransGen (Imports imports) s sheet
  sources : ∀ a b, (a, b) ∈ walk.closing → a ∈ walk.finished ∨ a ∈ walk.onStack
  targets : ∀ a b, (a, b) ∈ walk.closing → b ∈ walk.finished ∨ b ∈ walk.onStack
  topological : Topological (Kept imports walk.closing) walk.finished

/-- A visit of `sheet` finishes the sheets `new`, the sheet among them. -/
structure Visited (sheet : Sheet) (before after : Walk Sheet) (new : List Sheet) : Prop where
  finished : after.finished = new ++ before.finished
  stack : after.onStack = before.onStack
  fresh : ∀ x ∈ new, x ∉ before.onStack ∧ x ∉ before.finished
  mem : sheet ∈ new
  mono : before.closing ⊆ after.closing
  closing : ∀ a b, (a, b) ∈ after.closing → (a, b) ∈ before.closing ∨
    (a ∈ new ∧ OnCycle imports a b ∧ (b ∈ before.onStack ∨ b ∈ new))
  topological : Topological (Kept imports after.closing) after.finished
  /-- The new sheets are reached over imports that no later visit can cut. -/
  reached : ∀ cut : Finset (Sheet × Sheet),
    (∀ a b, a ∈ new → (a, b) ∈ cut → (a, b) ∈ after.closing) →
      ∀ x ∈ new, ReflTransGen (Kept imports cut) sheet x

/-- Taking the imports `targets` of `sheet` finishes the sheets `new`. -/
structure Taken (sheet : Sheet) (targets : List Sheet) (before after : Walk Sheet)
    (new : List Sheet) : Prop where
  finished : after.finished = new ++ before.finished
  stack : after.onStack = before.onStack
  fresh : ∀ x ∈ new, x ∉ before.onStack ∧ x ∉ before.finished
  mono : before.closing ⊆ after.closing
  closing : ∀ a b, (a, b) ∈ after.closing → (a, b) ∈ before.closing ∨
    (a ∈ new ∧ OnCycle imports a b ∧ (b ∈ before.onStack ∨ b ∈ new)) ∨
    (a = sheet ∧ OnCycle imports a b ∧ b ∈ before.onStack)
  topological : Topological (Kept imports after.closing) after.finished
  covered : ∀ t ∈ targets, t ∈ after.finished ∨ (sheet, t) ∈ after.closing
  reached : ∀ cut : Finset (Sheet × Sheet),
    (∀ a b, a ∈ new → (a, b) ∈ cut → (a, b) ∈ after.closing) →
    (∀ b, (sheet, b) ∈ cut → b ∈ before.onStack) →
      ∀ x ∈ new, ReflTransGen (Kept imports cut) sheet x

end

section

variable {imports : Sheet → List Sheet} {sheets : Finset Sheet} {sheet target : Sheet}
  {walk before after : Walk Sheet} {new targets : List Sheet}

theorem Taken.at (h : Taken imports sheet targets before after new)
    (hat : At imports sheets sheet before) (hsheet : sheet ∈ before.onStack) :
    At imports sheets sheet after := by
  constructor
  · rw [h.stack]
    exact hat.nodup
  · rw [h.stack]
    exact hat.within
  · rw [h.stack]
    exact hat.reaches
  · intro a b hin
    rw [h.finished, h.stack, List.mem_append]
    rcases h.closing a b hin with hold | ⟨hnew, -, -⟩ | ⟨rfl, -, -⟩
    · rcases hat.sources a b hold with hfinished | hstack
      · exact .inl (.inr hfinished)
      · exact .inr hstack
    · exact .inl (.inl hnew)
    · exact .inr hsheet
  · intro a b hin
    rw [h.finished, h.stack, List.mem_append]
    rcases h.closing a b hin with hold | ⟨-, -, hstack | hnew⟩ | ⟨-, -, hstack⟩
    · rcases hat.targets a b hold with hfinished | hstack
      · exact .inl (.inr hfinished)
      · exact .inr hstack
    · exact .inr hstack
    · exact .inl (.inl hnew)
    · exact .inr hstack
  · exact h.topological

theorem Taken.nil (hat : At imports sheets sheet before) :
    Taken imports sheet [] before before [] := by
  constructor
  · rfl
  · rfl
  · intro x hx
    cases hx
  · exact Finset.Subset.refl _
  · intro a b hin
    exact .inl hin
  · exact hat.topological
  · intro t ht
    cases ht
  · intro _ _ _ x hx
    cases hx

/-- One import after some others. -/
theorem Taken.append {first second : List Sheet} {middle : Walk Sheet} {new new' : List Sheet}
    (h : Taken imports sheet first before middle new)
    (h' : Taken imports sheet second middle after new')
    (hsheet : sheet ∈ before.onStack) :
    Taken imports sheet (first ++ second) before after (new' ++ new) := by
  have hapart : ∀ x ∈ new, x ∉ new' := by
    intro x hx hx'
    apply (h'.fresh x hx').2
    rw [h.finished]
    exact List.mem_append_left _ hx
  constructor
  · rw [h'.finished, h.finished, List.append_assoc]
  · rw [h'.stack, h.stack]
  · intro x hx
    rcases List.mem_append.mp hx with hlater | hearlier
    · obtain ⟨hstack, hfinished⟩ := h'.fresh x hlater
      rw [h.stack] at hstack
      rw [h.finished, List.mem_append, not_or] at hfinished
      exact ⟨hstack, hfinished.2⟩
    · exact h.fresh x hearlier
  · exact h.mono.trans h'.mono
  · intro a b hin
    rw [List.mem_append, List.mem_append]
    rcases h'.closing a b hin with hmiddle | ⟨hnew, hcycle, hb⟩ | ⟨rfl, hcycle, hb⟩
    · rcases h.closing a b hmiddle with hold | ⟨hnew, hcycle, hb⟩ | hown
      · exact .inl hold
      · exact .inr (.inl ⟨.inr hnew, hcycle, hb.imp_right .inr⟩)
      · exact .inr (.inr hown)
    · rw [h.stack] at hb
      exact .inr (.inl ⟨.inl hnew, hcycle, hb.imp_right .inl⟩)
    · rw [h.stack] at hb
      exact .inr (.inr ⟨rfl, hcycle, hb⟩)
  · exact h'.topological
  · intro t ht
    rcases List.mem_append.mp ht with hfirst | hsecond
    · rcases h.covered t hfirst with hfinished | hclosing
      · rw [h'.finished]
        exact .inl (List.mem_append_right _ hfinished)
      · exact .inr (h'.mono hclosing)
    · exact h'.covered t hsecond
  · intro cut hcut hown x hx
    rcases List.mem_append.mp hx with hlater | hearlier
    · apply h'.reached cut _ _ x hlater
      · intro a b ha hin
        exact hcut a b (List.mem_append_left _ ha) hin
      · rw [h.stack]
        exact hown
    · apply h.reached cut _ hown x hearlier
      intro a b ha hin
      rcases h'.closing a b (hcut a b (List.mem_append_right _ ha) hin) with hmiddle | hnew | hself
      · exact hmiddle
      · exact absurd hnew.1 (hapart a ha)
      · exact absurd (hself.1 ▸ hsheet) (h.fresh a ha).1

theorem Taken.ancestor (hat : At imports sheets sheet before) (himport : target ∈ imports sheet)
    (hstack : target ∈ before.onStack) :
    Taken imports sheet [target] before
      { before with closing := insert (sheet, target) before.closing } [] := by
  constructor
  · rfl
  · rfl
  · intro x hx
    cases hx
  · exact Finset.subset_insert _ _
  · intro a b hin
    rcases Finset.mem_insert.mp hin with heq | hold
    · obtain ⟨rfl, rfl⟩ := Prod.mk.inj heq
      exact .inr (.inr ⟨rfl, ⟨himport, hat.reaches _ hstack⟩, hstack⟩)
    · exact .inl hold
  · exact hat.topological.mono fun _ _ _ hkept =>
      ⟨hkept.1, fun hin => hkept.2 (Finset.mem_insert_of_mem hin)⟩
  · intro t ht
    rw [List.mem_singleton.mp ht]
    exact .inr (Finset.mem_insert_self _ _)
  · intro _ _ _ x hx
    cases hx

theorem Taken.old (hat : At imports sheets sheet before) (hfinished : target ∈ before.finished) :
    Taken imports sheet [target] before before [] := by
  have hnil := Taken.nil hat
  constructor
  · exact hnil.finished
  · exact hnil.stack
  · exact hnil.fresh
  · exact hnil.mono
  · exact hnil.closing
  · exact hnil.topological
  · intro t ht
    rw [List.mem_singleton.mp ht]
    exact .inl hfinished
  · exact hnil.reached

theorem Visited.taken (h : Visited imports target before after new)
    (himport : target ∈ imports sheet) (hstack : target ∉ before.onStack) :
    Taken imports sheet [target] before after new := by
  constructor
  · exact h.finished
  · exact h.stack
  · exact h.fresh
  · exact h.mono
  · intro a b hin
    rcases h.closing a b hin with hold | hnew
    · exact .inl hold
    · exact .inr (.inl hnew)
  · exact h.topological
  · intro t ht
    rw [List.mem_singleton.mp ht, h.finished]
    exact .inl (List.mem_append_left _ h.mem)
  · intro cut hcut hown x hx
    have hkept : Kept imports cut sheet target :=
      ⟨himport, fun hin => hstack (hown target hin)⟩
    exact .head hkept (h.reached cut hcut x hx)

theorem Taken.visited
    (h : Taken imports sheet (imports sheet)
      { walk with onStack := sheet :: walk.onStack } after new)
    (hat : At imports sheets sheet walk) (hstack : sheet ∉ walk.onStack)
    (hfinished : sheet ∉ walk.finished) :
    Visited imports sheet walk
      { after with onStack := after.onStack.erase sheet, finished := sheet :: after.finished }
      (sheet :: new) := by
  have hself : sheet ∉ new := fun hin => (h.fresh sheet hin).1 List.mem_cons_self
  have hown : ∀ b, (sheet, b) ∈ after.closing → b = sheet ∨ b ∈ walk.onStack := by
    intro b hin
    rcases h.closing sheet b hin with hold | ⟨hnew, -, -⟩ | ⟨-, -, hb⟩
    · rcases hat.sources sheet b hold with hin | hin
      · exact absurd hin hfinished
      · exact absurd hin hstack
    · exact absurd hnew hself
    · exact List.mem_cons.mp hb
  constructor
  · rw [h.finished]
    rfl
  · dsimp only
    rw [h.stack, List.erase_cons_head]
  · intro x hx
    rcases List.mem_cons.mp hx with rfl | hnew
    · exact ⟨hstack, hfinished⟩
    · obtain ⟨hnotStack, hnotFinished⟩ := h.fresh x hnew
      exact ⟨fun hin => hnotStack (List.mem_cons_of_mem _ hin), hnotFinished⟩
  · exact List.mem_cons_self
  · exact h.mono
  · intro a b hin
    rcases h.closing a b hin with hold | ⟨hnew, hcycle, hb⟩ | ⟨rfl, hcycle, hb⟩
    · exact .inl hold
    · refine .inr ⟨List.mem_cons_of_mem _ hnew, hcycle, ?_⟩
      rcases hb with hin | hin
      · rcases List.mem_cons.mp hin with rfl | hin
        · exact .inr List.mem_cons_self
        · exact .inl hin
      · exact .inr (List.mem_cons_of_mem _ hin)
    · refine .inr ⟨List.mem_cons_self, hcycle, ?_⟩
      rcases List.mem_cons.mp hb with rfl | hin
      · exact .inr List.mem_cons_self
      · exact .inl hin
  · refine ⟨fun y hkept => ?_, h.topological⟩
    rcases h.covered y hkept.1 with hin | hclosing
    · exact hin
    · exact absurd hclosing hkept.2
  · intro cut hcut x hx
    rcases List.mem_cons.mp hx with rfl | hnew
    · exact .refl
    · apply h.reached cut _ _ x hnew
      · intro a b ha hin
        exact hcut a b (List.mem_cons_of_mem _ ha) hin
      · intro b hin
        exact List.mem_cons.mpr (hown b (hcut sheet b List.mem_cons_self hin))

theorem At.import (h : At imports sheets sheet walk) (himport : target ∈ imports sheet) :
    At imports sheets target walk where
  nodup := h.nodup
  within := h.within
  reaches s hs := (h.reaches s hs).tail himport
  sources := h.sources
  targets := h.targets
  topological := h.topological

theorem At.enter (h : At imports sheets sheet walk) (hsheet : sheet ∈ sheets)
    (hstack : sheet ∉ walk.onStack) :
    At imports sheets sheet { walk with onStack := sheet :: walk.onStack } where
  nodup := List.nodup_cons.mpr ⟨hstack, h.nodup⟩
  within s hs := by
    rcases List.mem_cons.mp hs with rfl | hin
    · exact hsheet
    · exact h.within s hin
  reaches s hs := by
    rcases List.mem_cons.mp hs with rfl | hin
    · exact .refl
    · exact h.reaches s hin
  sources a b hin := (h.sources a b hin).imp_right (List.mem_cons_of_mem _)
  targets a b hin := (h.targets a b hin).imp_right (List.mem_cons_of_mem _)
  topological := h.topological

theorem At.length_lt (h : At imports sheets sheet walk) (hsheet : sheet ∈ sheets)
    (hstack : sheet ∉ walk.onStack) : walk.onStack.length < sheets.card := by
  have henter := h.enter hsheet hstack
  have hsub : (sheet :: walk.onStack).toFinset ⊆ sheets :=
    fun s hs => henter.within s (List.mem_toFinset.mp hs)
  have hcard := Finset.card_le_card hsub
  rw [List.toFinset_card_of_nodup henter.nodup, List.length_cons] at hcard
  omega

/-- What a visit of depth `fuel` or more guarantees. -/
def VisitSpec (imports : Sheet → List Sheet) (sheets : Finset Sheet) (fuel : Nat) : Prop :=
  ∀ sheet walk, At imports sheets sheet walk → sheet ∈ sheets → sheet ∉ walk.onStack →
    sheet ∉ walk.finished → sheets.card ≤ fuel + walk.onStack.length →
      ∃ after new, (∀ extra, visit imports (fuel + extra) sheet walk = some after) ∧
        Visited imports sheet walk after new

theorem take_spec {fuel : Nat} (hvisit : VisitSpec imports sheets fuel)
    (hat : At imports sheets sheet before) (himport : target ∈ imports sheet)
    (htarget : target ∈ sheets) (hfuel : sheets.card ≤ fuel + before.onStack.length) :
    ∃ after new, (∀ extra, take imports (fuel + extra) sheet before target = some after) ∧
      Taken imports sheet [target] before after new := by
  unfold take
  by_cases hstack : target ∈ before.onStack
  · simp only [if_pos hstack]
    exact ⟨_, [], fun _ => rfl, .ancestor hat himport hstack⟩
  · simp only [if_neg hstack]
    by_cases hfinished : target ∈ before.finished
    · simp only [if_pos hfinished]
      exact ⟨_, [], fun _ => rfl, .old hat hfinished⟩
    · simp only [if_neg hfinished]
      obtain ⟨after, new, hrun, hvisited⟩ :=
        hvisit target before (hat.import himport) htarget hstack hfinished hfuel
      exact ⟨after, new, hrun, hvisited.taken himport hstack⟩

theorem foldlM_take_spec {fuel : Nat} (hvisit : VisitSpec imports sheets fuel)
    (hat : At imports sheets sheet before) (hsheet : sheet ∈ before.onStack)
    (himports : ∀ t ∈ targets, t ∈ imports sheet ∧ t ∈ sheets)
    (hfuel : sheets.card ≤ fuel + before.onStack.length) :
    ∃ after new, (∀ extra, targets.foldlM (take imports (fuel + extra) sheet) before = some after) ∧
      Taken imports sheet targets before after new := by
  induction targets generalizing before with
  | nil => exact ⟨before, [], fun _ => rfl, .nil hat⟩
  | cons target rest ih =>
    obtain ⟨himport, htarget⟩ := himports target List.mem_cons_self
    obtain ⟨middle, new, hrun, htaken⟩ := take_spec hvisit hat himport htarget hfuel
    have hstack : middle.onStack = before.onStack := htaken.stack
    obtain ⟨after, new', hrest, htaken'⟩ := ih (htaken.at hat hsheet) (hstack ▸ hsheet)
      (fun t ht => himports t (List.mem_cons_of_mem _ ht)) (hstack ▸ hfuel)
    refine ⟨after, new' ++ new, ?_, htaken.append htaken' hsheet⟩
    intro extra
    rw [List.foldlM_cons, hrun]
    exact hrest extra

theorem visit_spec (hclosed : ∀ s ∈ sheets, ∀ t ∈ imports s, t ∈ sheets) (fuel : Nat) :
    VisitSpec imports sheets fuel := by
  induction fuel with
  | zero =>
    intro sheet walk hat hsheet hstack _ hfuel
    have := hat.length_lt hsheet hstack
    omega
  | succ fuel ih =>
    intro sheet walk hat hsheet hstack hfinished hfuel
    have hroom : sheets.card ≤ fuel + (sheet :: walk.onStack).length := by
      rw [List.length_cons]
      omega
    obtain ⟨after, new, hrun, htaken⟩ := foldlM_take_spec ih (hat.enter hsheet hstack)
      List.mem_cons_self (fun t ht => ⟨ht, hclosed sheet hsheet t ht⟩) hroom
    refine ⟨_, _, fun extra => ?_, htaken.visited hat hstack hfinished⟩
    rw [Nat.add_right_comm, visit_succ, hrun, Option.map_some]

end

/-! ## The cut -/

/-- A finite import graph: the imports of its sheets are sheets of it. -/
structure ImportGraph (Sheet : Type) where
  sheets : Finset Sheet
  imports : Sheet → List Sheet
  closed : ∀ s ∈ sheets, ∀ t ∈ imports s, t ∈ sheets

/-- What cutting `closing` does to the graph seen from `entry`. -/
structure CutsCycles (imports : Sheet → List Sheet) (entry : Sheet)
    (closing : Finset (Sheet × Sheet)) : Prop where
  acyclic : ∀ s, ReflTransGen (Kept imports closing) entry s →
    ¬ TransGen (Kept imports closing) s s
  reaches : ∀ s, ReflTransGen (Kept imports closing) entry s ↔
    ReflTransGen (Imports imports) entry s
  on_cycle : ∀ a b, (a, b) ∈ closing →
    ReflTransGen (Imports imports) entry a ∧ OnCycle imports a b
  empty_iff : closing = ∅ ↔
    ∀ s, ReflTransGen (Imports imports) entry s → ¬ TransGen (Imports imports) s s

section

variable {imports : Sheet → List Sheet} {entry : Sheet} {after : Walk Sheet} {new : List Sheet}

theorem at_start (imports : Sheet → List Sheet) (sheets : Finset Sheet) (entry : Sheet) :
    At imports sheets entry {} where
  nodup := .nil
  within s hs := by cases hs
  reaches s hs := by cases hs
  sources a b hin := absurd hin (Finset.notMem_empty _)
  targets a b hin := absurd hin (Finset.notMem_empty _)
  topological := trivial

theorem Visited.cutsCycles (h : Visited imports entry {} after new) :
    CutsCycles imports entry after.closing := by
  have hfinished : after.finished = new := by
    rw [h.finished]
    exact List.append_nil _
  have hentry : entry ∈ after.finished := hfinished ▸ h.mem
  have htopological := h.topological
  have hclosing : ∀ a b, (a, b) ∈ after.closing →
      a ∈ after.finished ∧ OnCycle imports a b ∧ b ∈ after.finished := by
    intro a b hin
    rcases h.closing a b hin with hold | ⟨hnew, hcycle, hb⟩
    · exact absurd hold (Finset.notMem_empty _)
    · rw [hfinished]
      exact ⟨hnew, hcycle, hb.resolve_left List.not_mem_nil⟩
  have hreached : ∀ s ∈ after.finished, ReflTransGen (Kept imports after.closing) entry s := by
    intro s hs
    exact h.reached after.closing (fun _ _ _ hin => hin) s (hfinished ▸ hs)
  have hall : ∀ s, ReflTransGen (Imports imports) entry s → s ∈ after.finished := by
    intro s hs
    induction hs with
    | refl => exact hentry
    | @tail a b _ hedge ih =>
      by_cases hcut : (a, b) ∈ after.closing
      · exact (hclosing a b hcut).2.2
      · exact htopological.closed ih ⟨hedge, hcut⟩
  have hkept : ∀ s, ReflTransGen (Kept imports after.closing) entry s →
      ReflTransGen (Imports imports) entry s :=
    fun s => ReflTransGen.mono (fun _ _ hedge => And.left hedge) entry s
  constructor
  · intro s hs
    exact htopological.acyclic (hall s (hkept s hs))
  · intro s
    exact ⟨hkept s, fun hs => hreached s (hall s hs)⟩
  · intro a b hin
    obtain ⟨ha, hcycle, -⟩ := hclosing a b hin
    exact ⟨hkept a (hreached a ha), hcycle⟩
  · constructor
    · intro hempty s hs hcycle
      apply htopological.acyclic (hall s hs)
      have hsub : ∀ a b, Imports imports a b → Kept imports after.closing a b := by
        intro a b hedge
        refine ⟨hedge, ?_⟩
        rw [hempty]
        exact Finset.notMem_empty _
      exact TransGen.mono hsub s s hcycle
    · intro hacyclic
      rw [Finset.eq_empty_iff_forall_notMem]
      rintro ⟨a, b⟩ hin
      obtain ⟨ha, hcycle, -⟩ := hclosing a b hin
      exact hacyclic a (hkept a (hreached a ha)) (.head' hcycle.1 hcycle.2)

omit [DecidableEq Sheet] in
/-- Another order of the imports of each sheet is the same graph. -/
theorem CutsCycles.empty_iff_of_same {imports' : Sheet → List Sheet}
    {closing closing' : Finset (Sheet × Sheet)} (h : CutsCycles imports entry closing)
    (h' : CutsCycles imports' entry closing')
    (hsame : ∀ s, ReflTransGen (Imports imports) entry s → ∀ t, t ∈ imports' s ↔ t ∈ imports s) :
    closing' = ∅ ↔ closing = ∅ := by
  have hreach : ∀ s, ReflTransGen (Imports imports') entry s ↔
      ReflTransGen (Imports imports) entry s := by
    intro s
    constructor
    · intro hs
      induction hs with
      | refl => exact .refl
      | @tail a b _ hedge ih => exact ih.tail ((hsame a ih b).mp hedge)
    · intro hs
      induction hs with
      | refl => exact .refl
      | @tail a b ha hedge ih => exact ih.tail ((hsame a ha b).mpr hedge)
  have hcycle : ∀ s, ReflTransGen (Imports imports) entry s →
      (TransGen (Imports imports') s s ↔ TransGen (Imports imports) s s) := by
    intro s hs
    have hforth : ∀ t, TransGen (Imports imports') s t → TransGen (Imports imports) s t := by
      intro t ht
      induction ht with
      | single hedge => exact .single ((hsame s hs _).mp hedge)
      | tail _ hedge ih => exact ih.tail ((hsame _ (hs.trans ih.to_reflTransGen) _).mp hedge)
    have hback : ∀ t, TransGen (Imports imports) s t → TransGen (Imports imports') s t := by
      intro t ht
      induction ht with
      | single hedge => exact .single ((hsame s hs _).mpr hedge)
      | tail hpath hedge ih =>
        exact ih.tail ((hsame _ (hs.trans hpath.to_reflTransGen) _).mpr hedge)
    exact ⟨hforth s, hback s⟩
  rw [h'.empty_iff, h.empty_iff]
  constructor
  · intro hacyclic s hs
    rw [← hcycle s hs]
    exact hacyclic s ((hreach s).mpr hs)
  · intro hacyclic s hs
    rw [hcycle s ((hreach s).mp hs)]
    exact hacyclic s ((hreach s).mp hs)

end

/-! ## The probe -/

def sortedAdjacency (edges : List (Sheet × Sheet)) : Keyed Sheet (List Sheet) :=
  edges.foldl (fun adjacency edge =>
    adjacency.insert edge.1 ((adjacency.lookup edge.1).getD [] ++ [edge.2])) ∅

def recordedImports (edges : List (Sheet × Sheet)) (sheet : Sheet) : List Sheet :=
  ((sortedAdjacency edges).lookup sheet).getD []

theorem mem_recordedImports {edges : List (Sheet × Sheet)} {s t : Sheet} :
    t ∈ recordedImports edges s ↔ (s, t) ∈ edges := by
  induction edges using List.reverseRecOn with
  | nil =>
    constructor
    · intro h
      cases h
    · intro h
      cases h
  | append_singleton edges edge ih =>
    obtain ⟨a, b⟩ := edge
    unfold recordedImports sortedAdjacency at ih ⊢
    rw [List.foldl_append, List.foldl_cons, List.foldl_nil, Keyed.lookup_insert_eq, List.mem_append,
      List.mem_singleton, ← ih, Prod.mk.injEq]
    by_cases hs : s = a
    · subst hs
      rw [if_pos rfl, Option.getD_some, List.mem_append, List.mem_singleton]
      simp only [true_and]
    · rw [if_neg hs]
      simp only [hs, false_and, or_false]

/-- `TrackingProvider::closing_edges`: the recorded edges tell whether there is a cycle, and
only then are the sheets read again for the order of their imports. -/
def trackingClosingEdges (fuel : Nat) (edges : List (Sheet × Sheet))
    (orderedImports : Sheet → List Sheet) (entry : Sheet) :
    Option (Option (Finset (Sheet × Sheet))) :=
  (closingEdges (recordedImports edges) fuel entry).bind fun probe =>
    if probe = ∅ then some none else (closingEdges orderedImports fuel entry).map some

theorem exists_closingEdges {imports : Sheet → List Sheet} {sheets : Finset Sheet} {entry : Sheet}
    (hclosed : ∀ s ∈ sheets, ∀ t ∈ imports s, t ∈ sheets) (hentry : entry ∈ sheets) :
    ∃ closing, (∀ extra, closingEdges imports (sheets.card + extra) entry = some closing) ∧
      CutsCycles imports entry closing := by
  obtain ⟨after, new, hrun, hvisited⟩ := visit_spec hclosed sheets.card entry {}
    (at_start imports sheets entry) hentry List.not_mem_nil List.not_mem_nil (Nat.le_refl _)
  refine ⟨after.closing, fun extra => ?_, hvisited.cutsCycles⟩
  rw [closingEdges, hrun, Option.map_some]

omit [DecidableEq Sheet] in
theorem ImportGraph.mem_of_reach (graph : ImportGraph Sheet) {a b : Sheet} (ha : a ∈ graph.sheets)
    (h : ReflTransGen (Imports graph.imports) a b) : b ∈ graph.sheets := by
  induction h with
  | refl => exact ha
  | @tail b c _ hedge ih => exact graph.closed b ih c hedge

/-- In every finite import graph the walk from an entry ends, at a depth of at most the number of
the sheets.  Without the edges it finds, no sheet that is reached lies on a cycle and the same
sheets are reached; each of those edges lies on a cycle; and there is none exactly if the graph
seen from the entry is acyclic.  Any other order of the imports finds none exactly if this one
does, so the probe of the recorded edges is empty exactly if the cut would be. -/
theorem closing_edges_cut (graph : ImportGraph Sheet) (entry : graph.sheets) :
    ∃ closing,
      (∀ extra, closingEdges graph.imports (graph.sheets.card + extra) entry = some closing) ∧
      CutsCycles graph.imports entry closing ∧
      (∀ imports' : Sheet → List Sheet,
        (∀ s ∈ graph.sheets, ∀ t, t ∈ imports' s ↔ t ∈ graph.imports s) →
          ∃ closing', (∀ extra,
              closingEdges imports' (graph.sheets.card + extra) entry = some closing') ∧
            CutsCycles imports' entry closing' ∧ (closing' = ∅ ↔ closing = ∅)) ∧
      ∀ edges : List (Sheet × Sheet),
        (∀ s ∈ graph.sheets, ∀ t, (s, t) ∈ edges ↔ t ∈ graph.imports s) →
          ∀ extra, trackingClosingEdges (graph.sheets.card + extra) edges graph.imports entry =
            some (if closing = ∅ then none else some closing) := by
  obtain ⟨entry, hentry⟩ := entry
  obtain ⟨closing, hrun, hcuts⟩ := exists_closingEdges graph.closed hentry
  have hother : ∀ imports' : Sheet → List Sheet,
      (∀ s ∈ graph.sheets, ∀ t, t ∈ imports' s ↔ t ∈ graph.imports s) →
        ∃ closing', (∀ extra,
            closingEdges imports' (graph.sheets.card + extra) entry = some closing') ∧
          CutsCycles imports' entry closing' ∧ (closing' = ∅ ↔ closing = ∅) := by
    intro imports' hsame
    have hclosed : ∀ s ∈ graph.sheets, ∀ t ∈ imports' s, t ∈ graph.sheets :=
      fun s hs t ht => graph.closed s hs t ((hsame s hs t).mp ht)
    obtain ⟨closing', hrun', hcuts'⟩ := exists_closingEdges hclosed hentry
    refine ⟨closing', hrun', hcuts', hcuts.empty_iff_of_same hcuts' fun s hs => ?_⟩
    exact hsame s (graph.mem_of_reach hentry hs)
  refine ⟨closing, hrun, hcuts, hother, fun edges hedges extra => ?_⟩
  obtain ⟨probe, hprobe, -, hempty⟩ := hother (recordedImports edges)
    fun s hs t => mem_recordedImports.trans (hedges s hs t)
  rw [trackingClosingEdges, hprobe, Option.bind_some, hrun]
  by_cases hnone : closing = ∅
  · rw [if_pos (hempty.mpr hnone), if_pos hnone]
  · rw [if_neg (fun heq => hnone (hempty.mp heq)), if_neg hnone, Option.map_some]

end ImportLens.Pipeline.CssImportCycles
