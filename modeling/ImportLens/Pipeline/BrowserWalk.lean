import ImportLens.Pipeline.CssImportCycles

/-!
# The walk of a browser

A browser enters a sheet each time it is imported, unless the sheet is an ancestor of the
importing one.  It comes to a sheet by many ways; the cut is what it skips on the first.
-/

namespace ImportLens.Pipeline.CssImportCycles

open ImportLens.Support

variable {Sheet : Type} [DecidableEq Sheet]

/-! ## Visits -/

section

variable (imports : Sheet → List Sheet)

/-- The visits from `sheet`, in their order, cut off at a depth of `fuel`.  A visit is the
way to its sheet, which stands first, from the entry, which stands last. -/
def browse : Nat → List Sheet → Sheet → Option (List (List Sheet))
  | 0, _, _ => none
  | fuel + 1, ancestors, sheet =>
      let way := sheet :: ancestors
      let follow (visits : List (List Sheet)) (target : Sheet) : Option (List (List Sheet)) :=
        if target ∈ way then some visits
        else (browse fuel way target).map fun more => visits ++ more
      (imports sheet).foldlM follow [way]

def follow (fuel : Nat) (way : List Sheet) (visits : List (List Sheet)) (target : Sheet) :
    Option (List (List Sheet)) :=
  if target ∈ way then some visits
  else (browse imports fuel way target).map fun more => visits ++ more

theorem browse_succ (fuel : Nat) (ancestors : List Sheet) (sheet : Sheet) :
    browse imports (fuel + 1) ancestors sheet =
      (imports sheet).foldlM (follow imports fuel (sheet :: ancestors)) [sheet :: ancestors] := rfl

/-- On a visit of `a` its import of `b` is skipped. -/
def Skips (visit : List Sheet) (a b : Sheet) : Prop :=
  visit.head? = some a ∧ b ∈ imports a ∧ b ∈ visit

instance (visit : List Sheet) (a b : Sheet) : Decidable (Skips imports visit a b) :=
  inferInstanceAs (Decidable (_ ∧ _ ∧ _))

def firstVisit (visits : List (List Sheet)) (a : Sheet) : Option (List Sheet) :=
  visits.find? fun visit => visit.head? = some a

end

section

variable {imports : Sheet → List Sheet} {sheets : Finset Sheet} {sheet target : Sheet}
  {before middle after : Walk Sheet} {new new' : List Sheet} {visits more : List (List Sheet)}

/-- The walk knows what the visits come to for the first time, and cuts what is skipped then. -/
structure Firsts (imports : Sheet → List Sheet) (known new : List Sheet)
    (closing : Finset (Sheet × Sheet)) (visits : List (List Sheet)) : Prop where
  known : ∀ visit ∈ visits, ∃ x, visit.head? = some x ∧ (x ∈ new ∨ x ∈ known)
  first : ∀ x ∈ new, ∃ visit, firstVisit visits x = some visit ∧
    ∀ b, (x, b) ∈ closing ↔ Skips imports visit x b

theorem firstVisit_append (visits more : List (List Sheet)) (a : Sheet) :
    firstVisit (visits ++ more) a = (firstVisit visits a).or (firstVisit more a) :=
  List.find?_append

theorem Firsts.none {known : List Sheet} {closing : Finset (Sheet × Sheet)}
    (h : Firsts imports known new closing visits) {a : Sheet} (hnew : a ∉ new)
    (hknown : a ∉ known) : firstVisit visits a = none := by
  apply List.find?_eq_none.mpr
  intro visit hvisit hhead
  obtain ⟨x, hx, hin⟩ := h.known visit hvisit
  rw [decide_eq_true_eq, hx, Option.some.injEq] at hhead
  subst hhead
  rcases hin with hin | hin
  · exact hnew hin
  · exact hknown hin

theorem Firsts.nil (known : List Sheet) (closing : Finset (Sheet × Sheet)) :
    Firsts imports known [] closing [] where
  known visit hvisit := by cases hvisit
  first x hx := by cases hx

theorem Firsts.of_known {known : List Sheet} (closing : Finset (Sheet × Sheet))
    (h : ∀ visit ∈ visits, ∃ x, visit.head? = some x ∧ x ∈ known) :
    Firsts imports known [] closing visits where
  known visit hvisit := by
    obtain ⟨x, hx, hin⟩ := h visit hvisit
    exact ⟨x, hx, .inr hin⟩
  first x hx := by cases hx

/-- Some imports after some others. -/
theorem Firsts.append {first second : List Sheet}
    (htaken : Taken imports sheet first before middle new)
    (htaken' : Taken imports sheet second middle after new') (hsheet : sheet ∈ before.onStack)
    (h : Firsts imports before.finished new middle.closing visits)
    (h' : Firsts imports middle.finished new' after.closing more) :
    Firsts imports before.finished (new' ++ new) after.closing (visits ++ more) where
  known visit hvisit := by
    rcases List.mem_append.mp hvisit with hin | hin
    · obtain ⟨x, hx, hnew | hknown⟩ := h.known visit hin
      · exact ⟨x, hx, .inl (List.mem_append_right _ hnew)⟩
      · exact ⟨x, hx, .inr hknown⟩
    · obtain ⟨x, hx, hnew | hknown⟩ := h'.known visit hin
      · exact ⟨x, hx, .inl (List.mem_append_left _ hnew)⟩
      · rw [htaken.finished, List.mem_append] at hknown
        exact ⟨x, hx, hknown.imp_left (List.mem_append_right _)⟩
  first x hx := by
    rcases List.mem_append.mp hx with hin | hin
    · obtain ⟨visit, hfirst, hcut⟩ := h'.first x hin
      have hfresh := (htaken'.fresh x hin).2
      rw [htaken.finished, List.mem_append, not_or] at hfresh
      refine ⟨visit, ?_, hcut⟩
      rw [firstVisit_append, h.none hfresh.1 hfresh.2, Option.none_or]
      exact hfirst
    · obtain ⟨visit, hfirst, hcut⟩ := h.first x hin
      refine ⟨visit, ?_, fun b => ?_⟩
      · rw [firstVisit_append, hfirst, Option.some_or]
      · rw [← hcut b]
        constructor
        · intro hclosing
          rcases htaken'.closing x b hclosing with hold | ⟨hnew, -⟩ | ⟨rfl, -⟩
          · exact hold
          · have hfresh := (htaken'.fresh x hnew).2
            rw [htaken.finished] at hfresh
            exact absurd (List.mem_append_left _ hin) hfresh
          · exact absurd hsheet (htaken.fresh x hin).1
        · exact fun hclosing => htaken'.mono hclosing

def Apart (walk : Walk Sheet) : Prop := ∀ s ∈ walk.onStack, s ∉ walk.finished

theorem Taken.apart {targets : List Sheet} (h : Taken imports sheet targets before after new)
    (hapart : Apart before) : Apart after := by
  intro s hs hin
  rw [h.stack] at hs
  rw [h.finished, List.mem_append] at hin
  rcases hin with hnew | hold
  · exact (h.fresh s hnew).1 hs
  · exact hapart s hs hold

theorem Firsts.visited {walk : Walk Sheet}
    (h : Firsts imports walk.finished new after.closing more)
    (htaken : Taken imports sheet (imports sheet) { walk with onStack := sheet :: walk.onStack }
      after new)
    (hat : At imports sheets sheet walk) (hstack : sheet ∉ walk.onStack)
    (hfinished : sheet ∉ walk.finished) (hapart : Apart walk) :
    Firsts imports walk.finished (sheet :: new) after.closing
      ([sheet :: walk.onStack] ++ more) where
  known visit hvisit := by
    rcases List.mem_append.mp hvisit with hin | hin
    · rw [List.mem_singleton.mp hin]
      exact ⟨sheet, rfl, .inl List.mem_cons_self⟩
    · obtain ⟨x, hx, hnew | hknown⟩ := h.known visit hin
      · exact ⟨x, hx, .inl (List.mem_cons_of_mem _ hnew)⟩
      · exact ⟨x, hx, .inr hknown⟩
  first x hx := by
    rcases List.mem_cons.mp hx with rfl | hnew
    · refine ⟨x :: walk.onStack, ?_, fun b => ?_⟩
      · rw [firstVisit_append, firstVisit, List.find?_cons_of_pos (by simp), Option.some_or]
      · constructor
        · intro hclosing
          rcases htaken.closing x b hclosing with hold | ⟨hnew, -⟩ | ⟨-, hcycle, hb⟩
          · rcases hat.sources x b hold with hin | hin
            · exact absurd hin hfinished
            · exact absurd hin hstack
          · exact absurd List.mem_cons_self (htaken.fresh x hnew).1
          · exact ⟨rfl, hcycle.1, hb⟩
        · rintro ⟨-, himport, hb⟩
          rcases htaken.covered b himport with hin | hclosing
          · rw [htaken.finished, List.mem_append] at hin
            rcases hin with hnew | hold
            · exact absurd hb (htaken.fresh b hnew).1
            · rcases List.mem_cons.mp hb with rfl | hb
              · exact absurd hold hfinished
              · exact absurd hold (hapart b hb)
          · exact hclosing
    · obtain ⟨visit, hfirst, hcut⟩ := h.first x hnew
      refine ⟨visit, ?_, hcut⟩
      have hne : sheet ≠ x := by
        rintro rfl
        exact (htaken.fresh sheet hnew).1 List.mem_cons_self
      have hother : firstVisit [sheet :: walk.onStack] x = Option.none := by
        simp [firstVisit, hne]
      rw [firstVisit_append, hother, Option.none_or]
      exact hfirst

/-! ## Coming to a sheet again -/

/-- What `browse` answers for each import is what it adds. -/
theorem foldlM_follow_known {fuel : Nat} {way known : List Sheet} {targets : List Sheet}
    (htargets : ∀ t ∈ targets, t ∉ way → ∃ more,
      (∀ extra, browse imports (fuel + extra) way t = some more) ∧
        ∀ visit ∈ more, ∃ x, visit.head? = some x ∧ x ∈ known)
    (hvisits : ∀ visit ∈ visits, ∃ x, visit.head? = some x ∧ x ∈ known) :
    ∃ all, (∀ extra, targets.foldlM (follow imports (fuel + extra) way) visits = some all) ∧
      ∀ visit ∈ all, ∃ x, visit.head? = some x ∧ x ∈ known := by
  induction targets generalizing visits with
  | nil => exact ⟨visits, fun _ => rfl, hvisits⟩
  | cons target rest ih =>
    obtain ⟨hfirst, hrest⟩ := List.forall_mem_cons.mp htargets
    by_cases hway : target ∈ way
    · obtain ⟨all, hrun, hall⟩ := ih hrest hvisits
      refine ⟨all, fun extra => ?_, hall⟩
      rw [List.foldlM_cons, follow, if_pos hway]
      exact hrun extra
    · obtain ⟨more, hbrowse, hmore⟩ := hfirst hway
      have hboth : ∀ visit ∈ visits ++ more, ∃ x, visit.head? = some x ∧ x ∈ known := by
        intro visit hvisit
        rcases List.mem_append.mp hvisit with hin | hin
        · exact hvisits visit hin
        · exact hmore visit hin
      obtain ⟨all, hrun, hall⟩ := ih hrest hboth
      refine ⟨all, fun extra => ?_, hall⟩
      rw [List.foldlM_cons, follow, if_neg hway, hbrowse]
      exact hrun extra

/-- From a sheet known to it the browser comes to known sheets only. -/
theorem browse_known {known way : List Sheet} (fuel : Nat)
    (hclosed : ∀ a ∈ known, ∀ b ∈ imports a, b ∈ known ∨ b ∈ way)
    (hsheets : ∀ a ∈ known, a ∈ sheets) (hway : ∀ s ∈ way, s ∈ sheets) (hnodup : way.Nodup)
    (htarget : target ∈ known) (hnew : target ∉ way) (hfuel : sheets.card ≤ fuel + way.length) :
    ∃ more, (∀ extra, browse imports (fuel + extra) way target = some more) ∧
      ∀ visit ∈ more, ∃ x, visit.head? = some x ∧ x ∈ known := by
  induction fuel generalizing way target with
  | zero =>
    have hsub : (target :: way).toFinset ⊆ sheets := by
      intro s hs
      rcases List.mem_cons.mp (List.mem_toFinset.mp hs) with rfl | hin
      · exact hsheets s htarget
      · exact hway s hin
    have hcard := Finset.card_le_card hsub
    rw [List.toFinset_card_of_nodup (List.nodup_cons.mpr ⟨hnew, hnodup⟩), List.length_cons] at hcard
    omega
  | succ fuel ih =>
    have hroom : sheets.card ≤ fuel + (target :: way).length := by
      rw [List.length_cons]
      omega
    have hclosed' : ∀ a ∈ known, ∀ b ∈ imports a, b ∈ known ∨ b ∈ target :: way :=
      fun a ha b hb => (hclosed a ha b hb).imp_right (List.mem_cons_of_mem _)
    have hway' : ∀ s ∈ target :: way, s ∈ sheets := by
      intro s hs
      rcases List.mem_cons.mp hs with rfl | hin
      · exact hsheets s htarget
      · exact hway s hin
    have htargets : ∀ t ∈ imports target, t ∉ target :: way → ∃ more,
        (∀ extra, browse imports (fuel + extra) (target :: way) t = some more) ∧
          ∀ visit ∈ more, ∃ x, visit.head? = some x ∧ x ∈ known := by
      intro t ht hfresh
      have hknown : t ∈ known := (hclosed' target htarget t ht).resolve_right hfresh
      exact ih hclosed' hway' (List.nodup_cons.mpr ⟨hnew, hnodup⟩) hknown hfresh hroom
    have hstart : ∀ visit ∈ [target :: way], ∃ x, visit.head? = some x ∧ x ∈ known := by
      intro visit hvisit
      rw [List.mem_singleton.mp hvisit]
      exact ⟨target, rfl, htarget⟩
    obtain ⟨all, hrun, hall⟩ := foldlM_follow_known htargets hstart
    refine ⟨all, fun extra => ?_, hall⟩
    rw [Nat.add_right_comm, browse_succ]
    exact hrun extra

/-! ## Both walks -/

/-- The walk and the visits of depth `fuel` or more. -/
def BrowseSpec (imports : Sheet → List Sheet) (sheets : Finset Sheet) (fuel : Nat) : Prop :=
  ∀ sheet walk, At imports sheets sheet walk → Apart walk → (∀ s ∈ walk.finished, s ∈ sheets) →
    sheet ∈ sheets → sheet ∉ walk.onStack → sheet ∉ walk.finished →
    sheets.card ≤ fuel + walk.onStack.length →
      ∃ after new visits, (∀ extra, visit imports (fuel + extra) sheet walk = some after) ∧
        Visited imports sheet walk after new ∧ (∀ s ∈ after.finished, s ∈ sheets) ∧
        (∀ extra, browse imports (fuel + extra) walk.onStack sheet = some visits) ∧
        Firsts imports walk.finished new after.closing visits

theorem At.closed {walk : Walk Sheet} (h : At imports sheets sheet walk) {a b : Sheet}
    (ha : a ∈ walk.finished) (himport : b ∈ imports a) : b ∈ walk.finished ∨ b ∈ walk.onStack := by
  by_cases hcut : (a, b) ∈ walk.closing
  · exact h.targets a b hcut
  · exact .inl (h.topological.closed ha ⟨himport, hcut⟩)

theorem follow_spec {fuel : Nat} (hbrowse : BrowseSpec imports sheets fuel)
    (hat : At imports sheets sheet before) (hapart : Apart before)
    (hknown : ∀ s ∈ before.finished, s ∈ sheets) (himport : target ∈ imports sheet)
    (htarget : target ∈ sheets) (hfuel : sheets.card ≤ fuel + before.onStack.length) :
    ∃ after new more, (∀ extra, take imports (fuel + extra) sheet before target = some after) ∧
      Taken imports sheet [target] before after new ∧ (∀ s ∈ after.finished, s ∈ sheets) ∧
      (∀ extra visits, follow imports (fuel + extra) before.onStack visits target =
        some (visits ++ more)) ∧
      Firsts imports before.finished new after.closing more := by
  unfold take follow
  by_cases hstack : target ∈ before.onStack
  · simp only [if_pos hstack]
    refine ⟨_, [], [], fun _ => rfl, .ancestor hat himport hstack, hknown, fun _ visits => ?_,
      .nil _ _⟩
    rw [List.append_nil]
  · simp only [if_neg hstack]
    by_cases hfinished : target ∈ before.finished
    · simp only [if_pos hfinished]
      obtain ⟨more, hrun, hmore⟩ := browse_known fuel (fun a ha b hb => hat.closed ha hb) hknown
        hat.within hat.nodup hfinished hstack hfuel
      refine ⟨_, [], more, fun _ => rfl, .old hat hfinished, hknown, fun extra visits => ?_,
        .of_known _ hmore⟩
      rw [hrun, Option.map_some]
    · simp only [if_neg hfinished]
      obtain ⟨after, new, visits, hvisit, hvisited, hknown', hrun, hfirsts⟩ :=
        hbrowse target before (hat.import himport) hapart hknown htarget hstack hfinished hfuel
      refine ⟨after, new, visits, hvisit, hvisited.taken himport hstack, hknown',
        fun extra earlier => ?_, hfirsts⟩
      rw [hrun, Option.map_some]

theorem foldlM_follow_spec {fuel : Nat} {targets : List Sheet}
    (hbrowse : BrowseSpec imports sheets fuel) (hat : At imports sheets sheet before)
    (hapart : Apart before) (hknown : ∀ s ∈ before.finished, s ∈ sheets)
    (hsheet : sheet ∈ before.onStack) (himports : ∀ t ∈ targets, t ∈ imports sheet ∧ t ∈ sheets)
    (hfuel : sheets.card ≤ fuel + before.onStack.length) :
    ∃ after new more,
      (∀ extra, targets.foldlM (take imports (fuel + extra) sheet) before = some after) ∧
      Taken imports sheet targets before after new ∧ (∀ s ∈ after.finished, s ∈ sheets) ∧
      (∀ extra visits, targets.foldlM (follow imports (fuel + extra) before.onStack) visits =
        some (visits ++ more)) ∧
      Firsts imports before.finished new after.closing more := by
  induction targets generalizing before with
  | nil =>
    refine ⟨before, [], [], fun _ => rfl, .nil hat, hknown, fun _ visits => ?_, .nil _ _⟩
    rw [List.append_nil]
    rfl
  | cons target rest ih =>
    obtain ⟨himport, htarget⟩ := himports target List.mem_cons_self
    obtain ⟨middle, new, more, htake, htaken, hknown', hfollow, hfirsts⟩ :=
      follow_spec hbrowse hat hapart hknown himport htarget hfuel
    have hstack : middle.onStack = before.onStack := htaken.stack
    obtain ⟨after, new', more', hrest, htaken', hknown'', hfollows, hfirsts'⟩ :=
      ih (htaken.at hat hsheet) (htaken.apart hapart) hknown' (hstack ▸ hsheet)
        (fun t ht => himports t (List.mem_cons_of_mem _ ht)) (hstack ▸ hfuel)
    refine ⟨after, new' ++ new, more ++ more', fun extra => ?_, htaken.append htaken' hsheet,
      hknown'', fun extra visits => ?_, hfirsts.append htaken htaken' hsheet hfirsts'⟩
    · rw [List.foldlM_cons, htake]
      exact hrest extra
    · rw [hstack] at hfollows
      rw [List.foldlM_cons, hfollow, ← List.append_assoc]
      exact hfollows extra _

theorem browse_spec (hclosed : ∀ s ∈ sheets, ∀ t ∈ imports s, t ∈ sheets) (fuel : Nat) :
    BrowseSpec imports sheets fuel := by
  induction fuel with
  | zero =>
    intro sheet walk hat _ _ hsheet hstack _ hfuel
    have := hat.length_lt hsheet hstack
    omega
  | succ fuel ih =>
    intro sheet walk hat hapart hknown hsheet hstack hfinished hfuel
    have hroom : sheets.card ≤ fuel + (sheet :: walk.onStack).length := by
      rw [List.length_cons]
      omega
    have hapart' : Apart { walk with onStack := sheet :: walk.onStack } := by
      intro s hs
      rcases List.mem_cons.mp hs with rfl | hin
      · exact hfinished
      · exact hapart s hin
    obtain ⟨after, new, more, hrun, htaken, hknown', hbrowse, hfirsts⟩ :=
      foldlM_follow_spec ih (hat.enter hsheet hstack) hapart' hknown List.mem_cons_self
        (fun t ht => ⟨ht, hclosed sheet hsheet t ht⟩) hroom
    have hfirsts' : Firsts imports walk.finished new after.closing more := hfirsts
    refine ⟨_, _, _, fun extra => ?_, htaken.visited hat hstack hfinished, fun s hs => ?_,
      fun extra => ?_, hfirsts'.visited htaken hat hstack hfinished hapart⟩
    · rw [Nat.add_right_comm, visit_succ, hrun, Option.map_some]
    · rcases List.mem_cons.mp hs with rfl | hin
      · exact hsheet
      · exact hknown' s hin
    · rw [Nat.add_right_comm, browse_succ]
      exact hbrowse extra _

end

/-- The walk cuts an import exactly if the browser skips it when it first visits the importing
sheet.  Both walks end, at a depth of at most the number of the sheets. -/
theorem closing_edges_first_visits (graph : ImportGraph Sheet) (entry : graph.sheets) :
    ∃ closing visits,
      (∀ extra, closingEdges graph.imports (graph.sheets.card + extra) entry = some closing) ∧
      (∀ extra, browse graph.imports (graph.sheets.card + extra) [] entry = some visits) ∧
      ∀ a b, (a, b) ∈ closing ↔
        ∃ visit, firstVisit visits a = some visit ∧ Skips graph.imports visit a b := by
  obtain ⟨entry, hentry⟩ := entry
  have hapart : Apart ({} : Walk Sheet) := fun s hs => nomatch hs
  obtain ⟨after, new, visits, hvisit, hvisited, -, hbrowse, hfirsts⟩ :=
    browse_spec graph.closed graph.sheets.card entry {} (at_start _ _ _) hapart
      (fun s hs => nomatch hs) hentry List.not_mem_nil List.not_mem_nil (Nat.le_refl _)
  refine ⟨after.closing, visits, fun extra => ?_, hbrowse, fun a b => ?_⟩
  · rw [closingEdges, hvisit, Option.map_some]
  · constructor
    · intro hclosing
      rcases hvisited.closing a b hclosing with hold | ⟨hnew, -⟩
      · exact absurd hold (Finset.notMem_empty _)
      · obtain ⟨visit, hfirst, hcut⟩ := hfirsts.first a hnew
        exact ⟨visit, hfirst, (hcut b).mp hclosing⟩
    · rintro ⟨visit, hfirst, hskips⟩
      have hnew : a ∈ new := by
        by_contra hnew
        rw [hfirsts.none hnew List.not_mem_nil] at hfirst
        cases hfirst
      obtain ⟨visit', hfirst', hcut⟩ := hfirsts.first a hnew
      rw [hfirst, Option.some.injEq] at hfirst'
      subst hfirst'
      exact (hcut b).mpr hskips

def mutualImports : String → List String
  | "e" => ["b", "a"]
  | "a" => ["b"]
  | "b" => ["a"]
  | _ => []

/-- The browser skips both imports, each below the other sheet; the walk cuts one. -/
theorem second_visit_skips_uncut_edge :
    closingEdges mutualImports 3 "e" = some {("a", "b")} ∧
    browse mutualImports 3 [] "e" =
      some [["e"], ["b", "e"], ["a", "b", "e"], ["a", "e"], ["b", "a", "e"]] ∧
    Skips mutualImports ["b", "a", "e"] "b" "a" ∧ ("b", "a") ∉ ({("a", "b")} : Finset _) := by
  decide

end ImportLens.Pipeline.CssImportCycles
