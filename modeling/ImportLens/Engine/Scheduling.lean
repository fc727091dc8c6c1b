import ImportLens.Engine.Admission
import ImportLens.Support.SortedDedup
import ImportLens.Support.WorkQueue

/-!
# Bounded drains

The imports that need the engine are handed to a few worker threads, which take their
indexes from one cursor and finish in any order.  Each of the four drains gives every
item to the work once, and a drain that returns results puts each at the place of the
item it was computed for.

What the work answers, and in which order the threads run, may be anything.
-/

namespace ImportLens.Engine.Scheduling

open ImportLens.Engine.Admission ImportLens.Support ImportLens.Support.WorkQueue

def missDrainWorkers : Nat := enginePermits + 2

variable {τ υ ρ : Type}

/-! ## The bounded drain -/

def runsInline (items : List τ) (onPool : Bool) : Bool := decide (items.length ≤ 1) && !onPool

def workersFor (items : List τ) : Nat := min missDrainWorkers items.length

/-- `drain_bounded` can end in `s`: the calls were made inline, or every worker of some
schedule was joined. -/
inductive DrainBounded (callback : Callback τ υ) (items : List τ) (onPool : Bool) :
    Shared τ υ ρ → Prop
  | inline {s : Shared τ υ ρ} (hinline : runsInline items onPool = true) (work : Nat → υ → ρ)
      (hrun : inline callback work (List.range items.length) { slots := items.map some } = some s) :
      DrainBounded callback items onPool s
  | joined {acts : List (Nat × ρ)} {d : Config (Shared τ υ ρ) (Position υ ρ)}
      (hspawns : runsInline items onPool = false)
      (hruns : Runs (program callback) (Spawned (workersFor items)) (start items) acts d)
      (hjoined : ∀ t < workersFor items, d.thread t = .stopped) :
      DrainBounded callback items onPool d.shared

/-- What holds of a drain under every schedule: no `expect` fails, every schedule ends and
can only end with all workers joined, and then everything is delivered. -/
structure Drains (ρ : Type) (callback : Callback τ υ) (items : List τ) (onPool : Bool) : Prop where
  inline_runs : ∀ work : Nat → υ → ρ,
    (inline callback work (List.range items.length) { slots := items.map some }).isSome
  no_panic : ∀ (acts : List (Nat × ρ)) d,
    Runs (program callback) (Spawned (workersFor items)) (start items) acts d →
      ∀ t < workersFor items, d.thread t ≠ .panicked
  ends : ∀ (acts : List (Nat × ρ)) d,
    Runs (program callback) (Spawned (workersFor items)) (start items) acts d →
      acts.length ≤ 4 * items.length + workersFor items
  proceeds : ∀ (acts : List (Nat × ρ)) d,
    Runs (program callback) (Spawned (workersFor items)) (start items) acts d →
      ∀ t < workersFor items, d.thread t ≠ .stopped → ∀ result,
        ∃ next, d.step (program callback) t result = some next
  delivers : ∀ s : Shared τ υ ρ, DrainBounded callback items onPool s →
    Delivered callback items s

theorem drains {callback : Callback τ υ} {items : List τ}
    (htotal : ∀ item ∈ items, (callback.argument item).isSome) (onPool : Bool) :
    Drains ρ callback items onPool := by
  constructor
  · intro work
    obtain ⟨s, hrun, -⟩ := inline_range htotal work
    rw [hrun]
    rfl
  · intro acts d hruns
    exact (Invariant.of_runs htotal hruns).running
  · intro acts d hruns
    have hlength := length_of_runs hruns
    rw [stepsLeft_start] at hlength
    omega
  · intro acts d hruns t ht hrunning result
    exact (Invariant.of_runs htotal hruns).step_exists ht hrunning result
  · intro s hdrain
    cases hdrain with
    | inline hinline work hrun =>
      obtain ⟨s', hrun', hdelivered⟩ := inline_range htotal work
      rw [hrun'] at hrun
      cases hrun
      exact hdelivered
    | joined hspawns hruns hjoined =>
      apply (Invariant.of_runs htotal hruns).delivered hjoined
      unfold workersFor missDrainWorkers enginePermits
      omega

/-! ## The drains -/

def borrowed : Callback τ τ := ⟨false, some⟩

def taken : Callback τ τ := ⟨true, some⟩

def drainOrdered (s : Shared τ υ ρ) : List ρ :=
  (sortByKey Prod.fst (s.completed.map fun call => (call.index, call.result))).map Prod.snd

def classified {π : Type} (classify : Nat → τ → Except π ρ) (items : List τ) :
    List (Except π ρ) := items.mapIdx classify

def settledOf {π : Type} (outcomes : List (Except π ρ)) : List (Option ρ) :=
  outcomes.map Except.toOption

def pendingOf {π : Type} (outcomes : List (Except π ρ)) : List (Nat × π) :=
  (outcomes.zipIdx).filterMap fun (outcome, index) =>
    match outcome with
    | .ok _ => none
    | .error work => some (index, work)

def deferred {π : Type} (items : List τ) : Callback (Nat × π) (Nat × τ × π) :=
  ⟨true, fun (index, work) => items[index]?.map fun item => (index, item, work)⟩

/-- Write each result at the index that its call was made for; an index that is out of
range is a panic. -/
def scatter {π : Type} (settled : List (Option ρ)) (calls : List (Call (Nat × τ × π) ρ)) :
    Option (List (Option ρ)) :=
  calls.foldlM (fun settled call =>
    if call.argument.1 < settled.length then some (settled.set call.argument.1 (some call.result))
    else none) settled

/-- `drain_classified`, given the state its drain ended in, if it had one. -/
def drainClassified {π : Type} (outcomes : List (Except π ρ))
    (drained : Shared (Nat × π) (Nat × τ × π) ρ) : Option (List ρ) :=
  let settled := settledOf outcomes
  if (pendingOf outcomes).isEmpty then settled.mapM id
  else (scatter settled drained.completed).bind fun settled => settled.mapM id

/-! ## In the order of the items -/

/-- Each item has its place in the output, and the result of its call there. -/
structure Placed (items : List τ) (s : Shared τ υ ρ) (output : List ρ) : Prop where
  length : output.length = items.length
  at_index : ∀ call ∈ s.calls, output[call.index]? = some call.result

theorem placed_drainOrdered {callback : Callback τ υ} {items : List τ} {s : Shared τ υ ρ}
    (h : Delivered callback items s) : Placed items s (drainOrdered s) := by
  let pairs := s.completed.map fun call => (call.index, call.result)
  have hindexes : (sortByKey Prod.fst pairs).map Prod.fst = List.range items.length := by
    have hperm : ((sortByKey Prod.fst pairs).map Prod.fst).Perm (List.range items.length) := by
      apply (sortByKey_perm.map Prod.fst).trans
      rw [List.map_map]
      exact (h.published.map Call.index).trans h.once
    apply hperm.eq_of_pairwise (fun a b _ _ hab hba => Nat.le_antisymm hab hba)
    · exact List.pairwise_map.mpr sortByKey_pairwise
    · exact List.pairwise_lt_range.imp fun hlt => Nat.le_of_lt hlt
  have hlength : (sortByKey Prod.fst pairs).length = items.length := by
    rw [← List.length_map Prod.fst, hindexes, List.length_range]
  constructor
  · rw [drainOrdered, List.length_map]
    exact hlength
  · intro call hcall
    have hpair : (call.index, call.result) ∈ sortByKey Prod.fst pairs :=
      mem_sortByKey.mpr (List.mem_map.mpr ⟨call, h.published.mem_iff.mpr hcall, rfl⟩)
    obtain ⟨k, hk⟩ := List.mem_iff_getElem?.mp hpair
    have hplace : (List.range items.length)[k]? = some call.index := by
      rw [← hindexes, List.getElem?_map, hk]
      rfl
    have hindex : k = call.index := by
      rw [List.getElem?_eq_some_iff] at hplace
      obtain ⟨_, hrange⟩ := hplace
      rwa [List.getElem_range] at hrange
    rw [drainOrdered, List.getElem?_map, ← hindex]
    exact congrArg (Option.map Prod.snd) hk

/-! ## Answered and pending items -/

section

variable {π : Type} {classify : Nat → τ → Except π ρ} {items : List τ}

theorem getElem?_classified (classify : Nat → τ → Except π ρ) (items : List τ) (i : Nat) :
    (classified classify items)[i]? = items[i]?.map (classify i) := List.getElem?_mapIdx

theorem getElem?_settledOf (outcomes : List (Except π ρ)) (i : Nat) :
    (settledOf outcomes)[i]? = outcomes[i]?.map Except.toOption := List.getElem?_map

theorem mem_pendingOf {outcomes : List (Except π ρ)} {i : Nat} {work : π} :
    (i, work) ∈ pendingOf outcomes ↔ outcomes[i]? = some (.error work) := by
  rw [pendingOf, List.mem_filterMap]
  constructor
  · rintro ⟨⟨outcome, index⟩, hmem, houtcome⟩
    cases outcome with
    | ok result => cases houtcome
    | error work' =>
      cases houtcome
      exact List.mem_zipIdx_iff_getElem?.mp hmem
  · intro h
    exact ⟨(.error work, i), List.mem_zipIdx_iff_getElem?.mpr h, rfl⟩

theorem nodup_pendingOf (outcomes : List (Except π ρ)) :
    ((pendingOf outcomes).map Prod.fst).Nodup := by
  have hsub : ((pendingOf outcomes).map Prod.fst).Sublist (outcomes.zipIdx.map Prod.snd) := by
    rw [pendingOf]
    induction outcomes.zipIdx with
    | nil => exact .slnil
    | cons pair rest ih =>
      obtain ⟨outcome, index⟩ := pair
      cases outcome with
      | ok result => exact ih.cons index
      | error work => exact ih.cons_cons index
  apply hsub.nodup
  rw [List.zipIdx_map_snd]
  exact List.nodup_range'

/-- Writing each result at its own index. -/
theorem scatter_eq_some {settled : List (Option ρ)} {calls : List (Call (Nat × τ × π) ρ)}
    (hrange : ∀ call ∈ calls, call.argument.1 < settled.length)
    (hnodup : (calls.map fun call => call.argument.1).Nodup) :
    ∃ written, scatter settled calls = some written ∧ written.length = settled.length ∧
      (∀ call ∈ calls, written[call.argument.1]? = some (some call.result)) ∧
      ∀ i, (∀ call ∈ calls, call.argument.1 ≠ i) → written[i]? = settled[i]? := by
  induction calls generalizing settled with
  | nil => exact ⟨settled, rfl, rfl, fun _ h => (List.not_mem_nil h).elim, fun _ _ => rfl⟩
  | cons call rest ih =>
    obtain ⟨hfresh, hrest⟩ := List.nodup_cons.mp hnodup
    have hlt := hrange call List.mem_cons_self
    have hset : (settled.set call.argument.1 (some call.result)).length = settled.length :=
      List.length_set
    have hrange' : ∀ other ∈ rest,
        other.argument.1 < (settled.set call.argument.1 (some call.result)).length := by
      intro other hother
      rw [hset]
      exact hrange other (List.mem_cons_of_mem _ hother)
    obtain ⟨written, hwritten, hlength, hcalls, hothers⟩ := ih hrange' hrest
    refine ⟨written, ?_, hlength.trans hset, ?_, ?_⟩
    · rw [scatter, List.foldlM_cons, if_pos hlt]
      exact hwritten
    · intro other hother
      rcases List.mem_cons.mp hother with rfl | hlater
      · rw [hothers _ fun later hlater heq => hfresh (List.mem_map.mpr ⟨later, hlater, heq⟩),
          List.getElem?_set_self hlt]
      · exact hcalls other hlater
    · intro i hi
      rw [hothers i fun later hlater => hi later (List.mem_cons_of_mem _ hlater),
        List.getElem?_set_ne (hi call List.mem_cons_self)]

theorem mapM_id_eq_some {options : List (Option ρ)} (h : ∀ option ∈ options, option.isSome) :
    ∃ output, options.mapM id = some output ∧ options = output.map some := by
  induction options with
  | nil => exact ⟨[], rfl, rfl⟩
  | cons option rest ih =>
    obtain ⟨output, houtput, hrest⟩ := ih fun o ho => h o (List.mem_cons_of_mem _ ho)
    obtain ⟨value, hvalue⟩ := Option.isSome_iff_exists.mp (h option List.mem_cons_self)
    refine ⟨value :: output, ?_, by rw [hvalue, hrest, List.map_cons]⟩
    rw [List.mapM_cons, houtput, hvalue]
    rfl

theorem deferred_total :
    ∀ slot ∈ pendingOf (classified classify items), ((deferred items).argument slot).isSome := by
  rintro ⟨i, work⟩ hpending
  have hclassified := mem_pendingOf.mp hpending
  rw [getElem?_classified] at hclassified
  obtain ⟨item, hitem, -⟩ := Option.map_eq_some_iff.mp hclassified
  simp [deferred, hitem]

/-- What a call of the drain was made for. -/
theorem argument_of_call {s : Shared (Nat × π) (Nat × τ × π) ρ}
    (h : Delivered (deferred items) (pendingOf (classified classify items)) s)
    {call : Call (Nat × τ × π) ρ} (hcall : call ∈ s.calls) :
    ∃ i item work, (pendingOf (classified classify items))[call.index]? = some (i, work) ∧
      items[i]? = some item ∧ classify i item = .error work ∧ call.argument = (i, item, work) := by
  obtain ⟨⟨i, work⟩, hslot, hargument⟩ := h.argued call hcall
  obtain ⟨item, hitem, heq⟩ := Option.map_eq_some_iff.mp hargument
  have hpending := mem_pendingOf.mp (List.mem_of_getElem? hslot)
  rw [getElem?_classified, hitem, Option.map_some, Option.some.injEq] at hpending
  exact ⟨i, item, work, hslot, hitem, hpending, heq.symm⟩

/-- Every pending item has its call. -/
theorem exists_call {s : Shared (Nat × π) (Nat × τ × π) ρ}
    (h : Delivered (deferred items) (pendingOf (classified classify items)) s)
    {i : Nat} {item : τ} {work : π} (hitem : items[i]? = some item)
    (hwork : classify i item = .error work) :
    ∃ call ∈ s.calls, call.argument = (i, item, work) := by
  have hpending : (i, work) ∈ pendingOf (classified classify items) := by
    rw [mem_pendingOf, getElem?_classified, hitem, Option.map_some, hwork]
  obtain ⟨k, hk⟩ := List.mem_iff_getElem?.mp hpending
  have hrange : k ∈ List.range (pendingOf (classified classify items)).length := by
    rw [List.mem_range]
    exact (List.getElem?_eq_some_iff.mp hk).1
  obtain ⟨call, hcall, rfl⟩ := List.mem_map.mp (h.once.mem_iff.mpr hrange)
  obtain ⟨i', item', work', hslot, hitem', -, hargument⟩ := argument_of_call h hcall
  rw [hk] at hslot
  cases hslot
  rw [hitem] at hitem'
  cases hitem'
  exact ⟨call, hcall, hargument⟩

theorem nodup_arguments {s : Shared (Nat × π) (Nat × τ × π) ρ}
    (h : Delivered (deferred items) (pendingOf (classified classify items)) s) :
    (s.calls.map fun call => call.argument.1).Nodup := by
  have hindexes : (s.calls.map Call.index).Nodup := h.once.nodup_iff.mpr List.nodup_range
  rw [List.nodup_iff_pairwise_ne, List.pairwise_map] at hindexes ⊢
  apply hindexes.imp_of_mem
  intro a b ha hb hne heq
  obtain ⟨i, _, work, hslot, -, -, harg⟩ := argument_of_call h ha
  obtain ⟨i', _, work', hslot', -, -, harg'⟩ := argument_of_call h hb
  rw [harg, harg'] at heq
  apply hne
  have hkeys : ((pendingOf (classified classify items)).map Prod.fst)[a.index]? = some i := by
    rw [List.getElem?_map, hslot]
    rfl
  have hkeys' : ((pendingOf (classified classify items)).map Prod.fst)[b.index]? = some i := by
    rw [List.getElem?_map, hslot']
    exact congrArg some heq.symm
  have hlt := (List.getElem?_eq_some_iff.mp hkeys).1
  exact (List.getElem?_inj hlt (nodup_pendingOf _)).mp (hkeys.trans hkeys'.symm)

end

/-- What `drain_classified` answers: the answer of the classification where there was one,
and elsewhere the result of the one call made for the item. -/
structure Answered {π : Type} (items : List τ) (classify : Nat → τ → Except π ρ)
    (calls : List (Call (Nat × τ × π) ρ)) (output : List ρ) : Prop where
  length : output.length = items.length
  settled : ∀ i item result, items[i]? = some item → classify i item = .ok result →
    output[i]? = some result ∧ ∀ call ∈ calls, call.argument.1 ≠ i
  drained : ∀ i item work, items[i]? = some item → classify i item = .error work →
    ∃ call ∈ calls, call.argument = (i, item, work) ∧ output[i]? = some call.result ∧
      ∀ other ∈ calls, other.argument.1 = i → other = call

section

variable {π : Type} {classify : Nat → τ → Except π ρ} {items : List τ}
  {s : Shared (Nat × π) (Nat × τ × π) ρ}

/-- The settled results with the results of the drain written over them. -/
theorem exists_written
    (h : Delivered (deferred items) (pendingOf (classified classify items)) s) :
    ∃ written output, scatter (settledOf (classified classify items)) s.completed = some written ∧
      written.mapM id = some output ∧ Answered items classify s.calls output := by
  have hlength : (settledOf (classified classify items)).length = items.length := by
    rw [settledOf, List.length_map, classified, List.length_mapIdx]
  have hrange : ∀ call ∈ s.completed,
      call.argument.1 < (settledOf (classified classify items)).length := by
    intro call hcall
    obtain ⟨i, item, work, -, hitem, -, hargument⟩ :=
      argument_of_call h (h.published.mem_iff.mp hcall)
    rw [hargument, hlength]
    exact (List.getElem?_eq_some_iff.mp hitem).1
  obtain ⟨written, hwritten, hwrittenLength, hcalls, hothers⟩ :=
    scatter_eq_some hrange ((h.published.map _).nodup_iff.mpr (nodup_arguments h))
  have hsettled : ∀ i item result, items[i]? = some item → classify i item = .ok result →
      written[i]? = some (some result) ∧ ∀ call ∈ s.calls, call.argument.1 ≠ i := by
    intro i item result hitem hresult
    have hnone : ∀ call ∈ s.calls, call.argument.1 ≠ i := by
      rintro call hcall rfl
      obtain ⟨j, item', work, -, hitem', hwork, hargument⟩ := argument_of_call h hcall
      rw [hargument] at hitem hresult
      rw [hitem] at hitem'
      cases hitem'
      rw [hresult] at hwork
      cases hwork
    refine ⟨?_, hnone⟩
    rw [hothers i fun call hcall => hnone call (h.published.mem_iff.mp hcall), getElem?_settledOf,
      getElem?_classified, hitem, Option.map_some, hresult]
    rfl
  have hdrained : ∀ i item work, items[i]? = some item → classify i item = .error work →
      ∃ call ∈ s.calls, call.argument = (i, item, work) ∧
        written[i]? = some (some call.result) := by
    intro i item work hitem hwork
    obtain ⟨call, hcall, hargument⟩ := exists_call h hitem hwork
    have hplace := hcalls call (h.published.mem_iff.mpr hcall)
    rw [hargument] at hplace
    exact ⟨call, hcall, hargument, hplace⟩
  have hsome : ∀ option ∈ written, option.isSome := by
    intro option hoption
    obtain ⟨i, hi⟩ := List.mem_iff_getElem?.mp hoption
    have hlt : i < items.length := by
      rw [← hlength, ← hwrittenLength]
      exact (List.getElem?_eq_some_iff.mp hi).1
    have hitem : items[i]? = some items[i] := List.getElem?_eq_getElem hlt
    cases hclassify : classify i items[i] with
    | ok result =>
      rw [(hsettled i _ result hitem hclassify).1] at hi
      cases hi
      rfl
    | error work =>
      obtain ⟨call, -, -, hplace⟩ := hdrained i _ work hitem hclassify
      rw [hplace] at hi
      cases hi
      rfl
  obtain ⟨output, houtput, hmap⟩ := mapM_id_eq_some hsome
  have hread : ∀ (i : Nat) (result : ρ),
      written[i]? = some (some result) → output[i]? = some result := by
    intro i result hi
    rw [hmap, List.getElem?_map, Option.map_eq_some_iff] at hi
    obtain ⟨value, hvalue, heq⟩ := hi
    cases heq
    exact hvalue
  refine ⟨written, output, hwritten, houtput, ?_, ?_, ?_⟩
  · rw [← hlength, ← hwrittenLength, hmap, List.length_map]
  · intro i item result hitem hresult
    obtain ⟨hplace, hnone⟩ := hsettled i item result hitem hresult
    exact ⟨hread i result hplace, hnone⟩
  · intro i item work hitem hwork
    obtain ⟨call, hcall, hargument, hplace⟩ := hdrained i item work hitem hwork
    refine ⟨call, hcall, hargument, hread i _ hplace, fun other hother hi => ?_⟩
    apply List.inj_on_of_nodup_map (nodup_arguments h) hother hcall
    rw [hi, hargument]

/-- Where nothing is pending, nothing is written. -/
theorem drainClassified_eq
    (h : Delivered (deferred items) (pendingOf (classified classify items)) s) :
    drainClassified (classified classify items) s =
      (scatter (settledOf (classified classify items)) s.completed).bind fun settled =>
        settled.mapM id := by
  unfold drainClassified
  dsimp only
  split
  · rename_i hempty
    have hnil := List.isEmpty_iff.mp hempty
    have hcalls : s.calls.map Call.index = [] := by
      have hperm := h.once
      rw [hnil] at hperm
      exact hperm.eq_nil
    have hcompleted : s.completed = [] := by
      have hperm := h.published
      rw [List.map_eq_nil_iff.mp hcalls] at hperm
      exact hperm.eq_nil
    rw [hcompleted]
    rfl
  · rfl

end

/-- For every list of items, every classification and every schedule of the workers, none of the
four drains can panic and all of them end; each item is handed to the work once, as the item of
its own place, and the results stand at the places of their items. -/
theorem drains_deliver {τ ρ π : Type} (items : List τ) (onPool : Bool) :
    (Drains ρ borrowed items onPool ∧ ∀ s : Shared τ τ ρ, DrainBounded borrowed items onPool s →
      Placed items s (drainOrdered s)) ∧
    (Drains ρ taken items onPool ∧ ∀ s : Shared τ τ ρ, DrainBounded taken items onPool s →
      Placed items s (drainOrdered s)) ∧
    Drains Unit taken items onPool ∧
    ∀ classify : Nat → τ → Except π ρ,
      Drains ρ (deferred items) (pendingOf (classified classify items)) onPool ∧
      ∀ s : Shared (Nat × π) (Nat × τ × π) ρ,
        DrainBounded (deferred items) (pendingOf (classified classify items)) onPool s →
          ∃ output, drainClassified (classified classify items) s = some output ∧
            Answered items classify s.calls output := by
  have hborrowed : Drains ρ borrowed items onPool := drains (fun _ _ => rfl) onPool
  have htaken : Drains ρ taken items onPool := drains (fun _ _ => rfl) onPool
  refine ⟨⟨hborrowed, fun s hs => placed_drainOrdered (hborrowed.delivers s hs)⟩,
    ⟨htaken, fun s hs => placed_drainOrdered (htaken.delivers s hs)⟩,
    drains (fun _ _ => rfl) onPool, fun classify => ?_⟩
  have hdeferred : Drains ρ (deferred items) (pendingOf (classified classify items)) onPool :=
    drains deferred_total onPool
  refine ⟨hdeferred, fun s hs => ?_⟩
  have hdelivered := hdeferred.delivers s hs
  obtain ⟨written, output, hwritten, houtput, hanswered⟩ := exists_written hdelivered
  refine ⟨output, ?_, hanswered⟩
  rw [drainClassified_eq hdelivered, hwritten, Option.bind_some, houtput]

end ImportLens.Engine.Scheduling
