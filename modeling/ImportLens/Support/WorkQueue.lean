import ImportLens.Support.Interleaving
import Mathlib.Data.List.Nodup
import Mathlib.Data.List.Range

/-!
# Work queues

Workers take the indexes of a list from one shared cursor, call the work on the item
in the slot of each index, and publish what it answered in the order of completion.
The slot of an item may be emptied when it is taken, and a second taking then fails.

Between them, the workers hold exactly the indexes that were taken and not called
yet, and exactly the calls that were not published yet.  When all of them have
stopped, every item was called once and every call published once.
-/

namespace ImportLens.Support

/-! ## What threads hold between them -/

section

variable {π β : Type}

/-- What the threads below `n` hold, each by its position. -/
def inHand (hold : π → List β) (thread : Nat → π) (n : Nat) : List β :=
  (List.range n).flatMap fun t => hold (thread t)

theorem flatMap_update_of_notMem {ts : List Nat} {t : Nat} (h : t ∉ ts) (hold : π → List β)
    (thread : Nat → π) (p : π) :
    (ts.flatMap fun u => hold (Function.update thread t p u)) =
      ts.flatMap fun u => hold (thread u) := by
  apply List.flatMap_congr
  intro u hu
  rw [Function.update_of_ne]
  rintro rfl
  exact h hu

theorem inHand_update (hold : π → List β) (thread : Nat → π) {t n : Nat} (ht : t < n) :
    ∃ rest, (inHand hold thread n).Perm (hold (thread t) ++ rest) ∧
      ∀ p, (inHand hold (Function.update thread t p) n).Perm (hold p ++ rest) := by
  have hperm := List.perm_cons_erase (List.mem_range.mpr ht)
  have hnotMem : t ∉ (List.range n).erase t :=
    fun hmem => (List.nodup_range.mem_erase_iff.mp hmem).1 rfl
  refine ⟨((List.range n).erase t).flatMap fun u => hold (thread u), ?_, fun p => ?_⟩
  · exact hperm.flatMap_right _
  · have hmoved := hperm.flatMap_right fun u => hold (Function.update thread t p u)
    rw [List.flatMap_cons, Function.update_self, flatMap_update_of_notMem hnotMem] at hmoved
    exact hmoved

theorem mem_inHand {hold : π → List β} {thread : Nat → π} {t n : Nat} {b : β} (ht : t < n)
    (hb : b ∈ hold (thread t)) : b ∈ inHand hold thread n :=
  List.mem_flatMap.mpr ⟨t, List.mem_range.mpr ht, hb⟩

theorem inHand_eq_nil {hold : π → List β} {thread : Nat → π} {n : Nat}
    (h : ∀ t < n, hold (thread t) = []) : inHand hold thread n = [] := by
  rw [inHand, List.flatMap_eq_nil_iff]
  intro t ht
  exact h t (List.mem_range.mp ht)

theorem inHand_apart {hold : π → List β} {thread : Nat → π} {t u n : Nat} {b : β}
    (hnodup : (inHand hold thread n).Nodup) (ht : t < n) (hu : u < n)
    (hbt : b ∈ hold (thread t)) (hbu : b ∈ hold (thread u)) : t = u := by
  by_contra hne
  have hperm := (List.perm_cons_erase (List.mem_range.mpr ht)).flatMap_right
    fun u => hold (thread u)
  rw [List.flatMap_cons] at hperm
  have hrest : u ∈ (List.range n).erase t :=
    List.nodup_range.mem_erase_iff.mpr ⟨fun heq => hne heq.symm, List.mem_range.mpr hu⟩
  have hdisjoint := List.disjoint_of_nodup_append (hperm.nodup_iff.mp hnodup)
  exact hdisjoint hbt (List.mem_flatMap.mpr ⟨u, hrest, hbu⟩)

end

namespace WorkQueue

variable {τ υ ρ : Type}

/-! ## The workers -/

/-- How a worker gets from the item in a slot to the argument of the work. -/
structure Callback (τ υ : Type) where
  /-- Whether taking the item empties its slot. -/
  owned : Bool
  /-- `none` is a panic. -/
  argument : τ → Option υ

/-- A call of the work that returned. -/
structure Call (υ ρ : Type) where
  index : Nat
  argument : υ
  result : ρ

structure Shared (τ υ ρ : Type) where
  cursor : Nat := 0
  slots : List (Option τ)
  calls : List (Call υ ρ) := []
  /-- In the order of completion. -/
  completed : List (Call υ ρ) := []

inductive Position (υ ρ : Type)
  | ready
  | fetched (index : Nat)
  | calling (index : Nat) (argument : υ)
  | publishing (call : Call υ ρ)
  | stopped
  | panicked

def Callback.fetch (callback : Callback τ υ) (index : Nat) (s : Shared τ υ ρ) :
    Option (υ × Shared τ υ ρ) :=
  s.slots[index]?.join.bind fun item =>
    (callback.argument item).map fun argument =>
      (argument, if callback.owned then { s with slots := s.slots.set index none } else s)

def program (callback : Callback τ υ) : Program (Shared τ υ ρ) (Position υ ρ) ρ :=
  fun _ result s position =>
    match position with
    | .ready =>
        some ({ s with cursor := s.cursor + 1 },
          if s.cursor < s.slots.length then .fetched s.cursor else .stopped)
    | .fetched index =>
        match callback.fetch index s with
        | some (argument, s) => some (s, .calling index argument)
        | none => some (s, .panicked)
    | .calling index argument =>
        some ({ s with calls := s.calls ++ [⟨index, argument, result⟩] },
          .publishing ⟨index, argument, result⟩)
    | .publishing call => some ({ s with completed := s.completed ++ [call] }, .ready)
    | .stopped => none
    | .panicked => none

def start (items : List τ) : Config (Shared τ υ ρ) (Position υ ρ) :=
  ⟨{ slots := items.map some }, fun _ => .ready⟩

/-- Only the workers that were spawned take steps. -/
def Spawned (workers : Nat) (_ : Config (Shared τ υ ρ) (Position υ ρ)) (t : Nat) (_ : ρ) : Prop :=
  t < workers

def inline (callback : Callback τ υ) (work : Nat → υ → ρ) :
    List Nat → Shared τ υ ρ → Option (Shared τ υ ρ)
  | [], s => some s
  | index :: rest, s =>
      (callback.fetch index s).bind fun (argument, s) =>
        let call := ⟨index, argument, work index argument⟩
        inline callback work rest
          { s with calls := s.calls ++ [call], completed := s.completed ++ [call] }

/-! ## What the workers keep -/

def Position.taken : Position υ ρ → List Nat
  | .fetched index => [index]
  | .calling index _ => [index]
  | _ => []

def Position.unpublished : Position υ ρ → List (Call υ ρ)
  | .publishing call => [call]
  | _ => []

structure Invariant (callback : Callback τ υ) (items : List τ) (workers : Nat)
    (c : Config (Shared τ υ ρ) (Position υ ρ)) : Prop where
  length : c.shared.slots.length = items.length
  indexes : (c.shared.calls.map Call.index ++ inHand Position.taken c.thread workers).Perm
    (List.range (min c.shared.cursor items.length))
  published : (c.shared.completed ++ inHand Position.unpublished c.thread workers).Perm
    c.shared.calls
  /-- The slots of the items to come are full. -/
  full : ∀ index item, items[index]? = some item →
    (c.shared.cursor ≤ index ∨ ∃ t < workers, c.thread t = .fetched index) →
      c.shared.slots[index]? = some (some item)
  calling : ∀ t < workers, ∀ index argument, c.thread t = .calling index argument →
    ∃ item, items[index]? = some item ∧ callback.argument item = some argument
  argued : ∀ call ∈ c.shared.calls,
    ∃ item, items[call.index]? = some item ∧ callback.argument item = some call.argument
  running : ∀ t < workers, c.thread t ≠ .panicked
  stopped : ∀ t < workers, c.thread t = .stopped → items.length ≤ c.shared.cursor

section

variable {callback : Callback τ υ} {items : List τ} {workers : Nat}
  {c d : Config (Shared τ υ ρ) (Position υ ρ)} {acts : List (Nat × ρ)}

theorem invariant_start :
    Invariant callback items workers (start items : Config _ (Position υ ρ)) := by
  have hnone : ∀ β (hold : Position υ ρ → List β), hold .ready = [] →
      inHand hold (fun _ => .ready) workers = [] :=
    fun _ _ hhold => inHand_eq_nil fun _ _ => hhold
  constructor
  · exact List.length_map _
  · rw [start, hnone Nat Position.taken rfl]
    simp
  · rw [start, hnone _ Position.unpublished rfl]
    exact .refl _
  · intro index item hitem _
    rw [start, List.getElem?_map, hitem]
    rfl
  · intro t _ index argument hcalling
    cases hcalling
  · intro call hcall
    cases hcall
  · intro t _ hpanicked
    cases hpanicked
  · intro t _ hstopped
    cases hstopped

theorem eq_of_update {thread : Nat → Position υ ρ} {t u : Nat} {p q : Position υ ρ}
    (h : Function.update thread t p u = q) : (u = t ∧ p = q) ∨ thread u = q := by
  by_cases hu : u = t
  · rw [hu, Function.update_self] at h
    exact .inl ⟨hu, h⟩
  · rw [Function.update_of_ne hu] at h
    exact .inr h

theorem of_update_ne {thread : Nat → Position υ ρ} {t u : Nat} {p q : Position υ ρ} (hne : p ≠ q)
    (h : Function.update thread t p u = q) : thread u = q := by
  rcases eq_of_update h with ⟨-, heq⟩ | hold
  · exact absurd heq hne
  · exact hold

theorem Invariant.take (h : Invariant callback items workers c) {t : Nat} (ht : t < workers)
    (hready : c.thread t = .ready) :
    Invariant callback items workers
      ⟨{ c.shared with cursor := c.shared.cursor + 1 },
        Function.update c.thread t
          (if c.shared.cursor < c.shared.slots.length then .fetched c.shared.cursor
            else .stopped)⟩ := by
  obtain ⟨taken, htaken, htaken'⟩ := inHand_update Position.taken c.thread ht
  obtain ⟨kept, hkept, hkept'⟩ := inHand_update Position.unpublished c.thread ht
  have hindexes := (htaken.append_left _).symm.trans h.indexes
  have hpublished := (hkept.append_left _).symm.trans h.published
  rw [hready] at hindexes hpublished
  rw [h.length]
  have hposition : ∀ {q : Position υ ρ}, (if c.shared.cursor < items.length then
      .fetched c.shared.cursor else .stopped) = q →
        q = .fetched c.shared.cursor ∨ q = .stopped ∧ items.length ≤ c.shared.cursor := by
    rintro q rfl
    by_cases hlt : c.shared.cursor < items.length
    · exact .inl (if_pos hlt)
    · exact .inr ⟨if_neg hlt, by omega⟩
  constructor
  · exact h.length
  · apply ((htaken' _).append_left _).trans
    dsimp only
    by_cases hlt : c.shared.cursor < items.length
    · rw [if_pos hlt, Nat.min_eq_left (by omega), List.range_succ]
      rw [Nat.min_eq_left (by omega)] at hindexes
      exact List.perm_middle.trans
        ((hindexes.cons _).trans (List.perm_append_singleton _ _).symm)
    · rw [if_neg hlt, Nat.min_eq_right (by omega)]
      rw [Nat.min_eq_right (by omega)] at hindexes
      exact hindexes
  · apply ((hkept' _).append_left _).trans
    by_cases hlt : c.shared.cursor < items.length
    · rw [if_pos hlt]
      exact hpublished
    · rw [if_neg hlt]
      exact hpublished
  · intro index item hitem hahead
    apply h.full index item hitem
    rcases hahead with hlater | ⟨u, hu, hfetched⟩
    · dsimp only at hlater
      omega
    · rcases eq_of_update hfetched with ⟨-, heq⟩ | hold
      · rcases hposition heq with hindex | ⟨hstopped, -⟩
        · cases hindex
          exact .inl (Nat.le_refl _)
        · cases hstopped
      · exact .inr ⟨u, hu, hold⟩
  · intro u hu index argument hcalling
    rcases eq_of_update hcalling with ⟨-, heq⟩ | hold
    · rcases hposition heq with hindex | ⟨hstopped, -⟩
      · cases hindex
      · cases hstopped
    · exact h.calling u hu index argument hold
  · exact h.argued
  · intro u hu hpanicked
    rcases eq_of_update hpanicked with ⟨-, heq⟩ | hold
    · rcases hposition heq with hindex | ⟨hstopped, -⟩
      · cases hindex
      · cases hstopped
    · exact h.running u hu hold
  · intro u hu hstopped
    dsimp only
    rcases eq_of_update hstopped with ⟨-, heq⟩ | hold
    · rcases hposition heq with hindex | ⟨-, hend⟩
      · cases hindex
      · omega
    · have := h.stopped u hu hold
      omega

theorem Invariant.lt_of_taken (h : Invariant callback items workers c) {t index : Nat}
    (ht : t < workers) (htaken : index ∈ (c.thread t).taken) :
    index < c.shared.cursor ∧ index < items.length := by
  have hrange := h.indexes.mem_iff.mp (List.mem_append_right _ (mem_inHand ht htaken))
  have := List.mem_range.mp hrange
  omega

/-- A worker takes the item of its index out of the slot, or leaves it there. -/
theorem Invariant.fetch (h : Invariant callback items workers c) {t index : Nat}
    (ht : t < workers) (hfetched : c.thread t = .fetched index) {item : τ} {argument : υ}
    (hitem : items[index]? = some item) (hargument : callback.argument item = some argument)
    {slots : List (Option τ)} (hlength : slots.length = c.shared.slots.length)
    (hothers : ∀ other, other ≠ index → slots[other]? = c.shared.slots[other]?) :
    Invariant callback items workers
      ⟨{ c.shared with slots := slots },
        Function.update c.thread t (.calling index argument)⟩ := by
  obtain ⟨taken, htaken, htaken'⟩ := inHand_update Position.taken c.thread ht
  obtain ⟨kept, hkept, hkept'⟩ := inHand_update Position.unpublished c.thread ht
  have hindexes := (htaken.append_left _).symm.trans h.indexes
  have hpublished := (hkept.append_left _).symm.trans h.published
  rw [hfetched] at hindexes hpublished
  have hmine : index ∈ (c.thread t).taken := by
    rw [hfetched]
    exact List.mem_singleton_self index
  constructor
  · exact hlength.trans h.length
  · exact ((htaken' _).append_left _).trans hindexes
  · exact ((hkept' _).append_left _).trans hpublished
  · intro other item hother hahead
    have hne : other ≠ index ∧
        (c.shared.cursor ≤ other ∨ ∃ u < workers, c.thread u = .fetched other) := by
      rcases hahead with hlater | ⟨u, hu, hold⟩
      · have := (h.lt_of_taken ht hmine).1
        dsimp only at hlater
        exact ⟨by omega, .inl hlater⟩
      · dsimp only at hold
        by_cases hut : u = t
        · rw [hut, Function.update_self] at hold
          cases hold
        · rw [Function.update_of_ne hut] at hold
          refine ⟨?_, .inr ⟨u, hu, hold⟩⟩
          rintro rfl
          apply hut
          apply inHand_apart _ hu ht _ hmine
          · exact (h.indexes.nodup_iff.mpr List.nodup_range).of_append_right
          · rw [hold]
            exact List.mem_singleton_self _
    rw [hothers other hne.1]
    exact h.full other item hother hne.2
  · intro u hu other argument' hcalling
    rcases eq_of_update hcalling with ⟨-, heq⟩ | hold
    · cases heq
      exact ⟨item, hitem, hargument⟩
    · exact h.calling u hu other argument' hold
  · exact h.argued
  · intro u hu hpanicked
    have hold := of_update_ne (by rintro ⟨⟩) hpanicked
    exact h.running u hu hold
  · intro u hu hstopped
    have hold := of_update_ne (by rintro ⟨⟩) hstopped
    exact h.stopped u hu hold

theorem Invariant.call (h : Invariant callback items workers c) {t index : Nat} {argument : υ}
    (ht : t < workers) (hcalling : c.thread t = .calling index argument) (result : ρ) :
    Invariant callback items workers
      ⟨{ c.shared with calls := c.shared.calls ++ [⟨index, argument, result⟩] },
        Function.update c.thread t (.publishing ⟨index, argument, result⟩)⟩ := by
  obtain ⟨taken, htaken, htaken'⟩ := inHand_update Position.taken c.thread ht
  obtain ⟨kept, hkept, hkept'⟩ := inHand_update Position.unpublished c.thread ht
  have hindexes := (htaken.append_left _).symm.trans h.indexes
  have hpublished := (hkept.append_left _).symm.trans h.published
  rw [hcalling] at hindexes hpublished
  constructor
  · exact h.length
  · apply ((htaken' _).append_left _).trans
    rw [List.map_append, List.append_assoc]
    exact hindexes
  · apply ((hkept' _).append_left _).trans
    exact List.perm_middle.trans
      ((hpublished.cons _).trans (List.perm_append_singleton _ _).symm)
  · intro other item hother hahead
    apply h.full other item hother
    rcases hahead with hlater | ⟨u, hu, hfetched⟩
    · exact .inl hlater
    · rcases eq_of_update hfetched with ⟨-, heq⟩ | hold
      · cases heq
      · exact .inr ⟨u, hu, hold⟩
  · intro u hu other argument' hcalling'
    have hold := of_update_ne (by rintro ⟨⟩) hcalling'
    exact h.calling u hu other argument' hold
  · intro call hcall
    rcases List.mem_append.mp hcall with hold | hnew
    · exact h.argued call hold
    · rw [List.mem_singleton.mp hnew]
      exact h.calling t ht index argument hcalling
  · intro u hu hpanicked
    have hold := of_update_ne (by rintro ⟨⟩) hpanicked
    exact h.running u hu hold
  · intro u hu hstopped
    have hold := of_update_ne (by rintro ⟨⟩) hstopped
    exact h.stopped u hu hold

theorem Invariant.publish (h : Invariant callback items workers c) {t : Nat} {call : Call υ ρ}
    (ht : t < workers) (hpublishing : c.thread t = .publishing call) :
    Invariant callback items workers
      ⟨{ c.shared with completed := c.shared.completed ++ [call] },
        Function.update c.thread t .ready⟩ := by
  obtain ⟨taken, htaken, htaken'⟩ := inHand_update Position.taken c.thread ht
  obtain ⟨kept, hkept, hkept'⟩ := inHand_update Position.unpublished c.thread ht
  have hindexes := (htaken.append_left _).symm.trans h.indexes
  have hpublished := (hkept.append_left _).symm.trans h.published
  rw [hpublishing] at hindexes hpublished
  constructor
  · exact h.length
  · exact ((htaken' _).append_left _).trans hindexes
  · apply ((hkept' _).append_left _).trans
    rw [List.append_assoc]
    exact hpublished
  · intro other item hother hahead
    apply h.full other item hother
    rcases hahead with hlater | ⟨u, hu, hfetched⟩
    · exact .inl hlater
    · rcases eq_of_update hfetched with ⟨-, heq⟩ | hold
      · cases heq
      · exact .inr ⟨u, hu, hold⟩
  · intro u hu other argument hcalling
    have hold := of_update_ne (by rintro ⟨⟩) hcalling
    exact h.calling u hu other argument hold
  · exact h.argued
  · intro u hu hpanicked
    have hold := of_update_ne (by rintro ⟨⟩) hpanicked
    exact h.running u hu hold
  · intro u hu hstopped
    have hold := of_update_ne (by rintro ⟨⟩) hstopped
    exact h.stopped u hu hold

theorem fetch_eq_some {s : Shared τ υ ρ} {index : Nat} {item : τ} {argument : υ}
    (hslot : s.slots[index]? = some (some item))
    (hargument : callback.argument item = some argument) :
    ∃ slots, callback.fetch index s = some (argument, { s with slots := slots }) ∧
      slots.length = s.slots.length ∧
      ∀ other, other ≠ index → slots[other]? = s.slots[other]? := by
  unfold Callback.fetch
  rw [hslot, Option.join_some, Option.bind_some, hargument, Option.map_some]
  cases callback.owned with
  | true =>
    refine ⟨s.slots.set index none, rfl, List.length_set, fun other hother => ?_⟩
    exact List.getElem?_set_ne (Ne.symm hother)
  | false => exact ⟨s.slots, rfl, rfl, fun _ _ => rfl⟩

theorem Invariant.step (h : Invariant callback items workers c)
    (htotal : ∀ item ∈ items, (callback.argument item).isSome)
    {t : Nat} {result : ρ} (ht : t < workers)
    (hstep : c.step (program callback) t result = some d) :
    Invariant callback items workers d := by
  obtain ⟨shared, position, hprog, rfl⟩ := Config.step_eq_some hstep
  cases hposition : c.thread t with
  | ready =>
    rw [hposition] at hprog
    cases hprog
    exact h.take ht hposition
  | fetched index =>
    have hmine : index ∈ (c.thread t).taken := by
      rw [hposition]
      exact List.mem_singleton_self index
    have hlt := (h.lt_of_taken ht hmine).2
    have hitem : items[index]? = some items[index] := List.getElem?_eq_getElem hlt
    have hslot := h.full index _ hitem (.inr ⟨t, ht, hposition⟩)
    obtain ⟨argument, hargument⟩ :=
      Option.isSome_iff_exists.mp (htotal _ (List.getElem_mem hlt))
    obtain ⟨slots, hfetch, hlength, hothers⟩ := fetch_eq_some hslot hargument
    rw [hposition, program, hfetch] at hprog
    cases hprog
    exact h.fetch ht hposition hitem hargument hlength hothers
  | calling index argument =>
    rw [hposition] at hprog
    cases hprog
    exact h.call ht hposition result
  | publishing call =>
    rw [hposition] at hprog
    cases hprog
    exact h.publish ht hposition
  | stopped =>
    rw [hposition] at hprog
    cases hprog
  | panicked =>
    rw [hposition] at hprog
    cases hprog

/-! ## Runs -/

theorem Invariant.of_runs (htotal : ∀ item ∈ items, (callback.argument item).isSome)
    (h : Runs (program callback) (Spawned workers) (start items) acts d) :
    Invariant callback items workers d :=
  h.invariant (fun _ _ _ _ hspawned hstep hinv => hinv.step htotal hspawned hstep) invariant_start

def Position.steps : Position υ ρ → List Unit
  | .ready => List.replicate 1 ()
  | .fetched _ => List.replicate 4 ()
  | .calling _ _ => List.replicate 3 ()
  | .publishing _ => List.replicate 2 ()
  | .stopped => []
  | .panicked => []

def stepsLeft (workers : Nat) (c : Config (Shared τ υ ρ) (Position υ ρ)) : Nat :=
  4 * (c.shared.slots.length - c.shared.cursor) + (inHand Position.steps c.thread workers).length

theorem fetch_slots {s s' : Shared τ υ ρ} {index : Nat} {argument : υ}
    (h : callback.fetch index s = some (argument, s')) :
    s'.slots.length = s.slots.length ∧ s'.cursor = s.cursor := by
  obtain ⟨item, -, hargument⟩ := Option.bind_eq_some_iff.mp h
  obtain ⟨argument', -, heq⟩ := Option.map_eq_some_iff.mp hargument
  obtain ⟨-, rfl⟩ := Prod.mk.inj heq
  cases callback.owned with
  | true => exact ⟨List.length_set, rfl⟩
  | false => exact ⟨rfl, rfl⟩

theorem stepsLeft_step {t : Nat} {result : ρ} (ht : t < workers)
    (hstep : c.step (program callback) t result = some d) :
    stepsLeft workers d < stepsLeft workers c := by
  obtain ⟨shared, position, hprog, rfl⟩ := Config.step_eq_some hstep
  obtain ⟨rest, hbefore, hafter⟩ := inHand_update Position.steps c.thread ht
  have hold := hbefore.length_eq
  have hnew := (hafter position).length_eq
  rw [List.length_append] at hold hnew
  unfold stepsLeft
  dsimp only
  rw [hold, hnew]
  cases hposition : c.thread t with
  | ready =>
    rw [hposition] at hprog
    cases hprog
    by_cases hlt : c.shared.cursor < c.shared.slots.length
    · rw [if_pos hlt]
      simp only [Position.steps, List.length_replicate]
      omega
    · rw [if_neg hlt]
      simp only [Position.steps, List.length_replicate, List.length_nil]
      omega
  | fetched index =>
    rw [hposition, program] at hprog
    split at hprog
    · rename_i argument s hfetch
      cases hprog
      obtain ⟨hlength, hcursor⟩ := fetch_slots hfetch
      rw [hlength, hcursor]
      simp only [Position.steps, List.length_replicate]
      omega
    · cases hprog
      simp only [Position.steps, List.length_replicate, List.length_nil]
      omega
  | calling index argument =>
    rw [hposition] at hprog
    cases hprog
    simp only [Position.steps, List.length_replicate]
    omega
  | publishing call =>
    rw [hposition] at hprog
    cases hprog
    simp only [Position.steps, List.length_replicate]
    omega
  | stopped =>
    rw [hposition] at hprog
    cases hprog
  | panicked =>
    rw [hposition] at hprog
    cases hprog

theorem stepsLeft_start (items : List τ) :
    stepsLeft workers (start items : Config _ (Position υ ρ)) = 4 * items.length + workers := by
  have hsum : ∀ n, (inHand Position.steps (fun _ => (.ready : Position υ ρ)) n).length = n := by
    intro n
    induction n with
    | zero => rfl
    | succ n ih =>
      rw [inHand, List.range_succ, List.flatMap_append, List.length_append]
      rw [inHand] at ih
      rw [ih]
      rfl
  unfold stepsLeft start
  dsimp only
  rw [hsum, List.length_map, Nat.sub_zero]

theorem length_of_runs (h : Runs (program callback) (Spawned workers) c acts d) :
    acts.length + stepsLeft workers d ≤ stepsLeft workers c := by
  induction h with
  | refl c => simp
  | cons hspawned hone _ ih =>
    have := stepsLeft_step hspawned hone
    rw [List.length_cons]
    omega

theorem Invariant.step_exists (h : Invariant callback items workers c) {t : Nat} (ht : t < workers)
    (hrunning : c.thread t ≠ .stopped) (result : ρ) :
    ∃ d, c.step (program callback) t result = some d := by
  have hsome : (program callback t result c.shared (c.thread t)).isSome := by
    cases hposition : c.thread t with
    | ready => rfl
    | fetched index =>
      unfold program
      dsimp only
      split <;> rfl
    | calling index argument => rfl
    | publishing call => rfl
    | stopped => exact absurd hposition hrunning
    | panicked => exact absurd hposition (h.running t ht)
  obtain ⟨next, hnext⟩ := Option.isSome_iff_exists.mp hsome
  exact ⟨_, by rw [Config.step, hnext, Option.map_some]⟩

/-! ## What is delivered -/

/-- Every item was called once, with its own argument, and every call published once. -/
structure Delivered (callback : Callback τ υ) (items : List τ) (s : Shared τ υ ρ) : Prop where
  once : (s.calls.map Call.index).Perm (List.range items.length)
  argued : ∀ call ∈ s.calls,
    ∃ item, items[call.index]? = some item ∧ callback.argument item = some call.argument
  published : s.completed.Perm s.calls

theorem Invariant.delivered (h : Invariant callback items workers c)
    (hstopped : ∀ t < workers, c.thread t = .stopped)
    (hworkers : items.length = 0 ∨ 0 < workers) : Delivered callback items c.shared := by
  have hend : items.length ≤ c.shared.cursor := by
    rcases hworkers with hempty | hsome
    · omega
    · exact h.stopped 0 hsome (hstopped 0 hsome)
  have htaken : inHand Position.taken c.thread workers = [] := by
    apply inHand_eq_nil
    intro t ht
    rw [hstopped t ht]
    rfl
  have hkept : inHand Position.unpublished c.thread workers = [] := by
    apply inHand_eq_nil
    intro t ht
    rw [hstopped t ht]
    rfl
  have hindexes := h.indexes
  have hpublished := h.published
  rw [htaken, List.append_nil, Nat.min_eq_right hend] at hindexes
  rw [hkept, List.append_nil] at hpublished
  exact ⟨hindexes, h.argued, hpublished⟩

/-! ## One call after the other -/

theorem inline_delivers (htotal : ∀ item ∈ items, (callback.argument item).isSome)
    (work : Nat → υ → ρ) {indexes : List Nat} {s : Shared τ υ ρ} (hnodup : indexes.Nodup)
    (hfull : ∀ index ∈ indexes, ∃ item, items[index]? = some item ∧
      s.slots[index]? = some (some item)) :
    ∃ s' calls, inline callback work indexes s = some s' ∧ s'.calls = s.calls ++ calls ∧
      s'.completed = s.completed ++ calls ∧ calls.map Call.index = indexes ∧
      ∀ call ∈ calls,
        ∃ item, items[call.index]? = some item ∧ callback.argument item = some call.argument := by
  induction indexes generalizing s with
  | nil => exact ⟨s, [], rfl, by simp, by simp, rfl, fun _ hcall => by cases hcall⟩
  | cons index rest ih =>
    obtain ⟨hfresh, hrest⟩ := List.nodup_cons.mp hnodup
    obtain ⟨item, hitem, hslot⟩ := hfull index List.mem_cons_self
    obtain ⟨argument, hargument⟩ :=
      Option.isSome_iff_exists.mp (htotal item (List.mem_of_getElem? hitem))
    obtain ⟨slots, hfetch, -, hothers⟩ := fetch_eq_some hslot hargument
    let call : Call υ ρ := ⟨index, argument, work index argument⟩
    let after : Shared τ υ ρ :=
      ⟨s.cursor, slots, s.calls ++ [call], s.completed ++ [call]⟩
    have hlater : ∀ other ∈ rest, ∃ item, items[other]? = some item ∧
        slots[other]? = some (some item) := by
      intro other hother
      rw [hothers other (ne_of_mem_of_not_mem hother hfresh)]
      exact hfull other (List.mem_cons_of_mem _ hother)
    obtain ⟨s', calls, hrun, hcalls, hcompleted, hindexes, hargued⟩ :=
      ih (s := after) hrest hlater
    refine ⟨s', call :: calls, ?_, ?_, ?_, ?_, ?_⟩
    · rw [inline, hfetch, Option.bind_some]
      exact hrun
    · rw [hcalls, List.append_assoc]
      rfl
    · rw [hcompleted, List.append_assoc]
      rfl
    · rw [List.map_cons, hindexes]
    · intro other hother
      rcases List.mem_cons.mp hother with rfl | hlater
      · exact ⟨item, hitem, hargument⟩
      · exact hargued other hlater

theorem inline_range (htotal : ∀ item ∈ items, (callback.argument item).isSome)
    (work : Nat → υ → ρ) :
    ∃ s, inline callback work (List.range items.length) { slots := items.map some } = some s ∧
      Delivered callback items s := by
  have hfull : ∀ index ∈ List.range items.length, ∃ item, items[index]? = some item ∧
      (items.map some)[index]? = some (some item) := by
    intro index hindex
    have hlt := List.mem_range.mp hindex
    have hitem : items[index]? = some items[index] := List.getElem?_eq_getElem hlt
    exact ⟨_, hitem, by rw [List.getElem?_map, hitem, Option.map_some]⟩
  obtain ⟨s, calls, hrun, hcalls, hcompleted, hindexes, hargued⟩ :=
    @inline_delivers _ _ _ callback items htotal work (List.range items.length)
      { slots := items.map some } List.nodup_range hfull
  rw [List.nil_append] at hcalls hcompleted
  refine ⟨s, hrun, ?_, ?_, ?_⟩
  · rw [hcalls, hindexes]
  · rw [hcalls]
    exact hargued
  · rw [hcalls, hcompleted]

end

end WorkQueue

end ImportLens.Support
