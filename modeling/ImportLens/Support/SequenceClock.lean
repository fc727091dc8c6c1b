import Mathlib.Data.List.Nodup

/-!
# Sequence clocks of a bounded width

A clock hands out numbers, and is moved past the numbers that it is shown.  It counts modulo
`limit`: handing out the last number wraps, while a move past the last number stops at it.
Its answers go back exactly when a number is due that does not fit.
-/

namespace ImportLens.Support.SequenceClock

inductive Request
  | next
  | observe (seq : Nat)
  deriving DecidableEq, Repr

inductive Event
  | returned (seq : Nat)
  | observed (seq : Nat)
  deriving DecidableEq, Repr

namespace Event

def seq : Event → Nat
  | .returned seq => seq
  | .observed seq => seq

def handedOut : Event → Option Nat
  | .returned seq => some seq
  | .observed _ => none

end Event

section

variable (limit : Nat)

def step (clock : Nat) : Request → Event × Nat
  | .next => (.returned clock, (clock + 1) % limit)
  | .observe seq => (.observed seq, max clock (min (seq + 1) (limit - 1)))

def events (clock : Nat) : List Request → List Event
  | [] => []
  | request :: rest => (step limit clock request).1 :: events (step limit clock request).2 rest

end

/-- Every number handed out is new, later than the ones before it, and later than every
number shown before it. -/
structure NeverGoesBack (events : List Event) : Prop where
  distinct : (events.filterMap Event.handedOut).Nodup
  increasing : (events.filterMap Event.handedOut).Pairwise (· < ·)
  ahead : events.Pairwise fun earlier later =>
    ∀ shown seq, earlier = .observed shown → later = .returned seq → shown < seq

def tickets (requests : List Request) : Nat := requests.count .next

/-- The number due after `before` fits: the one that counting from `start` leads to, and
the one that counting from each number shown since leads to. -/
structure HasRoom (limit start : Nat) (before : List Request) : Prop where
  fromStart : start + tickets before < limit
  fromShown : ∀ seq later, .observe seq :: later <:+ before → seq + 1 + tickets later < limit

def Fits (limit start : Nat) (requests : List Request) : Prop :=
  ∀ before, before ++ [.next] <+: requests → HasRoom limit start before

/-! ## A clock without a limit -/

def due (start : Nat) : List Request → Nat
  | [] => start
  | .next :: rest => due (start + 1) rest
  | .observe seq :: rest => due (max start (seq + 1)) rest

section

variable {limit start clock floor : Nat} {requests before rest : List Request}
  {evs : List Event}

@[simp] theorem tickets_nil : tickets [] = 0 := rfl

@[simp] theorem tickets_next : tickets (.next :: rest) = tickets rest + 1 :=
  List.count_cons_self

@[simp] theorem tickets_observe (seq : Nat) : tickets (.observe seq :: rest) = tickets rest :=
  List.count_cons_of_ne (by intro h; cases h)

theorem due_lt_iff : due start before < limit ↔ HasRoom limit start before := by
  induction before generalizing start with
  | nil =>
    constructor
    · intro h
      exact ⟨h, fun seq later hsuffix => by simp at hsuffix⟩
    · exact fun h => h.fromStart
  | cons request rest ih =>
    cases request with
    | next =>
      rw [due, ih]
      constructor
      · intro h
        have hstart := h.fromStart
        refine ⟨by rw [tickets_next]; omega, fun seq later hsuffix => ?_⟩
        rcases List.suffix_cons_iff.mp hsuffix with heq | hin
        · cases heq
        · exact h.fromShown seq later hin
      · intro h
        have hstart := h.fromStart
        rw [tickets_next] at hstart
        refine ⟨by omega, fun seq later hin => ?_⟩
        exact h.fromShown seq later (hin.trans (List.suffix_cons _ _))
    | observe shown =>
      rw [due, ih]
      constructor
      · intro h
        have hstart := h.fromStart
        refine ⟨by rw [tickets_observe]; omega, fun seq later hsuffix => ?_⟩
        rcases List.suffix_cons_iff.mp hsuffix with heq | hin
        · cases heq
          omega
        · exact h.fromShown seq later hin
      · intro h
        have hstart := h.fromStart
        have hshown := h.fromShown shown rest List.suffix_rfl
        rw [tickets_observe] at hstart
        refine ⟨by omega, fun seq later hin => ?_⟩
        exact h.fromShown seq later (hin.trans (List.suffix_cons _ _))

theorem next_prefix_cons {request : Request} {P : List Request → Prop} :
    (∀ before, before ++ [.next] <+: request :: rest → P before) ↔
      (request = .next → P []) ∧ ∀ before, before ++ [.next] <+: rest → P (request :: before) := by
  constructor
  · intro h
    constructor
    · intro heq
      exact h [] (by rw [heq]; exact List.prefix_append [.next] rest)
    · intro before hbefore
      exact h (request :: before) (List.cons_prefix_cons.mpr ⟨rfl, hbefore⟩)
  · rintro ⟨hnil, hcons⟩ before hbefore
    cases before with
    | nil => exact hnil (List.cons_prefix_cons.mp hbefore).1.symm
    | cons first before =>
      obtain ⟨rfl, hin⟩ := List.cons_prefix_cons.mp hbefore
      exact hcons before hin

/-! ## What the answers say -/

/-- Every number handed out is at least `floor`, and above everything before it. -/
def Above (floor : Nat) : List Event → Prop
  | [] => True
  | .returned seq :: rest => floor ≤ seq ∧ Above (seq + 1) rest
  | .observed seq :: rest => Above (max floor (seq + 1)) rest

theorem above_iff : Above floor evs ↔
    (∀ seq, .returned seq ∈ evs → floor ≤ seq) ∧
      evs.Pairwise fun earlier later => ∀ seq, later = .returned seq → earlier.seq < seq := by
  induction evs generalizing floor with
  | nil => simp [Above]
  | cons event rest ih =>
    rw [List.pairwise_cons]
    cases event with
    | returned shown =>
      rw [Above, ih]
      constructor
      · rintro ⟨hfloor, hlater, hrest⟩
        refine ⟨fun seq hmem => ?_, ?_, hrest⟩
        · rcases List.mem_cons.mp hmem with heq | hmem
          · cases heq
            exact hfloor
          · have hseq := hlater seq hmem
            omega
        · intro later hmem seq heq
          subst heq
          exact hlater seq hmem
      · rintro ⟨hall, hlater, hrest⟩
        exact ⟨hall shown List.mem_cons_self, fun seq hmem => hlater _ hmem seq rfl, hrest⟩
    | observed shown =>
      rw [Above, ih]
      constructor
      · rintro ⟨hlater, hrest⟩
        refine ⟨fun seq hmem => ?_, ?_, hrest⟩
        · rcases List.mem_cons.mp hmem with heq | hmem
          · cases heq
          · have hseq := hlater seq hmem
            omega
        · intro later hmem seq heq
          subst heq
          have hseq := hlater seq hmem
          show shown < seq
          omega
      · rintro ⟨hall, hlater, hrest⟩
        refine ⟨fun seq hmem => ?_, hrest⟩
        have hshown : shown < seq := hlater _ hmem seq rfl
        have hseq := hall seq (List.mem_cons_of_mem _ hmem)
        omega

theorem neverGoesBack_iff_above : NeverGoesBack evs ↔ Above 0 evs := by
  rw [above_iff]
  constructor
  · intro h
    refine ⟨fun seq _ => Nat.zero_le seq, ?_⟩
    have hincreasing := List.pairwise_filterMap.mp h.increasing
    refine (hincreasing.and h.ahead).imp ?_
    rintro earlier later ⟨hreturned, hshown⟩ seq rfl
    cases earlier with
    | returned first => exact hreturned first rfl seq rfl
    | observed shown => exact hshown shown seq rfl rfl
  · rintro ⟨-, h⟩
    have hincreasing : (evs.filterMap Event.handedOut).Pairwise (· < ·) := by
      apply List.pairwise_filterMap.mpr
      refine h.imp ?_
      intro earlier later hlater first hfirst seq hseq
      cases earlier with
      | observed shown => cases hfirst
      | returned shown =>
        cases hfirst
        cases later with
        | observed shown => cases hseq
        | returned second =>
          cases hseq
          exact hlater seq rfl
    refine ⟨hincreasing.imp fun hlt => Nat.ne_of_lt hlt, hincreasing, h.imp ?_⟩
    rintro earlier later hlater shown seq rfl rfl
    exact hlater seq rfl

/-! ## Runs -/

/-- The clock agrees with the unlimited one as long as that one fits; a number that does
not fit is due only after the last number that does. -/
theorem above_events_iff (hclock : clock < limit) (hfloor : floor ≤ start)
    (hfull : limit ≤ start → limit ≤ floor) (hsame : start < limit → clock = start) :
    Above floor (events limit clock requests) ↔
      ∀ before, before ++ [.next] <+: requests → due start before < limit := by
  induction requests generalizing clock floor start with
  | nil => simp [events, Above]
  | cons request rest ih =>
    rw [next_prefix_cons]
    cases request with
    | next =>
      simp only [events, step, Above, due, true_imp_iff]
      have hwrapped : (clock + 1) % limit < limit := Nat.mod_lt _ (by omega)
      by_cases hroom : start < limit
      · obtain rfl := hsame hroom
        have hrest := ih hwrapped (Nat.le_refl (clock + 1)) id fun h => Nat.mod_eq_of_lt h
        rw [hrest]
        simp only [hfloor, hroom, true_and]
      · constructor
        · rintro ⟨hle, -⟩
          have hlate := hfull (by omega)
          omega
        · rintro ⟨hlt, -⟩
          exact absurd hlt hroom
    | observe shown =>
      simp only [events, step, Above, due, reduceCtorEq, false_imp_iff, true_and]
      apply ih
      · omega
      · omega
      · omega
      · omega

theorem neverGoesBack_iff_fits (hstart : start < limit) :
    NeverGoesBack (events limit start requests) ↔ Fits limit start requests := by
  rw [neverGoesBack_iff_above,
    above_events_iff hstart (Nat.zero_le start) (fun h => absurd hstart (by omega)) fun _ => rfl]
  simp only [due_lt_iff, Fits]

end

end ImportLens.Support.SequenceClock
