import Mathlib.Data.List.Nodup
import Mathlib.Data.Set.Card
import Mathlib.Logic.Relation

/-!
# Breadth-first order

What a graph leads to from a start, nearest first, and a walk of it that keeps a list of what
it has found and a cursor into that list.  The walk stops at a limit; what it has found then
is the beginning of the whole order.
-/

namespace ImportLens.Support.BreadthFirst

open Relation

variable {α : Type}

/-- `y` is reached along edges from `x`. -/
def Reaches (next : α → List α) (x y : α) : Prop := ReflTransGen (fun a b => b ∈ next a) x y

/-- Reached from `start` along at most so many edges. -/
inductive Within (next : α → List α) (start : α) : Nat → α → Prop
  | start (n : Nat) : Within next start n start
  | step {n : Nat} {x y : α} : Within next start n x → y ∈ next x → Within next start (n + 1) y

/-- Nearer elements come first, and none that is nearer than an element is left out. -/
structure InOrder (next : α → List α) (start : α) (found : List α) : Prop where
  nearest : found.Pairwise fun x y => ∀ n, Within next start n y → Within next start n x
  complete : ∀ y ∈ found, ∀ x n, Within next start n x → ¬ Within next start n y → x ∈ found

section

variable [DecidableEq α]

/-- What is found, followed by what is new in `more`. -/
def absorb (found : List α) : List α → List α
  | [] => found
  | x :: more => absorb (if x ∈ found then found else found ++ [x]) more

/-- Everything within `n` edges of `start`, in the order in which it is found. -/
def order (next : α → List α) (start : α) : Nat → List α
  | 0 => [start]
  | n + 1 => absorb (order next start n) ((order next start n).flatMap next)

/-- The walk has followed the edges of the first `cursor` elements it found, up to `limit`. -/
structure Walked (next : α → List α) (start : α) (limit : Nat) (found : List α)
    (cursor : Nat) : Prop where
  cursor_le : cursor ≤ found.length
  cut : found = (absorb [start] ((found.take cursor).flatMap next)).take limit
  beginning : found <+: order next start cursor

end

section

variable {next : α → List α} {start x y : α} {n m : Nat}

theorem Within.mono (h : Within next start n x) (hle : n ≤ m) : Within next start m x := by
  induction h generalizing m with
  | start n => exact .start m
  | step _ hedge ih =>
    have hm : m = m - 1 + 1 := by omega
    rw [hm]
    exact .step (ih (by omega)) hedge

theorem Within.reaches (h : Within next start n x) : Reaches next start x := by
  induction h with
  | start => exact .refl
  | step _ hedge ih => exact .tail ih hedge

theorem Reaches.within (h : Reaches next start x) : ∃ n, Within next start n x := by
  induction h with
  | refl => exact ⟨0, .start 0⟩
  | tail _ hedge ih =>
    obtain ⟨n, hn⟩ := ih
    exact ⟨n + 1, .step hn hedge⟩

theorem within_zero_iff : Within next start 0 x ↔ x = start := by
  constructor
  · intro h
    cases h
    rfl
  · rintro rfl
    exact .start 0

theorem within_succ_iff :
    Within next start (n + 1) y ↔
      Within next start n y ∨ ∃ x, Within next start n x ∧ y ∈ next x := by
  constructor
  · intro h
    cases h with
    | start => exact .inl (.start n)
    | step hx hedge => exact .inr ⟨_, hx, hedge⟩
  · rintro (h | ⟨x, hx, hedge⟩)
    · exact h.mono (Nat.le_succ n)
    · exact .step hx hedge

end

/-! ## What is new -/

section

variable [DecidableEq α] {found more more' : List α} {x : α}

@[simp] theorem absorb_nil : absorb found [] = found := rfl

theorem absorb_cons (x : α) :
    absorb found (x :: more) = absorb (if x ∈ found then found else found ++ [x]) more := rfl

theorem mem_absorb : x ∈ absorb found more ↔ x ∈ found ∨ x ∈ more := by
  induction more generalizing found with
  | nil => simp
  | cons y more ih =>
    rw [absorb_cons, ih]
    by_cases hy : y ∈ found
    · rw [if_pos hy, List.mem_cons]
      constructor
      · exact Or.imp_right Or.inr
      · rintro (hx | rfl | hx)
        · exact .inl hx
        · exact .inl hy
        · exact .inr hx
    · rw [if_neg hy, List.mem_append, List.mem_singleton, List.mem_cons, or_assoc]

theorem absorb_append : absorb found (more ++ more') = absorb (absorb found more) more' := by
  induction more generalizing found with
  | nil => rfl
  | cons y more ih => exact ih

theorem prefix_absorb : found <+: absorb found more := by
  induction more generalizing found with
  | nil => exact List.prefix_rfl
  | cons y more ih =>
    rw [absorb_cons]
    split
    · exact ih
    · exact (List.prefix_append found [y]).trans ih

theorem nodup_absorb (h : found.Nodup) : (absorb found more).Nodup := by
  induction more generalizing found with
  | nil => exact h
  | cons y more ih =>
    rw [absorb_cons]
    by_cases hy : y ∈ found
    · rw [if_pos hy]
      exact ih h
    · rw [if_neg hy]
      apply ih
      exact List.nodup_append.mpr ⟨h, List.nodup_singleton y, fun a ha b hb hab => by
        rw [List.mem_singleton.mp hb] at hab
        exact hy (hab ▸ ha)⟩

theorem absorb_of_subset (h : ∀ x ∈ more, x ∈ found) : absorb found more = found := by
  induction more with
  | nil => rfl
  | cons y more ih =>
    rw [absorb_cons, if_pos (h y List.mem_cons_self)]
    exact ih fun x hx => h x (List.mem_cons_of_mem _ hx)

theorem absorb_prefix_absorb (h : more <+: more') : absorb found more <+: absorb found more' := by
  obtain ⟨rest, rfl⟩ := h
  rw [absorb_append]
  exact prefix_absorb

end

/-! ## The order -/

section

variable [DecidableEq α] {next : α → List α} {start x y : α} {n m limit cursor : Nat}
  {found : List α}

theorem mem_order_iff : x ∈ order next start n ↔ Within next start n x := by
  induction n generalizing x with
  | zero => rw [order, List.mem_singleton, within_zero_iff]
  | succ n ih =>
    rw [order, mem_absorb, within_succ_iff, ih, List.mem_flatMap]
    simp only [ih]

theorem order_nodup (next : α → List α) (start : α) (n : Nat) : (order next start n).Nodup := by
  induction n with
  | zero => exact List.nodup_singleton start
  | succ n ih => exact nodup_absorb ih

theorem order_mono (next : α → List α) (start : α) (h : n ≤ m) :
    order next start n <+: order next start m := by
  induction m with
  | zero =>
    obtain rfl := Nat.le_zero.mp h
    exact List.prefix_rfl
  | succ m ih =>
    rcases Nat.le_succ_iff.mp h with hle | rfl
    · exact (ih hle).trans prefix_absorb
    · exact List.prefix_rfl

theorem order_succ (n : Nat) :
    order next start (n + 1) = absorb [start] ((order next start n).flatMap next) := by
  induction n with
  | zero => rfl
  | succ n ih =>
    obtain ⟨rest, hrest⟩ := order_mono next start (Nat.le_succ n)
    have hold : absorb (order next start (n + 1)) ((order next start n).flatMap next) =
        order next start (n + 1) := by
      apply absorb_of_subset
      intro x hx
      rw [order, mem_absorb]
      exact .inr hx
    calc order next start (n + 2)
        = absorb (order next start (n + 1)) ((order next start (n + 1)).flatMap next) := rfl
      _ = absorb (order next start (n + 1)) (rest.flatMap next) := by
        conv_lhs => rw [← hrest, List.flatMap_append, absorb_append, hrest, hold]
      _ = absorb [start] ((order next start n).flatMap next ++ rest.flatMap next) := by
        rw [absorb_append, ← ih]
      _ = absorb [start] ((order next start (n + 1)).flatMap next) := by
        rw [← List.flatMap_append, hrest]

theorem order_nearest (n : Nat) :
    (order next start n).Pairwise fun x y =>
      ∀ m, Within next start m y → Within next start m x := by
  induction n with
  | zero => exact List.pairwise_singleton _ start
  | succ n ih =>
    obtain ⟨fresh, hfresh⟩ := order_mono next start (Nat.le_succ n)
    have hnodup := order_nodup next start (n + 1)
    rw [← hfresh] at hnodup
    -- what is new within one edge more lies at no smaller distance
    have hfar : ∀ y ∈ fresh, ∀ m, Within next start m y → n + 1 ≤ m := by
      intro y hy m hm
      by_contra hnot
      have hold : y ∈ order next start n := mem_order_iff.mpr (hm.mono (by omega))
      exact (List.nodup_append.mp hnodup).2.2 y hold y hy rfl
    have hnew : ∀ y ∈ fresh, Within next start (n + 1) y := by
      intro y hy
      apply mem_order_iff.mp
      rw [← hfresh]
      exact List.mem_append_right _ hy
    rw [← hfresh]
    refine List.pairwise_append.mpr ⟨ih, ?_, ?_⟩
    · apply List.pairwise_of_forall_mem_list
      intro x hx y hy m hm
      exact (hnew x hx).mono (hfar y hy m hm)
    · intro x hx y hy m hm
      have hle := hfar y hy m hm
      exact (mem_order_iff.mp hx).mono (by omega)

theorem head_take_order (hlimit : 0 < limit) :
    ((order next start n).take limit).head? = some start := by
  obtain ⟨rest, hrest⟩ := order_mono next start (Nat.zero_le n)
  rw [← hrest, order, List.head?_take, if_neg (by omega)]
  rfl

theorem inOrder_take (n limit : Nat) : InOrder next start ((order next start n).take limit) where
  nearest := (order_nearest n).sublist (List.take_sublist _ _)
  complete y hy x m hx hnot := by
    have hyn : Within next start n y := mem_order_iff.mp (List.mem_of_mem_take hy)
    have hlt : m < n := by
      by_contra hge
      exact hnot (hyn.mono (by omega))
    obtain ⟨rest, hrest⟩ := order_mono next start (Nat.le_of_lt hlt)
    have hy' : y ∉ order next start m := fun hin => hnot (mem_order_iff.mp hin)
    rw [← hrest] at hy ⊢
    have hroom : (order next start m).length < limit := by
      by_contra hfull
      rw [List.take_append_of_le_length (by omega)] at hy
      exact hy' (List.mem_of_mem_take hy)
    rw [List.take_append, List.take_of_length_le (by omega)]
    exact List.mem_append_left _ (mem_order_iff.mpr hx)

/-! ## The walk -/

theorem Walked.init (hlimit : 0 < limit) : Walked next start limit [start] 0 where
  cursor_le := Nat.zero_le _
  cut := by
    rw [List.take_zero, List.flatMap_nil, absorb_nil, List.take_of_length_le]
    exact hlimit
  beginning := List.prefix_rfl

theorem Walked.length_le (h : Walked next start limit found cursor) : found.length ≤ limit := by
  rw [h.cut]
  exact List.length_take_le _ _

theorem Walked.cut_of_lt (h : Walked next start limit found cursor)
    (hroom : found.length < limit) :
    found = absorb [start] ((found.take cursor).flatMap next) := by
  have hcut := h.cut
  rw [List.take_of_length_le] at hcut
  · exact hcut
  · rw [hcut, List.length_take] at hroom
    omega

theorem Walked.step (h : Walked next start limit found cursor) (hcursor : cursor < found.length)
    (hroom : found.length < limit) :
    Walked next start limit ((absorb found (next found[cursor])).take limit) (cursor + 1) := by
  have hkept : found <+: (absorb found (next found[cursor])).take limit := by
    apply List.prefix_take_iff.mpr
    exact ⟨prefix_absorb, by omega⟩
  have htake : found.take (cursor + 1) = found.take cursor ++ [found[cursor]] :=
    (List.take_append_getElem hcursor).symm
  have hall : absorb found (next found[cursor]) =
      absorb [start] ((found.take (cursor + 1)).flatMap next) := by
    rw [htake, List.flatMap_append, absorb_append, ← h.cut_of_lt hroom, List.flatMap_singleton]
  have hsame : ((absorb found (next found[cursor])).take limit).take (cursor + 1) =
      found.take (cursor + 1) := by
    obtain ⟨rest, hrest⟩ := hkept
    rw [← hrest, List.take_append_of_le_length (by omega)]
  constructor
  · exact Nat.le_trans hcursor hkept.length_le
  · rw [hsame, hall]
  · rw [hall, order_succ]
    apply (List.take_prefix _ _).trans
    apply absorb_prefix_absorb
    obtain ⟨rest, hrest⟩ := (List.take_prefix (cursor + 1) found).trans h.beginning
    rw [← hrest, List.flatMap_append]
    exact List.prefix_append _ _

theorem Walked.outcome (h : Walked next start limit found cursor)
    (hdone : cursor = found.length ∨ limit ≤ found.length) (hn : cursor ≤ n) :
    found = (order next start n).take limit := by
  have hbeginning := h.beginning.trans (order_mono next start hn)
  have hlength := h.length_le
  by_cases hroom : found.length < limit
  · have hend : cursor = found.length := by omega
    have hcut := h.cut_of_lt hroom
    rw [hend, List.take_length] at hcut
    -- nothing leads out of what was found
    have hclosed : ∀ x, Within next start n x → x ∈ found := by
      intro x hx
      clear hn hbeginning
      induction hx with
      | start n =>
        rw [hcut]
        exact mem_absorb.mpr (.inl (List.mem_singleton_self start))
      | step _ hedge ih =>
        rw [hcut]
        exact mem_absorb.mpr (.inr (List.mem_flatMap.mpr ⟨_, ih, hedge⟩))
    have hsub : order next start n ⊆ found := fun x hx => hclosed x (mem_order_iff.mp hx)
    have hle := ((order_nodup next start n).subperm hsub).length_le
    have hwhole := hbeginning.eq_of_length_le hle
    rw [← hwhole, List.take_of_length_le hlength]
  · have hfull : found.length = limit := by omega
    rw [← hfull]
    exact List.prefix_iff_eq_take.mp hbeginning

/-! ## What a walk finds -/

section

variable (h : ∀ n, cursor ≤ n → found = (order next start n).take limit)

include h

theorem reaches_of_mem (hx : x ∈ found) : Reaches next start x := by
  rw [h cursor (Nat.le_refl _)] at hx
  exact (mem_order_iff.mp (List.mem_of_mem_take hx)).reaches

theorem nodup_of_outcome : found.Nodup := by
  rw [h cursor (Nat.le_refl _)]
  exact (order_nodup next start cursor).sublist (List.take_sublist _ _)

theorem mem_of_length_lt (hroom : found.length < limit) (hx : Reaches next start x) :
    x ∈ found := by
  obtain ⟨m, hm⟩ := hx.within
  have hout := h (max cursor m) (Nat.le_max_left _ _)
  have hwhole : (order next start (max cursor m)).length ≤ limit := by
    rw [hout, List.length_take] at hroom
    omega
  rw [List.take_of_length_le hwhole] at hout
  rw [hout]
  exact mem_order_iff.mpr (hm.mono (Nat.le_max_right _ _))

theorem encard_found : {x | x ∈ found}.encard = found.length := by
  have hcoe : {x | x ∈ found} = (found.toFinset : Set α) := by
    ext x
    simp
  rw [hcoe, Set.encard_coe_eq_coe_finsetCard,
    List.toFinset_card_of_nodup (nodup_of_outcome h)]

theorem mem_of_encard_le (hle : {x | Reaches next start x}.encard ≤ limit)
    (hx : Reaches next start x) : x ∈ found := by
  by_cases hroom : found.length < limit
  · exact mem_of_length_lt h hroom hx
  · have hfinite : {x | Reaches next start x}.Finite := Set.finite_of_encard_le_coe hle
    have hsub : {x | x ∈ found} ⊆ {x | Reaches next start x} := fun x hx => reaches_of_mem h hx
    have hall : {x | x ∈ found} = {x | Reaches next start x} := by
      apply hfinite.eq_of_subset_of_encard_le' hsub
      rw [encard_found h]
      exact hle.trans (Nat.cast_le.mpr (Nat.not_lt.mp hroom))
    exact (Set.ext_iff.mp hall x).mpr hx

theorem length_of_lt_encard (hlt : limit < {x | Reaches next start x}.encard) :
    found.length = limit := by
  have hle : found.length ≤ limit := by
    rw [h cursor (Nat.le_refl _)]
    exact List.length_take_le _ _
  by_contra hne
  have hroom : found.length < limit := by omega
  have hall : {x | Reaches next start x} = {x | x ∈ found} := by
    ext x
    exact ⟨mem_of_length_lt h hroom, reaches_of_mem h⟩
  rw [hall, encard_found h] at hlt
  exact absurd (Nat.cast_lt.mp hlt) (by omega)

end

end

end ImportLens.Support.BreadthFirst
