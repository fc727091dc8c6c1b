import ImportLens.Support.Interleaving

/-!
# A lock over an interleaving

The shared state names the thread that holds the lock, and some positions of the
program are inside it.  If every step keeps to the discipline of the lock, a
thread inside it is its holder, and so no two threads are inside it at once.
-/

namespace ImportLens.Support.Mutex

variable {σ π α : Type}

/-- What a step of thread `t` may do to the lock: nothing, outside or inside it,
or take the free lock, or give it back. -/
inductive Discipline (locked : π → Bool) (t : Nat) (before after : Option Nat)
    (p q : π) : Prop
  | outside (hp : locked p = false) (hq : locked q = false) (hlock : after = before)
  | takes (hp : locked p = false) (hfree : before = none) (hlock : after = some t)
  | inside (hp : locked p = true) (hlock : after = before)
  | gives (hp : locked p = true) (hq : locked q = false)

def Held (lock : σ → Option Nat) (locked : π → Bool) (c : Config σ π) : Prop :=
  ∀ t, locked (c.thread t) = true → lock c.shared = some t

variable {lock : σ → Option Nat} {locked : π → Bool} {prog : Program σ π α}
variable {c d : Config σ π} {t u : Nat} {a : α}

theorem Held.exclusive (h : Held lock locked c) (ht : locked (c.thread t) = true)
    (hu : locked (c.thread u) = true) : t = u :=
  Option.some.inj ((h t ht).symm.trans (h u hu))

theorem Held.step
    (hdiscipline : ∀ ⦃t a s p s' q⦄, prog t a s p = some (s', q) →
      Discipline locked t (lock s) (lock s') p q)
    (h : Held lock locked c) (hstep : c.step prog t a = some d) : Held lock locked d := by
  obtain ⟨shared, position, hprog, rfl⟩ := Config.step_eq_some hstep
  have hone := hdiscipline hprog
  intro u hu
  by_cases hut : u = t
  · subst hut
    simp only [Function.update_self] at hu
    cases hone with
    | outside _ hq _ | gives _ hq => rw [hq] at hu; cases hu
    | takes _ _ hlock => exact hlock
    | inside hp hlock => rw [hlock]; exact h u hp
  · simp only [Function.update_of_ne hut] at hu
    have hheld := h u hu
    cases hone with
    | outside _ _ hlock => rw [hlock]; exact hheld
    | takes _ hfree _ => rw [hheld] at hfree; cases hfree
    | inside hp _ | gives hp _ => exact absurd (h.exclusive hu hp) hut

end ImportLens.Support.Mutex
