/-!
# Sections under a lock

A section is what a thread does between taking a lock and releasing it: it reads
and writes the state the lock protects, and ends with a value or with an error.
What it has written before an error stays written.

Sections compose by `do`.  `bind_eq_iff` takes a composition apart once, so that
a lemma about an operation is proved from the lemmas about its parts.
-/

namespace ImportLens.Support

def Section (σ ε α : Type) : Type := σ → Except ε α × σ

namespace Section

variable {σ ε α β : Type}

instance : Monad (Section σ ε) where
  pure a := fun s => (.ok a, s)
  bind m f := fun s =>
    match m s with
    | (.ok a, next) => f a next
    | (.error e, next) => (.error e, next)

def fail (e : ε) : Section σ ε α := fun s => (.error e, s)

def update (f : σ → σ) : Section σ ε Unit := fun s => (.ok (), f s)

def get : Section σ ε σ := fun s => (.ok s, s)

/-! ## Runs -/

variable {m : Section σ ε α} {f : α → Section σ ε β} {s next : σ} {r : Except ε β × σ}

@[simp] theorem pure_apply (a : α) (s : σ) : (pure a : Section σ ε α) s = (.ok a, s) := rfl

@[simp] theorem fail_apply (e : ε) (s : σ) : (fail e : Section σ ε α) s = (.error e, s) := rfl

@[simp] theorem update_apply (g : σ → σ) (s : σ) :
    (update g : Section σ ε Unit) s = (.ok (), g s) := rfl

@[simp] theorem get_apply (s : σ) : (get : Section σ ε σ) s = (.ok s, s) := rfl

theorem bind_ok {a : α} (h : m s = (.ok a, next)) : (m >>= f) s = f a next := by
  show (match m s with
    | (.ok a, next) => f a next
    | (.error e, next) => (.error e, next)) = f a next
  rw [h]

theorem bind_error {e : ε} (h : m s = (.error e, next)) : (m >>= f) s = (.error e, next) := by
  show (match m s with
    | (.ok a, next) => f a next
    | (.error e, next) => (.error e, next)) = (.error e, next)
  rw [h]

@[simp] theorem update_bind (g : σ → σ) (k : Unit → Section σ ε β) (s : σ) :
    ((update g : Section σ ε Unit) >>= k) s = k () (g s) := rfl

@[simp] theorem get_bind (k : σ → Section σ ε β) (s : σ) :
    ((get : Section σ ε σ) >>= k) s = k s s := rfl

@[simp] theorem pure_bind_apply (a : α) (k : α → Section σ ε β) (s : σ) :
    ((pure a : Section σ ε α) >>= k) s = k a s := rfl

@[simp] theorem fail_bind (e : ε) (k : α → Section σ ε β) (s : σ) :
    ((fail e : Section σ ε α) >>= k) s = (.error e, s) := rfl

theorem bind_eq_iff :
    (m >>= f) s = r ↔
      (∃ a next, m s = (.ok a, next) ∧ f a next = r) ∨
        ∃ e next, m s = (.error e, next) ∧ r = (.error e, next) := by
  constructor
  · intro h
    cases hm : m s with
    | mk result next =>
        cases result with
        | ok a => exact .inl ⟨a, next, rfl, by rw [← h, bind_ok hm]⟩
        | error e => exact .inr ⟨e, next, rfl, by rw [← h, bind_error hm]⟩
  · rintro (⟨a, next, hm, hf⟩ | ⟨e, next, hm, rfl⟩)
    · rw [bind_ok hm, hf]
    · exact bind_error hm

theorem bind_ok_iff {b : β} {t : σ} :
    (m >>= f) s = (.ok b, t) ↔ ∃ a next, m s = (.ok a, next) ∧ f a next = (.ok b, t) := by
  rw [bind_eq_iff]
  constructor
  · rintro (h | ⟨e, next, _, h⟩)
    · exact h
    · cases h
  · exact fun h => .inl h

theorem bind_error_iff {e : ε} {t : σ} :
    (m >>= f) s = (.error e, t) ↔
      (∃ a next, m s = (.ok a, next) ∧ f a next = (.error e, t)) ∨ m s = (.error e, t) := by
  rw [bind_eq_iff]
  constructor
  · rintro (h | ⟨e', next, hm, h⟩)
    · exact .inl h
    · cases h
      exact .inr hm
  · rintro (h | h)
    · exact .inl h
    · exact .inr ⟨e, t, h, rfl⟩

/-! ## Frames -/

/-- Every run of a section relates the state it starts from to the one it leaves. -/
def Frame (R : σ → σ → Prop) (m : Section σ ε α) : Prop := ∀ s, R s (m s).2

variable {R : σ → σ → Prop}

theorem Frame.pure (hrefl : ∀ s, R s s) (a : α) : Frame R (pure a : Section σ ε α) :=
  fun s => hrefl s

theorem Frame.fail (hrefl : ∀ s, R s s) (e : ε) : Frame R (fail e : Section σ ε α) :=
  fun s => hrefl s

theorem Frame.get (hrefl : ∀ s, R s s) : Frame R (get : Section σ ε σ) :=
  fun s => hrefl s

theorem Frame.update {g : σ → σ} (h : ∀ s, R s (g s)) : Frame R (update g : Section σ ε Unit) :=
  fun s => h s

theorem Frame.bind_of {S T : σ → σ → Prop} (htrans : ∀ s t u, R s t → S t u → T s u)
    (hstop : ∀ s t, R s t → T s t) (hm : Frame R m) (hf : ∀ a, Frame S (f a)) :
    Frame T (m >>= f) := by
  intro s
  have hfirst := hm s
  cases hrun : m s with
  | mk result next =>
      rw [hrun] at hfirst
      cases result with
      | ok a =>
          rw [bind_ok hrun]
          exact htrans s next _ hfirst (hf a next)
      | error e =>
          rw [bind_error hrun]
          exact hstop s next hfirst

theorem Frame.bind (htrans : ∀ s t u, R s t → R t u → R s u) (hm : Frame R m)
    (hf : ∀ a, Frame R (f a)) : Frame R (m >>= f) :=
  bind_of htrans (fun _ _ h => h) hm hf

end Section

end ImportLens.Support
