import Mathlib.Data.List.Basic

/-!
# Debounced buffers

A buffer gathers items, each of them once, and rearms a timer with every one.  A flush,
called or fired by the timer, takes all that is pending; after it was disposed a buffer
takes nothing more.  What is pending in a live buffer is therefore in the batch that
the next flush takes, and while anything is pending the timer is armed.
-/

namespace ImportLens.Support.Debounce

variable {α : Type} [DecidableEq α]

structure Buffer (α : Type) where
  pending : List α := []
  /-- The timer is armed. -/
  timer : Bool := false
  disposed : Bool := false
  deriving DecidableEq, Repr

inductive Op (α : Type)
  | queue (item : α)
  /-- The armed timer runs out. -/
  | timer
  | flush
  | dispose
  deriving DecidableEq, Repr

def add (item : α) (pending : List α) : List α :=
  if item ∈ pending then pending else pending ++ [item]

def Buffer.queue (item : α) (b : Buffer α) : Buffer α :=
  if b.disposed then b else { b with pending := add item b.pending, timer := true }

def Buffer.flush (b : Buffer α) : Buffer α × Option (List α) :=
  ({ b with pending := [], timer := false }, if b.disposed then none else some b.pending)

def Buffer.dispose (_ : Buffer α) : Buffer α where
  pending := []
  timer := false
  disposed := true

def Buffer.step (b : Buffer α) : Op α → Buffer α × Option (List α)
  | .queue item => (b.queue item, none)
  | .timer => if b.timer then b.flush else (b, none)
  | .flush => b.flush
  | .dispose => (b.dispose, none)

def Buffer.run (b : Buffer α) (ops : List (Op α)) : Buffer α :=
  ops.foldl (fun b op => (b.step op).1) b

variable {b : Buffer α} {item other : α} {ops : List (Op α)}

theorem mem_add : other ∈ add item b.pending ↔ other = item ∨ other ∈ b.pending := by
  unfold add
  split
  · rename_i hmem
    constructor
    · exact .inr
    · rintro (rfl | hother)
      · exact hmem
      · exact hother
  · rw [List.mem_append, List.mem_singleton, or_comm]

@[simp]
theorem run_append (b : Buffer α) (ops more : List (Op α)) :
    b.run (ops ++ more) = (b.run ops).run more :=
  List.foldl_append

@[simp]
theorem run_cons (b : Buffer α) (op : Op α) (ops : List (Op α)) :
    b.run (op :: ops) = (b.step op).1.run ops :=
  rfl

theorem disposed_step (hop : op ≠ .dispose) : (b.step op).1.disposed = b.disposed := by
  cases op with
  | queue item =>
    simp only [Buffer.step, Buffer.queue]
    split <;> rfl
  | timer =>
    simp only [Buffer.step, Buffer.flush]
    split <;> rfl
  | flush => rfl
  | dispose => exact absurd rfl hop

theorem disposed_run (hops : .dispose ∉ ops) : (b.run ops).disposed = b.disposed := by
  induction ops generalizing b with
  | nil => rfl
  | cons op rest ih =>
    rw [List.mem_cons, not_or] at hops
    rw [run_cons, ih hops.2]
    exact disposed_step (Ne.symm hops.1)

/-- The item is pending in a live buffer, whose timer is armed. -/
structure Waits (b : Buffer α) (item : α) : Prop where
  live : b.disposed = false
  pending : item ∈ b.pending
  armed : b.timer = true

theorem queue_of_live (hlive : b.disposed = false) :
    b.queue item = { b with pending := add item b.pending, timer := true } := by
  rw [Buffer.queue, if_neg (by simp [hlive])]

theorem waits_queue (hlive : b.disposed = false) : Waits (b.queue item) item := by
  rw [queue_of_live hlive]
  exact ⟨hlive, mem_add.mpr (.inl rfl), rfl⟩

theorem Waits.queue (h : Waits b item) (other : α) : Waits (b.queue other) item := by
  rw [queue_of_live h.live]
  exact ⟨h.live, mem_add.mpr (.inr h.pending), rfl⟩

theorem Waits.run (h : Waits b item) (hops : ∀ op ∈ ops, ∃ other, op = .queue other) :
    Waits (b.run ops) item := by
  induction ops generalizing b with
  | nil => exact h
  | cons op rest ih =>
    obtain ⟨other, rfl⟩ := hops op List.mem_cons_self
    rw [run_cons]
    apply ih
    · exact h.queue other
    · exact fun op hop => hops op (List.mem_cons_of_mem _ hop)

theorem Waits.flush (h : Waits b item) {last : Op α} (hlast : last = .flush ∨ last = .timer) :
    ∃ batch, (b.step last).2 = some batch ∧ item ∈ batch := by
  refine ⟨b.pending, ?_, h.pending⟩
  rcases hlast with rfl | rfl
  · simp [Buffer.step, Buffer.flush, h.live]
  · simp [Buffer.step, Buffer.flush, h.live, h.armed]

/-- What is queued in a live buffer is in the batch of the next flush. -/
theorem queued_flushed {before between : List (Op α)} {last : Op α}
    (hbefore : .dispose ∉ before) (hbetween : ∀ op ∈ between, ∃ other, op = .queue other)
    (hlast : last = .flush ∨ last = .timer) :
    ∃ batch, ((Buffer.run {} (before ++ .queue item :: between)).step last).2 = some batch ∧
      item ∈ batch := by
  rw [run_append, run_cons]
  apply Waits.flush _ hlast
  apply Waits.run _ hbetween
  apply waits_queue
  rw [disposed_run hbefore]

end ImportLens.Support.Debounce
