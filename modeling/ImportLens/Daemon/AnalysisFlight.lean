import ImportLens.Support.Keyed

/-!
# Analysis flights

One compute for each cache key and cache generation: the first caller registers
a flight and leads it, later callers follow it until it is closed.  A flight is
shared through an `Arc`, so it outlives its registration; flights live in a heap
and the registry maps a key to the number of its current one.
-/

namespace ImportLens.Daemon

open ImportLens.Support

abbrev FlightKey : Type := String × Nat

/-- `AnalysisFlight`, with the key its leader registered it under. -/
structure Flight (τ : Type) where
  key : FlightKey
  result : Option τ
  closed : Bool

structure Flights (τ : Type) where
  /-- The registry. -/
  current : Keyed FlightKey Nat
  /-- Every flight allocated so far. -/
  flight : Nat → Flight τ
  next : Nat

inductive FlightClaim
  | leader (flight : Nat)
  | follower (flight : Nat)
  deriving DecidableEq, Repr

variable {τ : Type}

namespace Flights

def empty : Flights τ := ⟨∅, fun _ => ⟨("", 0), none, false⟩, 0⟩

def modify (flights : Flights τ) (id : Nat) (f : Flight τ → Flight τ) : Flights τ :=
  { flights with flight := Function.update flights.flight id (f (flights.flight id)) }

def register (flights : Flights τ) (key : FlightKey) : Flights τ where
  current := flights.current.insert key flights.next
  flight := Function.update flights.flight flights.next ⟨key, none, false⟩
  next := flights.next + 1

/-- `claim_flight`, under the lock of the registry. -/
def claimFlight (flights : Flights τ) (key : FlightKey) : FlightClaim × Flights τ :=
  match flights.current.lookup key with
  | some id => (.follower id, flights)
  | none => (.leader flights.next, flights.register key)

def publish (flights : Flights τ) (id : Nat) (result : τ) : Flights τ :=
  flights.modify id fun flight => { flight with result := some result, closed := true }

def closeWithoutResult (flights : Flights τ) (id : Nat) : Flights τ :=
  flights.modify id fun flight => { flight with closed := true }

/-- `remove_current_flight`: only while the registry still holds this flight. -/
def removeCurrentFlight (flights : Flights τ) (key : FlightKey) (id : Nat) : Flights τ :=
  if flights.current.lookup key = some id then
    { flights with current := flights.current.erase key }
  else flights

/-! ## What the registry keeps -/

/-- Every registered flight was registered under its own key, and every result
satisfies `P` for the key of its flight. -/
structure Keeps (P : FlightKey → τ → Prop) (flights : Flights τ) : Prop where
  registered : flights.current.All fun key id =>
    id < flights.next ∧ (flights.flight id).key = key
  result : ∀ id result, (flights.flight id).result = some result →
    P (flights.flight id).key result

variable {P : FlightKey → τ → Prop} {flights : Flights τ}

theorem keeps_empty (P : FlightKey → τ → Prop) : Keeps P (empty : Flights τ) where
  registered := Keyed.all_empty _
  result _ _ h := by cases h

theorem modify_key (id other : Nat) (f : Flight τ → Flight τ)
    (hf : ∀ flight, (f flight).key = flight.key) :
    ((flights.modify id f).flight other).key = (flights.flight other).key := by
  by_cases h : other = id
  · subst h
    simp [modify, hf]
  · simp [modify, Function.update_of_ne h]

theorem Keeps.modify (h : Keeps P flights) (id : Nat) {f : Flight τ → Flight τ}
    (hf : ∀ flight, (f flight).key = flight.key)
    (hresult : ∀ result, (f (flights.flight id)).result = some result →
      P (flights.flight id).key result) : Keeps P (flights.modify id f) where
  registered := by
    intro key other hrow
    rw [modify_key _ _ _ hf]
    exact h.registered key other hrow
  result := by
    intro other result hother
    rw [modify_key _ _ _ hf]
    by_cases hid : other = id
    · subst hid
      exact hresult result (by simpa [Flights.modify] using hother)
    · refine h.result other result ?_
      simpa [Flights.modify, Function.update_of_ne hid] using hother

theorem Keeps.publish (h : Keeps P flights) (id : Nat) (result : τ)
    (hresult : P (flights.flight id).key result) : Keeps P (flights.publish id result) := by
  refine h.modify id (fun _ => rfl) fun other hother => ?_
  cases hother
  exact hresult

theorem Keeps.mono {Q : FlightKey → τ → Prop} (h : Keeps P flights)
    (hPQ : ∀ key result, P key result → Q key result) : Keeps Q flights :=
  ⟨h.registered, fun id result hresult => hPQ _ _ (h.result id result hresult)⟩

theorem Keeps.closeWithoutResult (h : Keeps P flights) (id : Nat) :
    Keeps P (flights.closeWithoutResult id) :=
  h.modify id (fun _ => rfl) fun result hresult => h.result id result hresult

theorem Keeps.removeCurrentFlight (h : Keeps P flights) (key : FlightKey) (id : Nat) :
    Keeps P (flights.removeCurrentFlight key id) := by
  unfold Flights.removeCurrentFlight
  split
  · exact ⟨h.registered.erase key, h.result⟩
  · exact h

theorem register_flight_of_ne {key : FlightKey} {id : Nat} (h : id ≠ flights.next) :
    (flights.register key).flight id = flights.flight id :=
  Function.update_of_ne h _ _

@[simp] theorem register_flight_next (key : FlightKey) :
    (flights.register key).flight flights.next = ⟨key, none, false⟩ :=
  Function.update_self _ _ _

theorem Keeps.register (h : Keeps P flights) (key : FlightKey) :
    Keeps P (flights.register key) where
  registered := by
    intro key' id hrow
    rw [Flights.register, Keyed.lookup_insert_eq] at hrow
    split at hrow
    · rename_i hkey
      cases hrow
      exact ⟨Nat.lt_succ_self _, by simp [hkey]⟩
    · obtain ⟨hlt, hkey⟩ := h.registered key' id hrow
      rw [register_flight_of_ne hlt.ne]
      exact ⟨hlt.trans (Nat.lt_succ_self _), hkey⟩
  result := by
    intro id result hresult
    by_cases hid : id = flights.next
    · subst hid
      simp at hresult
    · rw [register_flight_of_ne hid] at hresult ⊢
      exact h.result id result hresult

/-- A claim hands out a flight that is registered under the key. -/
theorem Keeps.claimFlight (h : Keeps P flights) {key : FlightKey} {id : Nat}
    {flights' : Flights τ} {claim : FlightClaim}
    (hclaim : claim = .leader id ∨ claim = .follower id)
    (heq : flights.claimFlight key = (claim, flights')) :
    Keeps P flights' ∧ id < flights'.next ∧ (flights'.flight id).key = key ∧
      flights.next ≤ flights'.next ∧
      ∀ other, other < flights.next → (flights'.flight other).key = (flights.flight other).key := by
  unfold Flights.claimFlight at heq
  split at heq
  · rename_i current hcurrent
    cases heq
    have hid : current = id := by simpa using hclaim
    subst hid
    obtain ⟨hlt, hkey⟩ := h.registered key current hcurrent
    exact ⟨h, hlt, hkey, le_rfl, fun _ _ => rfl⟩
  · cases heq
    have hid : flights.next = id := by simpa using hclaim
    subst hid
    refine ⟨h.register key, Nat.lt_succ_self _, by simp, Nat.le_succ _, fun other hlt => ?_⟩
    rw [register_flight_of_ne hlt.ne]

/-! ## What other flights see -/

theorem modify_closed (id other : Nat) (f : Flight τ → Flight τ)
    (hf : ∀ flight, flight.closed = true → (f flight).closed = true)
    (h : (flights.flight other).closed = true) :
    ((flights.modify id f).flight other).closed = true := by
  by_cases hother : other = id
  · subst hother
    simpa [modify] using hf _ h
  · simpa [modify, Function.update_of_ne hother] using h

@[simp] theorem publish_closed (id : Nat) (result : τ) :
    ((flights.publish id result).flight id).closed = true := by
  simp [publish, modify]

@[simp] theorem closeWithoutResult_closed (id : Nat) :
    ((flights.closeWithoutResult id).flight id).closed = true := by
  simp [closeWithoutResult, modify]

@[simp] theorem removeCurrentFlight_flight (key : FlightKey) (id : Nat) :
    (flights.removeCurrentFlight key id).flight = flights.flight := by
  unfold removeCurrentFlight
  split <;> rfl

@[simp] theorem removeCurrentFlight_next (key : FlightKey) (id : Nat) :
    (flights.removeCurrentFlight key id).next = flights.next := by
  unfold removeCurrentFlight
  split <;> rfl

theorem removeCurrentFlight_lookup {key key' : FlightKey} {id other : Nat} (hne : id ≠ other)
    (h : flights.current.lookup key' = some other) :
    (flights.removeCurrentFlight key id).current.lookup key' = some other := by
  unfold removeCurrentFlight
  split
  · rename_i hcurrent
    have hkey : key' ≠ key := by
      rintro rfl
      rw [hcurrent] at h
      exact hne (Option.some.inj h)
    simpa [Keyed.lookup_erase_eq, hkey] using h
  · exact h

end Flights

end ImportLens.Daemon
