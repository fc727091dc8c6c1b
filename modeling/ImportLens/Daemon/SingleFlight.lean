import ImportLens.Daemon.AnalysisFlight
import ImportLens.Support.Interleaving

/-!
# Single flight

Any number of threads call `run_or_join`.  A caller that registers a flight
leads it: it computes, publishes and removes the flight from the registry, or
unwinds, removes the flight and closes it without a result.  A caller that finds
a flight follows it until it is closed, and claims again if it was abandoned.

The sections under the lock of the registry, those under the lock of a flight
and the start and the end of a compute are the atomic steps.
-/

namespace ImportLens.Daemon.SingleFlight

open ImportLens.Support

variable {τ : Type}

/-! ## State -/

structure Shared (τ : Type) where
  flights : Flights τ
  /-- History: the calls so far; a call is known by its number. -/
  calls : Nat
  /-- History: how often the closure of a call has run. -/
  runs : Nat → Nat
  /-- History: what the computes have returned, with the key they ran for. -/
  produced : List (FlightKey × τ)

/-- Where a thread is in `run_or_join`.  `compute` says whether the caller still
has its closure. -/
inductive Position (τ : Type)
  | idle
  | claim (key : FlightKey) (call : Nat) (compute : Bool)
  | lead (key : FlightKey) (call : Nat) (compute : Bool) (flight : Nat)
  | computing (key : FlightKey) (call flight : Nat)
  | publish (key : FlightKey) (flight : Nat) (result : τ)
  -- the drop of a leader that has published
  | retire (key : FlightKey) (flight : Nat) (result : τ)
  -- the drop of a leader that unwinds
  | unwind (key : FlightKey) (flight : Nat)
  | abandon (key : FlightKey) (flight : Nat)
  | follow (key : FlightKey) (call : Nat) (compute : Bool) (flight : Nat)
  | returned (key : FlightKey) (result : τ)
  deriving DecidableEq

/-- What the environment chooses for one step. -/
structure Action (τ : Type) where
  /-- The key and generation of the next call. -/
  key : FlightKey := ("", 0)
  /-- The value of the compute that ends; none if it panics. -/
  outcome : Option τ := none

def program : Program (Shared τ) (Position τ) (Action τ) := fun _ a s position =>
  match position with
  | .idle => some ({ s with calls := s.calls + 1 }, .claim a.key s.calls true)
  | .claim key call compute =>
      match s.flights.claimFlight key with
      | (.leader flight, flights) =>
          some ({ s with flights := flights }, .lead key call compute flight)
      | (.follower flight, flights) =>
          some ({ s with flights := flights }, .follow key call compute flight)
  | .lead key call compute flight =>
      -- `compute.take().expect(..)`
      if compute then
        some ({ s with runs := Function.update s.runs call (s.runs call + 1) },
          .computing key call flight)
      else some (s, .unwind key flight)
  | .computing key _ flight =>
      match a.outcome with
      | some result =>
          some ({ s with produced := (key, result) :: s.produced }, .publish key flight result)
      | none => some (s, .unwind key flight)
  | .publish key flight result =>
      some ({ s with flights := s.flights.publish flight result }, .retire key flight result)
  | .retire key flight result =>
      some ({ s with flights := s.flights.removeCurrentFlight key flight }, .returned key result)
  | .unwind key flight =>
      some ({ s with flights := s.flights.removeCurrentFlight key flight }, .abandon key flight)
  | .abandon _ flight => some ({ s with flights := s.flights.closeWithoutResult flight }, .idle)
  | .follow key call compute flight =>
      if !(s.flights.flight flight).closed then none
      else
        match (s.flights.flight flight).result with
        | some result => some (s, .returned key result)
        | none => some (s, .claim key call compute)
  | .returned _ _ => some (s, .idle)

def started : Config (Shared τ) (Position τ) where
  shared := { flights := Flights.empty, calls := 0, runs := fun _ => 0, produced := [] }
  thread _ := .idle

/-! ## What a position owns -/

namespace Position

def owns : Position τ → Option Nat
  | .lead _ _ _ flight | .computing _ _ flight | .publish _ flight _ | .retire _ flight _
  | .unwind _ flight | .abandon _ flight => some flight
  | _ => none

def leads : Position τ → Option Nat
  | .lead _ _ _ flight | .computing _ _ flight | .publish _ flight _ | .unwind _ flight
  | .abandon _ flight => some flight
  | _ => none

def call : Position τ → Option Nat
  | .claim _ call _ | .lead _ call _ _ | .computing _ call _ | .follow _ call _ _ => some call
  | _ => none

def computes : Position τ → Option FlightKey
  | .computing key _ _ => some key
  | _ => none

def waitsFor : Position τ → Option Nat
  | .follow _ _ _ flight => some flight
  | _ => none

end Position

/-- The flight is registered and no other is under its key. -/
def Registered (s : Shared τ) (key : FlightKey) (flight : Nat) : Prop :=
  s.flights.current.lookup key = some flight ∧ flight < s.flights.next

def Fits (s : Shared τ) : Position τ → Prop
  | .idle => True
  | .claim _ call compute => call < s.calls ∧ compute = true ∧ s.runs call = 0
  | .lead key call compute flight =>
      call < s.calls ∧ compute = true ∧ s.runs call = 0 ∧ Registered s key flight
  | .computing key call flight => call < s.calls ∧ Registered s key flight
  | .publish key flight result =>
      (key, result) ∈ s.produced ∧ flight < s.flights.next ∧ (s.flights.flight flight).key = key
  | .retire key flight result => (key, result) ∈ s.produced ∧ flight < s.flights.next
  | .unwind _ flight | .abandon _ flight => flight < s.flights.next
  | .follow key call compute flight =>
      call < s.calls ∧ compute = true ∧ s.runs call = 0 ∧ flight < s.flights.next ∧
        (s.flights.flight flight).key = key
  | .returned key result => (key, result) ∈ s.produced

/-- What a step of a thread at `p` leaves in place for the others. -/
structure Frame (p : Position τ) (s s' : Shared τ) : Prop where
  calls : s.calls ≤ s'.calls
  runs : ∀ call, p.call ≠ some call → s'.runs call = s.runs call
  produced : ∀ row, row ∈ s.produced → row ∈ s'.produced
  next : s.flights.next ≤ s'.flights.next
  keys : ∀ flight, flight < s.flights.next →
    (s'.flights.flight flight).key = (s.flights.flight flight).key
  closed : ∀ flight, flight < s.flights.next → (s.flights.flight flight).closed = true →
    (s'.flights.flight flight).closed = true
  current : ∀ key flight, p.owns ≠ some flight → s.flights.current.lookup key = some flight →
    s'.flights.current.lookup key = some flight

section

variable {s s' : Shared τ} {p : Position τ}

theorem Frame.refl (p : Position τ) (s : Shared τ) : Frame p s s :=
  ⟨le_rfl, fun _ _ => rfl, fun _ h => h, le_rfl, fun _ _ => rfl, fun _ _ h => h,
    fun _ _ _ h => h⟩

theorem Frame.fits (h : Frame p s s') {q : Position τ}
    (howns : ∀ flight, q.owns = some flight → p.owns ≠ some flight)
    (hcall : ∀ call, q.call = some call → p.call ≠ some call) (hq : Fits s q) : Fits s' q := by
  have hregistered : ∀ key flight, p.owns ≠ some flight → Registered s key flight →
      Registered s' key flight :=
    fun key flight hne hreg => ⟨h.current key flight hne hreg.1, hreg.2.trans_le h.next⟩
  have hkey : ∀ flight key, flight < s.flights.next → (s.flights.flight flight).key = key →
      flight < s'.flights.next ∧ (s'.flights.flight flight).key = key :=
    fun flight key hlt hflight => ⟨hlt.trans_le h.next, (h.keys flight hlt).trans hflight⟩
  cases q with
  | idle => trivial
  | claim key call compute =>
      refine ⟨hq.1.trans_le h.calls, hq.2.1, ?_⟩
      rw [h.runs call (hcall call rfl)]
      exact hq.2.2
  | lead key call compute flight =>
      refine ⟨hq.1.trans_le h.calls, hq.2.1, ?_, hregistered key flight (howns flight rfl) hq.2.2.2⟩
      rw [h.runs call (hcall call rfl)]
      exact hq.2.2.1
  | computing key call flight =>
      exact ⟨hq.1.trans_le h.calls, hregistered key flight (howns flight rfl) hq.2⟩
  | publish key flight result => exact ⟨h.produced _ hq.1, hkey flight key hq.2.1 hq.2.2⟩
  | retire key flight result => exact ⟨h.produced _ hq.1, hq.2.trans_le h.next⟩
  | unwind key flight | abandon key flight => exact lt_of_lt_of_le hq h.next
  | follow key call compute flight =>
      refine ⟨hq.1.trans_le h.calls, hq.2.1, ?_, hkey flight key hq.2.2.2.1 hq.2.2.2.2⟩
      rw [h.runs call (hcall call rfl)]
      exact hq.2.2.1
  | returned key result => exact h.produced _ hq

end

/-! ## One step -/

/-- What a step of one thread does to its own position: it may take up a fresh
flight or a fresh call, and it stops leading a flight only by closing it. -/
structure Moves (s s' : Shared τ) (p p' : Position τ) : Prop where
  owns : ∀ flight, p'.owns = some flight → p.owns = some flight ∨ s.flights.next ≤ flight
  call : ∀ call, p'.call = some call → p.call = some call ∨ s.calls ≤ call
  closes : ∀ flight, p.leads = some flight →
    p'.leads = some flight ∨ (s'.flights.flight flight).closed = true
  opens : ∀ flight, s.flights.next ≤ flight → flight < s'.flights.next → p'.leads = some flight

/-- What holds of the shared state: the results of a flight are those of
computes for its key, and no closure has run twice. -/
structure Kept (s : Shared τ) : Prop where
  flights : s.flights.Keeps fun key result => (key, result) ∈ s.produced
  once : ∀ call, s.runs call ≤ 1
  unused : ∀ call, s.calls ≤ call → s.runs call = 0

section

variable {s s' : Shared τ} {t : Nat} {a : Action τ} {p p' : Position τ}

/-- A step that registers no flight and begins no call. -/
theorem Moves.quiet (howns : ∀ flight, p'.owns = some flight → p.owns = some flight)
    (hcall : ∀ call, p'.call = some call → p.call = some call)
    (hleads : ∀ flight, p.leads = some flight →
      p'.leads = some flight ∨ (s'.flights.flight flight).closed = true)
    (hnext : s'.flights.next = s.flights.next) : Moves s s' p p' where
  owns flight h := .inl (howns flight h)
  call call h := .inl (hcall call h)
  closes := hleads
  opens flight hle hlt := by
    rw [hnext] at hlt
    omega

theorem remove_frame {flight : Nat} (key : FlightKey) (howns : p.owns = some flight) :
    Frame p s { s with flights := s.flights.removeCurrentFlight key flight } where
  calls := le_rfl
  runs _ _ := rfl
  produced _ h := h
  next := by simp
  keys _ _ := by simp
  closed _ _ h := by simpa using h
  current key' other hne hlookup := by
    refine Flights.removeCurrentFlight_lookup ?_ hlookup
    rintro rfl
    exact hne howns

theorem modify_frame (flight : Nat) {f : Flight τ → Flight τ}
    (hkey : ∀ flight, (f flight).key = flight.key)
    (hclosed : ∀ flight, flight.closed = true → (f flight).closed = true) :
    Frame p s { s with flights := s.flights.modify flight f } where
  calls := le_rfl
  runs _ _ := rfl
  produced _ h := h
  next := le_rfl
  keys _ _ := Flights.modify_key _ _ _ hkey
  closed _ _ h := Flights.modify_closed _ _ _ hclosed h
  current _ _ _ h := h

theorem register_frame {key : FlightKey} (hcurrent : s.flights.current.lookup key = none) :
    Frame p s { s with flights := s.flights.register key } where
  calls := le_rfl
  runs _ _ := rfl
  produced _ h := h
  next := Nat.le_succ _
  keys flight hlt := by rw [Flights.register_flight_of_ne hlt.ne]
  closed flight hlt hclosed := by
    rw [Flights.register_flight_of_ne hlt.ne]
    exact hclosed
  current key' flight _ hlookup := by
    have hkey : key' ≠ key := by
      rintro rfl
      rw [hcurrent] at hlookup
      cases hlookup
    simpa [Flights.register, Keyed.lookup_insert_eq, hkey] using hlookup

/-- A claim hands out the registered flight, or registers a new one that is the
caller's to lead. -/
theorem claim_step {key : FlightKey} {call : Nat} {compute : Bool} (hs : Kept s)
    (hp : Fits s (.claim key call compute))
    (h : program t a s (.claim key call compute) = some (s', p')) :
    Frame (.claim key call compute) s s' ∧ Kept s' ∧ Fits s' p' ∧
      Moves s s' (.claim key call compute) p' := by
  simp only [program, Flights.claimFlight] at h
  cases hcurrent : s.flights.current.lookup key with
  | some flight =>
      simp only [hcurrent] at h
      cases h
      obtain ⟨hlt, hkey⟩ := hs.flights.registered key flight hcurrent
      exact ⟨.refl _ s, hs, ⟨hp.1, hp.2.1, hp.2.2, hlt, hkey⟩,
        .quiet nofun (fun _ h => h) nofun rfl⟩
  | none =>
      simp only [hcurrent] at h
      cases h
      have hnew : (s.flights.register key).current.lookup key = some s.flights.next := by
        simp [Flights.register]
      refine ⟨register_frame hcurrent, ⟨hs.flights.register key, hs.once, hs.unused⟩,
        ⟨hp.1, hp.2.1, hp.2.2, hnew, Nat.lt_succ_self _⟩, ?_, fun _ h => .inl h, nofun, ?_⟩
      · intro flight hflight
        cases hflight
        exact .inr le_rfl
      · intro flight hle hlt
        have hlast : flight < s.flights.next + 1 := hlt
        simp only [Position.leads, Option.some.injEq]
        omega

/-- The leader runs its closure, which it still has. -/
theorem lead_step {key : FlightKey} {call flight : Nat} {compute : Bool} (hs : Kept s)
    (hp : Fits s (.lead key call compute flight))
    (h : program t a s (.lead key call compute flight) = some (s', p')) :
    Frame (.lead key call compute flight) s s' ∧ Kept s' ∧ Fits s' p' ∧
      Moves s s' (.lead key call compute flight) p' := by
  obtain ⟨hcalls, rfl, hruns, hregistered⟩ := hp
  cases h
  refine ⟨⟨le_rfl, ?_, fun _ h => h, le_rfl, fun _ _ => rfl, fun _ _ h => h, fun _ _ _ h => h⟩,
    ⟨hs.flights, ?_, ?_⟩, ⟨hcalls, hregistered⟩,
    .quiet (fun _ h => h) (fun _ h => h) (fun _ h => .inl h) rfl⟩
  · intro other hother
    refine Function.update_of_ne ?_ _ _
    rintro rfl
    exact hother rfl
  · intro other
    by_cases heq : other = call
    · subst heq
      simp [hruns]
    · simpa [Function.update_of_ne heq] using hs.once other
  · intro other hother
    have hle : s.calls ≤ other := hother
    have hne : other ≠ call := by omega
    simpa [Function.update_of_ne hne] using hs.unused other hother

theorem program_step (hs : Kept s) (hp : Fits s p) (h : program t a s p = some (s', p')) :
    Frame p s s' ∧ Kept s' ∧ Fits s' p' ∧ Moves s s' p p' := by
  cases p with
  | idle =>
      cases h
      refine ⟨⟨Nat.le_succ _, fun _ _ => rfl, fun _ h => h, le_rfl, fun _ _ => rfl,
          fun _ _ h => h, fun _ _ _ h => h⟩,
        ⟨hs.flights, hs.once, fun call h => hs.unused call (Nat.le_of_succ_le h)⟩,
        ⟨Nat.lt_succ_self _, rfl, hs.unused _ le_rfl⟩, nofun, ?_, nofun, ?_⟩
      · intro call hcall
        cases hcall
        exact .inr le_rfl
      · intro flight hle hlt
        exact absurd hlt (Nat.not_lt_of_le hle)
  | claim key call compute => exact claim_step hs hp h
  | lead key call compute flight => exact lead_step hs hp h
  | computing key call flight =>
      obtain ⟨_, hkey⟩ := hs.flights.registered key flight hp.2.1
      simp only [program] at h
      split at h
      · cases h
        have hmore : ∀ (result : τ) row, row ∈ s.produced → row ∈ (key, result) :: s.produced :=
          fun result _ h => List.mem_cons_of_mem _ h
        exact ⟨⟨le_rfl, fun _ _ => rfl, hmore _, le_rfl, fun _ _ => rfl, fun _ _ h => h,
            fun _ _ _ h => h⟩,
          ⟨hs.flights.mono fun _ _ => hmore _ _, hs.once, hs.unused⟩,
          ⟨List.mem_cons_self, hp.2.2, hkey⟩, .quiet (fun _ h => h) nofun (fun _ h => .inl h) rfl⟩
      · cases h
        exact ⟨.refl _ s, hs, hp.2.2, .quiet (fun _ h => h) nofun (fun _ h => .inl h) rfl⟩
  | publish key flight result =>
      cases h
      have hresult : ((s.flights.flight flight).key, result) ∈ s.produced := by
        rw [hp.2.2]
        exact hp.1
      refine ⟨modify_frame flight (fun _ => rfl) fun _ _ => rfl,
        ⟨hs.flights.publish flight result hresult, hs.once, hs.unused⟩, ⟨hp.1, hp.2.1⟩,
        .quiet (fun _ h => h) nofun ?_ rfl⟩
      intro _ h
      cases h
      exact .inr (Flights.publish_closed _ _)
  | retire key flight result =>
      cases h
      exact ⟨remove_frame key rfl,
        ⟨hs.flights.removeCurrentFlight key flight, hs.once, hs.unused⟩, hp.1,
        .quiet nofun nofun nofun (Flights.removeCurrentFlight_next _ _)⟩
  | unwind key flight =>
      cases h
      refine ⟨remove_frame key rfl,
        ⟨hs.flights.removeCurrentFlight key flight, hs.once, hs.unused⟩, ?_,
        .quiet (fun _ h => h) nofun (fun _ h => .inl h) (Flights.removeCurrentFlight_next _ _)⟩
      simpa [Fits] using hp
  | abandon key flight =>
      cases h
      refine ⟨modify_frame flight (fun _ => rfl) fun _ _ => rfl,
        ⟨hs.flights.closeWithoutResult flight, hs.once, hs.unused⟩, trivial,
        .quiet nofun nofun ?_ rfl⟩
      intro _ h
      cases h
      exact .inr (Flights.closeWithoutResult_closed _)
  | follow key call compute flight =>
      simp only [program] at h
      split at h
      · cases h
      · split at h
        · rename_i result hresult
          cases h
          have hproduced := hs.flights.result flight result hresult
          rw [hp.2.2.2.2] at hproduced
          exact ⟨.refl _ s, hs, hproduced, .quiet nofun nofun nofun rfl⟩
        · cases h
          exact ⟨.refl _ s, hs, ⟨hp.1, hp.2.1, hp.2.2.1⟩, .quiet nofun (fun _ h => h) nofun rfl⟩
  | returned key result =>
      cases h
      exact ⟨.refl _ s, hs, trivial, .quiet nofun nofun nofun rfl⟩

end

/-! ## Runs -/

/-- What holds in every configuration. -/
structure Sound (c : Config (Shared τ) (Position τ)) : Prop where
  kept : Kept c.shared
  fits : ∀ t, Fits c.shared (c.thread t)
  owner : ∀ t u flight, (c.thread t).owns = some flight → (c.thread u).owns = some flight → t = u
  caller : ∀ t u call, (c.thread t).call = some call → (c.thread u).call = some call → t = u
  led : ∀ flight, flight < c.shared.flights.next →
    (c.shared.flights.flight flight).closed = true ∨ ∃ t, (c.thread t).leads = some flight

theorem sound_started : Sound (started : Config (Shared τ) (Position τ)) where
  kept := ⟨Flights.keeps_empty _, fun _ => Nat.zero_le 1, fun _ _ => rfl⟩
  fits _ := trivial
  owner := nofun
  caller := nofun
  led := nofun

theorem Fits.owns_lt {s : Shared τ} {p : Position τ} {flight : Nat} (h : Fits s p)
    (howns : p.owns = some flight) : flight < s.flights.next := by
  cases p with
  | lead => cases howns; exact h.2.2.2.2
  | computing => cases howns; exact h.2.2
  | publish => cases howns; exact h.2.1
  | retire => cases howns; exact h.2
  | unwind | abandon => cases howns; exact h
  | _ => cases howns

theorem Fits.call_lt {s : Shared τ} {p : Position τ} {call : Nat} (h : Fits s p)
    (hcall : p.call = some call) : call < s.calls := by
  cases p with
  | claim | lead | computing | follow => cases hcall; exact h.1
  | _ => cases hcall

variable {c d : Config (Shared τ) (Position τ)} {t u : Nat} {a : Action τ}
variable {acts : List (Nat × Action τ)}

theorem sound_step (hc : Sound c) (h : c.step program t a = some d) : Sound d := by
  obtain ⟨shared, position, hprog, rfl⟩ := Config.step_eq_some h
  obtain ⟨hframe, hkept, hfits, hmoves⟩ := program_step hc.kept (hc.fits t) hprog
  refine ⟨hkept, ?_, ?_, ?_, ?_⟩
  · intro other
    by_cases hother : other = t
    · subst hother
      simpa using hfits
    · simp only [Function.update_of_ne hother]
      refine hframe.fits ?_ ?_ (hc.fits other)
      · intro flight howns howns'
        exact hother (hc.owner other t flight howns howns')
      · intro call hcall hcall'
        exact hother (hc.caller other t call hcall hcall')
  · exact Config.apart_of_update _ (fun u flight h => (hc.fits u).owns_lt h) hmoves.owns hc.owner
  · exact Config.apart_of_update _ (fun u call h => (hc.fits u).call_lt h) hmoves.call hc.caller
  · intro flight hlt
    by_cases hnew : c.shared.flights.next ≤ flight
    · exact .inr ⟨t, by simpa using hmoves.opens flight hnew hlt⟩
    · rcases hc.led flight (Nat.lt_of_not_le hnew) with hclosed | ⟨leader, hleads⟩
      · exact .inl (hframe.closed flight (Nat.lt_of_not_le hnew) hclosed)
      · by_cases hleader : leader = t
        · subst hleader
          rcases hmoves.closes flight hleads with hleads' | hclosed
          · exact .inr ⟨leader, by simpa using hleads'⟩
          · exact .inl hclosed
        · exact .inr ⟨leader, by simpa [Function.update_of_ne hleader] using hleads⟩

theorem sound_of_runs (h : Runs program (fun _ _ _ => True) started acts c) : Sound c :=
  h.invariant (fun _ _ _ _ _ hstep hsound => sound_step hsound hstep) sound_started

/-! ## Single flight -/

theorem Sound.computes_unique (hc : Sound c) {key : FlightKey}
    (ht : (c.thread t).computes = some key) (hu : (c.thread u).computes = some key) : t = u := by
  have hregistered : ∀ v, (c.thread v).computes = some key →
      ∃ flight, (c.thread v).owns = some flight ∧ Registered c.shared key flight := by
    intro v hv
    have hfits := hc.fits v
    generalize c.thread v = p at hv hfits
    cases p with
    | computing key' call flight =>
        cases hv
        exact ⟨flight, rfl, hfits.2⟩
    | _ => cases hv
  obtain ⟨flight, howns, hcurrent, _⟩ := hregistered t ht
  obtain ⟨flight', howns', hcurrent', _⟩ := hregistered u hu
  rw [hcurrent] at hcurrent'
  cases hcurrent'
  exact hc.owner t u flight howns howns'

/-- The drop of a leader removes no flight but its own. -/
theorem drop_spares_others {flight other : Nat} {key : FlightKey}
    (hdrop : (∃ key' result, c.thread t = .retire key' flight result) ∨
      ∃ key', c.thread t = .unwind key' flight)
    (h : c.step program t a = some d) (hne : other ≠ flight)
    (hcurrent : c.shared.flights.current.lookup key = some other) :
    d.shared.flights.current.lookup key = some other := by
  obtain ⟨shared, position, hprog, rfl⟩ := Config.step_eq_some h
  rcases hdrop with ⟨key', result, hthread⟩ | ⟨key', hthread⟩ <;>
  · rw [hthread] at hprog
    cases hprog
    exact Flights.removeCurrentFlight_lookup (Ne.symm hne) hcurrent

/-- Every interleaving of calls: one compute at a time for a key, every value
returned is of a compute for the same key, every closure runs at most once, a
late drop removes no newer flight, and every flight that a follower waits for is
closed or has a leader that will close it. -/
theorem single_flight (h : Runs program (fun _ _ _ => True) started acts c) :
    (∀ t u key, (c.thread t).computes = some key → (c.thread u).computes = some key → t = u) ∧
    (∀ t key result, c.thread t = .returned key result → (key, result) ∈ c.shared.produced) ∧
    (∀ call, c.shared.runs call ≤ 1) ∧
    (∀ t a d flight other key,
      ((∃ key' result, c.thread t = .retire key' flight result) ∨
        ∃ key', c.thread t = .unwind key' flight) →
      c.step program t a = some d → other ≠ flight →
      c.shared.flights.current.lookup key = some other →
      d.shared.flights.current.lookup key = some other) ∧
    (∀ t flight, (c.thread t).waitsFor = some flight →
      (c.shared.flights.flight flight).closed = true ∨
        ∃ u, (c.thread u).leads = some flight) := by
  have hc := sound_of_runs h
  refine ⟨fun t u key => hc.computes_unique, ?_, hc.kept.once,
    fun t a d flight other key => drop_spares_others, ?_⟩
  · intro t key result hthread
    have hfits := hc.fits t
    rw [hthread] at hfits
    exact hfits
  · intro t flight hwaits
    have hfits := hc.fits t
    generalize c.thread t = p at hwaits hfits
    cases p with
    | follow key call compute flight' =>
        cases hwaits
        exact hc.led flight hfits.2.2.2.1
    | _ => cases hwaits

/-- Thread 1 follows the flight of thread 0, whose compute panics: thread 0 still
has to close it. -/
theorem single_flight_abandoned :
    ∃ c : Config (Shared Nat) (Position Nat),
      c.thread 0 = .abandon ("k", 1) 0 ∧ c.thread 1 = .follow ("k", 1) 1 true 0 ∧
      ((c.shared.flights.flight 0).closed = true ∨ ∃ u, (c.thread u).leads = some 0) := by
  have hrun : (((started : Config (Shared Nat) (Position Nat)).run program (fun _ _ _ => True)
      [(0, { key := ("k", 1) }), (0, {}), (1, { key := ("k", 1) }), (1, {}), (0, {}), (0, {}),
        (0, {})]).any fun c => decide (c.thread 0 = .abandon ("k", 1) 0 ∧
          c.thread 1 = .follow ("k", 1) 1 true 0)) = true := by
    decide
  obtain ⟨c, hc, htest⟩ := Runs.of_run_any hrun
  obtain ⟨habandon, hfollow⟩ := of_decide_eq_true htest
  refine ⟨c, habandon, hfollow, ?_⟩
  exact (single_flight hc).2.2.2.2 1 0 (by rw [hfollow]; rfl)

end ImportLens.Daemon.SingleFlight
