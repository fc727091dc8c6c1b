import ImportLens.Cache.Entry
import ImportLens.Support.SequenceClock

/-!
# The recency clock under all of its callers

Threads reach the clock by one atomic step a call, a `fetch_add` or a `fetch_max`, so an
interleaving of their calls is a list of calls.  A sequence that is observed comes from disk:
the summary row of a shard, or the start of a stored value that decodes.
-/

namespace ImportLens.Cache

open ImportLens.Support
open ImportLens.Support.SequenceClock (Request Event NeverGoesBack Fits HasRoom tickets)

inductive ClockCall
  | nextSeq
  | observe (seq : UInt64)
  | decodeCachedResult (bytes : Bytes)
  deriving DecidableEq, Repr

section

variable (codec : Codec)

def ClockCall.run (heap : Heap) : ClockCall → Option Event × Heap
  | .nextSeq => (some (.returned heap.nextSeq.1), heap.nextSeq.2)
  | .observe seq => (some (.observed seq.toNat), heap.observe seq.toNat)
  | .decodeCachedResult bytes =>
      match Cache.decodeCachedResult codec heap bytes with
      | some (cached, heap') => (some (.observed (heap'.cells cached.cell).lastSeq), heap')
      | none => (none, heap)

def clockEvents (heap : Heap) : List ClockCall → List Event
  | [] => []
  | call :: rest => (call.run codec heap).1.toList ++ clockEvents (call.run codec heap).2 rest

def decodes (bytes : Bytes) : Bool :=
  decide (seqPrefixLen ≤ bytes.length) &&
    (codec.fromSlice (bytes.drop seqPrefixLen)).any fun envelope =>
      envelope.analyzerVersion == analyzerVersion

def ClockCall.request : ClockCall → Option Request
  | .nextSeq => some .next
  | .observe seq => some (.observe seq.toNat)
  | .decodeCachedResult bytes =>
      if decodes codec bytes then some (.observe (decodeLastSeq bytes)) else none

end

section

variable {codec : Codec} {heap : Heap} {bytes : Bytes} {call : ClockCall} {request : Request}

/-- A value that decodes moves the clock past its sequence, and its entry carries it. -/
theorem decodeCachedResult_of_decodes (heap : Heap) (h : decodes codec bytes = true) :
    ∃ cached heap', decodeCachedResult codec heap bytes = some (cached, heap') ∧
      (heap'.cells cached.cell).lastSeq = decodeLastSeq bytes ∧
      heap'.recencyClock = (heap.observe (decodeLastSeq bytes)).recencyClock := by
  rw [decodes, Bool.and_eq_true, decide_eq_true_eq] at h
  obtain ⟨hlong, hany⟩ := h
  obtain ⟨envelope, hslice, hversion⟩ := (Option.any_eq_true _ _).mp hany
  have hsame : ¬ envelope.analyzerVersion ≠ analyzerVersion :=
    not_not_intro (beq_iff_eq.mp hversion)
  unfold decodeCachedResult
  simp only [if_neg (Nat.not_lt.mpr hlong), hslice, if_neg hsame]
  refine ⟨_, _, rfl, ?_, rfl⟩
  simp only [Heap.alloc, Function.update_self]

theorem decodeCachedResult_of_not_decodes (h : decodes codec bytes = false) :
    decodeCachedResult codec heap bytes = none := by
  unfold decodeCachedResult
  by_cases hshort : bytes.length < seqPrefixLen
  · rw [if_pos hshort]
  · rw [if_neg hshort]
    rw [decodes, decide_eq_true (Nat.not_lt.mp hshort), Bool.true_and] at h
    cases hslice : codec.fromSlice (bytes.drop seqPrefixLen) with
    | none => rfl
    | some envelope =>
      rw [hslice, Option.any_some, beq_eq_false_iff_ne] at h
      simp only [if_pos h]

/-- A call with a request takes the step of the clock that the request asks for. -/
theorem run_of_request (heap : Heap) (h : call.request codec = some request) :
    (call.run codec heap).1 = some (SequenceClock.step (2 ^ 64) heap.recencyClock request).1 ∧
      (call.run codec heap).2.recencyClock =
        (SequenceClock.step (2 ^ 64) heap.recencyClock request).2 := by
  cases call with
  | nextSeq =>
    cases h
    exact ⟨rfl, rfl⟩
  | observe seq =>
    cases h
    exact ⟨rfl, rfl⟩
  | decodeCachedResult bytes =>
    rw [ClockCall.request] at h
    split at h
    · rename_i hdecodes
      cases h
      obtain ⟨cached, heap', hdecoded, hseq, hclock⟩ := decodeCachedResult_of_decodes heap hdecodes
      rw [ClockCall.run, hdecoded]
      exact ⟨congrArg (fun seq => some (Event.observed seq)) hseq, hclock⟩
    · cases h

theorem run_of_no_request (h : call.request codec = none) :
    call.run codec heap = (none, heap) := by
  cases call with
  | nextSeq => cases h
  | observe seq => cases h
  | decodeCachedResult bytes =>
    rw [ClockCall.request] at h
    split at h
    · cases h
    · rename_i hnot
      rw [ClockCall.run, decodeCachedResult_of_not_decodes (Bool.not_eq_true _ ▸ hnot)]

theorem clockEvents_eq (calls : List ClockCall) :
    clockEvents codec heap calls =
      SequenceClock.events (2 ^ 64) heap.recencyClock
        (calls.filterMap (ClockCall.request codec)) := by
  induction calls generalizing heap with
  | nil => rfl
  | cons call rest ih =>
    rw [clockEvents, ih]
    cases hrequest : call.request codec with
    | none =>
      rw [run_of_no_request hrequest, List.filterMap_cons_none hrequest]
      rfl
    | some request =>
      obtain ⟨hevent, hclock⟩ := run_of_request heap hrequest
      rw [hevent, hclock, List.filterMap_cons_some hrequest]
      rfl

end

/-- The sequences handed out are new and increasing, and above all that was observed before,
exactly when at each of them one plus the number handed out so far is a 64-bit number, and so is,
for each sequence observed so far, that sequence plus one plus the number handed out since. -/
theorem recency_clock_never_goes_back_iff (codec : Codec) (calls : List ClockCall) :
    NeverGoesBack (clockEvents codec Heap.initial calls) ↔
      Fits (2 ^ 64) 1 (calls.filterMap (ClockCall.request codec)) := by
  rw [clockEvents_eq]
  exact SequenceClock.neverGoesBack_iff_fits (by decide)

/-- A row whose sequence is the largest one: the next sequence is the same, and then they
start again at 0. -/
theorem largest_row_turns_the_clock_back :
    clockEvents smallCodec Heap.initial
        [.nextSeq, .decodeCachedResult (leBytes 8 (2 ^ 64 - 1) ++ smallBytes 3 false),
          .nextSeq, .nextSeq] =
      [.returned 1, .observed 18446744073709551615, .returned 18446744073709551615, .returned 0] ∧
    ¬ NeverGoesBack (clockEvents smallCodec Heap.initial
        [.nextSeq, .decodeCachedResult (leBytes 8 (2 ^ 64 - 1) ++ smallBytes 3 false),
          .nextSeq, .nextSeq]) := by
  have hevents : clockEvents smallCodec Heap.initial
        [.nextSeq, .decodeCachedResult (leBytes 8 (2 ^ 64 - 1) ++ smallBytes 3 false),
          .nextSeq, .nextSeq] =
      [.returned 1, .observed 18446744073709551615, .returned 18446744073709551615,
        .returned 0] := by
    decide
  refine ⟨hevents, fun h => ?_⟩
  rw [hevents] at h
  exact absurd h.increasing (by decide)

end ImportLens.Cache
