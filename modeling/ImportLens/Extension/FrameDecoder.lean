import ImportLens.Support.Framing
import ImportLens.Support.Rounds

/-!
# The frame decoder

`FrameDecoder` of the extension's `ipc/codec.ts`: chunks of the socket are kept as
they come and read across, and a push answers all the messages that are complete, or
throws.
-/

namespace ImportLens.Extension

open ImportLens.Support

def frameHeaderBytes : Nat := 4

def maxFrameBytes : Nat := 32 * 1024 * 1024

inductive DecodeError
  | frameTooLarge (payloadLength : Nat)
  | malformed
  deriving DecidableEq, Repr

def readUInt32BE (bytes : List UInt8) : Nat :=
  bytes.foldl (fun value byte => value * 256 + byte.toNat) 0

/-! ## The stream -/

section

variable {μ : Type} (decode : List UInt8 → Option μ)

def nextFrame (bytes : List UInt8) : Next μ UInt8 DecodeError :=
  if bytes.length < frameHeaderBytes then .more
  else
    let payloadLength := readUInt32BE (bytes.take frameHeaderBytes)
    if payloadLength > maxFrameBytes then .bad (.frameTooLarge payloadLength)
    else if bytes.length < frameHeaderBytes + payloadLength then .more
    else
      match decode ((bytes.drop frameHeaderBytes).take payloadLength) with
      | none => .bad .malformed
      | some message => .frame message (bytes.drop (frameHeaderBytes + payloadLength))

/-- What a whole header says, in the words of the loop. -/
inductive FrameCase (bytes : List UInt8) : Next μ UInt8 DecodeError → Prop
  | short (h : bytes.length < frameHeaderBytes) : FrameCase bytes .more
  | tooLarge (h : frameHeaderBytes ≤ bytes.length)
      (hlarge : maxFrameBytes < readUInt32BE (bytes.take frameHeaderBytes)) :
      FrameCase bytes (.bad (.frameTooLarge (readUInt32BE (bytes.take frameHeaderBytes))))
  | partly (h : frameHeaderBytes ≤ bytes.length)
      (hfits : readUInt32BE (bytes.take frameHeaderBytes) ≤ maxFrameBytes)
      (hshort : bytes.length < frameHeaderBytes + readUInt32BE (bytes.take frameHeaderBytes)) :
      FrameCase bytes .more
  | malformed (h : frameHeaderBytes ≤ bytes.length)
      (hfits : readUInt32BE (bytes.take frameHeaderBytes) ≤ maxFrameBytes)
      (hwhole : frameHeaderBytes + readUInt32BE (bytes.take frameHeaderBytes) ≤ bytes.length)
      (hdecode : decode ((bytes.drop frameHeaderBytes).take
        (readUInt32BE (bytes.take frameHeaderBytes))) = none) : FrameCase bytes (.bad .malformed)
  | frame (message : μ) (h : frameHeaderBytes ≤ bytes.length)
      (hfits : readUInt32BE (bytes.take frameHeaderBytes) ≤ maxFrameBytes)
      (hwhole : frameHeaderBytes + readUInt32BE (bytes.take frameHeaderBytes) ≤ bytes.length)
      (hdecode : decode ((bytes.drop frameHeaderBytes).take
        (readUInt32BE (bytes.take frameHeaderBytes))) = some message) :
      FrameCase bytes (.frame message
        (bytes.drop (frameHeaderBytes + readUInt32BE (bytes.take frameHeaderBytes))))

theorem nextFrame_cases (bytes : List UInt8) : FrameCase decode bytes (nextFrame decode bytes) := by
  unfold nextFrame
  split
  · exact .short (by assumption)
  · dsimp only
    split
    · exact .tooLarge (by omega) (by omega)
    · split
      · exact .partly (by omega) (by omega) (by omega)
      · cases hdecode : decode ((bytes.drop frameHeaderBytes).take
          (readUInt32BE (bytes.take frameHeaderBytes))) with
        | none => exact .malformed (by omega) (by omega) (by omega) hdecode
        | some message => exact .frame message (by omega) (by omega) (by omega) hdecode

variable {decode}

theorem nextFrame_of_case {bytes : List UInt8} {next : Next μ UInt8 DecodeError}
    (h : FrameCase decode bytes next) : nextFrame decode bytes = next := by
  unfold nextFrame
  cases h with
  | short h => rw [if_pos h]
  | tooLarge h hlarge => rw [if_neg (by omega), if_pos hlarge]
  | partly h hfits hshort => rw [if_neg (by omega), if_neg (by omega), if_pos hshort]
  | malformed h hfits hwhole hdecode =>
    rw [if_neg (by omega), if_neg (by omega), if_neg (by omega), hdecode]
  | frame message h hfits hwhole hdecode =>
    rw [if_neg (by omega), if_neg (by omega), if_neg (by omega), hdecode]

theorem take_header (bytes later : List UInt8) (h : frameHeaderBytes ≤ bytes.length) :
    (bytes ++ later).take frameHeaderBytes = bytes.take frameHeaderBytes := by
  exact List.take_append_of_le_length h

theorem take_payload (bytes later : List UInt8) {length : Nat}
    (h : frameHeaderBytes + length ≤ bytes.length) :
    ((bytes ++ later).drop frameHeaderBytes).take length =
      (bytes.drop frameHeaderBytes).take length := by
  rw [List.drop_append_of_le_length (by omega),
    List.take_append_of_le_length (by rw [List.length_drop]; omega)]

/-- A frame, or a bad one, is the same whatever follows. -/
theorem FrameCase.append {bytes : List UInt8} (later : List UInt8) :
    (∀ {message : μ} {rest : List UInt8}, FrameCase decode bytes (.frame message rest) →
      nextFrame decode (bytes ++ later) = .frame message (rest ++ later)) ∧
    ∀ {error : DecodeError}, FrameCase decode bytes (.bad error) →
      nextFrame decode (bytes ++ later) = .bad error := by
  have hlength : (bytes ++ later).length = bytes.length + later.length := List.length_append
  constructor
  · intro message rest h
    cases h with
    | frame _ h hfits hwhole hdecode =>
      rw [← take_payload bytes later hwhole] at hdecode
      rw [← take_header bytes later h] at hfits hwhole hdecode ⊢
      rw [← List.drop_append_of_le_length hwhole]
      exact nextFrame_of_case (.frame message (by omega) hfits (by omega) hdecode)
  · intro error h
    cases h with
    | tooLarge h hlarge =>
      rw [← take_header bytes later h] at hlarge ⊢
      exact nextFrame_of_case (.tooLarge (by omega) hlarge)
    | malformed h hfits hwhole hdecode =>
      rw [← take_payload bytes later hwhole] at hdecode
      rw [← take_header bytes later h] at hfits hwhole hdecode
      exact nextFrame_of_case (.malformed (by omega) hfits (by omega) hdecode)

def frames (decode : List UInt8 → Option μ) : Framing μ UInt8 DecodeError where
  next := nextFrame decode
  shrinks := by
    intro bytes message rest h
    have hcase := nextFrame_cases decode bytes
    rw [h] at hcase
    cases hcase with
    | frame _ h hfits hwhole hdecode =>
      have hpos : 0 < frameHeaderBytes := by decide
      rw [List.length_drop]
      omega
  frame_append := by
    intro bytes message rest later h
    exact (FrameCase.append later).1 (h ▸ nextFrame_cases decode bytes)
  bad_append := by
    intro bytes error later h
    exact (FrameCase.append later).2 (h ▸ nextFrame_cases decode bytes)

end

/-! ## The decoder -/

structure FrameDecoder where
  chunks : List (List UInt8) := []
  bufferedBytes : Nat := 0
  readOffset : Nat := 0
  deriving DecidableEq, Repr

namespace FrameDecoder

def shift : Nat → List (List UInt8) → Nat × List (List UInt8)
  | readOffset, [] => (readOffset, [])
  | readOffset, chunk :: chunks =>
      if readOffset ≥ chunk.length then shift (readOffset - chunk.length) chunks
      else (readOffset, chunk :: chunks)

def advance (decoder : FrameDecoder) (length : Nat) : FrameDecoder :=
  let shifted := shift (decoder.readOffset + length) decoder.chunks
  { chunks := shifted.2
    bufferedBytes := decoder.bufferedBytes - length
    readOffset := shifted.1 }

def copyAcross : List (List UInt8) → Nat → Nat → List UInt8
  | [], _, _ => []
  | chunk :: chunks, offset, length =>
      if length = 0 then []
      else
        let toCopy := min length (chunk.length - offset)
        (chunk.drop offset).take toCopy ++ copyAcross chunks 0 (length - toCopy)

def peekBytes (decoder : FrameDecoder) (length : Nat) : List UInt8 :=
  match decoder.chunks with
  | [] => []
  | first :: _ =>
      if first.length - decoder.readOffset ≥ length then
        (first.drop decoder.readOffset).take length
      else copyAcross decoder.chunks decoder.readOffset length

/-- A read that goes across the chunks. -/
structure Copying where
  decoder : FrameDecoder
  bytes : List UInt8
  needed : Nat
  deriving DecidableEq, Repr

def copyRound (copying : Copying) : Option Copying :=
  if copying.needed = 0 then none
  else
    copying.decoder.chunks.head?.map fun chunk =>
      let toCopy := min copying.needed (chunk.length - copying.decoder.readOffset)
      { decoder := copying.decoder.advance toCopy
        bytes := copying.bytes ++ (chunk.drop copying.decoder.readOffset).take toCopy
        needed := copying.needed - toCopy }

def readAcross (decoder : FrameDecoder) (length : Nat) : FrameDecoder × List UInt8 :=
  (rounds copyRound (length + 1) ⟨decoder, [], length⟩).elim (decoder, [])
    fun copying => (copying.decoder, copying.bytes)

def readBytes (decoder : FrameDecoder) (length : Nat) : FrameDecoder × List UInt8 :=
  match decoder.chunks with
  | [] => decoder.readAcross length
  | first :: _ =>
      if first.length - decoder.readOffset ≥ length then
        (decoder.advance length, (first.drop decoder.readOffset).take length)
      else decoder.readAcross length

def buffered (decoder : FrameDecoder) : List UInt8 :=
  decoder.chunks.flatten.drop decoder.readOffset

/-- What every operation keeps. -/
structure Sound (decoder : FrameDecoder) : Prop where
  offset_lt : ∀ first rest, decoder.chunks = first :: rest → decoder.readOffset < first.length
  offset_zero : decoder.chunks = [] → decoder.readOffset = 0
  chunks_ne : ∀ chunk ∈ decoder.chunks, chunk ≠ []
  bytes_eq : decoder.bufferedBytes = decoder.buffered.length

section

variable {decoder : FrameDecoder} {length : Nat}

theorem sound_empty : Sound {} := ⟨by simp, fun _ => rfl, by simp, rfl⟩

theorem shift_spec (readOffset : Nat) (chunks : List (List UInt8))
    (hle : readOffset ≤ chunks.flatten.length) :
    (shift readOffset chunks).2.flatten.drop (shift readOffset chunks).1 =
        chunks.flatten.drop readOffset ∧
      (∀ first rest, (shift readOffset chunks).2 = first :: rest →
        (shift readOffset chunks).1 < first.length) ∧
      ((shift readOffset chunks).2 = [] → (shift readOffset chunks).1 = 0) ∧
      ∀ chunk ∈ (shift readOffset chunks).2, chunk ∈ chunks := by
  induction chunks generalizing readOffset with
  | nil =>
    have hzero : readOffset = 0 := Nat.le_zero.mp hle
    subst hzero
    simp [shift]
  | cons chunk chunks ih =>
    rw [List.flatten_cons, List.length_append] at hle
    by_cases hpassed : readOffset ≥ chunk.length
    · obtain ⟨hdrop, hfirst, hnil, hsub⟩ := ih (readOffset - chunk.length) (by omega)
      rw [shift, if_pos hpassed]
      refine ⟨?_, hfirst, hnil, fun c hin => List.mem_cons_of_mem _ (hsub c hin)⟩
      rw [hdrop, List.flatten_cons, List.drop_append, List.drop_of_length_le hpassed,
        List.nil_append]
    · rw [shift, if_neg hpassed]
      refine ⟨rfl, ?_, by simp, fun c hin => hin⟩
      intro first rest heq
      cases heq
      exact Nat.lt_of_not_le hpassed

theorem Sound.advance (h : Sound decoder) (hle : length ≤ decoder.buffered.length) :
    Sound (decoder.advance length) ∧
      (decoder.advance length).buffered = decoder.buffered.drop length := by
  have hflat : decoder.readOffset + length ≤ decoder.chunks.flatten.length := by
    rw [buffered, List.length_drop] at hle
    by_cases hchunks : decoder.chunks = []
    · rw [hchunks] at hle ⊢
      have := h.offset_zero hchunks
      simp only [List.flatten_nil, List.length_nil] at hle ⊢
      omega
    · obtain ⟨first, rest, hcons⟩ := List.exists_cons_of_ne_nil hchunks
      have hlt := h.offset_lt first rest hcons
      rw [hcons, List.flatten_cons, List.length_append] at hle ⊢
      omega
  obtain ⟨hdrop, hfirst, hnil, hsub⟩ :=
    shift_spec (decoder.readOffset + length) decoder.chunks hflat
  have hbuffered : (decoder.advance length).buffered = decoder.buffered.drop length := by
    unfold buffered
    rw [List.drop_drop]
    exact hdrop
  refine ⟨⟨hfirst, hnil, fun chunk hin => h.chunks_ne chunk (hsub chunk hin), ?_⟩, hbuffered⟩
  rw [hbuffered, List.length_drop, ← h.bytes_eq]
  rfl

theorem copyAcross_eq (chunks : List (List UInt8)) (offset length : Nat)
    (hoffset : ∀ first rest, chunks = first :: rest → offset ≤ first.length)
    (hle : length ≤ (chunks.flatten.drop offset).length) :
    copyAcross chunks offset length = (chunks.flatten.drop offset).take length := by
  induction chunks generalizing offset length with
  | nil =>
    have hzero : length = 0 := by simpa using hle
    subst hzero
    simp [copyAcross]
  | cons chunk chunks ih =>
    have hchunk := hoffset chunk chunks rfl
    rw [List.length_drop, List.flatten_cons, List.length_append] at hle
    rw [copyAcross, List.flatten_cons, List.drop_append_of_le_length hchunk, List.take_append,
      List.length_drop]
    by_cases hzero : length = 0
    · simp [hzero]
    · rw [if_neg hzero]
      dsimp only
      rw [ih 0 (length - min length (chunk.length - offset)) (fun _ _ _ => Nat.zero_le _)
        (by rw [List.drop_zero]; omega), List.drop_zero]
      congr 1
      · rcases Nat.le_total length (chunk.length - offset) with hle | hle
        · rw [Nat.min_eq_left hle]
        · rw [Nat.min_eq_right hle, List.take_of_length_le (Nat.le_of_eq List.length_drop),
            List.take_of_length_le (by rw [List.length_drop]; exact hle)]
      · congr 1
        omega

theorem Sound.peekBytes (h : Sound decoder) (hle : length ≤ decoder.buffered.length) :
    decoder.peekBytes length = decoder.buffered.take length := by
  unfold FrameDecoder.peekBytes
  cases hchunks : decoder.chunks with
  | nil =>
    have hzero : length = 0 := by
      rw [buffered, hchunks] at hle
      simpa using hle
    simp [hzero]
  | cons first rest =>
    have hlt := h.offset_lt first rest hchunks
    unfold buffered at hle ⊢
    rw [hchunks] at hle ⊢
    dsimp only
    split
    · rename_i hfirst
      rw [List.flatten_cons, List.drop_append_of_le_length (Nat.le_of_lt hlt),
        List.take_append_of_le_length (by rw [List.length_drop]; exact hfirst)]
    · apply copyAcross_eq _ _ _ _ hle
      intro chunk chunks heq
      cases heq
      exact Nat.le_of_lt hlt

/-- The rounds of a read across the chunks. -/
theorem rounds_copyRound (fuel : Nat) (h : Sound decoder) (bytes : List UInt8)
    (hle : length ≤ decoder.buffered.length) (hfuel : length < fuel) :
    ∃ last, rounds copyRound fuel ⟨decoder, bytes, length⟩ = some last ∧ Sound last.decoder ∧
      last.decoder.buffered = decoder.buffered.drop length ∧
      last.bytes = bytes ++ decoder.buffered.take length := by
  induction fuel generalizing decoder bytes length with
  | zero => omega
  | succ fuel ih =>
    by_cases hzero : length = 0
    · subst hzero
      refine ⟨⟨decoder, bytes, 0⟩, rounds_done (by simp [copyRound]), h, ?_, ?_⟩
      · rw [List.drop_zero]
      · rw [List.take_zero, List.append_nil]
    · cases hchunks : decoder.chunks with
      | nil =>
        rw [buffered, hchunks] at hle
        exact absurd (by simpa using hle) hzero
      | cons first rest =>
        have hlt := h.offset_lt first rest hchunks
        generalize hcopy : min length (first.length - decoder.readOffset) = toCopy
        have hpos : 0 < toCopy := by omega
        have hroom : toCopy ≤ decoder.buffered.length := by omega
        have hround : copyRound ⟨decoder, bytes, length⟩ =
            some ⟨decoder.advance toCopy,
              bytes ++ (first.drop decoder.readOffset).take toCopy, length - toCopy⟩ := by
          simp only [copyRound, if_neg hzero, hchunks, List.head?_cons, Option.map_some, hcopy]
        have htaken : (first.drop decoder.readOffset).take toCopy =
            decoder.buffered.take toCopy := by
          rw [buffered, hchunks, List.flatten_cons,
            List.drop_append_of_le_length (Nat.le_of_lt hlt),
            List.take_append_of_le_length (by rw [List.length_drop]; omega)]
        obtain ⟨hsound, hbuffered⟩ := h.advance hroom
        obtain ⟨last, hrun, hlast, hrest, hbytes⟩ := ih hsound
          (bytes ++ (first.drop decoder.readOffset).take toCopy)
          (show length - toCopy ≤ (decoder.advance toCopy).buffered.length by
            rw [hbuffered, List.length_drop]
            omega) (by omega)
        refine ⟨last, (rounds_next hround).trans hrun, hlast, ?_, ?_⟩
        · rw [hrest, hbuffered, List.drop_drop]
          congr 1
          omega
        · rw [hbytes, hbuffered, htaken, List.append_assoc, ← List.take_add]
          congr 2
          omega

/-- A read takes the front of what is buffered. -/
theorem Sound.readBytes (h : Sound decoder) (hle : length ≤ decoder.buffered.length) :
    Sound (decoder.readBytes length).1 ∧
      (decoder.readBytes length).1.buffered = decoder.buffered.drop length ∧
      (decoder.readBytes length).2 = decoder.buffered.take length := by
  have hacross : Sound (decoder.readAcross length).1 ∧
      (decoder.readAcross length).1.buffered = decoder.buffered.drop length ∧
      (decoder.readAcross length).2 = decoder.buffered.take length := by
    obtain ⟨last, hrun, hlast, hrest, hbytes⟩ := rounds_copyRound (length + 1) h [] hle
      (Nat.lt_succ_self length)
    unfold readAcross
    rw [hrun]
    exact ⟨hlast, hrest, hbytes⟩
  unfold FrameDecoder.readBytes
  cases hchunks : decoder.chunks with
  | nil => exact hacross
  | cons first rest =>
    dsimp only
    split
    · rename_i hfirst
      have hlt := h.offset_lt first rest hchunks
      obtain ⟨hsound, hbuffered⟩ := h.advance hle
      refine ⟨hsound, hbuffered, ?_⟩
      rw [buffered, hchunks, List.flatten_cons, List.drop_append_of_le_length (Nat.le_of_lt hlt),
        List.take_append_of_le_length (by rw [List.length_drop]; exact hfirst)]
    · exact hacross

end

/-! ## Pushing a chunk -/

section

variable {μ : Type} (decode : List UInt8 → Option μ)

/-- The loop of a push: the messages so far, and the error that ends it. -/
structure Pushing (μ : Type) where
  decoder : FrameDecoder
  messages : List μ
  thrown : Option DecodeError

def pushRound (pushing : Pushing μ) : Option (Pushing μ) :=
  let decoder := pushing.decoder
  let payloadLength := readUInt32BE (decoder.peekBytes frameHeaderBytes)
  let header := decoder.readBytes frameHeaderBytes
  let payload := header.1.readBytes payloadLength
  if pushing.thrown.isSome || decoder.bufferedBytes < frameHeaderBytes then none
  else if payloadLength > maxFrameBytes then
    some { pushing with decoder := {}, thrown := some (.frameTooLarge payloadLength) }
  else if decoder.bufferedBytes < frameHeaderBytes + payloadLength then none
  else
    match decode payload.2 with
    | none => some { pushing with decoder := payload.1, thrown := some .malformed }
    | some message =>
        some { pushing with decoder := payload.1, messages := pushing.messages ++ [message] }

def feed (decoder : FrameDecoder) (chunk : List UInt8) : FrameDecoder :=
  if chunk.length > 0 then
    { decoder with
      chunks := decoder.chunks ++ [chunk]
      bufferedBytes := decoder.bufferedBytes + chunk.length }
  else decoder

def push (decoder : FrameDecoder) (chunk : List UInt8) :
    FrameDecoder × Except DecodeError (List μ) :=
  let fed := decoder.feed chunk
  (rounds (pushRound decode) (fed.bufferedBytes + 2) ⟨fed, [], none⟩).elim (fed, .ok [])
    fun pushing => (pushing.decoder, pushing.thrown.elim (.ok pushing.messages) .error)

variable {decode} {decoder : FrameDecoder}

theorem Sound.feed (h : Sound decoder) (chunk : List UInt8) :
    Sound (decoder.feed chunk) ∧ (decoder.feed chunk).buffered = decoder.buffered ++ chunk := by
  unfold FrameDecoder.feed
  split
  · rename_i hpos
    have hoffset : decoder.readOffset ≤ decoder.chunks.flatten.length := by
      cases hchunks : decoder.chunks with
      | nil => rw [h.offset_zero hchunks]; exact Nat.zero_le _
      | cons first rest =>
        have := h.offset_lt first rest hchunks
        rw [List.flatten_cons, List.length_append]
        omega
    have hbuffered : FrameDecoder.buffered { decoder with
        chunks := decoder.chunks ++ [chunk]
        bufferedBytes := decoder.bufferedBytes + chunk.length } = decoder.buffered ++ chunk := by
      unfold buffered
      rw [List.flatten_append, List.flatten_singleton, List.drop_append_of_le_length hoffset]
    refine ⟨⟨?_, by simp, ?_, ?_⟩, hbuffered⟩
    · intro first rest heq
      cases hchunks : decoder.chunks with
      | nil =>
        simp only [hchunks, List.nil_append, List.cons.injEq] at heq
        rw [h.offset_zero hchunks, ← heq.1]
        exact hpos
      | cons first' rest' =>
        simp only [hchunks, List.cons_append, List.cons.injEq] at heq
        rw [← heq.1]
        exact h.offset_lt first' rest' hchunks
    · intro c hin
      rcases List.mem_append.mp hin with hold | hnew
      · exact h.chunks_ne c hold
      · rw [List.mem_singleton.mp hnew]
        exact List.length_pos_iff.mp hpos
    · rw [hbuffered, List.length_append, ← h.bytes_eq]
  · rename_i hempty
    have hnil : chunk = [] := List.length_eq_zero_iff.mp (by omega)
    rw [hnil, List.append_nil]
    exact ⟨h, rfl⟩

/-- What a round reads when a whole header is there. -/
theorem pushRound_header (h : Sound decoder) (messages : List μ)
    (hheader : frameHeaderBytes ≤ decoder.buffered.length) :
    pushRound decode ⟨decoder, messages, none⟩ =
      if readUInt32BE (decoder.buffered.take frameHeaderBytes) > maxFrameBytes then
        some ⟨{}, messages,
          some (.frameTooLarge (readUInt32BE (decoder.buffered.take frameHeaderBytes)))⟩
      else if decoder.buffered.length <
          frameHeaderBytes + readUInt32BE (decoder.buffered.take frameHeaderBytes) then none
      else
        (decode ((decoder.readBytes frameHeaderBytes).1.readBytes
          (readUInt32BE (decoder.buffered.take frameHeaderBytes))).2).elim
          (some ⟨((decoder.readBytes frameHeaderBytes).1.readBytes
            (readUInt32BE (decoder.buffered.take frameHeaderBytes))).1, messages,
            some .malformed⟩)
          fun message => some ⟨((decoder.readBytes frameHeaderBytes).1.readBytes
            (readUInt32BE (decoder.buffered.take frameHeaderBytes))).1,
            messages ++ [message], none⟩ := by
  unfold pushRound
  dsimp only
  rw [h.peekBytes hheader, h.bytes_eq, if_neg (by simp; omega)]
  split
  · rfl
  · split
    · rfl
    · cases decode _ <;> rfl

theorem pushRound_more (h : Sound decoder) (messages : List μ)
    (hnext : nextFrame decode decoder.buffered = .more) :
    pushRound decode ⟨decoder, messages, none⟩ = none := by
  have hcase := nextFrame_cases decode decoder.buffered
  rw [hnext] at hcase
  cases hcase with
  | short hshort =>
    unfold pushRound
    dsimp only
    rw [if_pos (by rw [h.bytes_eq]; simp [hshort])]
  | partly hheader hfits hshort =>
    rw [pushRound_header h messages hheader, if_neg (by omega), if_pos hshort]

/-- The payload behind a header, and what is left behind it. -/
theorem Sound.readPayload (h : Sound decoder) {length : Nat}
    (hwhole : frameHeaderBytes + length ≤ decoder.buffered.length) :
    Sound ((decoder.readBytes frameHeaderBytes).1.readBytes length).1 ∧
      ((decoder.readBytes frameHeaderBytes).1.readBytes length).1.buffered =
        decoder.buffered.drop (frameHeaderBytes + length) ∧
      ((decoder.readBytes frameHeaderBytes).1.readBytes length).2 =
        (decoder.buffered.drop frameHeaderBytes).take length := by
  obtain ⟨hheader, hrest, -⟩ := h.readBytes
    (show frameHeaderBytes ≤ decoder.buffered.length by omega)
  obtain ⟨hsound, hbuffered, hbytes⟩ := hheader.readBytes
    (show length ≤ (decoder.readBytes frameHeaderBytes).1.buffered.length by
      rw [hrest, List.length_drop]
      omega)
  rw [hrest] at hbuffered hbytes
  rw [List.drop_drop] at hbuffered
  exact ⟨hsound, hbuffered, hbytes⟩

theorem pushRound_bad (h : Sound decoder) (messages : List μ) {error : DecodeError}
    (hnext : nextFrame decode decoder.buffered = .bad error) :
    ∃ next, pushRound decode ⟨decoder, messages, none⟩ = some ⟨next, messages, some error⟩ ∧
      Sound next := by
  have hcase := nextFrame_cases decode decoder.buffered
  rw [hnext] at hcase
  cases hcase with
  | tooLarge hheader hlarge =>
    exact ⟨{}, by rw [pushRound_header h messages hheader, if_pos hlarge], sound_empty⟩
  | malformed hheader hfits hwhole hdecode =>
    obtain ⟨hsound, -, hbytes⟩ := h.readPayload hwhole
    refine ⟨_, ?_, hsound⟩
    rw [pushRound_header h messages hheader, if_neg (by omega), if_neg (by omega), hbytes, hdecode]
    rfl

theorem pushRound_frame (h : Sound decoder) (messages : List μ) {message : μ} {rest : List UInt8}
    (hnext : nextFrame decode decoder.buffered = .frame message rest) :
    ∃ next, pushRound decode ⟨decoder, messages, none⟩ =
        some ⟨next, messages ++ [message], none⟩ ∧ Sound next ∧ next.buffered = rest := by
  have hcase := nextFrame_cases decode decoder.buffered
  rw [hnext] at hcase
  cases hcase with
  | frame _ hheader hfits hwhole hdecode =>
    obtain ⟨hsound, hbuffered, hbytes⟩ := h.readPayload hwhole
    refine ⟨_, ?_, hsound, hbuffered⟩
    rw [pushRound_header h messages hheader, if_neg (by omega), if_neg (by omega), hbytes, hdecode]
    rfl

/-- The decoder and the answer of a push, for the ending of the stream. -/
inductive PushedAs (messages : List μ) :
    Ending UInt8 DecodeError → FrameDecoder × Except DecodeError (List μ) → Prop
  | ok {decoder : FrameDecoder} {rest : List UInt8} (h : Sound decoder)
      (hrest : decoder.buffered = rest) : PushedAs messages (.more rest) (decoder, .ok messages)
  | thrown {decoder : FrameDecoder} {error : DecodeError} (h : Sound decoder) :
      PushedAs messages (.bad error) (decoder, .error error)

theorem rounds_pushRound {bytes : List UInt8} {messages : List μ}
    {ending : Ending UInt8 DecodeError} (hdrains : Drains (frames decode) bytes messages ending)
    (h : Sound decoder) (hbytes : decoder.buffered = bytes) (before : List μ) (fuel : Nat)
    (hfuel : bytes.length + 1 < fuel) :
    ∃ last, rounds (pushRound decode) fuel ⟨decoder, before, none⟩ = some last ∧
      PushedAs (before ++ messages) ending
        (last.decoder, last.thrown.elim (.ok last.messages) .error) := by
  induction hdrains generalizing decoder before fuel with
  | more hnext =>
    obtain ⟨fuel, rfl⟩ : ∃ n, fuel = n + 1 := ⟨fuel - 1, by omega⟩
    rw [← hbytes] at hnext
    refine ⟨_, rounds_done (pushRound_more h before hnext), ?_⟩
    rw [List.append_nil]
    exact .ok h hbytes
  | bad hnext =>
    obtain ⟨fuel, rfl⟩ : ∃ n, fuel = n + 2 := ⟨fuel - 2, by omega⟩
    rw [← hbytes] at hnext
    obtain ⟨next, hround, hsound⟩ := pushRound_bad h before hnext
    refine ⟨_, (rounds_next hround).trans (rounds_done (by simp [pushRound])), ?_⟩
    rw [List.append_nil]
    exact .thrown hsound
  | @frame bytes rest message messages ending hnext hrest ih =>
    obtain ⟨fuel, rfl⟩ : ∃ n, fuel = n + 1 := ⟨fuel - 1, by omega⟩
    have hless := (frames decode).shrinks hnext
    rw [← hbytes] at hnext
    obtain ⟨next, hround, hsound, hbuffered⟩ := pushRound_frame h before hnext
    obtain ⟨last, hrun, hpushed⟩ := ih hsound hbuffered (before ++ [message]) fuel (by omega)
    refine ⟨last, (rounds_next hround).trans hrun, ?_⟩
    rw [List.append_assoc] at hpushed
    exact hpushed

theorem push_spec {chunk : List UInt8} {messages : List μ} {ending : Ending UInt8 DecodeError}
    (h : Sound decoder)
    (hdrains : Drains (frames decode) (decoder.buffered ++ chunk) messages ending) :
    PushedAs messages ending (decoder.push decode chunk) := by
  obtain ⟨hfed, hbuffered⟩ := h.feed chunk
  obtain ⟨last, hrun, hpushed⟩ := rounds_pushRound hdrains hfed hbuffered []
    ((decoder.feed chunk).bufferedBytes + 2) (by rw [hfed.bytes_eq, hbuffered]; omega)
  unfold push
  dsimp only
  rw [hrun]
  exact hpushed

end

end FrameDecoder

end ImportLens.Extension
