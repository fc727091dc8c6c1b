import ImportLens.Extension.FrameDecoder
import Mathlib.Algebra.Ring.Nat

/-!
# Frames cut into chunks

A socket delivers the frames of a message sequence in chunks of any size.  The decoder
of the extension keeps the chunks and reads across them; the command line keeps one
buffer.  Both answer the messages that were sent.
-/

namespace ImportLens.Ipc

open ImportLens.Support ImportLens.Extension ImportLens.Extension.FrameDecoder

/-! ## Writing -/

def writeUInt32BE (value : Nat) : List UInt8 :=
  [UInt8.ofNat (value / 16777216), UInt8.ofNat (value / 65536), UInt8.ofNat (value / 256),
    UInt8.ofNat value]

inductive EncodeError
  | frameTooLarge (payloadLength : Nat)
  deriving DecidableEq, Repr

section

variable {μ : Type} (encode : μ → List UInt8)

def encodeFrame (message : μ) : Except EncodeError (List UInt8) :=
  let payload := encode message
  if payload.length > maxFrameBytes then .error (.frameTooLarge payload.length)
  else .ok (writeUInt32BE payload.length ++ payload)

def frameOf (message : μ) : List UInt8 :=
  writeUInt32BE (encode message).length ++ encode message

theorem length_writeUInt32BE (value : Nat) : (writeUInt32BE value).length = frameHeaderBytes := rfl

theorem readUInt32BE_writeUInt32BE {value : Nat} (h : value < 4294967296) :
    readUInt32BE (writeUInt32BE value) = value := by
  simp only [readUInt32BE, writeUInt32BE, List.foldl_cons, List.foldl_nil, UInt8.toNat_ofNat']
  omega

theorem mapM_encodeFrame {messages : List μ}
    (hfits : ∀ message ∈ messages, (encode message).length ≤ maxFrameBytes) :
    messages.mapM (encodeFrame encode) = .ok (messages.map (frameOf encode)) := by
  induction messages with
  | nil => rfl
  | cons message messages ih =>
    have hfit := hfits message List.mem_cons_self
    have hframe : encodeFrame encode message = .ok (frameOf encode message) := by
      unfold encodeFrame
      rw [if_neg (by omega)]
      rfl
    rw [List.mapM_cons, hframe, ih fun m hm => hfits m (List.mem_cons_of_mem _ hm)]
    rfl

end

/-! ## Reading a frame that was written -/

section

variable {μ : Type} {encode : μ → List UInt8} {decode : List UInt8 → Option μ} {message : μ}
variable {bytes later : List UInt8}

/-- What the reader needs to know of a message. -/
structure Carries (encode : μ → List UInt8) (decode : List UInt8 → Option μ) (message : μ) :
    Prop where
  fits : (encode message).length ≤ maxFrameBytes
  decodes : decode (encode message) = some message

theorem length_frameOf (encode : μ → List UInt8) (message : μ) :
    (frameOf encode message).length = frameHeaderBytes + (encode message).length := by
  rw [frameOf, List.length_append, length_writeUInt32BE]

theorem header_frameOf (h : Carries encode decode message) (later : List UInt8) :
    readUInt32BE ((frameOf encode message ++ later).take frameHeaderBytes) =
      (encode message).length := by
  have hlarge : maxFrameBytes < 4294967296 := by decide
  have hfits := h.fits
  rw [frameOf, List.append_assoc, List.take_left' (length_writeUInt32BE _),
    readUInt32BE_writeUInt32BE (by omega)]

theorem nextFrame_frameOf (h : Carries encode decode message) (later : List UInt8) :
    nextFrame decode (frameOf encode message ++ later) = .frame message later := by
  have hheader := header_frameOf h later
  have hlength := length_frameOf encode message
  have hpayload : ((frameOf encode message ++ later).drop frameHeaderBytes).take
      (encode message).length = encode message := by
    rw [frameOf, List.append_assoc, List.drop_left' (length_writeUInt32BE _), List.take_left]
  have hrest : (frameOf encode message ++ later).drop
      (frameHeaderBytes + (encode message).length) = later := by
    rw [← hlength, List.drop_left]
  have hcase := @FrameCase.frame μ decode (frameOf encode message ++ later) message
    (by rw [List.length_append]; omega) (by rw [hheader]; exact h.fits)
    (by rw [hheader, List.length_append]; omega) (by rw [hheader, hpayload]; exact h.decodes)
  rw [hheader, hrest] at hcase
  exact nextFrame_of_case hcase

theorem nextFrame_front (h : Carries encode decode message)
    (hfront : bytes <+: frameOf encode message)
    (hshort : bytes.length < (frameOf encode message).length) :
    nextFrame decode bytes = .more := by
  by_cases hheader : frameHeaderBytes ≤ bytes.length
  · obtain ⟨rest, hrest⟩ := hfront
    have hread : readUInt32BE (bytes.take frameHeaderBytes) = (encode message).length := by
      rw [← take_header bytes rest hheader, hrest, ← header_frameOf h [], List.append_nil]
    rw [length_frameOf] at hshort
    exact nextFrame_of_case
      (.partly hheader (by rw [hread]; exact h.fits) (by rw [hread]; exact hshort))
  · exact nextFrame_of_case (.short (by omega))

end

/-! ## What has arrived of a sequence of frames -/

def wholeFrames : List (List UInt8) → Nat → Nat
  | [], _ => 0
  | frame :: frames, received =>
      if received < frame.length then 0 else wholeFrames frames (received - frame.length) + 1

theorem wholeFrames_flatten (frames : List (List UInt8)) :
    wholeFrames frames frames.flatten.length = frames.length := by
  induction frames with
  | nil => rfl
  | cons frame frames ih =>
    rw [wholeFrames, List.flatten_cons, List.length_append, if_neg (by omega),
      Nat.add_sub_cancel_left, ih, List.length_cons]

section

variable {μ : Type} {encode : μ → List UInt8} {decode : List UInt8 → Option μ}
variable {messages : List μ} {bytes : List UInt8}

/-- The front of a sequence of frames delivers the messages whose frames are whole. -/
theorem drains_front (hcarries : ∀ message ∈ messages, Carries encode decode message)
    (hfront : bytes <+: (messages.map (frameOf encode)).flatten) :
    ∃ rest, Drains (frames decode) bytes
      (messages.take (wholeFrames (messages.map (frameOf encode)) bytes.length)) (.more rest) := by
  induction messages generalizing bytes with
  | nil =>
    have hnil : bytes = [] := List.prefix_nil.mp hfront
    subst hnil
    exact ⟨[], .more rfl⟩
  | cons message messages ih =>
    have hmessage := hcarries message List.mem_cons_self
    rw [List.map_cons, List.flatten_cons] at hfront
    rw [List.map_cons, wholeFrames]
    split
    · rename_i hshort
      have hframe : bytes <+: frameOf encode message :=
        List.prefix_of_prefix_length_le hfront (List.prefix_append _ _) (Nat.le_of_lt hshort)
      exact ⟨bytes, .more (nextFrame_front hmessage hframe hshort)⟩
    · rename_i hwhole
      have hframe : frameOf encode message <+: bytes :=
        List.prefix_of_prefix_length_le (List.prefix_append _ _) hfront (by omega)
      obtain ⟨later, rfl⟩ := hframe
      obtain ⟨rest, hrest⟩ := ih (fun m hm => hcarries m (List.mem_cons_of_mem _ hm))
        ((List.prefix_append_right_inj _).mp hfront)
      refine ⟨rest, ?_⟩
      rw [List.length_append, Nat.add_sub_cancel_left, List.take_succ_cons]
      exact .frame (nextFrame_frameOf hmessage later) hrest

theorem drains_all (hcarries : ∀ message ∈ messages, Carries encode decode message) :
    Drains (frames decode) (messages.map (frameOf encode)).flatten messages (.more []) := by
  induction messages with
  | nil => exact .more rfl
  | cons message messages ih =>
    rw [List.map_cons, List.flatten_cons]
    exact .frame (nextFrame_frameOf (hcarries message List.mem_cons_self) _)
      (ih fun m hm => hcarries m (List.mem_cons_of_mem _ hm))

end

/-! ## The decoder -/

section

variable {μ : Type} (decode : List UInt8 → Option μ)

def pushed (chunks : List (List UInt8)) : FrameDecoder :=
  chunks.foldl (fun decoder chunk => (decoder.push decode chunk).1) {}

def pushes : FrameDecoder → List (List UInt8) → List (Except DecodeError (List μ))
  | _, [] => []
  | decoder, chunk :: chunks =>
      (decoder.push decode chunk).2 :: pushes (decoder.push decode chunk).1 chunks

theorem pushed_append (chunks : List (List UInt8)) (chunk : List UInt8) :
    pushed decode (chunks ++ [chunk]) = ((pushed decode chunks).push decode chunk).1 := by
  rw [pushed, List.foldl_append]
  rfl

theorem pushes_append (decoder : FrameDecoder) (chunks : List (List UInt8)) (chunk : List UInt8) :
    pushes decode decoder (chunks ++ [chunk]) = pushes decode decoder chunks ++
      [((chunks.foldl (fun decoder chunk => (decoder.push decode chunk).1) decoder).push decode
        chunk).2] := by
  induction chunks generalizing decoder with
  | nil => rfl
  | cons first chunks ih =>
    rw [List.cons_append, pushes, pushes, ih, List.foldl_cons, List.cons_append]

variable {decode} {encode : μ → List UInt8} {messages : List μ} {chunks : List (List UInt8)}
variable {chunk : List UInt8}

/-- The decoder holds what the whole frames leave over. -/
structure Keeps (encode : μ → List UInt8) (decode : List UInt8 → Option μ) (messages : List μ)
    (chunks : List (List UInt8)) : Prop where
  sound : Sound (pushed decode chunks)
  drains : Drains (frames decode) chunks.flatten
    (messages.take (wholeFrames (messages.map (frameOf encode)) chunks.flatten.length))
    (.more (pushed decode chunks).buffered)

/-- A push answers the messages whose frames it completes. -/
theorem Keeps.push (hcarries : ∀ message ∈ messages, Carries encode decode message)
    (hkeeps : Keeps encode decode messages chunks)
    (hfront : (chunks ++ [chunk]).flatten <+: (messages.map (frameOf encode)).flatten) :
    Keeps encode decode messages (chunks ++ [chunk]) ∧
      ∃ answer, ((pushed decode chunks).push decode chunk).2 = .ok answer ∧
        messages.take
          (wholeFrames (messages.map (frameOf encode)) chunks.flatten.length) ++ answer =
          messages.take
            (wholeFrames (messages.map (frameOf encode)) (chunks ++ [chunk]).flatten.length) := by
  obtain ⟨rest, hwhole⟩ := drains_front hcarries hfront
  obtain ⟨answer, ending, hanswer⟩ := Drains.total (frames decode)
    ((pushed decode chunks).buffered ++ chunk)
  have hflatten : (chunks ++ [chunk]).flatten = chunks.flatten ++ chunk := by
    rw [List.flatten_append, List.flatten_singleton]
  have hdrains := hkeeps.drains.append hanswer
  rw [← hflatten] at hdrains
  obtain ⟨hmessages, hending⟩ := hdrains.unique hwhole
  subst hending
  have hpush := push_spec hkeeps.sound hanswer
  generalize hresult : (pushed decode chunks).push decode chunk = result at hpush
  cases hpush with
  | ok hsound hrest =>
    refine ⟨⟨?_, ?_⟩, answer, rfl, hmessages⟩
    · rw [pushed_append, hresult]
      exact hsound
    · rw [pushed_append, hresult, hrest]
      exact hwhole

theorem keeps (hcarries : ∀ message ∈ messages, Carries encode decode message)
    (hfront : chunks.flatten <+: (messages.map (frameOf encode)).flatten) :
    Keeps encode decode messages chunks := by
  induction chunks using List.reverseRecOn with
  | nil =>
    constructor
    · exact sound_empty
    · obtain ⟨rest, hdrains⟩ := drains_front hcarries hfront
      have hempty : Drains (frames decode) ([] : List UInt8) [] (.more []) := .more rfl
      obtain ⟨hnone, -⟩ := hdrains.unique hempty
      rw [List.flatten_nil, List.length_nil] at hnone ⊢
      rw [hnone]
      exact hempty
  | append_singleton chunks chunk ih =>
    have hchunks : chunks.flatten <+: (messages.map (frameOf encode)).flatten := by
      rw [List.flatten_append] at hfront
      exact (List.prefix_append _ _).trans hfront
    exact (Keeps.push hcarries (ih hchunks) hfront).1

/-- The answers so far are the messages whose frames are whole. -/
theorem pushes_eq (hcarries : ∀ message ∈ messages, Carries encode decode message)
    (hfront : chunks.flatten <+: (messages.map (frameOf encode)).flatten) :
    ∃ answers : List (List μ), pushes decode {} chunks = answers.map .ok ∧
      answers.flatten =
        messages.take (wholeFrames (messages.map (frameOf encode)) chunks.flatten.length) := by
  induction chunks using List.reverseRecOn with
  | nil =>
    refine ⟨[], rfl, ?_⟩
    obtain ⟨rest, hdrains⟩ := drains_front hcarries hfront
    exact (hdrains.unique (.more rfl)).1.symm
  | append_singleton chunks chunk ih =>
    have hchunks : chunks.flatten <+: (messages.map (frameOf encode)).flatten := by
      rw [List.flatten_append] at hfront
      exact (List.prefix_append _ _).trans hfront
    obtain ⟨answers, hpushes, hanswers⟩ := ih hchunks
    obtain ⟨-, answer, hanswer, hmessages⟩ := Keeps.push hcarries (keeps hcarries hchunks) hfront
    refine ⟨answers ++ [answer], ?_, ?_⟩
    · rw [pushes_append, hpushes, List.map_append]
      congr 2
    · rw [List.flatten_append, List.flatten_singleton, hanswers, hmessages]

end

/-! ## Inside a push -/

/-- The counters agree with the chunks. -/
structure Accounted (decoder : FrameDecoder) : Prop where
  bytes : decoder.bufferedBytes =
    (decoder.chunks.map List.length).sum - decoder.readOffset
  offset : (∃ first rest, decoder.chunks = first :: rest ∧ decoder.readOffset < first.length) ∨
    decoder.chunks = [] ∧ decoder.readOffset = 0

def peekOverruns : List (List UInt8) → Nat → Nat → Bool
  | [], _, length => length != 0
  | chunk :: chunks, offset, length =>
      length != 0 && peekOverruns chunks 0 (length - min length (chunk.length - offset))

/-- Every round of a read finds a chunk to copy from. -/
def ReadsWithin (decoder : FrameDecoder) (length : Nat) : Prop :=
  ∀ copying, Relation.ReflTransGen (Follows copyRound) ⟨decoder, [], length⟩ copying →
    Accounted copying.decoder ∧ (copying.needed ≠ 0 → copying.decoder.chunks ≠ [])

/-- The peek and the reads of a round of the loop of a push. -/
structure RoundWithin (decoder : FrameDecoder) : Prop where
  peek : frameHeaderBytes ≤ decoder.bufferedBytes →
    peekOverruns decoder.chunks decoder.readOffset frameHeaderBytes = false
  header : frameHeaderBytes + readUInt32BE (decoder.peekBytes frameHeaderBytes) ≤
      decoder.bufferedBytes →
    ReadsWithin decoder frameHeaderBytes ∧ Accounted (decoder.readBytes frameHeaderBytes).1
  payload : frameHeaderBytes + readUInt32BE (decoder.peekBytes frameHeaderBytes) ≤
      decoder.bufferedBytes →
    ReadsWithin (decoder.readBytes frameHeaderBytes).1
      (readUInt32BE (decoder.peekBytes frameHeaderBytes))

section

variable {decoder : FrameDecoder} {length : Nat}

theorem accounted_of_sound (h : Sound decoder) : Accounted decoder where
  bytes := by
    rw [h.bytes_eq, FrameDecoder.buffered, List.length_drop, List.length_flatten]
  offset := by
    cases hchunks : decoder.chunks with
    | nil => exact .inr ⟨rfl, h.offset_zero hchunks⟩
    | cons first rest => exact .inl ⟨first, rest, rfl, h.offset_lt first rest hchunks⟩

theorem peekOverruns_eq_false (chunks : List (List UInt8)) (offset length : Nat)
    (hoffset : ∀ first rest, chunks = first :: rest → offset ≤ first.length)
    (hle : length ≤ (chunks.flatten.drop offset).length) :
    peekOverruns chunks offset length = false := by
  induction chunks generalizing offset length with
  | nil =>
    have hzero : length = 0 := by simpa using hle
    simp [peekOverruns, hzero]
  | cons chunk chunks ih =>
    have hchunk := hoffset chunk chunks rfl
    rw [List.length_drop, List.flatten_cons, List.length_append] at hle
    rw [peekOverruns, ih 0 _ (fun _ _ _ => Nat.zero_le _) (by rw [List.drop_zero]; omega),
      Bool.and_false]

theorem copyRound_sound {copying next : Copying} (h : copyRound copying = some next)
    (hsound : Sound copying.decoder) (hle : copying.needed ≤ copying.decoder.buffered.length) :
    Sound next.decoder ∧ next.needed ≤ next.decoder.buffered.length := by
  unfold copyRound at h
  split at h
  · cases h
  · obtain ⟨chunk, -, rfl⟩ := Option.map_eq_some_iff.mp h
    obtain ⟨hadvanced, hbuffered⟩ := hsound.advance
      (show min copying.needed (chunk.length - copying.decoder.readOffset) ≤
        copying.decoder.buffered.length by omega)
    refine ⟨hadvanced, ?_⟩
    dsimp only
    rw [hbuffered, List.length_drop]
    omega

theorem readsWithin (h : Sound decoder) (hle : length ≤ decoder.buffered.length) :
    ReadsWithin decoder length := by
  intro copying hreach
  have hkept : Sound copying.decoder ∧ copying.needed ≤ copying.decoder.buffered.length := by
    induction hreach with
    | refl => exact ⟨h, hle⟩
    | tail _ hround ih => exact copyRound_sound hround ih.1 ih.2
  refine ⟨accounted_of_sound hkept.1, ?_⟩
  intro hneeded hchunks
  have hempty := hkept.2
  rw [FrameDecoder.buffered, hchunks, List.flatten_nil, List.drop_nil, List.length_nil] at hempty
  omega

theorem roundWithin (h : Sound decoder) : RoundWithin decoder := by
  have hbytes := h.bytes_eq
  constructor
  · intro hheader
    apply peekOverruns_eq_false
    · exact fun first rest hchunks => Nat.le_of_lt (h.offset_lt first rest hchunks)
    · rw [← FrameDecoder.buffered]
      omega
  · intro hwhole
    have hheader : frameHeaderBytes ≤ decoder.buffered.length := by omega
    exact ⟨readsWithin h hheader, accounted_of_sound (h.readBytes hheader).1⟩
  · intro hwhole
    have hheader : frameHeaderBytes ≤ decoder.buffered.length := by omega
    obtain ⟨hsound, hrest, -⟩ := h.readBytes hheader
    apply readsWithin hsound
    rw [hrest, List.length_drop]
    omega

variable {μ : Type} {decode : List UInt8 → Option μ}

theorem pushRound_sound {pushing next : Pushing μ} (h : pushRound decode pushing = some next)
    (hsound : Sound pushing.decoder) : Sound next.decoder := by
  obtain ⟨decoder, messages, thrown⟩ := pushing
  cases thrown with
  | some error =>
    unfold pushRound at h
    dsimp only at h
    rw [if_pos (by rfl)] at h
    cases h
  | none =>
    cases hnext : nextFrame decode decoder.buffered with
    | more =>
      rw [pushRound_more hsound messages hnext] at h
      cases h
    | bad error =>
      obtain ⟨after, hround, hafter⟩ := pushRound_bad hsound messages hnext
      rw [hround] at h
      cases h
      exact hafter
    | frame message rest =>
      obtain ⟨after, hround, hafter, -⟩ := pushRound_frame hsound messages hnext
      rw [hround] at h
      cases h
      exact hafter

theorem push_within (h : Sound decoder) (chunk : List UInt8) {pushing : Pushing μ}
    (hreach : Relation.ReflTransGen (Follows (pushRound decode)) ⟨decoder.feed chunk, [], none⟩
      pushing) : Accounted pushing.decoder ∧ RoundWithin pushing.decoder := by
  have hsound : Sound pushing.decoder := by
    induction hreach with
    | refl => exact (h.feed chunk).1
    | tail _ hround ih => exact pushRound_sound hround ih
  exact ⟨accounted_of_sound hsound, roundWithin hsound⟩

theorem eq_empty_of_buffered (h : Sound decoder) (hbuffered : decoder.buffered = []) :
    decoder = {} := by
  have hbytes := h.bytes_eq
  rw [hbuffered, List.length_nil] at hbytes
  have hchunks : decoder.chunks = [] := by
    by_contra hne
    obtain ⟨first, rest, hcons⟩ := List.exists_cons_of_ne_nil hne
    have hlt := h.offset_lt first rest hcons
    rw [FrameDecoder.buffered, hcons, List.flatten_cons, List.drop_eq_nil_iff,
      List.length_append] at hbuffered
    omega
  have hoffset := h.offset_zero hchunks
  obtain ⟨chunks, bufferedBytes, readOffset⟩ := decoder
  dsimp only at hbytes hchunks hoffset
  rw [hbytes, hchunks, hoffset]

end

/-! ## The command line -/

/-- The reader of `createDaemonClient`; what it does with a message is left out. -/
structure DaemonClient (μ : Type) where
  buffer : List UInt8 := []
  messages : List μ := []
  destroyed : Bool := false

section

variable {μ : Type} (decode : List UInt8 → Option μ)

def dataRound (client : DaemonClient μ) : Option (DaemonClient μ) :=
  let length := readUInt32BE (client.buffer.take 4)
  if client.destroyed || client.buffer.length < 4 then none
  else if client.buffer.length < length + 4 then none
  else
    let payload := (client.buffer.drop 4).take length
    let buffer := client.buffer.drop (4 + length)
    match decode payload with
    | none => some { client with buffer := buffer, destroyed := true }
    | some message =>
        some { client with buffer := buffer, messages := client.messages ++ [message] }

/-- The listener of `data`. -/
def onData (client : DaemonClient μ) (chunk : List UInt8) : DaemonClient μ :=
  let client := { client with buffer := client.buffer ++ chunk }
  (rounds (dataRound decode) (client.buffer.length + 1) client).getD client

variable {decode}

theorem dataRound_more {bytes : List UInt8} {messages : List μ}
    (hnext : nextFrame decode bytes = .more) :
    dataRound decode ⟨bytes, messages, false⟩ = none := by
  have hcase := nextFrame_cases decode bytes
  rw [hnext] at hcase
  have hheader : frameHeaderBytes = 4 := rfl
  unfold dataRound
  dsimp only
  cases hcase with
  | short hshort => rw [if_pos (by simp; omega)]
  | partly hwhole hfits hshort =>
    rw [if_neg (by simp; omega), if_pos (by rw [← hheader]; omega)]

theorem dataRound_frame {bytes rest : List UInt8} {messages : List μ} {message : μ}
    (hnext : nextFrame decode bytes = .frame message rest) :
    dataRound decode ⟨bytes, messages, false⟩ = some ⟨rest, messages ++ [message], false⟩ := by
  have hcase := nextFrame_cases decode bytes
  rw [hnext] at hcase
  have hheader : frameHeaderBytes = 4 := rfl
  unfold dataRound
  dsimp only
  cases hcase with
  | frame _ h hfits hwhole hdecode =>
    rw [hheader] at h hfits hwhole hdecode ⊢
    rw [if_neg (by simp; omega), if_neg (by omega), hdecode]

theorem rounds_dataRound {bytes rest : List UInt8} {messages : List μ}
    (hdrains : Drains (frames decode) bytes messages (.more rest)) (before : List μ) (fuel : Nat)
    (hfuel : bytes.length < fuel) :
    rounds (dataRound decode) fuel ⟨bytes, before, false⟩ =
      some ⟨rest, before ++ messages, false⟩ := by
  generalize hending : Ending.more rest = ending at hdrains
  induction hdrains generalizing before fuel with
  | more hnext =>
    cases hending
    obtain ⟨fuel, rfl⟩ : ∃ n, fuel = n + 1 := ⟨fuel - 1, by omega⟩
    rw [rounds_done (dataRound_more hnext), List.append_nil]
  | bad => cases hending
  | frame hnext hrest ih =>
    obtain ⟨fuel, rfl⟩ : ∃ n, fuel = n + 1 := ⟨fuel - 1, by omega⟩
    have hless := (frames decode).shrinks hnext
    rw [rounds_next (dataRound_frame hnext), ih _ _ (by omega) hending, List.append_assoc]
    rfl

variable {encode : μ → List UInt8} {messages : List μ} {chunks : List (List UInt8)}

/-- The command line has read the messages whose frames are whole. -/
theorem foldl_onData (hcarries : ∀ message ∈ messages, Carries encode decode message)
    (hfront : chunks.flatten <+: (messages.map (frameOf encode)).flatten) :
    ∃ rest, Drains (frames decode) chunks.flatten
        (messages.take (wholeFrames (messages.map (frameOf encode)) chunks.flatten.length))
        (.more rest) ∧
      chunks.foldl (onData decode) {} =
        ⟨rest, messages.take (wholeFrames (messages.map (frameOf encode)) chunks.flatten.length),
          false⟩ := by
  induction chunks using List.reverseRecOn with
  | nil =>
    obtain ⟨rest, hdrains⟩ := drains_front hcarries hfront
    refine ⟨rest, hdrains, ?_⟩
    obtain ⟨hmessages, hrest⟩ := hdrains.unique (.more rfl)
    rw [hmessages]
    cases hrest
    rfl
  | append_singleton chunks chunk ih =>
    have hflatten : (chunks ++ [chunk]).flatten = chunks.flatten ++ chunk := by
      rw [List.flatten_append, List.flatten_singleton]
    have hchunks : chunks.flatten <+: (messages.map (frameOf encode)).flatten := by
      rw [hflatten] at hfront
      exact (List.prefix_append _ _).trans hfront
    obtain ⟨rest, hdrains, hclient⟩ := ih hchunks
    obtain ⟨later, hwhole⟩ := drains_front hcarries hfront
    obtain ⟨answer, ending, hanswer⟩ := Drains.total (frames decode) (rest ++ chunk)
    have happend := hdrains.append hanswer
    rw [← hflatten] at happend
    obtain ⟨hmessages, hending⟩ := happend.unique hwhole
    subst hending
    refine ⟨later, hwhole, ?_⟩
    rw [List.foldl_append, List.foldl_cons, List.foldl_nil, hclient, onData,
      rounds_dataRound hanswer _ _ (Nat.lt_succ_self _), hmessages]
    rfl

end

/-! ## Any way of cutting -/

section

variable {μ : Type} {encode : μ → List UInt8} {decode : List UInt8 → Option μ}
variable {messages : List μ}

theorem frames_survive_any_chunking
    (hcodec : ∀ message ∈ messages, decode (encode message) = some message)
    (hfits : ∀ message ∈ messages, (encode message).length ≤ maxFrameBytes) :
    ∃ frames, messages.mapM (encodeFrame encode) = .ok frames ∧
      ∀ chunks : List (List UInt8), chunks.flatten = frames.flatten →
        (∃ answers : List (List μ), pushes decode {} chunks = answers.map .ok ∧
          answers.flatten = messages) ∧
        pushed decode chunks = {} ∧
        (∀ before chunk after, chunks = before ++ chunk :: after →
          (∃ answer, ((pushed decode before).push decode chunk).2 = .ok answer ∧
            messages.take (wholeFrames frames before.flatten.length) ++ answer =
              messages.take (wholeFrames frames (before ++ [chunk]).flatten.length)) ∧
          Accounted (pushed decode before) ∧
          ∀ pushing, Relation.ReflTransGen (Follows (pushRound decode))
              ⟨(pushed decode before).feed chunk, [], none⟩ pushing →
            Accounted pushing.decoder ∧ RoundWithin pushing.decoder) ∧
        chunks.foldl (onData decode) {} = ⟨[], messages, false⟩ := by
  have hcarries : ∀ message ∈ messages, Carries encode decode message :=
    fun message hmessage => ⟨hfits message hmessage, hcodec message hmessage⟩
  refine ⟨messages.map (frameOf encode), mapM_encodeFrame encode hfits, ?_⟩
  intro chunks hchunks
  have hfront : chunks.flatten <+: (messages.map (frameOf encode)).flatten := by
    exact ⟨[], (List.append_nil _).trans hchunks⟩
  have hall : messages.take (wholeFrames (messages.map (frameOf encode)) chunks.flatten.length) =
      messages := by
    rw [hchunks, wholeFrames_flatten, List.length_map, List.take_length]
  have hdrains := drains_all hcarries
  rw [← hchunks] at hdrains
  refine ⟨?_, ?_, ?_, ?_⟩
  · obtain ⟨answers, hpushes, hanswers⟩ := pushes_eq hcarries hfront
    exact ⟨answers, hpushes, hanswers.trans hall⟩
  · have hkeeps := keeps hcarries hfront
    obtain ⟨-, hending⟩ := hkeeps.drains.unique hdrains
    exact eq_empty_of_buffered hkeeps.sound (Ending.more.inj hending)
  · intro before chunk after heq
    have hboth : (before ++ [chunk]).flatten <+: (messages.map (frameOf encode)).flatten := by
      refine ⟨after.flatten, ?_⟩
      rw [← hchunks, heq, ← List.flatten_append, ← List.append_cons]
    have hbefore : before.flatten <+: (messages.map (frameOf encode)).flatten := by
      rw [List.flatten_append] at hboth
      exact (List.prefix_append _ _).trans hboth
    have hkeeps := keeps hcarries hbefore
    exact ⟨(hkeeps.push hcarries hboth).2, accounted_of_sound hkeeps.sound,
      fun pushing hreach => push_within hkeeps.sound chunk hreach⟩
  · obtain ⟨rest, hrest, hclient⟩ := foldl_onData hcarries hfront
    obtain ⟨-, hending⟩ := hrest.unique hdrains
    rw [hclient, hall, Ending.more.inj hending]

end

/-- Two frames, cut inside the first header and inside the second. -/
theorem two_frames_survive_chunking :
    (pushed (fun bytes => bytes.head?) [[0, 0], [0, 1, 5, 0], [], [0, 0, 1, 7]] = {}) ∧
      [[0, 0], [0, 1, 5, 0], [], [0, 0, 1, 7]].foldl (onData fun bytes => bytes.head?) {} =
        ⟨[], [5, 7], false⟩ := by
  have hcap : 1 ≤ maxFrameBytes := by decide
  obtain ⟨frames, hframes, hchunks⟩ := @frames_survive_any_chunking UInt8 (fun byte => [byte])
    (fun bytes => bytes.head?) [5, 7] (fun message _ => rfl) fun _ _ => hcap
  cases hframes
  obtain ⟨-, hempty, -, hclient⟩ := hchunks [[0, 0], [0, 1, 5, 0], [], [0, 0, 1, 7]] (by decide)
  exact ⟨hempty, hclient⟩

end ImportLens.Ipc
