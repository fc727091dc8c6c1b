import ImportLens.Support.Volume
import Mathlib.Algebra.Ring.Nat
import Mathlib.Data.List.Infix

/-!
# Whole-file replacement

`write_atomic` of any number of processes on one volume: each call runs step by step among
the steps of the others, may fail at each of them, and may end with its process or with
the whole machine.  Readers read a file they opened, a part at a time.
-/

namespace ImportLens.Daemon.AtomicWrite

open ImportLens.Support

abbrev Name : Type := List Char × List Char

structure Path where
  parent : List Char
  fileName : Option (List Char)
  deriving DecidableEq

def tempSuffix : List Char := ".tmp".toList

def tempName (fileName : List Char) (pid sequence : Nat) : List Char :=
  fileName ++ '.' :: (Nat.toDigits 10 pid ++ '.' :: (Nat.toDigits 10 sequence ++ tempSuffix))

def IsTemp (name : Name) : Prop := tempSuffix <:+ name.2

instance (name : Name) : Decidable (IsTemp name) := inferInstanceAs (Decidable (_ <:+ _))

/-! ## Calls -/

/-- How a call came back: a failed one removed its temp file, or could not. -/
inductive Outcome
  | replaced
  | failed
  | leftBehind
  deriving DecidableEq, Repr

/-- Where a call of `write_atomic` stands. -/
inductive Position
  | named
  /-- `File::create` gave the file, and so much of it is written. -/
  | writing (inode written : Nat)
  | synced (inode : Nat)
  | failed
  | returned (outcome : Outcome)
  | killed
  deriving DecidableEq, Repr

def Position.running : Position → Bool
  | .returned _ => false
  | .killed => false
  | _ => true

structure Call where
  pid : Nat
  parent : List Char
  fileName : List Char
  sequence : Nat
  bytes : List UInt8
  position : Position := .named

def Call.path (call : Call) : Name := (call.parent, call.fileName)

def Call.tempPath (call : Call) : Name :=
  (call.parent, tempName call.fileName call.pid call.sequence)

/-- A reader of the file that stood under a name when it was opened. -/
structure Reader where
  name : Name
  inode : Nat
  buffer : List UInt8 := []
  ended : Bool := false

structure Storage where
  volume : Volume Name UInt8
  /-- `TEMP_SEQUENCE` of each process. -/
  tempSequence : Nat → Nat := fun _ => 0
  calls : Nat → Option Call := fun _ => none
  nextCall : Nat := 0
  readers : Nat → Option Reader := fun _ => none
  nextReader : Nat := 0

inductive Event
  | call (pid : Nat) (path : Path) (bytes : List UInt8)
  | create (call : Nat) (ok : Bool)
  | write (call count : Nat)
  | writeFailed (call : Nat)
  | sync (call : Nat) (ok : Bool)
  | rename (call : Nat) (ok : Bool)
  | remove (call : Nat) (ok : Bool)
  /-- A process ends. -/
  | exit (pid : Nat)
  | powerLoss (age : Nat) (lost : Nat → List UInt8)
  | openFile (name : Name)
  | read (reader count : Nat)

def Event.caller : Event → Option Nat
  | .create c _ | .write c _ | .writeFailed c | .sync c _ | .rename c _ | .remove c _ => some c
  | _ => none

namespace Storage

def advance (s : Storage) (c : Nat) (call : Call) (volume : Volume Name UInt8)
    (position : Position) : Storage :=
  { s with
    volume
    calls := Function.update s.calls c (some { call with position }) }

def kill (calls : Nat → Option Call) (test : Call → Bool) : Nat → Option Call := fun c =>
  (calls c).map fun call =>
    if call.position.running && test call then { call with position := .killed } else call

/-- `write_atomic` up to the temp name. -/
def begin (s : Storage) (pid : Nat) (path : Path) (bytes : List UInt8) : Storage :=
  match path.fileName with
  | none => s
  | some fileName =>
      { s with
        tempSequence :=
          Function.update s.tempSequence pid ((s.tempSequence pid + 1) % 2 ^ 64)
        calls := Function.update s.calls s.nextCall
          (some { pid, parent := path.parent, fileName, sequence := s.tempSequence pid, bytes })
        nextCall := s.nextCall + 1 }

def proceed (s : Storage) (c : Nat) (call : Call) : Event → Option Storage
  | .create _ ok =>
      match call.position with
      | .named =>
          if ok then
            let (volume, inode) := s.volume.create call.tempPath
            some (s.advance c call volume (.writing inode 0))
          else some (s.advance c call s.volume .failed)
      | _ => none
  | .write _ count =>
      match call.position with
      | .writing inode written =>
          if written + count ≤ call.bytes.length then
            let part := (call.bytes.drop written).take count
            some (s.advance c call (s.volume.append inode part) (.writing inode (written + count)))
          else none
      | _ => none
  | .writeFailed _ =>
      match call.position with
      | .writing _ _ => some (s.advance c call s.volume .failed)
      | _ => none
  | .sync _ ok =>
      match call.position with
      | .writing inode written =>
          if written = call.bytes.length then
            if ok then some (s.advance c call (s.volume.sync inode) (.synced inode))
            else some (s.advance c call s.volume .failed)
          else none
      | _ => none
  | .rename _ ok =>
      match call.position with
      | .synced _ =>
          if ok then
            (s.volume.rename call.tempPath call.path).map fun volume =>
              s.advance c call volume (.returned .replaced)
          else some (s.advance c call s.volume .failed)
      | _ => none
  | .remove _ ok =>
      match call.position with
      | .failed =>
          if ok then
            some (s.advance c call (s.volume.remove call.tempPath) (.returned .failed))
          else some (s.advance c call s.volume (.returned .leftBehind))
      | _ => none
  | _ => none

def read (s : Storage) (r count : Nat) (reader : Reader) : Option Storage :=
  if reader.ended then none
  else
    let rest := (s.volume.inodes reader.inode).content.drop reader.buffer.length
    let next :=
      if rest = [] then { reader with ended := true }
      else { reader with buffer := reader.buffer ++ rest.take count }
    some { s with readers := Function.update s.readers r (some next) }

def step (s : Storage) : Event → Option Storage
  | .call pid path bytes => some (s.begin pid path bytes)
  | .exit pid =>
      some { s with
        tempSequence := Function.update s.tempSequence pid 0
        calls := kill s.calls fun call => call.pid = pid }
  | .powerLoss age lost =>
      some { s with
        volume := s.volume.crash age lost
        tempSequence := fun _ => 0
        calls := kill s.calls fun _ => true
        readers := fun _ => none }
  | .openFile name =>
      (s.volume.directory name).map fun inode =>
        { s with
          readers := Function.update s.readers s.nextReader (some { name, inode })
          nextReader := s.nextReader + 1 }
  | .read r count => (s.readers r).bind (s.read r count)
  | event =>
      event.caller.bind fun c => (s.calls c).bind fun call => s.proceed c call event

def run (s : Storage) : List Event → Option Storage
  | [] => some s
  | event :: rest => (s.step event).bind fun next => next.run rest

/-! ## Temp names -/

theorem isTemp_tempPath (call : Call) : IsTemp call.tempPath := by
  refine ⟨call.fileName ++ '.' :: (Nat.toDigits 10 call.pid ++ '.' ::
    Nat.toDigits 10 call.sequence), ?_⟩
  simp only [Call.tempPath, tempName, List.append_assoc, List.cons_append]

theorem dot_notMem_toDigits (n : Nat) : '.' ∉ Nat.toDigits 10 n := by
  intro h
  have hdigit := Nat.isDigit_of_mem_toDigits (by decide) (by decide) h
  exact absurd hdigit (by decide)

theorem toDigits_injective : Function.Injective (Nat.toDigits 10) := by
  intro m n h
  rw [← Nat.ofDigitChars_ten_toDigits (n := m), h, Nat.ofDigitChars_ten_toDigits]

theorem split_at_last_dot {a b : List Char} {m n : Nat}
    (h : a ++ '.' :: Nat.toDigits 10 m = b ++ '.' :: Nat.toDigits 10 n) : a = b ∧ m = n := by
  have hspan : ∀ (c : List Char) (k : Nat),
      (c ++ '.' :: Nat.toDigits 10 k).reverse.takeWhile (fun d => d ≠ '.') =
        (Nat.toDigits 10 k).reverse := by
    intro c k
    have hdigits : ∀ d ∈ (Nat.toDigits 10 k).reverse, decide (d ≠ '.') = true := by
      intro d hd
      rw [decide_eq_true_eq]
      rintro rfl
      exact dot_notMem_toDigits k (List.mem_reverse.mp hd)
    rw [List.reverse_append, List.reverse_cons, List.append_assoc,
      List.takeWhile_append_of_pos hdigits]
    simp
  have hdigits : Nat.toDigits 10 m = Nat.toDigits 10 n := by
    rw [← List.reverse_inj, ← hspan a m, ← hspan b n, h]
  rw [hdigits] at h
  exact ⟨List.append_cancel_right h, toDigits_injective hdigits⟩

theorem tempName_inj {a b : List Char} {pid pid' sequence sequence' : Nat}
    (h : tempName a pid sequence = tempName b pid' sequence') :
    pid = pid' ∧ sequence = sequence' := by
  have hsplit : ∀ (c : List Char) (p q : Nat), tempName c p q =
      (c ++ '.' :: Nat.toDigits 10 p) ++ '.' :: Nat.toDigits 10 q ++ tempSuffix := by
    intro c p q
    simp only [tempName, List.append_assoc, List.cons_append]
  rw [hsplit, hsplit] at h
  obtain ⟨hrest, hsequence⟩ := split_at_last_dot (List.append_cancel_right h)
  exact ⟨(split_at_last_dot hrest).2, hsequence⟩

/-! ## What a run keeps -/

variable {version : Name → List UInt8 → Prop} {s t : Storage} {c : Nat} {call : Call}

/-- A call is for no temp file, and for a version of its file. -/
def Wanted (version : Name → List UInt8 → Prop) (event : Event) : Prop :=
  ∀ pid path bytes fileName, event = .call pid path bytes → path.fileName = some fileName →
    ¬ IsTemp (path.parent, fileName) ∧ version (path.parent, fileName) bytes

/-- What a call left behind its temp name, by its position. -/
structure Held (v : Volume Name UInt8) (call : Call) : Prop where
  writing : ∀ i written, call.position = .writing i written →
    v.directory call.tempPath = some i ∧ (v.inodes i).content = call.bytes.take written
  synced : ∀ i, call.position = .synced i →
    v.directory call.tempPath = some i ∧ v.inodes i = ⟨call.bytes, true⟩

/-- What a reader of a whole file collected. -/
structure Reads (v : Volume Name UInt8) (reader : Reader) : Prop where
  published : v.Published IsTemp reader.name reader.inode
  buffer : reader.buffer <+: (v.inodes reader.inode).content
  ended : reader.ended = true → reader.buffer = (v.inodes reader.inode).content

structure Guarded (version : Name → List UInt8 → Prop) (s : Storage) : Prop where
  tidy : s.volume.Tidy IsTemp version
  fresh : ∀ c, s.nextCall ≤ c → s.calls c = none
  counted : ∀ pid, s.tempSequence pid ≤ s.nextCall
  numbered : ∀ c call, s.calls c = some call → call.position.running = true →
    call.sequence < s.tempSequence call.pid
  /-- No two running calls have one temp name. -/
  unique : ∀ c d call other, s.calls c = some call → s.calls d = some other →
    call.position.running = true → other.position.running = true →
    call.pid = other.pid → call.sequence = other.sequence → c = d
  wanted : ∀ c call, s.calls c = some call → ¬ IsTemp call.path ∧ version call.path call.bytes
  held : ∀ c call, s.calls c = some call → Held s.volume call
  reading : ∀ r reader, s.readers r = some reader → ¬ IsTemp reader.name →
    Reads s.volume reader

theorem Held.of_position {v : Volume Name UInt8}
    (h : call.position = .named ∨ call.position = .failed ∨ call.position = .killed ∨
      ∃ outcome, call.position = .returned outcome) : Held v call := by
  constructor
  · intro i written hposition
    rcases h with h | h | h | ⟨outcome, h⟩ <;> cases h.symm.trans hposition
  · intro i hposition
    rcases h with h | h | h | ⟨outcome, h⟩ <;> cases h.symm.trans hposition

theorem Held.frame {v w : Volume Name UInt8} {name : Name} (h : Held v call)
    (hframe : v.Frame IsTemp name w) (hne : call.position.running = true → call.tempPath ≠ name) :
    Held w call := by
  constructor
  · intro i written hposition
    obtain ⟨hdirectory, hcontent⟩ := h.writing i written hposition
    obtain ⟨hsame, hinode⟩ := hframe.others _ i (isTemp_tempPath call)
      (hne (by rw [hposition]; rfl)) hdirectory
    exact ⟨hsame, hinode ▸ hcontent⟩
  · intro i hposition
    obtain ⟨hdirectory, hcontent⟩ := h.synced i hposition
    obtain ⟨hsame, hinode⟩ := hframe.others _ i (isTemp_tempPath call)
      (hne (by rw [hposition]; rfl)) hdirectory
    exact ⟨hsame, hinode ▸ hcontent⟩

theorem Reads.frame {v w : Volume Name UInt8} {name : Name} {reader : Reader}
    (h : Reads v reader) (hframe : v.Frame IsTemp name w) : Reads w reader := by
  obtain ⟨hpublished, hinode⟩ := hframe.published _ _ h.published
  exact ⟨hpublished, hinode ▸ h.buffer, fun hended => hinode ▸ h.ended hended⟩

theorem update_eq_some {calls : Nat → Option Call} {d : Nat} {next other : Call}
    (h : Function.update calls c (some next) d = some other) :
    d = c ∧ other = next ∨ d ≠ c ∧ calls d = some other := by
  rw [Function.update_apply] at h
  split at h
  · rename_i heq
    exact .inl ⟨heq, (Option.some.inj h).symm⟩
  · rename_i hne
    exact .inr ⟨hne, h⟩

/-- What a running call does next. -/
inductive Proceeds (s : Storage) (c : Nat) (call : Call) : Storage → Prop
  | created : call.position = .named → Proceeds s c call
      (s.advance c call (s.volume.create call.tempPath).1
        (.writing (s.volume.create call.tempPath).2 0))
  | wrote {i written : Nat} (count : Nat) : call.position = .writing i written → Proceeds s c call
      (s.advance c call (s.volume.append i ((call.bytes.drop written).take count))
        (.writing i (written + count)))
  | synced {i : Nat} : call.position = .writing i call.bytes.length →
      Proceeds s c call (s.advance c call (s.volume.sync i) (.synced i))
  | renamed {i : Nat} {w : Volume Name UInt8} : call.position = .synced i →
      s.volume.rename call.tempPath call.path = some w →
      Proceeds s c call (s.advance c call w (.returned .replaced))
  | removed : call.position = .failed → Proceeds s c call
      (s.advance c call (s.volume.remove call.tempPath) (.returned .failed))
  | stuck {position : Position} : call.position.running = true →
      position = .failed ∨ position = .returned .leftBehind →
      Proceeds s c call (s.advance c call s.volume position)

theorem proceeds {event : Event} (hstep : s.proceed c call event = some t) :
    Proceeds s c call t := by
  cases event with
  | call | exit | powerLoss | openFile | read => cases hstep
  | create _ ok =>
    simp only [proceed] at hstep
    split at hstep
    · rename_i hposition
      split at hstep
      · cases hstep
        exact .created hposition
      · cases hstep
        exact .stuck (by rw [hposition]; rfl) (.inl rfl)
    · cases hstep
  | write _ count =>
    simp only [proceed] at hstep
    split at hstep
    · rename_i hposition
      split at hstep
      · cases hstep
        exact .wrote count hposition
      · cases hstep
    · cases hstep
  | writeFailed _ =>
    simp only [proceed] at hstep
    split at hstep
    · rename_i hposition
      cases hstep
      exact .stuck (by rw [hposition]; rfl) (.inl rfl)
    · cases hstep
  | sync _ ok =>
    simp only [proceed] at hstep
    split at hstep
    · rename_i i written hposition
      split at hstep
      · rename_i hwritten
        rw [hwritten] at hposition
        split at hstep
        · cases hstep
          exact .synced hposition
        · cases hstep
          exact .stuck (by rw [hposition]; rfl) (.inl rfl)
      · cases hstep
    · cases hstep
  | rename _ ok =>
    simp only [proceed] at hstep
    split at hstep
    · rename_i i hposition
      split at hstep
      · obtain ⟨w, hrename, rfl⟩ := Option.map_eq_some_iff.mp hstep
        exact .renamed hposition hrename
      · cases hstep
        exact .stuck (by rw [hposition]; rfl) (.inl rfl)
    · cases hstep
  | remove _ ok =>
    simp only [proceed] at hstep
    split at hstep
    · rename_i hposition
      split at hstep
      · cases hstep
        exact .removed hposition
      · cases hstep
        exact .stuck (by rw [hposition]; rfl) (.inr rfl)
    · cases hstep

namespace Guarded

/-- A running call changes what is behind its own temp name. -/
theorem advance (h : Guarded version s) (hcall : s.calls c = some call)
    (hrunning : call.position.running = true) {w : Volume Name UInt8} {position : Position}
    (htidy : w.Tidy IsTemp version) (hframe : s.volume.Frame IsTemp call.tempPath w)
    (hheld : Held w { call with position }) : Guarded version (s.advance c call w position) := by
  constructor
  · exact htidy
  · intro d hd
    have hne : d ≠ c := by
      rintro rfl
      rw [h.fresh d hd] at hcall
      cases hcall
    exact (Function.update_of_ne hne _ _).trans (h.fresh d hd)
  · exact h.counted
  · intro d other hother hother_running
    rcases update_eq_some hother with ⟨rfl, rfl⟩ | ⟨hne, hsame⟩
    · exact h.numbered d call hcall hrunning
    · exact h.numbered d other hsame hother_running
  · intro d e other third hother hthird hrunning_d hrunning_e hpid hsequence
    rcases update_eq_some hother with ⟨rfl, rfl⟩ | ⟨hne, hsame⟩
    · rcases update_eq_some hthird with ⟨rfl, rfl⟩ | ⟨hne, hsame⟩
      · rfl
      · exact h.unique d e call third hcall hsame hrunning hrunning_e hpid hsequence
    · rcases update_eq_some hthird with ⟨rfl, rfl⟩ | ⟨_, hsame'⟩
      · exact h.unique d e other call hsame hcall hrunning_d hrunning hpid hsequence
      · exact h.unique d e other third hsame hsame' hrunning_d hrunning_e hpid hsequence
  · intro d other hother
    rcases update_eq_some hother with ⟨rfl, rfl⟩ | ⟨hne, hsame⟩
    · exact h.wanted d call hcall
    · exact h.wanted d other hsame
  · intro d other hother
    rcases update_eq_some hother with ⟨rfl, rfl⟩ | ⟨hne, hsame⟩
    · exact hheld
    · refine (h.held d other hsame).frame hframe fun hother_running heq => hne ?_
      obtain ⟨hpid, hsequence⟩ := tempName_inj (congrArg Prod.snd heq)
      exact h.unique d c other call hsame hcall hother_running hrunning hpid hsequence
  · intro r reader hreader hname
    exact (h.reading r reader hreader hname).frame hframe

theorem turn (h : Guarded version s) (hcall : s.calls c = some call)
    (hrunning : call.position.running = true) {position : Position}
    (hheld : Held s.volume { call with position }) :
    Guarded version (s.advance c call s.volume position) :=
  h.advance hcall hrunning h.tidy
    ⟨fun _ _ _ _ hi => ⟨hi, rfl⟩, fun _ _ hi => ⟨hi, rfl⟩⟩ hheld

theorem create (h : Guarded version s) (hcall : s.calls c = some call)
    (hposition : call.position = .named) :
    Guarded version (s.advance c call (s.volume.create call.tempPath).1
      (.writing (s.volume.create call.tempPath).2 0)) := by
  have htemp := isTemp_tempPath call
  apply h.advance hcall (by rw [hposition]; rfl) (h.tidy.create htemp) (h.tidy.frame_create htemp)
  obtain ⟨hdirectory, hinode⟩ := s.volume.create_opens call.tempPath
  constructor
  · intro i written heq
    cases heq
    exact ⟨hdirectory, by rw [hinode]; rfl⟩
  · intro i heq
    cases heq

theorem write (h : Guarded version s) (hcall : s.calls c = some call) {i written : Nat}
    (hposition : call.position = .writing i written) (count : Nat) :
    Guarded version (s.advance c call
      (s.volume.append i ((call.bytes.drop written).take count))
      (.writing i (written + count))) := by
  have htemp := isTemp_tempPath call
  obtain ⟨hdirectory, hcontent⟩ := (h.held c call hcall).writing i written hposition
  apply h.advance hcall (by rw [hposition]; rfl) (h.tidy.rewrite htemp hdirectory _)
    (h.tidy.frame_rewrite htemp hdirectory _)
  constructor
  · intro j total heq
    cases heq
    refine ⟨hdirectory, ?_⟩
    change (Function.update s.volume.inodes i _ i).content = _
    rw [Function.update_self, hcontent, List.take_add]
  · intro j heq
    cases heq

theorem sync (h : Guarded version s) (hcall : s.calls c = some call) {i : Nat}
    (hposition : call.position = .writing i call.bytes.length) :
    Guarded version (s.advance c call (s.volume.sync i) (.synced i)) := by
  have htemp := isTemp_tempPath call
  obtain ⟨hdirectory, hcontent⟩ := (h.held c call hcall).writing i _ hposition
  apply h.advance hcall (by rw [hposition]; rfl) (h.tidy.rewrite htemp hdirectory _)
    (h.tidy.frame_rewrite htemp hdirectory _)
  constructor
  · intro j total heq
    cases heq
  · intro j heq
    cases heq
    refine ⟨hdirectory, ?_⟩
    change Function.update s.volume.inodes i _ i = _
    rw [Function.update_self, hcontent, List.take_length]

theorem rename (h : Guarded version s) (hcall : s.calls c = some call) {i : Nat}
    (hposition : call.position = .synced i) {w : Volume Name UInt8}
    (hrename : s.volume.rename call.tempPath call.path = some w) :
    Guarded version (s.advance c call w (.returned .replaced)) := by
  obtain ⟨hdirectory, hinode⟩ := (h.held c call hcall).synced i hposition
  obtain ⟨hpath, hversion⟩ := h.wanted c call hcall
  have htidy := h.tidy.rename hdirectory (by rw [hinode])
    (show version call.path _ by rw [hinode]; exact hversion) hpath hrename
  exact h.advance hcall (by rw [hposition]; rfl) htidy
    (Volume.Tidy.frame_rename hpath hrename) (.of_position (.inr (.inr (.inr ⟨_, rfl⟩))))

theorem remove (h : Guarded version s) (hcall : s.calls c = some call)
    (hposition : call.position = .failed) :
    Guarded version (s.advance c call (s.volume.remove call.tempPath) (.returned .failed)) :=
  h.advance hcall (by rw [hposition]; rfl) (h.tidy.remove _) Volume.Tidy.frame_remove
    (.of_position (.inr (.inr (.inr ⟨_, rfl⟩))))

theorem proceed (h : Guarded version s) (hcall : s.calls c = some call)
    (hstep : Proceeds s c call t) : Guarded version t := by
  cases hstep with
  | created hposition => exact h.create hcall hposition
  | wrote count hposition => exact h.write hcall hposition count
  | synced hposition => exact h.sync hcall hposition
  | renamed hposition hrename => exact h.rename hcall hposition hrename
  | removed hposition => exact h.remove hcall hposition
  | stuck hrunning hposition =>
    apply h.turn hcall hrunning
    rcases hposition with rfl | rfl
    · exact .of_position (.inr (.inl rfl))
    · exact .of_position (.inr (.inr (.inr ⟨_, rfl⟩)))

/-- A new call, while the counters did not wrap. -/
theorem begin (h : Guarded version s) (hcount : s.nextCall + 1 < 2 ^ 64) (pid : Nat) (path : Path)
    (bytes : List UInt8) (hwanted : ∀ fileName, path.fileName = some fileName →
      ¬ IsTemp (path.parent, fileName) ∧ version (path.parent, fileName) bytes) :
    Guarded version (s.begin pid path bytes) := by
  unfold Storage.begin
  split
  · exact h
  rename_i fileName hname
  have hsequence : (s.tempSequence pid + 1) % 2 ^ 64 = s.tempSequence pid + 1 := by
    have := h.counted pid
    omega
  rw [hsequence]
  constructor
  · exact h.tidy
  · intro d hd
    have hd' : s.nextCall + 1 ≤ d := hd
    have hne : d ≠ s.nextCall := by omega
    exact (Function.update_of_ne hne _ _).trans (h.fresh d (by omega))
  · intro p
    have hp := h.counted p
    have hpid := h.counted pid
    change Function.update s.tempSequence pid (s.tempSequence pid + 1) p ≤ s.nextCall + 1
    rw [Function.update_apply]
    split <;> omega
  · intro d other hother hrunning
    change other.sequence < Function.update s.tempSequence pid (s.tempSequence pid + 1) other.pid
    rcases update_eq_some hother with ⟨rfl, rfl⟩ | ⟨hne, hsame⟩
    · rw [Function.update_self]
      exact Nat.lt_succ_self _
    · have hnumber := h.numbered d other hsame hrunning
      rw [Function.update_apply]
      split
      · rename_i heq
        rw [heq] at hnumber
        omega
      · exact hnumber
  · intro d e other third hother hthird hrunning_d hrunning_e hpid hseq
    rcases update_eq_some hother with ⟨rfl, rfl⟩ | ⟨hne, hsame⟩
    · rcases update_eq_some hthird with ⟨rfl, rfl⟩ | ⟨_, hsame⟩
      · rfl
      · have hnumber := h.numbered e third hsame hrunning_e
        rw [← hpid, ← hseq] at hnumber
        exact absurd hnumber (Nat.lt_irrefl _)
    · rcases update_eq_some hthird with ⟨rfl, rfl⟩ | ⟨_, hsame'⟩
      · have hnumber := h.numbered d other hsame hrunning_d
        rw [hpid, hseq] at hnumber
        exact absurd hnumber (Nat.lt_irrefl _)
      · exact h.unique d e other third hsame hsame' hrunning_d hrunning_e hpid hseq
  · intro d other hother
    rcases update_eq_some hother with ⟨rfl, rfl⟩ | ⟨hne, hsame⟩
    · exact hwanted fileName hname
    · exact h.wanted d other hsame
  · intro d other hother
    rcases update_eq_some hother with ⟨rfl, rfl⟩ | ⟨hne, hsame⟩
    · exact .of_position (.inl rfl)
    · exact h.held d other hsame
  · exact h.reading

/-- A call that was killed kept what it was called with. -/
theorem kill_eq_some {calls : Nat → Option Call} {test : Call → Bool} {killed : Call}
    (h : kill calls test c = some killed) :
    (calls c = some killed ∧ (killed.position.running = true → test killed = false)) ∨
      ∃ call, calls c = some call ∧ killed = { call with position := .killed } := by
  obtain ⟨call, hcall, hkilled⟩ := Option.map_eq_some_iff.mp h
  split at hkilled
  · exact .inr ⟨call, hcall, hkilled.symm⟩
  · rename_i hspared
    subst hkilled
    refine .inl ⟨hcall, fun hrunning => ?_⟩
    rw [hrunning, Bool.true_and, Bool.not_eq_true] at hspared
    exact hspared

theorem of_kill {calls : Nat → Option Call} {test : Call → Bool} {killed : Call}
    (h : kill calls test c = some killed) (hrunning : killed.position.running = true) :
    calls c = some killed ∧ test killed = false := by
  rcases kill_eq_some h with ⟨hcall, hspared⟩ | ⟨call, -, rfl⟩
  · exact ⟨hcall, hspared hrunning⟩
  · cases hrunning

/-- The calls of a process end with it, and its counter starts again. -/
theorem kill (h : Guarded version s) (test : Call → Bool) (tempSequence : Nat → Nat)
    (hcounted : ∀ pid, tempSequence pid ≤ s.tempSequence pid)
    (hspared : ∀ call, test call = false → tempSequence call.pid = s.tempSequence call.pid) :
    Guarded version { s with tempSequence, calls := kill s.calls test } := by
  constructor
  · exact h.tidy
  · intro d hd
    change (s.calls d).map _ = none
    rw [h.fresh d hd, Option.map_none]
  · exact fun pid => (hcounted pid).trans (h.counted pid)
  · intro d other hother hrunning
    obtain ⟨hsame, htest⟩ := of_kill hother hrunning
    change other.sequence < tempSequence other.pid
    rw [hspared other htest]
    exact h.numbered d other hsame hrunning
  · intro d e other third hother hthird hrunning_d hrunning_e
    exact h.unique d e other third (of_kill hother hrunning_d).1 (of_kill hthird hrunning_e).1
      hrunning_d hrunning_e
  · intro d other hother
    rcases kill_eq_some hother with ⟨hsame, -⟩ | ⟨call, hsame, rfl⟩
    · exact h.wanted d other hsame
    · exact h.wanted d call hsame
  · intro d other hother
    rcases kill_eq_some hother with ⟨hsame, -⟩ | ⟨call, hsame, rfl⟩
    · exact h.held d other hsame
    · exact .of_position (.inr (.inr (.inl rfl)))
  · exact h.reading

theorem powerLoss (h : Guarded version s) (age : Nat) (lost : Nat → List UInt8) :
    Guarded version { s with
      volume := s.volume.crash age lost
      tempSequence := fun _ => 0
      calls := Storage.kill s.calls fun _ => true
      readers := fun _ => none } := by
  have hkilled := h.kill (fun _ => true) (fun _ => 0) (fun _ => Nat.zero_le _)
    fun _ hfalse => nomatch hfalse
  refine { hkilled with tidy := h.tidy.crash age lost, held := ?_, reading := nofun }
  intro d other hother
  have hover : other.position.running = false := by
    by_contra hrunning
    cases (of_kill hother (Bool.not_eq_false _ ▸ hrunning)).2
  constructor
  · intro i written hposition
    rw [hposition] at hover
    cases hover
  · intro i hposition
    rw [hposition] at hover
    cases hover

theorem readers (h : Guarded version s) {r : Nat} {reader : Reader} {nextReader : Nat}
    (hreads : ¬ IsTemp reader.name → Reads s.volume reader) :
    Guarded version { s with
      readers := Function.update s.readers r (some reader)
      nextReader } := by
  refine { h with reading := ?_ }
  intro q other hother hname
  change Function.update s.readers r (some reader) q = some other at hother
  rw [Function.update_apply] at hother
  split at hother
  · obtain rfl := Option.some.inj hother
    exact hreads hname
  · exact h.reading q other hother hname

theorem openFile (h : Guarded version s) {name : Name} {i : Nat}
    (hi : s.volume.directory name = some i) :
    Guarded version { s with
      readers := Function.update s.readers s.nextReader (some { name, inode := i })
      nextReader := s.nextReader + 1 } := by
  apply h.readers
  intro hname
  constructor
  · exact ⟨hname, s.volume.directory, List.mem_cons_self, hi⟩
  · exact List.nil_prefix
  · exact fun hended => nomatch hended

theorem read (h : Guarded version s) {r count : Nat} {reader : Reader}
    (hreader : s.readers r = some reader) (hstep : s.read r count reader = some t) :
    Guarded version t := by
  unfold Storage.read at hstep
  split at hstep
  · cases hstep
  cases hstep
  apply h.readers
  intro hname
  split at hname
  · rename_i hrest
    obtain ⟨hpublished, hbuffer, -⟩ := h.reading r reader hreader hname
    rw [if_pos hrest]
    refine ⟨hpublished, hbuffer, fun _ => ?_⟩
    exact hbuffer.eq_of_length_le (List.drop_eq_nil_iff.mp hrest)
  · rename_i hended hrest
    obtain ⟨hpublished, hbuffer, -⟩ := h.reading r reader hreader hname
    rw [if_neg hrest]
    refine ⟨hpublished, ?_, fun hover => absurd hover hended⟩
    obtain ⟨more, hmore⟩ := hbuffer
    rw [← hmore, List.drop_left]
    exact List.prefix_append_right_inj _ |>.mpr (List.take_prefix _ _)

theorem step (h : Guarded version s) (hcount : s.nextCall + 1 < 2 ^ 64) {event : Event}
    (hwanted : Wanted version event) (hstep : s.step event = some t) : Guarded version t := by
  cases event with
  | call pid path bytes =>
    cases hstep
    exact h.begin hcount pid path bytes fun fileName hname =>
      hwanted pid path bytes fileName rfl hname
  | exit pid =>
    cases hstep
    apply h.kill
    · intro p
      rw [Function.update_apply]
      split
      · exact Nat.zero_le _
      · exact Nat.le_refl _
    · intro call htest
      exact Function.update_of_ne (of_decide_eq_false htest) _ _
  | powerLoss age lost =>
    cases hstep
    exact h.powerLoss age lost
  | openFile name =>
    obtain ⟨i, hi, rfl⟩ := Option.map_eq_some_iff.mp hstep
    exact h.openFile hi
  | read r count =>
    obtain ⟨reader, hreader, hread⟩ := Option.bind_eq_some_iff.mp hstep
    exact h.read hreader hread
  | create c ok | write c count | writeFailed c | sync c ok | rename c ok | remove c ok =>
    obtain ⟨call, hcall, hproceed⟩ := Option.bind_eq_some_iff.mp hstep
    exact h.proceed hcall (proceeds hproceed)

end Guarded

theorem nextCall_step {event : Event} (h : s.step event = some t) :
    t.nextCall ≤ s.nextCall + 1 := by
  cases event with
  | call pid path bytes =>
    cases h
    unfold begin
    split
    · exact Nat.le_succ _
    · exact Nat.le_refl _
  | exit pid =>
    cases h
    exact Nat.le_succ _
  | powerLoss age lost =>
    cases h
    exact Nat.le_succ _
  | openFile name =>
    obtain ⟨i, hi, rfl⟩ := Option.map_eq_some_iff.mp h
    exact Nat.le_succ _
  | read r count =>
    obtain ⟨reader, -, hread⟩ := Option.bind_eq_some_iff.mp h
    unfold read at hread
    split at hread
    · cases hread
    · cases hread
      exact Nat.le_succ _
  | create c ok | write c count | writeFailed c | sync c ok | rename c ok | remove c ok =>
    obtain ⟨call, -, hproceed⟩ := Option.bind_eq_some_iff.mp h
    cases proceeds hproceed <;> exact Nat.le_succ _

/-! ## Runs -/

/-- No call replaces a file that is named like a temp file. -/
def TargetsApart (events : List Event) : Prop :=
  ∀ pid path bytes fileName, .call pid path bytes ∈ events → path.fileName = some fileName →
    ¬ IsTemp (path.parent, fileName)

/-- What stood under the name at the start, or what a call replaced it with. -/
def Version (start : Volume Name UInt8) (events : List Event) (name : Name)
    (bytes : List UInt8) : Prop :=
  (∃ i, start.directory name = some i ∧ bytes = (start.inodes i).content) ∨
    ∃ pid path, .call pid path bytes ∈ events ∧ path.parent = name.1 ∧
      path.fileName = some name.2

theorem TargetsApart.wanted {events : List Event} (h : TargetsApart events)
    (start : Volume Name UInt8) : ∀ event ∈ events, Wanted (Version start events) event := by
  rintro event hmem pid path bytes fileName rfl hname
  exact ⟨h pid path bytes fileName hmem hname, .inr ⟨pid, path, hmem, rfl, hname⟩⟩

theorem run_cons {event : Event} {rest : List Event} (h : s.run (event :: rest) = some t) :
    ∃ next, s.step event = some next ∧ next.run rest = some t := Option.bind_eq_some_iff.mp h

/-- What the steps of guarded states keep, a run keeps. -/
theorem Guarded.run_keeps (h : Guarded version s) {events : List Event}
    (hcount : s.nextCall + events.length < 2 ^ 64)
    (hwanted : ∀ event ∈ events, Wanted version event) {I : Storage → Prop}
    (hkeeps : ∀ s t, ∀ event ∈ events, Guarded version s → s.step event = some t → I s → I t)
    (hinitial : I s) (hrun : s.run events = some t) : Guarded version t ∧ I t := by
  induction events generalizing s with
  | nil =>
    cases hrun
    exact ⟨h, hinitial⟩
  | cons event rest ih =>
    obtain ⟨next, hstep, hrest⟩ := run_cons hrun
    have hnext := nextCall_step hstep
    rw [List.length_cons] at hcount
    obtain ⟨hone, hothers⟩ := List.forall_mem_cons.mp hwanted
    exact ih (h.step (by omega) hone hstep) (by omega) hothers
      (fun s t event hmem => hkeeps s t event (List.mem_cons_of_mem _ hmem))
      (hkeeps s next event List.mem_cons_self h hstep hinitial) hrest

/-- A volume no call has worked on since the machine started. -/
structure Mounted (v : Volume Name UInt8) : Prop where
  bound : ∀ n i, v.directory n = some i → i < v.nextInode
  injective : ∀ n m i, v.directory n = some i → v.directory m = some i → n = m
  synced : ∀ n i, v.directory n = some i → (v.inodes i).synced = true
  past : v.past = []

theorem Mounted.guarded {start : Volume Name UInt8} (h : Mounted start) (events : List Event) :
    Guarded (Version start events) { volume := start } := by
  have hone : ∀ d ∈ start.directories, d = start.directory := by
    intro d hd
    rw [Volume.directories, h.past] at hd
    exact List.mem_singleton.mp hd
  refine ⟨⟨?_, ?_, ?_, ?_⟩, fun _ _ => rfl, fun _ => Nat.le_refl _, ?_, ?_, ?_, ?_, ?_⟩
  · intro d hd
    rw [hone d hd]
    exact h.bound
  · intro d hd
    rw [hone d hd]
    exact h.injective
  · intro d hd n i _ hi
    rw [hone d hd] at hi
    exact ⟨h.synced n i hi, .inl ⟨i, hi, rfl⟩⟩
  · intro n i hn hi d hd m hm hdi
    rw [hone d hd] at hdi
    exact hm (h.injective m n i hdi hi ▸ hn)
  · exact nofun
  · exact nofun
  · exact nofun
  · exact nofun
  · exact nofun

/-- However the calls, the readers, the ends of processes and the losses of power interleave:
behind a name that is no temp name always stands one whole version of the file, and a reader
collects one whole version. -/
theorem files_are_never_torn (start : Volume Name UInt8) (events : List Event)
    (hstart : Mounted start) (hcount : events.length < 2 ^ 64) (htargets : TargetsApart events)
    (hrun : Storage.run { volume := start } events = some t) :
    (∀ name i, ¬ IsTemp name → t.volume.directory name = some i →
      Version start events name (t.volume.inodes i).content) ∧
    ∀ r reader, t.readers r = some reader → ¬ IsTemp reader.name →
      ∃ bytes, Version start events reader.name bytes ∧ reader.buffer <+: bytes ∧
        (reader.ended = true → reader.buffer = bytes) := by
  have hguarded := ((hstart.guarded events).run_keeps (by rwa [Nat.zero_add])
    (htargets.wanted start) (I := fun _ => True) (fun _ _ _ _ _ _ => id) trivial hrun).1
  constructor
  · intro name i hname hi
    exact (hguarded.tidy.settled _ List.mem_cons_self name i hname hi).2
  · intro r reader hreader hname
    obtain ⟨hpublished, hbuffer, hended⟩ := hguarded.reading r reader hreader hname
    exact ⟨_, hpublished.content hguarded.tidy, hbuffer, hended⟩

def oneFile (name : Name) (content : List UInt8) : Volume Name UInt8 where
  inodes := fun _ => ⟨content, true⟩
  nextInode := 1
  directory := fun n => if n = name then some 0 else none

theorem oneFile_mounted (name : Name) (content : List UInt8) : Mounted (oneFile name content) := by
  constructor
  · intro n i hi
    simp only [oneFile] at hi ⊢
    grind
  · intro n m i hn hm
    simp only [oneFile] at hn hm
    grind
  · exact fun _ _ _ => rfl
  · rfl

def cacheFile : Name := ("/s".toList, "a.json".toList)

/-- Two processes replace a file while it is read, and the second is lost with the power. -/
def twoWriters : List Event :=
  [.openFile cacheFile, .read 0 1, .call 7 ⟨cacheFile.1, some cacheFile.2⟩ [1, 2],
    .call 8 ⟨cacheFile.1, some cacheFile.2⟩ [3, 4], .create 0 true, .create 1 true,
    .write 1 1, .write 0 2, .sync 0 true, .rename 0 true, .read 0 1, .read 0 1,
    .powerLoss 0 fun _ => [], .openFile cacheFile, .read 1 2, .read 1 1]

theorem twoWriters_targets : TargetsApart twoWriters := by
  intro pid path bytes fileName hmem hname
  simp only [twoWriters, List.mem_cons, reduceCtorEq, Event.call.injEq, false_or, or_false,
    List.not_mem_nil] at hmem
  rcases hmem with ⟨-, rfl, -⟩ | ⟨-, rfl, -⟩ <;> cases hname <;> decide

theorem two_writers_leave_a_whole_file :
    ∃ t, Storage.run { volume := oneFile cacheFile [9, 9] } twoWriters = some t ∧
      ∃ bytes, Version (oneFile cacheFile [9, 9]) twoWriters cacheFile bytes ∧ [1, 2] = bytes :=
  ⟨_, rfl, by
    obtain ⟨bytes, hversion, -, hended⟩ := (files_are_never_torn (oneFile cacheFile [9, 9])
      twoWriters (oneFile_mounted _ _) (by decide) twoWriters_targets rfl).2 1
      { name := cacheFile, inode := 1, buffer := [1, 2], ended := true } rfl (by decide)
    exact ⟨bytes, hversion, hended rfl⟩⟩

/-! ## What stays behind -/

/-- A call that came back left no temp file, unless it could not remove it. -/
def Cleared (position : Position) : Prop :=
  position = .returned .replaced ∨ position = .returned .failed

/-- Every temp file was there at the start, or is of a call that did not clear it. -/
def Accounted (start : Volume Name UInt8) (s : Storage) : Prop :=
  ∀ name, IsTemp name → s.volume.directory name ≠ none → start.directory name ≠ none ∨
    ∃ c call, s.calls c = some call ∧ call.tempPath = name ∧ ¬ Cleared call.position

namespace Accounted

variable {start : Volume Name UInt8}

/-- A call that goes on accounts for its temp file, or has none any more. -/
theorem advance (h : Accounted start s) (hcall : s.calls c = some call)
    {w : Volume Name UInt8} {position : Position}
    (hothers : ∀ name, IsTemp name → name ≠ call.tempPath → w.directory name ≠ none →
      s.volume.directory name ≠ none)
    (hown : w.directory call.tempPath = none ∨ ¬ Cleared position) :
    Accounted start (s.advance c call w position) := by
  intro name htemp hname
  by_cases heq : name = call.tempPath
  · rcases hown with hgone | hposition
    · rw [heq] at hname
      exact absurd hgone hname
    · exact .inr ⟨c, { call with position }, Function.update_self _ _ _, heq.symm, hposition⟩
  · rcases h name htemp (hothers name htemp heq hname) with hstart | ⟨d, other, hother, hpath, hd⟩
    · exact .inl hstart
    · have hne : d ≠ c := by
        rintro rfl
        rw [hcall, Option.some.injEq] at hother
        rw [hother] at heq
        exact heq hpath.symm
      exact .inr ⟨d, other, (Function.update_of_ne hne _ _).trans hother, hpath, hd⟩

theorem proceed (h : Accounted start s) (hcall : s.calls c = some call)
    (hpath : ¬ IsTemp call.path) (hstep : Proceeds s c call t) : Accounted start t := by
  have hscratch : ∀ {name}, IsTemp name → name ≠ call.path := fun htemp =>
    (Volume.Tidy.ne_of_scratch htemp hpath).symm
  cases hstep with
  | created =>
    refine h.advance hcall (fun name _ hne hname => ?_) (.inr (by rintro (h | h) <;> cases h))
    rwa [s.volume.directory_create_of_ne hne] at hname
  | wrote | synced =>
    exact h.advance hcall (fun _ _ _ hname => hname) (.inr (by rintro (h | h) <;> cases h))
  | renamed _ hrename =>
    have hown := Volume.directory_rename_self (hscratch (isTemp_tempPath call)) hrename
    refine h.advance hcall (fun name htemp hne hname => ?_) (.inl hown)
    rwa [Volume.directory_rename_of_ne hne (hscratch htemp) hrename] at hname
  | removed =>
    refine h.advance hcall (fun name _ hne hname => ?_) (.inl (Function.update_self _ _ _))
    rwa [s.volume.directory_remove_of_ne hne] at hname
  | stuck _ hposition =>
    apply h.advance hcall (fun _ _ _ hname => hname)
    rcases hposition with rfl | rfl
    · exact .inr (by rintro (h | h) <;> cases h)
    · exact .inr (by rintro (h | h) <;> cases h)

/-- A step that leaves the volume and does not clear a call. -/
theorem of_calls (h : Accounted start s) {calls : Nat → Option Call} {tempSequence : Nat → Nat}
    {nextCall : Nat}
    (hcalls : ∀ c call, s.calls c = some call → ¬ Cleared call.position →
      ∃ other, calls c = some other ∧ other.tempPath = call.tempPath ∧ ¬ Cleared other.position) :
    Accounted start { s with calls, tempSequence, nextCall } := by
  intro name htemp hname
  rcases h name htemp hname with hstart | ⟨c, call, hcall, hpath, hposition⟩
  · exact .inl hstart
  · obtain ⟨other, hother, hsame, hover⟩ := hcalls c call hcall hposition
    exact .inr ⟨c, other, hother, hsame.trans hpath, hover⟩

theorem kill (h : Accounted start s) (test : Call → Bool) (tempSequence : Nat → Nat) :
    Accounted start { s with tempSequence, calls := Storage.kill s.calls test } := by
  apply h.of_calls
  intro c call hcall hposition
  refine ⟨_, congrArg (Option.map _) hcall, ?_⟩
  dsimp only
  split
  · exact ⟨rfl, by rintro (h | h) <;> cases h⟩
  · exact ⟨rfl, hposition⟩

theorem step (h : Accounted start s) (hguarded : Guarded version s) {event : Event}
    (hstep : s.step event = some t) (hpower : ∀ age lost, event ≠ .powerLoss age lost) :
    Accounted start t := by
  cases event with
  | call pid path bytes =>
    cases hstep
    unfold begin
    split
    · exact h
    · apply h.of_calls
      intro c call hcall hposition
      have hne : c ≠ s.nextCall := by
        rintro rfl
        rw [hguarded.fresh _ (Nat.le_refl _)] at hcall
        cases hcall
      exact ⟨call, (Function.update_of_ne hne _ _).trans hcall, rfl, hposition⟩
  | exit pid =>
    cases hstep
    exact h.kill _ _
  | powerLoss age lost => exact absurd rfl (hpower age lost)
  | openFile name =>
    obtain ⟨i, -, rfl⟩ := Option.map_eq_some_iff.mp hstep
    exact h
  | read r count =>
    obtain ⟨reader, -, hread⟩ := Option.bind_eq_some_iff.mp hstep
    unfold read at hread
    split at hread
    · cases hread
    · cases hread
      exact h
  | create c ok | write c count | writeFailed c | sync c ok | rename c ok | remove c ok =>
    obtain ⟨call, hcall, hproceed⟩ := Option.bind_eq_some_iff.mp hstep
    exact h.proceed hcall (hguarded.wanted c call hcall).1 (proceeds hproceed)

end Accounted

/-- While the power holds, a temp file that was not there before is of a call that did not
come back, or that could not remove it. -/
theorem no_temp_outlives_its_write (start : Volume Name UInt8) (events : List Event)
    (hstart : Mounted start) (hcount : events.length < 2 ^ 64) (htargets : TargetsApart events)
    (hpower : ∀ age lost, .powerLoss age lost ∉ events)
    (hrun : Storage.run { volume := start } events = some t) :
    ∀ name, IsTemp name → t.volume.directory name ≠ none → start.directory name ≠ none ∨
      ∃ c call, t.calls c = some call ∧ call.tempPath = name ∧
        call.position ≠ .returned .replaced ∧ call.position ≠ .returned .failed := by
  have hinitial : Accounted start { volume := start } := fun _ _ hname => .inl hname
  have haccounted := ((hstart.guarded events).run_keeps (by rwa [Nat.zero_add])
    (htargets.wanted start) (fun s t event hmem hguarded hstep h => Accounted.step h hguarded hstep
      fun age lost heq => hpower age lost (heq ▸ hmem)) hinitial hrun).2
  intro name htemp hname
  rcases haccounted name htemp hname with hold | ⟨c, call, hcall, hpath, hposition⟩
  · exact .inl hold
  · exact .inr ⟨c, call, hcall, hpath, fun h => hposition (.inl h), fun h => hposition (.inr h)⟩

def oneFailure : List Event :=
  [.call 7 ⟨cacheFile.1, some cacheFile.2⟩ [1, 2], .call 8 ⟨cacheFile.1, some cacheFile.2⟩ [3, 4],
    .create 0 true, .create 1 true, .write 0 2, .sync 0 true, .write 1 1, .rename 0 true,
    .writeFailed 1]

theorem oneFailure_targets : TargetsApart oneFailure := by
  intro pid path bytes fileName hmem hname
  simp only [oneFailure, List.mem_cons, reduceCtorEq, Event.call.injEq, or_false,
    List.not_mem_nil] at hmem
  rcases hmem with ⟨-, rfl, -⟩ | ⟨-, rfl, -⟩ <;> cases hname <;> decide

theorem a_failed_write_has_its_temp :
    ∃ t, Storage.run { volume := oneFile cacheFile [9, 9] } oneFailure = some t ∧
      ∀ name, IsTemp name → t.volume.directory name ≠ none →
        (oneFile cacheFile [9, 9]).directory name ≠ none ∨
          ∃ c call, t.calls c = some call ∧ call.tempPath = name ∧
            call.position ≠ .returned .replaced ∧ call.position ≠ .returned .failed :=
  ⟨_, rfl, no_temp_outlives_its_write (oneFile cacheFile [9, 9]) oneFailure
    (oneFile_mounted _ _) (by decide) oneFailure_targets
    (by intro age lost hmem; simp [oneFailure] at hmem) rfl⟩

end Storage
end ImportLens.Daemon.AtomicWrite
