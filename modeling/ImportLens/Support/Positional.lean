/-!
# Positional encodings

A self-describing format whose records are arrays: a field is known by its
place alone.  Two rules let a writer and a reader disagree about how many fields
there are.  A writer may leave a field out, and a reader that finds the array
exhausted may take a default instead.  Both are harmless at the end of a record
and nowhere else, since a field left out earlier moves every later one.

A `Shape` is a pair of an encoder and a decoder, a record is a list of fields
with a `Reader` of it, and the round trip of a record is put together from the
round trips of its fields.
-/

namespace ImportLens.Support.Positional

/-- What the format can write. -/
inductive Value
  | nil
  | bool (value : Bool)
  | nat (value : Nat)
  | text (value : String)
  | array (items : List Value)

/-- How values of a type are written and read. -/
structure Shape (α : Type) where
  encode : α → Value
  decode : Value → Option α

def Shape.Lawful {α : Type} (shape : Shape α) : Prop :=
  ∀ a, shape.decode (shape.encode a) = some a

/-! ## Plain values -/

def flag : Shape Bool where
  encode := .bool
  decode
    | .bool value => some value
    | _ => none

def number : Shape Nat where
  encode := .nat
  decode
    | .nat value => some value
    | _ => none

def text : Shape String where
  encode := .text
  decode
    | .text value => some value
    | _ => none

def variant {α : Type} (name : α → String) (all : List α) : Shape α where
  encode a := .text (name a)
  decode
    | .text value => all.find? fun a => name a == value
    | _ => none

variable {α β : Type}

/-- An absent value is written as `nil`, so it keeps its place. -/
def option (shape : Shape α) : Shape (Option α) where
  encode
    | none => .nil
    | some a => shape.encode a
  decode
    | .nil => some none
    | value => (shape.decode value).map some

def list (shape : Shape α) : Shape (List α) where
  encode values := .array (values.map shape.encode)
  decode
    | .array items => items.mapM shape.decode
    | _ => none

theorem flag_lawful : flag.Lawful := fun _ => rfl

theorem number_lawful : number.Lawful := fun _ => rfl

theorem text_lawful : text.Lawful := fun _ => rfl

theorem variant_lawful {name : α → String} {all : List α}
    (hall : ∀ a, (all.find? fun b => name b == name a) = some a) : (variant name all).Lawful :=
  hall

/-- A value that is never written as `nil`. -/
def Shape.NonNil (shape : Shape α) : Prop :=
  ∀ a, shape.encode a ≠ .nil

theorem option_lawful {shape : Shape α} (hshape : shape.Lawful) (hnil : shape.NonNil) :
    (option shape).Lawful := by
  intro a
  cases a with
  | none => rfl
  | some a =>
    simp only [option]
    split
    · rename_i h
      exact absurd h (hnil a)
    · rw [hshape a]
      rfl

theorem mapM_decode_encode {shape : Shape α} (hshape : shape.Lawful) (values : List α) :
    (values.map shape.encode).mapM shape.decode = some values := by
  induction values with
  | nil => rfl
  | cons a rest ih =>
    rw [List.map_cons, List.mapM_cons, hshape a, ih]
    rfl

theorem list_lawful {shape : Shape α} (hshape : shape.Lawful) : (list shape).Lawful :=
  mapM_decode_encode hshape

theorem number_nonNil : number.NonNil := fun _ h => by cases h

theorem text_nonNil : text.NonNil := fun _ h => by cases h

theorem list_nonNil (shape : Shape α) : (list shape).NonNil := fun _ h => by cases h

/-! ## Records -/

abbrev Reader (α : Type) := StateT (List Value) Option α

def next (shape : Shape α) : Reader α := fun items =>
  match items with
  | [] => none
  | value :: rest => (shape.decode value).map fun a => (a, rest)

def nextOr (shape : Shape α) (default : α) : Reader α := fun items =>
  match items with
  | [] => some (default, [])
  | value :: rest => (shape.decode value).map fun a => (a, rest)

def record (fields : α → List Value) (read : Reader α) : Shape α where
  encode a := .array (fields a)
  decode
    | .array items =>
      match read items with
      | some (a, []) => some a
      | _ => none
    | _ => none

def unlessDefault (shape : Shape α) (isDefault : α → Bool) (a : α) : List Value :=
  if isDefault a then [] else [shape.encode a]

/-! Each reader consumes the field it is for and leaves the ones behind it. -/

theorem next_of_decode {shape : Shape α} {a b : α} (h : shape.decode (shape.encode a) = some b)
    (rest : List Value) : next shape (shape.encode a :: rest) = some (b, rest) := by
  simp only [next, h, Option.map_some]

theorem next_encode {shape : Shape α} (hshape : shape.Lawful) (a : α) (rest : List Value) :
    next shape (shape.encode a :: rest) = some (a, rest) :=
  next_of_decode (hshape a) rest

theorem nextOr_encode {shape : Shape α} (hshape : shape.Lawful) (default a : α)
    (rest : List Value) : nextOr shape default (shape.encode a :: rest) = some (a, rest) := by
  simp only [nextOr, hshape a, Option.map_some]

theorem nextOr_unlessDefault {shape : Shape α} (hshape : shape.Lawful) (default : α)
    (isDefault : α → Bool) (a : α) :
    nextOr shape default (unlessDefault shape isDefault a) =
      some (if isDefault a then default else a, []) := by
  unfold unlessDefault
  by_cases hdefault : isDefault a = true
  · rw [if_pos hdefault, if_pos hdefault]
    rfl
  · rw [if_neg hdefault, if_neg hdefault]
    exact nextOr_encode hshape default a []

theorem bind_of_eq {first : Reader α} {others : α → Reader β} {items rest : List Value} {a : α}
    (h : first items = some (a, rest)) : (first >>= others) items = others a rest := by
  simp only [bind, StateT.bind, h, Option.bind]

theorem record_decode {fields : α → List Value} {read : Reader α} {a b : α}
    (h : read (fields a) = some (b, [])) :
    (record fields read).decode ((record fields read).encode a) = some b := by
  simp only [record, h]

end ImportLens.Support.Positional
