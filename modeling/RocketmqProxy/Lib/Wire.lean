import Mathlib

/-!
# Messages of numbered fields

A message is written as its fields one after the other, each behind a tag with its number and
the form of its value.  A loop reads it back: it takes a tag and then the value, and keeps a
field that it does not know as it is.  The streams underneath are a parameter.
-/

namespace Wire

abbrev Bytes := List UInt8

/-- How a loop of at most so many turns ends. -/
inductive Outcome (α : Type)
  | outOfTurns
  | refused
  | accepted (a : α)
deriving DecidableEq, Repr

namespace Outcome

variable {α β : Type}

/-- A reader that fails refuses the text. -/
def ofOption : Option α → Outcome α
  | none => .refused
  | some a => .accepted a

def bind : Outcome α → (α → Outcome β) → Outcome β
  | .outOfTurns, _ => .outOfTurns
  | .refused, _ => .refused
  | .accepted a, f => f a

@[simp]
theorem ofOption_none : ofOption (none : Option α) = .refused := rfl

@[simp]
theorem ofOption_some (a : α) : ofOption (some a) = .accepted a := rfl

@[simp]
theorem refused_bind (f : α → Outcome β) : bind .refused f = .refused := rfl

@[simp]
theorem accepted_bind (a : α) (f : α → Outcome β) : bind (.accepted a) f = f a := rfl

theorem bind_eq_accepted {x : Outcome α} {f : α → Outcome β} {b : β}
    (h : x.bind f = .accepted b) : ∃ a, x = .accepted a ∧ f a = .accepted b := by
  cases x with
  | outOfTurns => exact absurd h (by simp [bind])
  | refused => exact absurd h (by simp)
  | accepted a => exact ⟨a, rfl, h⟩

theorem bind_congr {x : Outcome α} {f g : α → Outcome β}
    (h : ∀ a, x = .accepted a → f a = g a) : x.bind f = x.bind g := by
  cases x with
  | outOfTurns => rfl
  | refused => rfl
  | accepted a => exact h a rfl

theorem ofOption_eq_accepted {x : Option α} {a : α} (h : ofOption x = .accepted a) :
    x = some a := by
  cases x with
  | none => exact absurd h (by simp)
  | some b => exact congrArg some (Outcome.accepted.inj h)

theorem bind_ne_outOfTurns {x : Outcome α} {f : α → Outcome β} (hx : x ≠ .outOfTurns)
    (h : ∀ a, x = .accepted a → f a ≠ .outOfTurns) : x.bind f ≠ .outOfTurns := by
  cases x with
  | outOfTurns => exact absurd rfl hx
  | refused => simp
  | accepted a => exact h a rfl

/-- What follows a reader runs out of turns only behind a value. -/
theorem read_ne_outOfTurns {x : Option α} {f : α → Outcome β}
    (h : ∀ a, x = some a → f a ≠ .outOfTurns) : (ofOption x).bind f ≠ .outOfTurns := by
  cases x with
  | none => simp
  | some a => exact h a rfl

end Outcome

inductive FieldType
  | string
  | int32
deriving DecidableEq, Repr

abbrev FieldType.Val : FieldType → Type
  | .string => Bytes
  | .int32 => BitVec 32

def FieldType.default : (t : FieldType) → t.Val
  | .string => []
  | .int32 => 0

instance : (t : FieldType) → DecidableEq t.Val
  | .string => inferInstanceAs (DecidableEq Bytes)
  | .int32 => inferInstanceAs (DecidableEq (BitVec 32))

/-- The low three bits of a tag. -/
def FieldType.wireType : FieldType → Nat
  | .string => 2
  | .int32 => 0

/-- What is left of a stream, and whether its end has been found where a tag may stand. -/
structure Input where
  bytes : Bytes
  ended : Bool
deriving DecidableEq, Repr

/-- The coded streams, with `U` for a field of unknown meaning. -/
structure Runtime (U : Type) where
  /-- The next tag, 0 if there is none, and whether it is known to be at most 127. -/
  readTag : Input → (Nat × Bool) × Input
  readString : Input → Option (Bytes × Input)
  verifyUtf8 : Bytes → Bool
  readInt32 : Input → Option (BitVec 32 × Input)
  skipField : Nat → Input → Option (U × Input)
  writeString : Nat → Bytes → Bytes
  writeInt32 : Nat → BitVec 32 → Bytes
  writeUnknown : U → Bytes
  stringSize : Bytes → Nat
  int32Size : BitVec 32 → Nat
  unknownSize : U → Nat
  unknownTag : U → Nat

/-- A member of a message type `M`. -/
structure Field (M : Type) where
  number : Nat
  type : FieldType
  get : M → type.Val
  set : type.Val → M → M

structure Descriptor (M U : Type) where
  fields : List (Field M)
  /-- The message of a fresh object. -/
  fresh : M
  unknown : M → List U
  setUnknown : List U → M → M

variable {M U : Type}

def Field.tag (f : Field M) : Nat := 8 * f.number + f.type.wireType

def Field.IsDefault (f : Field M) (m : M) : Prop := f.get m = f.type.default

instance (f : Field M) (m : M) : Decidable (f.IsDefault m) :=
  inferInstanceAs (Decidable (_ = _))

namespace Runtime

def read (r : Runtime U) : (t : FieldType) → Input → Option (t.Val × Input)
  | .string, i =>
    (r.readString i).bind fun p => if r.verifyUtf8 p.1 then some p else none
  | .int32, i => r.readInt32 i

def write (r : Runtime U) (number : Nat) : (t : FieldType) → t.Val → Bytes
  | .string, v => r.writeString number v
  | .int32, v => r.writeInt32 number v

def size (r : Runtime U) : (t : FieldType) → t.Val → Nat
  | .string, v => r.stringSize v
  | .int32, v => r.int32Size v

/-- The value passes the check that its reader makes. -/
def Accepts (r : Runtime U) : (t : FieldType) → t.Val → Prop
  | .string, v => r.verifyUtf8 v = true
  | .int32, _ => True

instance (r : Runtime U) : (t : FieldType) → (v : t.Val) → Decidable (r.Accepts t v)
  | .string, v => inferInstanceAs (Decidable (r.verifyUtf8 v = true))
  | .int32, _ => inferInstanceAs (Decidable True)

end Runtime

namespace Descriptor

variable (r : Runtime U) (d : Descriptor M U)

/-- The field that a tag announces. -/
def field (tag : Nat) : Option (Field M) :=
  d.fields.find? fun f => f.number = tag / 8 ∧ f.tag % 256 = tag % 256

def addUnknown (us : List U) (m : M) : M := d.setUnknown (d.unknown m ++ us) m

/-- The loop of the parser, for at most so many tags. -/
def mergePartial : Nat → M → Input → Outcome (M × Input)
  | 0, _, _ => .outOfTurns
  | n + 1, m, i =>
    let p := r.readTag i
    match if p.1.2 then d.field p.1.1 else none with
    | some f => (Outcome.ofOption (r.read f.type p.2)).bind fun v =>
        mergePartial n (f.set v.1 m) v.2
    | none =>
      if p.1.1 = 0 then .accepted (m, p.2)
      else (Outcome.ofOption (r.skipField p.1.1 p.2)).bind fun u =>
        mergePartial n (d.addUnknown [u.1] m) u.2

/-- A whole text is one message. -/
def parse (bytes : Bytes) : Outcome M :=
  (d.mergePartial r (bytes.length + 1) d.fresh ⟨bytes, false⟩).bind fun p =>
    if p.2.ended then .accepted p.1 else .refused

def serialize (m : M) : Bytes :=
  (d.fields.flatMap fun f =>
      if f.IsDefault m then [] else r.write f.number f.type (f.get m)) ++
    (d.unknown m).flatMap r.writeUnknown

/-- The fields in the order of their types. -/
def byType : List (Field M) :=
  d.fields.filter (fun f => f.type = .string) ++ d.fields.filter fun f => f.type = .int32

def mergeField (source m : M) (f : Field M) : M :=
  if f.IsDefault source then m else f.set (f.get source) m

def mergeFrom (m source : M) : M :=
  d.byType.foldl (mergeField source) (d.addUnknown (d.unknown source) m)

def byteSize (m : M) : Nat :=
  ((d.unknown m).map r.unknownSize).sum +
    (d.byType.map fun f => if f.IsDefault m then 0 else 1 + r.size f.type (f.get m)).sum

end Descriptor

/-! ## Laws -/

/-- What the streams do with texts below 2 GiB. -/
structure Runtime.Lawful (r : Runtime U) : Prop where
  atEnd : ∀ e, r.readTag ⟨[], e⟩ = ((0, false), ⟨[], true⟩)
  cutoff : ∀ i, if (r.readTag i).1.2 then (r.readTag i).1.1 ≤ 127
    else (r.readTag i).1.1 = 0 ∨ 127 < (r.readTag i).1.1
  tag_length : ∀ i, (r.readTag i).1.1 ≠ 0 → (r.readTag i).2.bytes.length < i.bytes.length
  read_length : ∀ t i v i', r.read t i = some (v, i') → i'.bytes.length ≤ i.bytes.length
  skip_length : ∀ tag i u i', r.skipField tag i = some (u, i') →
    r.unknownTag u = tag ∧ i'.bytes.length ≤ i.bytes.length
  string : ∀ number v rest e, 1 ≤ number → number ≤ 15 →
    (r.writeString number v ++ rest).length < 2 ^ 31 →
      ∃ i, r.readTag ⟨r.writeString number v ++ rest, e⟩ = ((8 * number + 2, true), i) ∧
        r.readString i = some (v, ⟨rest, false⟩)
  int32 : ∀ number v rest e, 1 ≤ number → number ≤ 15 →
    (r.writeInt32 number v ++ rest).length < 2 ^ 31 →
      ∃ i, r.readTag ⟨r.writeInt32 number v ++ rest, e⟩ = ((8 * number, true), i) ∧
        r.readInt32 i = some (v, ⟨rest, false⟩)
  unknown : ∀ u rest e, (r.writeUnknown u ++ rest).length < 2 ^ 31 →
    ∃ small i, r.readTag ⟨r.writeUnknown u ++ rest, e⟩ = ((r.unknownTag u, small), i) ∧
      r.skipField (r.unknownTag u) i = some (u, ⟨rest, false⟩)
  unknown_tag : ∀ u, r.unknownTag u ≠ 0
  string_size : ∀ number v, 1 ≤ number → number ≤ 15 →
    (r.writeString number v).length = 1 + r.stringSize v
  int32_size : ∀ number v, 1 ≤ number → number ≤ 15 →
    (r.writeInt32 number v).length = 1 + r.int32Size v
  unknown_size : ∀ u, (r.writeUnknown u).length = r.unknownSize u

/-- The members of a message are those of its fields, and the unknown fields. -/
structure Descriptor.Lawful (d : Descriptor M U) : Prop where
  number : ∀ f ∈ d.fields, 1 ≤ f.number ∧ f.number ≤ 15
  nodup : (d.fields.map Field.number).Nodup
  get_set : ∀ f ∈ d.fields, ∀ v m, f.get (f.set v m) = v
  get_set_ne : ∀ f ∈ d.fields, ∀ g ∈ d.fields, f.number ≠ g.number →
    ∀ v m, g.get (f.set v m) = g.get m
  unknown_set : ∀ f ∈ d.fields, ∀ v m, d.unknown (f.set v m) = d.unknown m
  get_setUnknown : ∀ f ∈ d.fields, ∀ us m, f.get (d.setUnknown us m) = f.get m
  unknown_setUnknown : ∀ us m, d.unknown (d.setUnknown us m) = us
  get_fresh : ∀ f ∈ d.fields, f.IsDefault d.fresh
  unknown_fresh : d.unknown d.fresh = []
  ext : ∀ m m', (∀ f ∈ d.fields, f.get m = f.get m') → d.unknown m = d.unknown m' → m = m'

end Wire
