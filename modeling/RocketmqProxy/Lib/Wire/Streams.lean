import RocketmqProxy.Lib.Varint
import RocketmqProxy.Lib.Wire

/-!
# Streams of bytes

Tags, lengths and numbers of variable length over lists of bytes: an instance of the streams
that the parser and the writer of messages rest on.
-/

namespace Wire
namespace Streams

inductive Payload
  | varint (v : BitVec 64)
  | bytes (b : Bytes)
deriving DecidableEq, Repr

def Payload.wireType : Payload → Nat
  | .varint _ => 0
  | .bytes _ => 2

structure UnknownField where
  number : Nat
  payload : Payload
  pos : 0 < number
  lt : number < 2 ^ 29
deriving DecidableEq, Repr

/-- A tag, a length or a string takes at most five bytes, a number ten. -/
def writeBytes (tag : Nat) (b : Bytes) : Bytes :=
  Varint.encode 5 tag ++ (Varint.encode 5 b.length ++ b)

def writeVarint (tag n : Nat) : Bytes := Varint.encode 5 tag ++ Varint.encode 10 n

def readTag (i : Input) : (Nat × Bool) × Input :=
  if i.bytes = [] then ((0, false), ⟨[], true⟩)
  else
    match Varint.decode 5 i.bytes with
    | some (tag, rest) => ((tag, tag ≠ 0 ∧ tag ≤ 127), ⟨rest, false⟩)
    | none => ((0, false), ⟨[], false⟩)

def readBytes (i : Input) : Option (Bytes × Input) :=
  (Varint.decode 5 i.bytes).bind fun p =>
    if p.1 ≤ p.2.length then some (p.2.take p.1, ⟨p.2.drop p.1, false⟩) else none

def readVarint (i : Input) : Option (Nat × Input) :=
  (Varint.decode 10 i.bytes).map fun p => (p.1, ⟨p.2, false⟩)

def skipField (tag : Nat) (i : Input) : Option (UnknownField × Input) :=
  if h : 0 < tag / 8 ∧ tag / 8 < 2 ^ 29 then
    if tag % 8 = 0 then
      (readVarint i).map fun p => (⟨tag / 8, .varint (.ofNat 64 p.1), h.1, h.2⟩, p.2)
    else if tag % 8 = 2 then
      (readBytes i).map fun p => (⟨tag / 8, .bytes p.1, h.1, h.2⟩, p.2)
    else none
  else none

def unknownTag (u : UnknownField) : Nat := 8 * u.number + u.payload.wireType

def writeUnknown (u : UnknownField) : Bytes :=
  match u.payload with
  | .varint v => writeVarint (unknownTag u) v.toNat
  | .bytes b => writeBytes (unknownTag u) b

def validUtf8 (b : Bytes) : Bool := (ByteArray.mk b.toArray).validateUTF8

/-- A negative number is written with its sign in 64 bits. -/
def runtime (verifyUtf8 : Bytes → Bool) : Runtime UnknownField where
  readTag := readTag
  readString := readBytes
  verifyUtf8 := verifyUtf8
  readInt32 i := (readVarint i).map fun p => (.ofNat 32 p.1, p.2)
  skipField := skipField
  writeString number := writeBytes (8 * number + 2)
  writeInt32 number v := writeVarint (8 * number) (v.signExtend 64).toNat
  writeUnknown := writeUnknown
  stringSize b := (Varint.encode 5 b.length).length + b.length
  int32Size v := (Varint.encode 10 (v.signExtend 64).toNat).length
  unknownSize u := (writeUnknown u).length
  unknownTag := unknownTag

/-! ## What is written is read -/

theorem readTag_encode {tag : Nat} (hpos : tag ≠ 0) (hlt : tag < 2 ^ 32) (rest : Bytes) (e : Bool) :
    readTag ⟨Varint.encode 5 tag ++ rest, e⟩ =
      ((tag, decide (tag ≤ 127)), ⟨rest, false⟩) := by
  have hne : Varint.encode 5 tag ++ rest ≠ [] :=
    List.append_ne_nil_of_left_ne_nil (List.length_pos_iff.mp (Varint.length_pos (by decide))) _
  have hpow : tag < 128 ^ (4 + 1) := by
    norm_num
    omega
  rw [readTag, if_neg hne, Varint.decode_encode hpow]
  simp [hpos]

theorem readBytes_encode {b : Bytes} (hlt : b.length < 2 ^ 31) (rest : Bytes) (e : Bool) :
    readBytes ⟨Varint.encode 5 b.length ++ (b ++ rest), e⟩ = some (b, ⟨rest, false⟩) := by
  have hpow : b.length < 128 ^ (4 + 1) := by
    norm_num
    omega
  rw [readBytes, Varint.decode_encode hpow]
  simp

theorem readVarint_encode {n : Nat} (hlt : n < 2 ^ 64) (rest : Bytes) (e : Bool) :
    readVarint ⟨Varint.encode 10 n ++ rest, e⟩ = some (n, ⟨rest, false⟩) := by
  have hpow : n < 128 ^ (9 + 1) := by
    norm_num
    omega
  rw [readVarint, Varint.decode_encode hpow]
  rfl

theorem length_encode_tag {number : Nat} (hle : number ≤ 15) {wireType : Nat} (hw : wireType < 8) :
    (Varint.encode 5 (8 * number + wireType)).length = 1 := by
  rw [Varint.encode, if_neg (by omega)]
  rfl

theorem ofNat_signExtend (v : BitVec 32) :
    BitVec.ofNat 32 (v.signExtend 64).toNat = v := by
  rw [BitVec.ofNat_toNat]
  ext i hi
  rw [BitVec.getElem_setWidth, BitVec.getLsbD_signExtend]
  simp [hi]
  omega

theorem writeBytes_append (tag : Nat) (b rest : Bytes) :
    writeBytes tag b ++ rest =
      Varint.encode 5 tag ++ (Varint.encode 5 b.length ++ (b ++ rest)) := by
  rw [writeBytes, List.append_assoc, List.append_assoc]

theorem length_writeBytes (tag : Nat) (b : Bytes) : b.length ≤ (writeBytes tag b).length := by
  rw [writeBytes, List.length_append, List.length_append]
  omega

theorem skipField_varint {number n : Nat} {v : BitVec 64} {i i' : Input} (pos : 0 < number)
    (lt : number < 2 ^ 29) (hread : readVarint i = some (n, i')) (hv : .ofNat 64 n = v) :
    skipField (8 * number) i = some (⟨number, .varint v, pos, lt⟩, i') := by
  have hnumber : 8 * number / 8 = number := by omega
  have hform : 8 * number % 8 = 0 := by omega
  simp [skipField, hnumber, hform, pos, hread, hv]
  exact lt

theorem skipField_bytes {number : Nat} {b : Bytes} {i i' : Input} (pos : 0 < number)
    (lt : number < 2 ^ 29) (hread : readBytes i = some (b, i')) :
    skipField (8 * number + 2) i = some (⟨number, .bytes b, pos, lt⟩, i') := by
  have hnumber : (8 * number + 2) / 8 = number := by omega
  have hform : (8 * number + 2) % 8 = 2 := by omega
  simp [skipField, hnumber, hform, pos, hread]
  exact lt

/-- The unknown field that has been written is skipped and kept. -/
theorem readTag_writeUnknown (u : UnknownField) (rest : Bytes) (e : Bool)
    (hlen : (writeUnknown u ++ rest).length < 2 ^ 31) :
    ∃ small i, readTag ⟨writeUnknown u ++ rest, e⟩ = ((unknownTag u, small), i) ∧
      skipField (unknownTag u) i = some (u, ⟨rest, false⟩) := by
  obtain ⟨number, payload, pos, lt⟩ := u
  cases payload with
  | varint v =>
    have htag := @readTag_encode (8 * number) (by omega) (by omega)
      (Varint.encode 10 v.toNat ++ rest) e
    rw [← List.append_assoc] at htag
    exact ⟨_, _, htag, skipField_varint pos lt (readVarint_encode v.isLt rest false) (by simp)⟩
  | bytes b =>
    change (writeBytes (8 * number + 2) b ++ rest).length < 2 ^ 31 at hlen
    have hb : b.length < 2 ^ 31 := by
      have hle := length_writeBytes (8 * number + 2) b
      rw [List.length_append] at hlen
      omega
    have htag := @readTag_encode (8 * number + 2) (by omega) (by omega)
      (Varint.encode 5 b.length ++ (b ++ rest)) e
    rw [← writeBytes_append] at htag
    exact ⟨_, _, htag, skipField_bytes pos lt (readBytes_encode hb rest false)⟩

/-! ## What is read is shorter -/

theorem cutoff_readTag (i : Input) :
    if (readTag i).1.2 then (readTag i).1.1 ≤ 127
    else (readTag i).1.1 = 0 ∨ 127 < (readTag i).1.1 := by
  rw [readTag]
  split
  · simp
  · cases Varint.decode 5 i.bytes with
    | none => simp
    | some p =>
      by_cases hp : p.1 ≠ 0 ∧ p.1 ≤ 127
      · simp [hp]
      · simp only [hp, decide_false, Bool.false_eq_true, if_false]
        omega

theorem length_readTag (i : Input) (h : (readTag i).1.1 ≠ 0) :
    (readTag i).2.bytes.length < i.bytes.length := by
  rw [readTag] at h ⊢
  split at h
  · exact absurd rfl h
  · rename_i hne
    rw [if_neg hne]
    cases hd : Varint.decode 5 i.bytes with
    | none => simp [hd] at h
    | some p => exact Varint.decode_length hd

theorem length_readBytes {i i' : Input} {v : Bytes} (h : readBytes i = some (v, i')) :
    i'.bytes.length ≤ i.bytes.length := by
  obtain ⟨p, hp, h⟩ := Option.bind_eq_some_iff.mp h
  have hlt := Varint.decode_length hp
  split at h
  · obtain ⟨-, rfl⟩ := Prod.mk.inj (Option.some.inj h)
    have hdrop : (p.2.drop p.1).length ≤ p.2.length := by simp
    exact Nat.le_of_lt (Nat.lt_of_le_of_lt hdrop hlt)
  · exact absurd h (by simp)

theorem length_readVarint {i i' : Input} {n : Nat} (h : readVarint i = some (n, i')) :
    i'.bytes.length ≤ i.bytes.length := by
  obtain ⟨p, hp, h⟩ := Option.map_eq_some_iff.mp h
  obtain ⟨-, rfl⟩ := Prod.mk.inj h
  exact Nat.le_of_lt (Varint.decode_length hp)

theorem length_skipField {tag : Nat} {i i' : Input} {u : UnknownField}
    (h : skipField tag i = some (u, i')) :
    unknownTag u = tag ∧ i'.bytes.length ≤ i.bytes.length := by
  rw [skipField] at h
  split at h
  · split at h
    · rename_i hform
      obtain ⟨p, hp, h⟩ := Option.map_eq_some_iff.mp h
      obtain ⟨rfl, rfl⟩ := Prod.mk.inj h
      refine ⟨?_, length_readVarint hp⟩
      simp only [unknownTag, Payload.wireType]
      omega
    · split at h
      · rename_i hform
        obtain ⟨p, hp, h⟩ := Option.map_eq_some_iff.mp h
        obtain ⟨rfl, rfl⟩ := Prod.mk.inj h
        refine ⟨?_, length_readBytes hp⟩
        simp only [unknownTag, Payload.wireType]
        omega
      · exact absurd h (by simp)
  · exact absurd h (by simp)

/-! ## The laws -/

theorem runtime_lawful (verifyUtf8 : Bytes → Bool) : (runtime verifyUtf8).Lawful where
  atEnd _ := rfl
  cutoff := cutoff_readTag
  tag_length := length_readTag
  read_length t i v i' h := by
    cases t with
    | string =>
      obtain ⟨p, hp, h⟩ := Option.bind_eq_some_iff.mp h
      split at h
      · obtain rfl := Option.some.inj h
        exact length_readBytes hp
      · exact absurd h (by simp)
    | int32 =>
      obtain ⟨p, hp, h⟩ := Option.map_eq_some_iff.mp h
      obtain ⟨-, rfl⟩ := Prod.mk.inj h
      exact length_readVarint hp
  skip_length _ _ _ _ := length_skipField
  string number v rest e h1 h15 hlen := by
    change (writeBytes (8 * number + 2) v ++ rest).length < 2 ^ 31 at hlen
    have hv : v.length < 2 ^ 31 := by
      have hle := length_writeBytes (8 * number + 2) v
      rw [List.length_append] at hlen
      omega
    have htag := @readTag_encode (8 * number + 2) (by omega) (by omega)
      (Varint.encode 5 v.length ++ (v ++ rest)) e
    rw [← writeBytes_append, decide_eq_true (by omega)] at htag
    exact ⟨_, htag, readBytes_encode hv rest false⟩
  int32 number v rest e h1 h15 hlen := by
    have htag := @readTag_encode (8 * number) (by omega) (by omega)
      (Varint.encode 10 (v.signExtend 64).toNat ++ rest) e
    rw [← List.append_assoc, decide_eq_true (by omega)] at htag
    refine ⟨_, htag, ?_⟩
    change (readVarint _).map _ = _
    rw [readVarint_encode (v.signExtend 64).isLt, Option.map_some, ofNat_signExtend]
  unknown := readTag_writeUnknown
  unknown_tag u := by
    have hpos := u.pos
    change 8 * u.number + u.payload.wireType ≠ 0
    omega
  string_size number v h1 h15 := by
    change (writeBytes (8 * number + 2) v).length = 1 + (_ + v.length)
    rw [writeBytes, List.length_append, List.length_append, length_encode_tag h15 (by decide)]
  int32_size number v h1 h15 := by
    change (writeVarint (8 * number + 0) (v.signExtend 64).toNat).length = 1 + _
    rw [writeVarint, List.length_append, length_encode_tag h15 (by decide)]
    rfl
  unknown_size _ := rfl

end Streams
end Wire
