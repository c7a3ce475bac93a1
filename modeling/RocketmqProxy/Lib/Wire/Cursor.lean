import RocketmqProxy.Lib.Wire.Memory
import RocketmqProxy.Lib.Wire.Pointer
import RocketmqProxy.Lib.Wire.Streams

/-!
# Arrays of bytes

The pointers that the second parser and the second writer of messages rest on, for the format
of the streams of bytes.
-/

namespace Wire
namespace Streams

structure Cursor where
  rest : Bytes
  lastTagMinus1 : BitVec 32
deriving DecidableEq, Repr

def Cursor.move (s : Cursor) (i : Input) : Cursor := { s with rest := i.bytes }

def context (verifyUtf8 : Bytes → Bool) : Context UnknownField Cursor where
  start b := ⟨b, 0⟩
  done s := some (s.rest = [], s)
  readTag s := (Varint.decode 5 s.rest).map fun p => (p.1, { s with rest := p.2 })
  readStringUtf8 s := (readBytes ⟨s.rest, false⟩).bind fun p =>
    if verifyUtf8 p.1 then some (p.1, s.move p.2) else none
  readVarint s := (readVarint ⟨s.rest, false⟩).map fun p => (.ofNat 64 p.1, s.move p.2)
  unknownField tag s := (skipField tag ⟨s.rest, false⟩).map fun p => (p.1, s.move p.2)
  setLastTag tag s := { s with lastTagMinus1 := .ofNat 32 tag - 1 }
  endedAtLimit s := s.lastTagMinus1 = 0

/-- What is left, of a text that no tag has ended. -/
def Cursor.At (s : Cursor) (x : Option Bytes) : Prop := x = some s.rest ∧ s.lastTagMinus1 = 0

def arrayWriter : ArrayWriter UnknownField where
  writeString number v p := p.put (writeBytes (8 * number + 2) v)
  writeInt32 number v p := p.put (writeVarint (8 * number) (v.signExtend 64).toNat)
  writeUnknown us p := us.foldl (fun p u => p.put (writeUnknown u)) p

theorem arrayWriter_lawful (verifyUtf8 : Bytes → Bool) :
    arrayWriter.Lawful (runtime verifyUtf8) where
  string _ _ _ := rfl
  int32 _ _ _ := rfl
  unknown us p := by
    change us.foldl (fun p u => p.put (writeUnknown u)) p = p.put (us.flatMap writeUnknown)
    induction us generalizing p with
    | nil => exact p.put_nil.symm
    | cons u us ih => rw [List.foldl_cons, ih, List.flatMap_cons, Place.put_put]

/-- A reader of the streams that does not look whether their end has been found. -/
theorem refines_of_input {α : Type} {slow : Input → Option (α × Input)}
    {fast : Cursor → Option (α × Cursor)}
    (hinput : ∀ i, slow i = slow ⟨i.bytes, false⟩)
    (hfast : ∀ s, fast s = (slow ⟨s.rest, false⟩).map fun p => (p.1, s.move p.2)) :
    Refines Cursor.At fast slow := by
  intro s x v s' hs hv
  rw [hfast] at hv
  obtain ⟨⟨v', i'⟩, hslow, he⟩ := Option.map_eq_some_iff.mp hv
  obtain ⟨rfl, rfl⟩ := Prod.mk.inj he
  refine ⟨some i'.bytes, ⟨rfl, hs.2⟩, fun b' hb' => ⟨s.rest, hs.1, fun i hi => ⟨i', ?_, ?_⟩⟩⟩
  · rw [hinput, hi, hslow]
  · exact Option.some.inj hb'

theorem nonzero_readTag (i : Input) :
    nonzero ((readTag i).1.1, (readTag i).2) =
      ((Varint.decode 5 i.bytes).map fun p => (p.1, (⟨p.2, false⟩ : Input))).bind nonzero := by
  obtain ⟨bytes, ended⟩ := i
  rw [readTag]
  cases bytes with
  | nil => rfl
  | cons b rest =>
    rw [if_neg (List.cons_ne_nil b rest)]
    cases Varint.decode 5 (b :: rest) <;> rfl

theorem decode_of_readTag {bytes : Bytes} {e small : Bool} {tag : Nat} {i : Input}
    (h : readTag ⟨bytes, e⟩ = ((tag, small), i)) (h0 : tag ≠ 0) :
    ∃ rest, Varint.decode 5 bytes = some (tag, rest) ∧ i = ⟨rest, false⟩ := by
  have hread := nonzero_readTag ⟨bytes, e⟩
  rw [h, nonzero, if_neg h0] at hread
  obtain ⟨p, hp, he⟩ := Option.bind_eq_some_iff.mp hread.symm
  obtain ⟨⟨tag', rest⟩, hdecode, rfl⟩ := Option.map_eq_some_iff.mp hp
  rw [nonzero] at he
  split at he
  · exact absurd he (by simp)
  · obtain ⟨rfl, rfl⟩ := Prod.mk.inj (Option.some.inj he)
    exact ⟨rest, hdecode, rfl⟩

theorem context_readTag (verifyUtf8 : Bytes → Bool) {s : Cursor} {tag : Nat} {b : Bytes}
    (htag : tag < 2 ^ 32) (hs : s.rest = Varint.encode 5 tag ++ b) :
    (context verifyUtf8).readTag s = some (tag, { s with rest := b }) := by
  have hpow : tag < 128 ^ (4 + 1) := by
    norm_num
    omega
  change (Varint.decode 5 s.rest).map _ = _
  rw [hs, Varint.decode_encode hpow]
  rfl

theorem context_lawful (verifyUtf8 : Bytes → Bool) :
    (context verifyUtf8).Lawful (runtime verifyUtf8) Cursor.At where
  start _ := ⟨rfl, rfl⟩
  done_end s hs := by
    obtain ⟨hrest, hlast⟩ := hs
    exact ⟨s, by simp [context, Option.some.inj hrest.symm], decide_eq_true hlast⟩
  done_more s b hs hb := by
    obtain rfl := Option.some.inj hs.1
    exact ⟨s, by simp [context, hb], hs⟩
  done_over s hs := absurd hs.1 (by simp)
  lastTag tag s ht := by
    refine decide_eq_false fun he => ?_
    have hone : tag % 2 ^ 32 = 1 := by
      have := congrArg BitVec.toNat (sub_eq_zero.mp he)
      simpa using this
    omega
  tag := by
    refine refines_of_input (fun i => ?_) fun s => ?_
    · exact (nonzero_readTag i).trans (nonzero_readTag ⟨i.bytes, false⟩).symm
    · refine Eq.trans ?_ (congrArg _ (nonzero_readTag ⟨s.rest, false⟩).symm)
      change ((Varint.decode 5 s.rest).map _).bind nonzero = _
      cases Varint.decode 5 s.rest with
      | none => rfl
      | some p => by_cases h0 : p.1 = 0 <;> simp [nonzero, h0, Cursor.move]
  read t := by
    cases t with
    | string =>
      refine refines_of_input (fun i => rfl) fun s => ?_
      change (readBytes _).bind _ = ((readBytes _).bind _).map _
      cases readBytes ⟨s.rest, false⟩ with
      | none => rfl
      | some p =>
        change (if verifyUtf8 p.1 then _ else _) = Option.map _ (if verifyUtf8 p.1 then _ else _)
        split <;> rfl
    | int32 =>
      refine refines_of_input (fun i => rfl) fun s => ?_
      change ((readVarint _).map _).map _ = ((readVarint _).map _).map _
      cases readVarint ⟨s.rest, false⟩ with
      | none => rfl
      | some p => simp [BitVec.setWidth_ofNat_of_le]
  skip tag _ _ := refines_of_input (fun i => rfl) fun s => rfl
  string s number v b h1 h15 hlen hs := by
    change (writeBytes (8 * number + 2) v ++ b).length + 16 < 2 ^ 31 at hlen
    have hrest : writeBytes (8 * number + 2) v ++ b = s.rest := Option.some.inj hs.1
    rw [writeBytes_append] at hrest
    have hv : v.length < 2 ^ 31 := by
      have hle := length_writeBytes (8 * number + 2) v
      rw [List.length_append] at hlen
      omega
    refine ⟨_, context_readTag verifyUtf8 (by omega) hrest.symm, ?_⟩
    have hread {t : Cursor} (ht : t.rest = Varint.encode 5 v.length ++ (v ++ b)) :
        (context verifyUtf8).readStringUtf8 t =
          if verifyUtf8 v then some (v, { t with rest := b }) else none := by
      change (readBytes ⟨t.rest, false⟩).bind _ = _
      rw [ht, readBytes_encode hv]
      rfl
    change if verifyUtf8 v then _ else _
    rw [hread rfl]
    split
    · exact ⟨_, rfl, rfl, hs.2⟩
    · rfl
  int32 s number v b h1 h15 hlen hs := by
    have hrest : writeVarint (8 * number) (v.signExtend 64).toNat ++ b = s.rest :=
      Option.some.inj hs.1
    rw [writeVarint, List.append_assoc] at hrest
    refine ⟨_, { s with rest := b }, context_readTag verifyUtf8 (by omega) hrest.symm, ?_, rfl,
      hs.2⟩
    change (readVarint _).map _ = _
    rw [readVarint_encode (v.signExtend 64).isLt, Option.map_some]
    simp [Cursor.move]
  unknown s u b hlen hs := by
    change (writeUnknown u ++ b).length + 16 < 2 ^ 31 at hlen
    have hrest : writeUnknown u ++ b = s.rest := Option.some.inj hs.1
    obtain ⟨small, i, htag, hskip⟩ := readTag_writeUnknown u b false (by omega)
    have htag0 : unknownTag u ≠ 0 := by
      have hpos := u.pos
      rw [unknownTag]
      omega
    obtain ⟨rest, hdecode, rfl⟩ := decode_of_readTag htag htag0
    refine ⟨{ s with rest := rest }, { s with rest := b }, ?_, ?_, rfl, hs.2⟩
    · change (Varint.decode 5 s.rest).map _ = _
      rw [← hrest, hdecode]
      rfl
    · change (skipField (unknownTag u) ⟨rest, false⟩).map _ = _
      rw [hskip]
      rfl
  unknown_form u := by
    change (8 * u.number + u.payload.wireType) % 8 ≠ 4
    cases u.payload with
    | varint v => simp [Payload.wireType]
    | bytes b => simp [Payload.wireType]

end Streams
end Wire
