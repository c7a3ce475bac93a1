import RocketmqProxy.Lib.Wire.Cursor
import RocketmqProxy.Pb.RoundTrip

/-!
# Messages in arrays

The generated code has a second parser, which a build may choose, and a second writer, for
texts that are in one array.  The parser accepts nothing that the first one does not, and reads
what is written; the writer fills just the bytes that were counted, with the same text.
-/

namespace RocketmqProxy
namespace Pb

open Wire

variable {U S : Type}

/-! ## The generated functions -/

section Functions

variable (c : Context U S) (w : ArrayWriter U) (t : MessageType)

/-- The branch with the experimental parser. -/
def internalParse (turns : Nat) (m : t.Message U) (s : S) : Outcome (t.Message U × S) :=
  t.descriptor.internalParse c turns m s

/-- The library's reading of a whole text with the function above. -/
def parseFromArray (data : Bytes) : Outcome (t.Message U) := t.descriptor.parseArray c data

def internalSerializeWithCachedSizesToArray (m : t.Message U) (target : Place) : Place :=
  t.descriptor.serializeToArray w m target

end Functions

variable {r : Runtime U} {c : Context U S} {w : ArrayWriter U} {t : MessageType}
  {At : S → Option Bytes → Prop}

theorem parseFromArray_serializeWithCachedSizes (hr : r.Lawful) (hc : c.Lawful r At)
    {m : t.Message U} (hm : Built r t m) (hsize : byteSizeLong r t m + 16 < 2 ^ 31) :
    parseFromArray c t (serializeWithCachedSizes r t m) =
      if stringsOk r t m then .accepted m else .refused := by
  have hlen := length_serializeWithCachedSizes hr m
  exact Descriptor.parseArray_serialize hr t.lawful hc (hm.unknownOk hr) (hlen ▸ hsize)

/-- The second parser ends within a turn for each byte and one more, accepts only what the first
one accepts and as the same message, and reads back a written message exactly if its strings are
valid. -/
theorem internalParse_agrees (hr : r.Lawful) (hc : c.Lawful r At) (data : Bytes) :
    (∀ m, internalParse c t (data.length + 1) m (c.start data) ≠ .outOfTurns ∧
      ∀ turns, data.length < turns → internalParse c t turns m (c.start data) =
        internalParse c t (data.length + 1) m (c.start data)) ∧
    parseFromArray c t data ≠ .outOfTurns ∧
    (∀ m, parseFromArray c t data = .accepted m → parseFromString r t data = .accepted m) ∧
    ∀ m, Built r t m → byteSizeLong r t m + 16 < 2 ^ 31 →
      data = serializeWithCachedSizes r t m →
        parseFromArray c t data = if stringsOk r t m then .accepted m else .refused := by
  refine ⟨fun m => ?_, Descriptor.parseArray_ends hr t.lawful hc data, fun m h => ?_,
    fun m hm hsize hdata => ?_⟩
  · have hends := Descriptor.internalParse_ends hr t.lawful hc (hc.start data)
      (n := data.length) (fun b hb => Option.some.inj hb ▸ Nat.lt_succ_self _) m
    exact ⟨hends, fun turns hturns => Descriptor.internalParse_mono hends hturns⟩
  · exact Descriptor.parseArray_sound hr t.lawful hc h
  · rw [hdata]
    exact parseFromArray_serializeWithCachedSizes hr hc hm hsize

theorem internalParse_agrees_request :
    let r := Streams.runtime Streams.validUtf8
    let data : Bytes := [0x48, 0x01, 0x0a, 0x01, 0x61, 0x0a, 0x01, 0x63]
    let m : ConsumeRequest Streams.UnknownField :=
      ⟨[0x63], [], [⟨9, .varint 1, by decide, by decide⟩]⟩
    parseFromArray (Streams.context Streams.validUtf8) .consumeRequest (data ++ [0x0a]) ≠
        .outOfTurns ∧
      parseFromString r .consumeRequest data = .accepted m := by
  intro r data m
  have hparse :
      parseFromArray (Streams.context Streams.validUtf8) .consumeRequest data = .accepted m := by
    decide
  have hr := Streams.runtime_lawful Streams.validUtf8
  have hc := Streams.context_lawful Streams.validUtf8
  have hends := (internalParse_agrees (t := .consumeRequest) hr hc (data ++ [0x0a])).2.1
  exact ⟨hends, (internalParse_agrees (t := .consumeRequest) hr hc data).2.2.1 m hparse⟩

/-- The second writer fills the bytes that were counted, with what the first one writes, and no
others, and the second parser reads the message back from there. -/
theorem array_round_trip (hr : r.Lawful) (hc : c.Lawful r At) (hw : w.Lawful r)
    (m : t.Message U) (p : Place) :
    let q := internalSerializeWithCachedSizesToArray w t m p
    let text := load q.mem p.target (byteSizeLong r t m)
    q.target = p.target + byteSizeLong r t m ∧
      (∀ a, a < p.target ∨ q.target ≤ a → q.mem a = p.mem a) ∧
      text = serializeWithCachedSizes r t m ∧
      (Built r t m → byteSizeLong r t m + 16 < 2 ^ 31 →
        parseFromArray c t text = if stringsOk r t m then .accepted m else .refused) := by
  intro q text
  have hq : q = p.put (serializeWithCachedSizes r t m) := Descriptor.serializeToArray_eq hw m p
  have hlen := length_serializeWithCachedSizes hr m
  have htext : text = serializeWithCachedSizes r t m := by
    show load q.mem p.target (byteSizeLong r t m) = _
    rw [hq, ← hlen, Place.load_put]
  refine ⟨?_, fun a ha => ?_, htext, fun hm hsize => ?_⟩
  · rw [hq, ← hlen]
    rfl
  · rw [hq] at ha ⊢
    exact p.put_frame _ ha
  · rw [htext]
    exact parseFromArray_serializeWithCachedSizes hr hc hm hsize

theorem array_round_trip_reply :
    let m : ConsumeReply Streams.UnknownField := ⟨.ofInt 32 (-1), [], [], [0xc3, 0xa9], []⟩
    let q := internalSerializeWithCachedSizesToArray Streams.arrayWriter .consumeReply m
      ⟨fun _ => 7, 100⟩
    q.target = 115 ∧ q.mem 99 = 7 ∧ q.mem 115 = 7 ∧
      parseFromArray (Streams.context Streams.validUtf8) .consumeReply (load q.mem 100 15) =
        .accepted m := by
  intro m q
  have hr := Streams.runtime_lawful Streams.validUtf8
  have hc := Streams.context_lawful Streams.validUtf8
  have hw := Streams.arrayWriter_lawful Streams.validUtf8
  have hm : Built (Streams.runtime Streams.validUtf8) .consumeReply m := .of_unknown_eq_nil rfl
  have hsize : byteSizeLong (Streams.runtime Streams.validUtf8) .consumeReply m = 15 := by decide
  obtain ⟨htarget, hframe, -, hparse⟩ :=
    array_round_trip (t := .consumeReply) hr hc hw m ⟨fun _ => 7, 100⟩
  rw [hsize] at htarget hparse
  refine ⟨htarget, hframe 99 (.inl (by decide)), hframe 115 (.inr (Nat.le_of_eq htarget)), ?_⟩
  exact (hparse hm (by decide)).trans (if_pos (by decide))

end Pb
end RocketmqProxy
