import RocketmqProxy.Pb

/-!
# Messages on the wire

What the generated writer makes of a message, the generated parser turns back into it; two
texts one after the other are the merge of their messages; and the parser ends on every text,
and what it accepts is well formed.
-/

namespace RocketmqProxy
namespace Pb

open Wire

variable {U : Type} {r : Runtime U} {t : MessageType}

/-- The messages a program can come by. -/
inductive Built (r : Runtime U) (t : MessageType) : t.Message U → Prop
  | default : Built r t t.descriptor.fresh
  | set {m : t.Message U} {f : Wire.Field (t.Message U)} (hf : f ∈ t.descriptor.fields)
      (v : f.type.Val) : Built r t m → Built r t (f.set v m)
  | mergePartial {m m' : t.Message U} {turns : Nat} {input input' : Input} :
      mergePartialFromCodedStream r t turns m input = .accepted (m', input') →
        Built r t m → Built r t m'
  | mergeFrom {m source : t.Message U} :
      Built r t m → Built r t source → Built r t (mergeFrom t m source)

theorem copyFrom_eq (m source : t.Message U) : copyFrom t m source = source :=
  Descriptor.mergeFrom_fresh t.lawful

/-- No unknown field hides one that the parser would have taken. -/
theorem Built.unknownOk (hr : r.Lawful) {m : t.Message U} (hm : Built r t m) :
    unknownOk r t m := by
  induction hm with
  | default => exact Descriptor.unknownOk_fresh t.lawful
  | set hf v _ ih => exact Descriptor.UnknownOk.set t.lawful ih hf v
  | mergePartial h _ ih => exact Descriptor.mergePartial_unknownOk hr t.lawful h ih
  | mergeFrom _ _ ihm ihs => exact Descriptor.UnknownOk.mergeFrom t.lawful ihm ihs

theorem Built.mergeFields {m b : t.Message U} {fs : List (Wire.Field (t.Message U))}
    (hfs : ∀ f ∈ fs, f ∈ t.descriptor.fields) (hb : Built r t b) :
    Built r t (fs.foldl (Descriptor.mergeField m) b) := by
  induction fs generalizing b with
  | nil => exact hb
  | cons f fs ih =>
    rw [List.foldl_cons]
    refine ih (fun g hg => hfs g (List.mem_cons_of_mem f hg)) ?_
    rw [Descriptor.mergeField]
    split
    · exact hb
    · exact .set (hfs f List.mem_cons_self) _ hb

/-- Without unknown fields, its members are enough to build a message. -/
theorem Built.of_unknown_eq_nil {m : t.Message U} (h : t.descriptor.unknown m = []) :
    Built r t m := by
  rw [← Descriptor.mergeFrom_fresh (m := m) t.lawful, Descriptor.mergeFrom_eq t.lawful, h,
    Descriptor.addUnknown_nil t.lawful]
  exact .mergeFields (fun _ hf => hf) .default

theorem length_serializeWithCachedSizes (hr : r.Lawful) (m : t.Message U) :
    (serializeWithCachedSizes r t m).length = byteSizeLong r t m :=
  (Descriptor.byteSize_eq hr t.lawful).symm

theorem parseFromString_serializeWithCachedSizes (hr : r.Lawful) {m : t.Message U}
    (hm : Built r t m) (hsize : byteSizeLong r t m < 2 ^ 31) :
    parseFromString r t (serializeWithCachedSizes r t m) =
      if stringsOk r t m then .accepted m else .refused :=
  Descriptor.parse_serialize hr t.lawful (hm.unknownOk hr)
    ((length_serializeWithCachedSizes hr m).trans_lt hsize)

/-- A message is written in as many bytes as were counted, and they are read back as the
message exactly if its strings are valid. -/
theorem message_round_trip (hr : r.Lawful) {m : t.Message U} (hm : Built r t m)
    (hsize : byteSizeLong r t m < 2 ^ 31) :
    (serializeWithCachedSizes r t m).length = byteSizeLong r t m ∧
      parseFromString r t (serializeWithCachedSizes r t m) =
        if stringsOk r t m then .accepted m else .refused :=
  ⟨length_serializeWithCachedSizes hr m, parseFromString_serializeWithCachedSizes hr hm hsize⟩

theorem message_round_trip_reply :
    let r := Streams.runtime Streams.validUtf8
    let m : ConsumeReply Streams.UnknownField := ⟨.ofInt 32 (-1), [], [], [0xc3, 0xa9], []⟩
    (serializeWithCachedSizes r .consumeReply m).length = 15 ∧
      parseFromString r .consumeReply (serializeWithCachedSizes r .consumeReply m) =
        .accepted m := by
  intro r m
  have hm : Built r .consumeReply m := .of_unknown_eq_nil rfl
  have h := message_round_trip (Streams.runtime_lawful _) hm (by decide)
  exact ⟨h.1.trans (by decide), h.2.trans (if_pos (by decide))⟩

/-- One text after the other is read as the second message merged into the first. -/
theorem appended_texts_merge (hr : r.Lawful) {m source : t.Message U} (hm : Built r t m)
    (hs : Built r t source) (hsize : byteSizeLong r t m + byteSizeLong r t source < 2 ^ 31) :
    parseFromString r t
        (serializeWithCachedSizes r t m ++ serializeWithCachedSizes r t source) =
      if stringsOk r t m ∧ stringsOk r t source then .accepted (mergeFrom t m source)
      else .refused := by
  refine Descriptor.parse_append hr t.lawful (hm.unknownOk hr) (hs.unknownOk hr) ?_
  rw [List.length_append]
  have hlen := length_serializeWithCachedSizes hr m
  have hlen' := length_serializeWithCachedSizes hr source
  rw [serializeWithCachedSizes] at hlen hlen'
  omega

theorem appended_texts_merge_request :
    let r := Streams.runtime Streams.validUtf8
    let m : ConsumeRequest Streams.UnknownField := ⟨[0x61], [0x62], []⟩
    let source : ConsumeRequest Streams.UnknownField := ⟨[0x63], [], []⟩
    parseFromString r .consumeRequest (serializeWithCachedSizes r .consumeRequest m ++
      serializeWithCachedSizes r .consumeRequest source) = .accepted ⟨[0x63], [0x62], []⟩ := by
  intro r m source
  have hm : Built r .consumeRequest m := .of_unknown_eq_nil rfl
  have hs : Built r .consumeRequest source := .of_unknown_eq_nil rfl
  have h := appended_texts_merge (Streams.runtime_lawful _) hm hs (by decide)
  exact h.trans (by decide)

/-- The parser ends within a turn for each byte and one more, and turns beyond them make no
difference.  What it accepts has valid strings and no unknown field that it would have taken,
and, below 2 GiB, stays the same when it is written and read once more. -/
theorem accepted_is_well_formed (hr : r.Lawful) (data : Bytes) :
    (∀ m input, input.bytes = data →
      mergePartialFromCodedStream r t (data.length + 1) m input ≠ .outOfTurns ∧
        ∀ turns, data.length < turns → mergePartialFromCodedStream r t turns m input =
          mergePartialFromCodedStream r t (data.length + 1) m input) ∧
    parseFromString r t data ≠ .outOfTurns ∧
    ∀ m, parseFromString r t data = .accepted m →
      stringsOk r t m ∧ unknownOk r t m ∧
        (byteSizeLong r t m < 2 ^ 31 →
          parseFromString r t (serializeWithCachedSizes r t m) = .accepted m) := by
  refine ⟨fun m input hdata => ?_, Descriptor.parse_ends hr t.lawful data, fun m hparse => ?_⟩
  · have hlen : input.bytes.length < data.length + 1 := hdata ▸ Nat.lt_succ_self _
    have hends := Descriptor.mergePartial_ends hr t.lawful hlen m
    exact ⟨hends, fun turns hturns => Descriptor.mergePartial_mono hends hturns⟩
  · have hok := (Descriptor.parse_ok hr t.lawful hparse).1
    have hm : Built r t m := by
      obtain ⟨⟨m', input⟩, hloop, hend⟩ := Outcome.bind_eq_accepted hparse
      split at hend
      · obtain rfl := Outcome.accepted.inj hend
        exact .mergePartial hloop .default
      · exact absurd hend (by simp)
    exact ⟨hok, hm.unknownOk hr, fun hsize =>
      (parseFromString_serializeWithCachedSizes hr hm hsize).trans (if_pos hok)⟩

theorem accepted_is_well_formed_request :
    let r := Streams.runtime Streams.validUtf8
    let data : Bytes := [0x48, 0x01, 0x0a, 0x01, 0x61, 0x0a, 0x01, 0x63]
    let m : ConsumeRequest Streams.UnknownField :=
      ⟨[0x63], [], [⟨9, .varint 1, by decide, by decide⟩]⟩
    parseFromString r .consumeRequest (data ++ [0x0a]) ≠ .outOfTurns ∧
      parseFromString r .consumeRequest data = .accepted m ∧
      stringsOk r .consumeRequest m ∧ unknownOk r .consumeRequest m ∧
      parseFromString r .consumeRequest (serializeWithCachedSizes r .consumeRequest m) =
        .accepted m := by
  intro r data m
  have hparse : parseFromString r .consumeRequest data = .accepted m := by decide
  have hr := Streams.runtime_lawful Streams.validUtf8
  have hends := (accepted_is_well_formed (t := .consumeRequest) hr (data ++ [0x0a])).2.1
  have h := (accepted_is_well_formed (t := .consumeRequest) hr data).2.2 m hparse
  exact ⟨hends, hparse, h.1, h.2.1, h.2.2 (by decide)⟩

end Pb
end RocketmqProxy
