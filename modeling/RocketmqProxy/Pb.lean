import RocketmqProxy.Lib.Wire.Parse
import RocketmqProxy.Lib.Wire.Streams

/-!
# The messages of the service

The six messages of `Proxy.proto` and what the generated code does with them.  Strings are
bytes here, and `U` is an unknown field as the library keeps it.
-/

namespace RocketmqProxy
namespace Pb

open Wire

variable {U : Type}

/-! ## The messages -/

structure ProduceRequest (U : Type) where
  topic : Bytes
  group : Bytes
  tag : Bytes
  body : Bytes
  delayLevel : BitVec 32
  unknown : List U
deriving DecidableEq, Repr

def ProduceRequest.descriptor : Descriptor (ProduceRequest U) U where
  fields := [
    ⟨1, .string, (·.topic), fun v m => { m with topic := v }⟩,
    ⟨2, .string, (·.group), fun v m => { m with group := v }⟩,
    ⟨3, .string, (·.tag), fun v m => { m with tag := v }⟩,
    ⟨4, .string, (·.body), fun v m => { m with body := v }⟩,
    ⟨5, .int32, (·.delayLevel), fun v m => { m with delayLevel := v }⟩]
  fresh := ⟨[], [], [], [], 0, []⟩
  unknown := (·.unknown)
  setUnknown us m := { m with unknown := us }

structure ProduceReply (U : Type) where
  code : BitVec 32
  msgId : Bytes
  errMsg : Bytes
  unknown : List U
deriving DecidableEq, Repr

def ProduceReply.descriptor : Descriptor (ProduceReply U) U where
  fields := [
    ⟨1, .int32, (·.code), fun v m => { m with code := v }⟩,
    ⟨2, .string, (·.msgId), fun v m => { m with msgId := v }⟩,
    ⟨3, .string, (·.errMsg), fun v m => { m with errMsg := v }⟩]
  fresh := ⟨0, [], [], []⟩
  unknown := (·.unknown)
  setUnknown us m := { m with unknown := us }

structure ConsumeRequest (U : Type) where
  topic : Bytes
  consumerGroup : Bytes
  unknown : List U
deriving DecidableEq, Repr

def ConsumeRequest.descriptor : Descriptor (ConsumeRequest U) U where
  fields := [
    ⟨1, .string, (·.topic), fun v m => { m with topic := v }⟩,
    ⟨2, .string, (·.consumerGroup), fun v m => { m with consumerGroup := v }⟩]
  fresh := ⟨[], [], []⟩
  unknown := (·.unknown)
  setUnknown us m := { m with unknown := us }

structure ConsumeReply (U : Type) where
  code : BitVec 32
  msgId : Bytes
  body : Bytes
  errorMsg : Bytes
  unknown : List U
deriving DecidableEq, Repr

def ConsumeReply.descriptor : Descriptor (ConsumeReply U) U where
  fields := [
    ⟨1, .int32, (·.code), fun v m => { m with code := v }⟩,
    ⟨2, .string, (·.msgId), fun v m => { m with msgId := v }⟩,
    ⟨3, .string, (·.body), fun v m => { m with body := v }⟩,
    ⟨4, .string, (·.errorMsg), fun v m => { m with errorMsg := v }⟩]
  fresh := ⟨0, [], [], [], []⟩
  unknown := (·.unknown)
  setUnknown us m := { m with unknown := us }

structure ConsumeAckRequest (U : Type) where
  topic : Bytes
  msgId : Bytes
  consumerGroup : Bytes
  status : BitVec 32
  unknown : List U
deriving DecidableEq, Repr

def ConsumeAckRequest.descriptor : Descriptor (ConsumeAckRequest U) U where
  fields := [
    ⟨1, .string, (·.topic), fun v m => { m with topic := v }⟩,
    ⟨2, .string, (·.msgId), fun v m => { m with msgId := v }⟩,
    ⟨3, .string, (·.consumerGroup), fun v m => { m with consumerGroup := v }⟩,
    ⟨4, .int32, (·.status), fun v m => { m with status := v }⟩]
  fresh := ⟨[], [], [], 0, []⟩
  unknown := (·.unknown)
  setUnknown us m := { m with unknown := us }

structure ConsumeAckReply (U : Type) where
  code : BitVec 32
  msgId : Bytes
  errorMsg : Bytes
  unknown : List U
deriving DecidableEq, Repr

/-- The number 3 is not in use. -/
def ConsumeAckReply.descriptor : Descriptor (ConsumeAckReply U) U where
  fields := [
    ⟨1, .int32, (·.code), fun v m => { m with code := v }⟩,
    ⟨2, .string, (·.msgId), fun v m => { m with msgId := v }⟩,
    ⟨4, .string, (·.errorMsg), fun v m => { m with errorMsg := v }⟩]
  fresh := ⟨0, [], [], []⟩
  unknown := (·.unknown)
  setUnknown us m := { m with unknown := us }

inductive MessageType
  | produceRequest
  | produceReply
  | consumeRequest
  | consumeReply
  | consumeAckRequest
  | consumeAckReply
deriving DecidableEq, Repr

namespace MessageType

abbrev Message (U : Type) : MessageType → Type
  | .produceRequest => ProduceRequest U
  | .produceReply => ProduceReply U
  | .consumeRequest => ConsumeRequest U
  | .consumeReply => ConsumeReply U
  | .consumeAckRequest => ConsumeAckRequest U
  | .consumeAckReply => ConsumeAckReply U

def descriptor : (t : MessageType) → Descriptor (t.Message U) U
  | .produceRequest => ProduceRequest.descriptor
  | .produceReply => ProduceReply.descriptor
  | .consumeRequest => ConsumeRequest.descriptor
  | .consumeReply => ConsumeReply.descriptor
  | .consumeAckRequest => ConsumeAckRequest.descriptor
  | .consumeAckReply => ConsumeAckReply.descriptor

end MessageType

/-! ## The generated functions -/

section Functions

variable (r : Runtime U) (t : MessageType)

/-- The branch without the experimental parser. -/
def mergePartialFromCodedStream (turns : Nat) (m : t.Message U) (input : Input) :
    Outcome (t.Message U × Input) :=
  t.descriptor.mergePartial r turns m input

/-- The library's reading of a whole text with the function above. -/
def parseFromString (data : Bytes) : Outcome (t.Message U) := t.descriptor.parse r data

def serializeWithCachedSizes (m : t.Message U) : Bytes := t.descriptor.serialize r m

def byteSizeLong (m : t.Message U) : Nat := t.descriptor.byteSize r m

def mergeFrom (m source : t.Message U) : t.Message U := t.descriptor.mergeFrom m source

def clear (_ : t.Message U) : t.Message U := t.descriptor.fresh

def copyFrom (m source : t.Message U) : t.Message U := mergeFrom t (clear t m) source

def stringsOk (m : t.Message U) : Prop := t.descriptor.StringsOk r m

instance (m : t.Message U) : Decidable (stringsOk r t m) :=
  inferInstanceAs (Decidable (t.descriptor.StringsOk r m))

def unknownOk (m : t.Message U) : Prop := t.descriptor.UnknownOk r m

end Functions

variable {r : Runtime U} {t : MessageType}

theorem MessageType.lawful (t : MessageType) :
    (t.descriptor : Descriptor (t.Message U) U).Lawful := by
  cases t <;> simp only [descriptor, ProduceRequest.descriptor, ProduceReply.descriptor,
    ConsumeRequest.descriptor, ConsumeReply.descriptor, ConsumeAckRequest.descriptor,
    ConsumeAckReply.descriptor]
  all_goals
    constructor
    case number => simp
    case nodup => simp
    case get_set => simp
    case get_set_ne => simp
    case unknown_set => simp
    case get_setUnknown => simp
    case unknown_setUnknown => exact fun _ _ => rfl
    case get_fresh => simp [Field.IsDefault, FieldType.default]
    case unknown_fresh => rfl
    case ext =>
      intro m m'
      cases m
      cases m'
      simp +contextual

end Pb
end RocketmqProxy
