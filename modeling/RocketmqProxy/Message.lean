import Mathlib

/-!
# Messages and statuses

The values the proxy exchanges with the SDK (`MQMessageExt`, `ConsumeStatus`),
the statuses it keeps for itself, and `MsgUnit`, its own copy of a pulled
message.
-/

namespace RocketmqProxy

/-- Address of a heap object.  `std::map<shared_ptr<T>, …>` orders its entries by
it, and which address an object gets is the allocator's choice. -/
abbrev Addr := Nat

/-- `ConsumeStatus` of the SDK.  `ConsumeAck` casts an `int32` of the request to
this enumeration without a check, so values outside the two enumerators occur. -/
inductive ConsumeStatus
  | consumeSuccess
  | reconsumeLater
  | other (value : Int)
deriving DecidableEq, Repr

/-- `(ConsumeStatus) request_.status()`. -/
def ConsumeStatus.ofInt (n : Int) : ConsumeStatus :=
  if n = 0 then .consumeSuccess
  else if n = 1 then .reconsumeLater
  else .other n

inductive ClientMsgConsumeStatus
  | msgFetchFromBroker
  | msgConsumeAck
deriving DecidableEq, Repr

inductive MsgWorkerConsumeStatus
  | proxyConsumeInit
  | clientReceive
  | consumeAck
deriving DecidableEq, Repr

/-- The fields of the SDK's message that the proxy reads. -/
structure MQMessageExt where
  msgId : String
  topic : String
  body : String
  delayTimeLevel : Int
deriving DecidableEq, Repr

/-- The proxy's copy of a pulled message.  It is never written after the
constructor of `ConsumerUnitLocker` has filled it in. -/
structure MsgUnit where
  type : Int
  msgId : String
  topic : String
  group : String
  body : String
  delayLevel : Int
deriving DecidableEq, Repr

/-- The copy that the constructor of `ConsumerUnitLocker` makes of `msg`. -/
def MsgUnit.ofMsg (msg : MQMessageExt) (group : String) : MsgUnit :=
  { type := 1, msgId := msg.msgId, topic := msg.topic, group := group,
    body := msg.body, delayLevel := msg.delayTimeLevel }

/-- `shared_ptr<MsgUnit>`: where the unit lives and what it holds. -/
structure MsgPtr where
  addr : Addr
  unit : MsgUnit
deriving DecidableEq, Repr

end RocketmqProxy
