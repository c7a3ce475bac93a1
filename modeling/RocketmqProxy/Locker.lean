import RocketmqProxy.Lib.TreeMap
import RocketmqProxy.Message

/-!
# The record of one batch

`ConsumerUnitLocker` holds what the proxy knows about one batch that the SDK
handed to a listener callback: the messages not yet fetched by a client, and for
each message whether it is settled and with which status.  The operations are
those of `MsgWorker.cpp`.  The mutex and the condition variable have no part in
what the operations compute and are left out here.
-/

namespace RocketmqProxy

open Std

structure ConsumerUnitLocker where
  clientStatusMap : TreeMap Addr ClientMsgConsumeStatus
  statusMap : TreeMap Addr ConsumeStatus
  idMsgMap : TreeMap String (TreeMap Addr Int)
  fetchedArr : List MsgPtr
  reconsumeMap : TreeMap String Int
  status : ConsumeStatus
  clientStatus : ClientMsgConsumeStatus

namespace ConsumerUnitLocker

/-- The members before the loop of the constructor runs. -/
def empty : ConsumerUnitLocker where
  clientStatusMap := ∅
  statusMap := ∅
  idMsgMap := ∅
  fetchedArr := []
  reconsumeMap := ∅
  status := .reconsumeLater
  clientStatus := .msgFetchFromBroker

/-- One turn of the constructor's loop: the copy of `msg` is allocated at
`addr`. -/
def push (group : String) (l : ConsumerUnitLocker) (p : Addr × MQMessageExt) :
    ConsumerUnitLocker :=
  let (addr, msg) := p
  { l with
    clientStatusMap := l.clientStatusMap.insertIfNew addr .msgFetchFromBroker
    statusMap := l.statusMap.insertIfNew addr .reconsumeLater
    idMsgMap :=
      match l.idMsgMap[msg.msgId]? with
      | none => l.idMsgMap.insertIfNew msg.msgId ((∅ : TreeMap Addr Int).insertIfNew addr 1)
      | some msgQueueTmp => l.idMsgMap.insert msg.msgId (msgQueueTmp.insertIfNew addr 1)
    fetchedArr := l.fetchedArr ++ [⟨addr, MsgUnit.ofMsg msg group⟩] }

/-- The constructor `ConsumerUnitLocker(msgs, group)`.  Each message comes with
the address its copy is allocated at. -/
def new (msgs : List (Addr × MQMessageExt)) (group : String) : ConsumerUnitLocker :=
  msgs.foldl (push group) empty

/-- `getMsg`: the unit popped from the fetch queue, or `none` for `false`. -/
def getMsg (l : ConsumerUnitLocker) : Option (MsgPtr × ConsumerUnitLocker) :=
  match l.fetchedArr with
  | [] => none
  | unit :: rest => some (unit, { l with fetchedArr := rest })

/-- One turn of the loop of `setMsgStatus`, on the message at `p.1`. -/
def setOne (msgId : String) (s : ConsumeStatus) (cs : ClientMsgConsumeStatus)
    (l : ConsumerUnitLocker) (p : Addr × Int) : ConsumerUnitLocker :=
  { l with
    statusMap := l.statusMap.insert p.1 s
    clientStatusMap := l.clientStatusMap.insert p.1 cs
    reconsumeMap :=
      if s = .reconsumeLater then l.reconsumeMap.insert msgId 1 else l.reconsumeMap }

/-- `setMsgStatus`: whether a message of that id was found, and the record
afterwards. -/
def setMsgStatus (l : ConsumerUnitLocker) (msgId : String) (s : ConsumeStatus)
    (cs : ClientMsgConsumeStatus) : Bool × ConsumerUnitLocker :=
  match l.idMsgMap[msgId]? with
  | none => (false, l)
  | some idMap =>
    (!idMap.toList.isEmpty, idMap.toList.foldl (setOne msgId s cs) l)

/-- The loop of `triggerCheck` over `clientStatusMap`, from the accumulators `s`
and `cs`.  It leaves at the first message that is not settled. -/
def scan (statusMap : TreeMap Addr ConsumeStatus) :
    List (Addr × ClientMsgConsumeStatus) → ConsumeStatus → ClientMsgConsumeStatus →
      ConsumeStatus × ClientMsgConsumeStatus
  | [], s, cs => (s, cs)
  | p :: rest, s, _ =>
    if p.2 ≠ .msgConsumeAck then (s, p.2)
    else
      -- `statusMap[key]` reads zero, which is CONSUME_SUCCESS, at an absent key
      scan statusMap rest
        (if statusMap.getD p.1 .consumeSuccess = .reconsumeLater then .reconsumeLater else s) p.2

/-- `triggerCheck`: release the batch once every message is settled. -/
def triggerCheck (forced : Bool) (l : ConsumerUnitLocker) : ConsumerUnitLocker :=
  if !forced && !l.fetchedArr.isEmpty then l
  else
    let r := scan l.statusMap l.clientStatusMap.toList .consumeSuccess .msgConsumeAck
    if r.2 = .msgConsumeAck then { l with status := r.1, clientStatus := r.2 } else l

/-- What `ConsumerUnit::setMsgAck` does to one registered batch. -/
def ack (l : ConsumerUnitLocker) (msgId : String) (s : ConsumeStatus) : ConsumerUnitLocker :=
  (l.setMsgStatus msgId s .msgConsumeAck).2.triggerCheck false

/-- One turn of the inner loop of `unlockAll`. -/
def unlockOne (l : ConsumerUnitLocker) (p : Addr × ClientMsgConsumeStatus) :
    ConsumerUnitLocker :=
  if p.2 ≠ .msgConsumeAck then
    { l with
      clientStatusMap := l.clientStatusMap.insert p.1 .msgConsumeAck
      statusMap := l.statusMap.insert p.1 .reconsumeLater }
  else l

/-- What `ConsumerUnit::unlockAll` does to one registered batch. -/
def unlock (l : ConsumerUnitLocker) : ConsumerUnitLocker :=
  (l.clientStatusMap.toList.foldl unlockOne l).triggerCheck true

/-- What the listener callback built in `getConsumer` returns, and the
`statusVector` it fills, once the batch has been taken out of `lockers`. -/
def verdict (l : ConsumerUnitLocker) (msgs : List MQMessageExt) :
    ConsumeStatus × List ConsumeStatus :=
  (l.status,
    if l.status = .reconsumeLater then
      msgs.map fun msg =>
        if l.reconsumeMap.contains msg.msgId then .reconsumeLater else .consumeSuccess
    else [])

end ConsumerUnitLocker

end RocketmqProxy
