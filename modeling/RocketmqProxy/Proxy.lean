import RocketmqProxy.ConsumerUnit.History
import RocketmqProxy.Request

/-!
# The proxy

One record for the members of `MsgWorker`, the objects they point to and the place
each thread has reached.  `step` is one atomic action of one thread: the gRPC thread
of `HandleRpcs`, the matcher, a callback thread of the SDK, the shutdown thread or
the clear thread.  An action ends before the next access to `consumers`,
`idUnitMap`, `clearConsumerKey` or the batches of a consumer, so these accesses
interleave freely.  What a thread does with an object no other thread is using is
part of the action before it; so is the whole body of one matcher iteration once
`getConsumer` has returned.
-/

namespace RocketmqProxy

open Std

/-- How far a call of `getConsumer` has come.  `done none` is the null pointer it
returns when `start()` has thrown. -/
inductive GetConsumer
  | lookup
  /-- The registry had no entry, and `consumerUnit` is new. -/
  | start (consumerUnit : ConsumerRef)
  | insert (consumerUnit : ConsumerRef)
  | done (consumer : Option ConsumerRef)
deriving DecidableEq, Repr

/-- `loopMatch`. -/
inductive MatcherPc
  | pop
  | getConsumer (unit : UnitRef) (call : GetConsumer)
deriving DecidableEq, Repr

/-- `HandleRpcs`, and what it calls. -/
inductive GrpcPc
  | next
  /-- `ConsumeAckCallData::process`, up to `setMsgAck`. -/
  | ack (call : CallRef) (get : GetConsumer)
  | ackLookup (call : CallRef)
  /-- What `idUnitMap.try_get` found is about to be marked. -/
  | ackStore (call : CallRef) (unit : Option UnitRef)
  /-- `ConsumeCallData::cancel`, up to `setMsgReconsume`. -/
  | cancel (call : CallRef) (get : GetConsumer)
  | cancelErase (call : CallRef)
deriving DecidableEq, Repr

/-- `shutdownConsumer`; `i` is its loop counter and `key` is `keys[i]`. -/
inductive ShutdownPc
  | sweep
  | examine (i : Nat)
  /-- `unit` has been found too inactive. -/
  | select (i : Nat) (key : String) (unit : ConsumerRef)
  /-- `clearConsumerKey` names `key`, and `shutdown()` of `unit` is running. -/
  | shutdown (i : Nat) (key : String) (unit : ConsumerRef)
  | erase (i : Nat) (key : String)
deriving DecidableEq, Repr

/-- `clearMsgForConsumer`. -/
inductive ClearPc
  | idle
  /-- `clearConsumerKey` was not empty. -/
  | lookup
  | unlock (consumer : ConsumerRef)
  | reset
deriving DecidableEq, Repr

/-- What an action shows of itself. -/
inductive Obs
  /-- An operation on the batches of `consumer`. -/
  | unit (consumer : ConsumerRef) (o : UnitObs)
  /-- `resetConsumerActive(topic, group)` wrote to `consumer`. -/
  | reset (topic group : String) (consumer : ConsumerRef)
deriving DecidableEq, Repr

structure Proxy where
  consumers : TreeMap String ConsumerRef
  msgPool : TreeMap String (List MsgUnit)
  clearConsumerKey : String
  consumeMsgPool : List UnitRef
  idUnitMap : TreeMap String UnitRef
  /-- What has been pushed to the queue of the logger. -/
  logQueue : List LogUnit
  /-- The heap: objects in the order of their creation. -/
  consumerUnits : List ConsumerUnit
  consumeMsgUnits : List ConsumeMsgUnit
  consumeCalls : List ConsumeCallData
  ackCalls : List ConsumeAckCallData
  matcher : MatcherPc
  grpc : GrpcPc
  /-- The vector of `shutdownConsumer`. -/
  keys : List String
  shutdown : ShutdownPc
  clear : ClearPc
  /-- What has happened so far.  No action reads it. -/
  trace : List Obs

inductive Event
  /-- A Consume request arrives. -/
  | consume (topic group : String) (now : Int)
  /-- The reply of a Consume call completes, with the `ok` of the completion queue. -/
  | consumeDone (call : CallRef) (ok : Bool)
  /-- A ConsumeAck request arrives. -/
  | consumeAck (topic group msgId : String) (status now : Int)
  | ackDone (call : CallRef) (ok : Bool)
  /-- The gRPC thread goes on with what it is handling; `started` says whether a
  `start()` of the SDK returns. -/
  | grpc (now : Int) (started : Bool)
  /-- The matcher goes on; it may read the clock twice. -/
  | matcher (now now' : Int) (started : Bool)
  /-- The SDK calls the listener of `consumer` with the batch `msgs`, whose locker
  and messages are allocated at the given addresses. -/
  | callback (consumer : ConsumerRef) (locker : Addr) (msgs : List (Addr × MQMessageExt))
  | callbackReturn (consumer : ConsumerRef) (locker : Addr)
  | shutdown (now : Int)
  | clear
deriving DecidableEq, Repr

namespace Proxy

/-- `new MsgWorker()`, with every thread at the start of its loop. -/
def init : Proxy where
  consumers := ∅
  msgPool := ∅
  clearConsumerKey := ""
  consumeMsgPool := []
  idUnitMap := ∅
  logQueue := []
  consumerUnits := []
  consumeMsgUnits := []
  consumeCalls := []
  ackCalls := []
  matcher := .pop
  grpc := .next
  keys := []
  shutdown := .sweep
  clear := .idle
  trace := []

/-! ## Methods of `MsgWorker` -/

/-- One step of `getConsumer`, and how far the call has come after it. -/
def getConsumer (s : Proxy) (topic group : String) (now : Int) (started : Bool) :
    GetConsumer → Proxy × GetConsumer
  | .lookup =>
    match s.consumers[topic ++ group]? with
    | some unit => (s, .done (some unit))
    | none =>
      ({ s with consumerUnits := s.consumerUnits ++ [.new topic group now] },
        .start s.consumerUnits.length)
  | .start consumerUnit =>
    -- `initMsgQueue` runs before `start()`
    let msgPool := s.msgPool.insertIfNew (topic ++ group) []
    if started then
      ({ s with
          msgPool := msgPool
          consumerUnits := s.consumerUnits.modify consumerUnit (ConsumerUnit.setState .started) },
        .insert consumerUnit)
    else ({ s with msgPool := msgPool }, .done none)
  | .insert consumerUnit =>
    ({ s with consumers := s.consumers.insertIfNew (topic ++ group) consumerUnit },
      .done (some consumerUnit))
  | .done consumer => (s, .done consumer)

def resetConsumerActive (s : Proxy) (topic group : String) (now : Int) : Proxy :=
  { s with
    consumerUnits :=
      match s.consumers[topic ++ group]? with
      | some unit => s.consumerUnits.modify unit (ConsumerUnit.setLastActiveAt now)
      | none => s.consumerUnits
    trace := s.trace ++ (s.consumers[topic ++ group]?.map (.reset topic group)).toList }

def writeLog (s : Proxy) (log : LogUnit) : Proxy :=
  { s with logQueue := s.logQueue ++ [log] }

/-- An operation on the batches of a consumer leaves it as `unit`. -/
def onConsumer (s : Proxy) (consumer : ConsumerRef) (unit : ConsumerUnit) (o : UnitObs) :
    Proxy :=
  { s with
    consumerUnits := s.consumerUnits.set consumer unit
    trace := s.trace ++ [.unit consumer o] }

/-! ## The matcher -/

/-- The `func` of `loopMatch`, called with `msg` for `unit`.  The fetch has left the
consumer as `consumer'`. -/
def deliver (s : Proxy) (u : UnitRef) (unit : ConsumeMsgUnit) (consumer : ConsumerRef)
    (consumer' : ConsumerUnit) (a : Addr) (msg : MsgPtr) (call : ConsumeCallData)
    (now : Int) : Proxy :=
  let s := s.onConsumer consumer consumer' (.fetched u a msg)
  let s := { s with
    consumeMsgUnits := s.consumeMsgUnits.set u
      { unit with msgId := msg.unit.msgId, status := .clientReceive }
    idUnitMap := s.idUnitMap.insert msg.unit.msgId u
    consumeCalls := s.consumeCalls.set unit.callData
      (call.responseMsg responseSuccess "" msg.unit.msgId msg.unit.body) }
  (s.resetConsumerActive unit.topic unit.group now).writeLog
    { type := proxyLoggerTypeConsume, msgId := msg.unit.msgId, topic := msg.unit.topic,
      group := msg.unit.group, body := msg.unit.body, delayLevel := msg.unit.delayLevel,
      status := 0 }

/-- `tmp` holds at most the unit just handled, and empties at once into the pool. -/
def pushBack (s : Proxy) (u : UnitRef) : Proxy :=
  { s with consumeMsgPool := s.consumeMsgPool ++ [u], matcher := .pop }

def fetchTimeout (s : Proxy) (unit : ConsumeMsgUnit) (call : ConsumeCallData) (now : Int) :
    Proxy :=
  { s.resetConsumerActive unit.topic unit.group now with
    consumeCalls := s.consumeCalls.set unit.callData call.responseTimeOut
    matcher := .pop }

/-- The body of the inner loop for the unit `u`, once `getConsumer` has returned
`consumer`.  Two of its branches dereference the pointer. -/
def matchUnit (s : Proxy) (u : UnitRef) (consumer : Option ConsumerRef) (now now' : Int) :
    Option Proxy := do
  let unit ← s.consumeMsgUnits[u]?
  match unit.status with
  | .proxyConsumeInit =>
    let consumer ← consumer
    let consumerUnit ← s.consumerUnits[consumer]?
    let call ← s.consumeCalls[unit.callData]?
    match consumerUnit.fetchAndConsume with
    | (some (a, msg), consumer') =>
      -- the unit is no longer in PROXY_CONSUME_INIT, so the fetch timer is not looked at
      some ((s.deliver u unit consumer consumer' a msg call now).pushBack u)
    | (none, _) =>
      if unit.getIsFetchMsgTimeout now then some (s.fetchTimeout unit call now')
      else some (s.pushBack u)
  | .clientReceive =>
    if unit.getIsAckTimeout now then
      let consumer ← consumer
      let consumerUnit ← s.consumerUnits[consumer]?
      let (ret, consumer') := consumerUnit.setMsgReconsume unit.msgId
      some { s.onConsumer consumer consumer'
          (.acked (.ackTimeout u) unit.msgId .reconsumeLater ret) with matcher := .pop }
    else some (s.pushBack u)
  | .consumeAck => some { s with matcher := .pop }

def matcherStep (s : Proxy) (now now' : Int) (started : Bool) : Option Proxy :=
  match s.matcher with
  | .pop =>
    match s.consumeMsgPool with
    | [] => none
    | u :: rest =>
      some { s with consumeMsgPool := rest, matcher := .getConsumer u .lookup }
  | .getConsumer u (.done consumer) => s.matchUnit u consumer now now'
  | .getConsumer u call => do
    let unit ← s.consumeMsgUnits[u]?
    let r := s.getConsumer unit.topic unit.group now started call
    some { r.1 with matcher := .getConsumer u r.2 }

/-! ## The gRPC thread -/

/-- `ConsumeCallData::process`. -/
def consumeProcess (s : Proxy) (topic group : String) (now : Int) : Proxy :=
  { s with
    consumeCalls := s.consumeCalls ++ [.new topic group]
    consumeMsgUnits := s.consumeMsgUnits ++ [.new s.consumeCalls.length topic group now]
    consumeMsgPool := s.consumeMsgPool ++ [s.consumeMsgUnits.length] }

/-- `ConsumeAckCallData::process`, up to `getConsumer`. -/
def ackProcess (s : Proxy) (topic group msgId : String) (status now : Int) : Proxy :=
  { s.resetConsumerActive topic group now with
    ackCalls := s.ackCalls ++ [.new topic group msgId status]
    grpc := .ack s.ackCalls.length .lookup }

/-- The `setMsgAck` of `ConsumeAckCallData::process`, and the reply if it fails. -/
def ackSet (s : Proxy) (k : CallRef) (call : ConsumeAckCallData) (consumer : ConsumerRef)
    (consumerUnit : ConsumerUnit) : Proxy :=
  let status := ConsumeStatus.ofInt call.requestStatus
  let r := consumerUnit.setMsgAck call.msgId status
  let s := s.onConsumer consumer r.2 (.acked (.consumeAck k) call.msgId status r.1)
  if r.1 then { s with grpc := .ackLookup k }
  else { s with ackCalls := s.ackCalls.set k call.reject, grpc := .next }

/-- `unit->status = CONSUME_ACK`, if the index had an entry, and the reply. -/
def ackStore (s : Proxy) (k : CallRef) (call : ConsumeAckCallData) (unit : Option UnitRef) :
    Proxy :=
  { s.writeLog { type := proxyLoggerTypeConsumeAcl, msgId := call.msgId, topic := call.topic,
                 group := call.group, body := "", delayLevel := 0,
                 status := call.requestStatus } with
    consumeMsgUnits :=
      match unit with
      | some u => s.consumeMsgUnits.modify u fun unit => { unit with status := .consumeAck }
      | none => s.consumeMsgUnits
    ackCalls := s.ackCalls.set k call.accept
    grpc := .next }

@[simp] theorem ackProcess_grpc (s : Proxy) (topic group msgId : String) (status now : Int) :
    (s.ackProcess topic group msgId status now).grpc = .ack s.ackCalls.length .lookup := rfl

@[simp] theorem ackStore_grpc (s : Proxy) (k : CallRef) (call : ConsumeAckCallData)
    (unit : Option UnitRef) : (s.ackStore k call unit).grpc = .next := rfl

def grpcStep (s : Proxy) (now : Int) (started : Bool) : Option Proxy :=
  match s.grpc with
  | .next => none
  | .ack k (.done (some consumer)) => do
    let call ← s.ackCalls[k]?
    let consumerUnit ← s.consumerUnits[consumer]?
    some (s.ackSet k call consumer consumerUnit)
  | .ack _ (.done none) => none
  | .ack k get => do
    let call ← s.ackCalls[k]?
    let r := s.getConsumer call.topic call.group now started get
    some { r.1 with grpc := .ack k r.2 }
  | .ackLookup k => do
    let call ← s.ackCalls[k]?
    some { s with grpc := .ackStore k s.idUnitMap[call.msgId]? }
  | .ackStore k unit => do
    let call ← s.ackCalls[k]?
    some (s.ackStore k call unit)
  | .cancel k (.done (some consumer)) => do
    let call ← s.consumeCalls[k]?
    let consumerUnit ← s.consumerUnits[consumer]?
    let (ret, consumer') := consumerUnit.setMsgReconsume call.msgId
    some { s.onConsumer consumer consumer'
        (.acked (.cancel k) call.msgId .reconsumeLater ret) with grpc := .cancelErase k }
  | .cancel _ (.done none) => none
  | .cancel k get => do
    let call ← s.consumeCalls[k]?
    let r := s.getConsumer call.topic call.group now started get
    some { r.1 with grpc := .cancel k r.2 }
  | .cancelErase k => do
    let call ← s.consumeCalls[k]?
    some { s with
      idUnitMap := s.idUnitMap.erase call.msgId
      consumeCalls := s.consumeCalls.set k call.del
      grpc := .next }

/-- The completion of a reply: `del`, or `cancel` when it failed. -/
def consumeDone (s : Proxy) (k : CallRef) (ok : Bool) : Option Proxy := do
  let call ← s.consumeCalls[k]?
  if call.finished = [] ∨ call.deleted then none
  else if ok ∨ call.msgId = "" then some { s with consumeCalls := s.consumeCalls.set k call.del }
  else some { s with grpc := .cancel k .lookup }

/-- `ConsumeAckCallData::del`, which `cancel` calls as well. -/
def ackDone (s : Proxy) (k : CallRef) : Option Proxy := do
  let call ← s.ackCalls[k]?
  if call.finished = [] ∨ call.deleted then none
  else some { s with
    idUnitMap := s.idUnitMap.erase call.msgId
    ackCalls := s.ackCalls.set k call.del }

/-! ## The callback threads of the SDK -/

/-- The SDK calls listeners from `start()` on, and until `shutdown()` has returned. -/
def callback (s : Proxy) (consumer : ConsumerRef) (a : Addr)
    (msgs : List (Addr × MQMessageExt)) : Option Proxy := do
  let unit ← s.consumerUnits[consumer]?
  if (unit.consumer.state = .started ∨ unit.consumer.state = .shutdown) ∧
      a ∉ unit.lockers ∧ (msgs.map Prod.fst).Nodup then
    some (s.onConsumer consumer (unit.callbackBegin a msgs) (.registered a msgs))
  else none

def callbackReturn (s : Proxy) (consumer : ConsumerRef) (a : Addr) : Option Proxy := do
  let unit ← s.consumerUnits[consumer]?
  let (st, vec, unit') ← unit.callbackEnd a
  some (s.onConsumer consumer unit' (.reported a st vec))

/-! ## The shutdown and the clear thread -/

def shutdownStep (s : Proxy) (now : Int) : Option Proxy :=
  match s.shutdown with
  -- `getAllKeys` calls `keys.empty()`, which removes nothing
  | .sweep => some { s with keys := s.keys ++ s.consumers.keys, shutdown := .examine 0 }
  | .examine i =>
    match s.keys[i]? with
    | none => some { s with shutdown := .sweep }
    | some key =>
      match s.consumers[key]? with
      | none => some { s with shutdown := .examine (i + 1) }
      | some unit => do
        let consumerUnit ← s.consumerUnits[unit]?
        if consumerUnit.getIsTooInactive now then
          some { s with shutdown := .select i key unit }
        else some { s with shutdown := .examine (i + 1) }
  | .select i key unit =>
    some { s with
      clearConsumerKey := key
      consumerUnits := s.consumerUnits.modify unit (ConsumerUnit.setState .shutdown)
      shutdown := .shutdown i key unit }
  | .shutdown i key unit => do
    let consumerUnit ← s.consumerUnits[unit]?
    -- `shutdown()` returns once no listener callback is running
    if consumerUnit.callbacks.isEmpty then
      some { s with
        consumerUnits := s.consumerUnits.modify unit (ConsumerUnit.setState .stopped)
        shutdown := .erase i key }
    else none
  | .erase i key =>
    some { s with consumers := s.consumers.erase key, shutdown := .examine (i + 1) }

def clearStep (s : Proxy) : Option Proxy :=
  match s.clear with
  | .idle => if s.clearConsumerKey = "" then none else some { s with clear := .lookup }
  | .lookup =>
    -- `try_get` reads `clearConsumerKey` again, not the copy that was compared
    match s.consumers[s.clearConsumerKey]? with
    | some consumer => some { s with clear := .unlock consumer }
    | none => some { s with clear := .idle }
  | .unlock consumer => do
    let unit ← s.consumerUnits[consumer]?
    some { s.onConsumer consumer unit.unlockAll .unlocked with clear := .reset }
  | .reset => some { s with clearConsumerKey := "", clear := .idle }

def step (s : Proxy) : Event → Option Proxy
  | .consume topic group now =>
    if s.grpc = .next then some (s.consumeProcess topic group now) else none
  | .consumeDone k ok => if s.grpc = .next then s.consumeDone k ok else none
  | .consumeAck topic group msgId status now =>
    if s.grpc = .next then some (s.ackProcess topic group msgId status now) else none
  | .ackDone k _ => if s.grpc = .next then s.ackDone k else none
  | .grpc now started => s.grpcStep now started
  | .matcher now now' started => s.matcherStep now now' started
  | .callback consumer a msgs => s.callback consumer a msgs
  | .callbackReturn consumer a => s.callbackReturn consumer a
  | .shutdown now => s.shutdownStep now
  | .clear => s.clearStep

end Proxy
end RocketmqProxy
