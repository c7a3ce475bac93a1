import RocketmqProxy.Produce
import RocketmqProxy.Proxy

/-!
# The server

`HandleRpcs` keeps one call object of each service waiting for a call.  The objects of
Consume and ConsumeAck go over to the proxy when their call comes; those of Produce are
kept here, with the producers and with the entries they write to the log.
-/

namespace RocketmqProxy

open Std

inductive RequestType
  | produce
  | consume
  | consumeAck
deriving DecidableEq, Repr

/-- A call object that has not got its call. -/
structure CallDataBase where
  type : RequestType
  status : CallStatus
  /-- How often it has been registered with gRPC as the tag of the next call. -/
  requests : Nat
deriving DecidableEq, Repr

namespace CallDataBase

/-- `create` of the three derived classes. -/
def create (call : CallDataBase) : CallDataBase :=
  { call with status := .process, requests := call.requests + 1 }

/-- `Proceed`, called by a constructor that sees `create` as its virtual function. -/
def proceed (create : CallDataBase → CallDataBase) (call : CallDataBase) : CallDataBase :=
  match call.status with
  | .create => create call
  -- no constructor finds another status
  | .process | .finish => call

/-- The two constructors of a call object.  In that of the base class `create` is the
empty function of that class. -/
def new (type : RequestType) : CallDataBase :=
  (proceed id { type := type, status := .create, requests := 0 }).proceed create

@[simp] theorem new_type (type : RequestType) : (new type).type = type := rfl

@[simp] theorem new_status (type : RequestType) : (new type).status = .process := rfl

@[simp] theorem new_requests (type : RequestType) : (new type).requests = 1 := rfl

end CallDataBase

/-- The SDK producer: the topic it is constructed with, and the group it is given.  The
connection settings are the same for every producer. -/
structure ProducerUnit where
  topic : String
  groupName : String
deriving DecidableEq, Repr

structure Server where
  proxy : Proxy
  /-- The call objects that wait for a call. -/
  listeners : List CallDataBase
  produceCalls : List ProduceCallData
  producers : TreeMap String ProducerRef
  producerUnits : List ProducerUnit
  /-- The entries of Produce calls that have been pushed to the queue of the logger. -/
  produceLog : List LogUnit

inductive ServerEvent
  /-- A call comes for the call object at `i`, of its type and with this request. -/
  | produce (i : Nat) (request : ProduceRequest) (started : Bool)
  | consume (i : Nat) (topic group : String) (now : Int)
  | consumeAck (i : Nat) (topic group msgId : String) (status now : Int)
  /-- The reply of a Produce call completes. -/
  | produceDone (call : CallRef) (ok : Bool)
  /-- The last send of a Produce call ends; `started` says whether a `start()` that is
  called on the way returns. -/
  | sendEnd (call : CallRef) (e : SendEnd) (started : Bool)
  /-- Anything else that happens in the proxy. -/
  | proxy (e : Event)
deriving DecidableEq, Repr

namespace Server

/-- The start of `HandleRpcs`. -/
def init : Server where
  proxy := .init
  listeners := [.new .produce, .new .consume, .new .consumeAck]
  produceCalls := []
  producers := ∅
  producerUnits := []
  produceLog := []

/-- gRPC has a call for the object at `i`, on which `Proceed` goes to `process`. -/
def Listens (s : Server) (i : Nat) (type : RequestType) : Prop :=
  ∃ call, s.listeners[i]? = some call ∧ call.type = type ∧ 0 < call.requests ∧
    call.status = .process

instance (s : Server) (i : Nat) (type : RequestType) : Decidable (s.Listens i type) :=
  decidable_of_iff (∃ call ∈ s.listeners[i]?, call.type = type ∧ 0 < call.requests ∧
    call.status = .process) Iff.rfl

/-- `new …CallData(service_, cq_)`. -/
def construct (s : Server) (type : RequestType) : Server :=
  { s with listeners := s.listeners ++ [CallDataBase.new type] }

/-- The object at `i` gets its call. -/
def takeCall (s : Server) (i : Nat) : Server :=
  { s with listeners := s.listeners.eraseIdx i }

/-- The object becomes the call of this request. -/
def addCall (s : Server) (request : ProduceRequest) : Server :=
  { s with produceCalls := s.produceCalls ++ [ProduceCallData.new request] }

def setCall (s : Server) (k : CallRef) (call : ProduceCallData) : Server :=
  { s with produceCalls := s.produceCalls.set k call }

def getProducer (s : Server) (topic group : String) (started : Bool) :
    Server × Option ProducerRef :=
  match s.producers[topic ++ group]? with
  | some p => (s, some p)
  | none =>
    if started then
      ({ s with
          producers := s.producers.insertIfNew (topic ++ group) s.producerUnits.length
          producerUnits := s.producerUnits ++ [{ topic := topic, groupName := group }] },
        some s.producerUnits.length)
    else (s, none)

/-- `produce`, and the send it makes. -/
def produce (s : Server) (request : ProduceRequest) (started : Bool) : Server × Send :=
  let r := s.getProducer request.topic request.group started
  (r.1, { producer := r.2, msg := request.msg })

/-- `ProduceCallData::process` for the call at `k`. -/
def process (s : Server) (k : CallRef) (call : ProduceCallData) (started : Bool) : Server :=
  let s := s.construct .produce
  if call.request.Complete then
    let r := s.produce call.request started
    r.1.setCall k (call.send r.2)
  else s.setCall k (call.fail "params error!")

/-- `successFunc`. -/
def success (s : Server) (k : CallRef) (call : ProduceCallData) (msgId : String) : Server :=
  { s.setCall k (call.succeed msgId) with
    produceLog := s.produceLog ++ [call.logUnit msgId] }

/-- `failureFunc`. -/
def failure (s : Server) (k : CallRef) (call : ProduceCallData) (msgResp : String)
    (started : Bool) : Server :=
  if call.retry.retryCount > produceMaxRetryCount then s.setCall k (call.retry.fail msgResp)
  else s.process k call.retry started

/-- What follows the end of the last send of the call at `k`. -/
def sendEnd (s : Server) (k : CallRef) (call : ProduceCallData) (started : Bool) :
    SendEnd → Server
  | .threw what => s.setCall k (call.fail what)
  | .onSuccess msgId => s.success k call msgId
  | .onException what => s.failure k call what started

/-- The events of the proxy that are not the arrival of a call. -/
def internal : Event → Bool
  | .consume _ _ _ | .consumeAck _ _ _ _ _ => false
  | _ => true

def step (s : Server) : ServerEvent → Option Server
  | .produce i request started =>
    if s.proxy.grpc = .next ∧ s.Listens i .produce then
      some (((s.takeCall i).addCall request).process s.produceCalls.length (.new request) started)
    else none
  | .consume i topic group now =>
    if s.Listens i .consume then
      (s.proxy.step (.consume topic group now)).map fun proxy =>
        { (s.takeCall i).construct .consume with proxy := proxy }
    else none
  | .consumeAck i topic group msgId status now =>
    if s.Listens i .consumeAck then
      (s.proxy.step (.consumeAck topic group msgId status now)).map fun proxy =>
        { (s.takeCall i).construct .consumeAck with proxy := proxy }
    else none
  | .produceDone k _ => do
    let call ← s.produceCalls[k]?
    -- `cancel` deletes the call object as well
    if s.proxy.grpc = .next ∧ call.finished ≠ [] ∧ call.deleted = false then
      some (s.setCall k call.del)
    else none
  | .sendEnd k e started => do
    let call ← s.produceCalls[k]?
    let send ← call.sends.getLast?
    if call.Outstanding ∧ send.producer.isSome then
      some (s.sendEnd k (call.endSend e) started e)
    else none
  | .proxy e =>
    if internal e then (s.proxy.step e).map fun proxy => { s with proxy := proxy } else none

end Server
end RocketmqProxy
