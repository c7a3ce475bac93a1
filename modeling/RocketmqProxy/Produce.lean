import RocketmqProxy.Request

/-!
# Produce calls

The call object of the Produce service.  Beside its members it keeps the sends it has
made and how they have ended, which nothing in the code reads.
-/

namespace RocketmqProxy

structure ProduceRequest where
  topic : String
  group : String
  tag : String
  body : String
  delayLevel : Int
deriving DecidableEq, Repr

structure ProduceReply where
  code : Int
  msgId : String
  errMsg : String
deriving DecidableEq, Repr

/-- The fields of the SDK's message that the proxy sets. -/
structure MQMessage where
  topic : String
  tags : String
  body : String
  delayTimeLevel : Int
deriving DecidableEq, Repr

abbrev ProducerRef := Nat

/-- A call of `producer.send`.  Without a producer it goes through the null pointer that
`getProducer` returns when `start()` has thrown. -/
structure Send where
  producer : Option ProducerRef
  msg : MQMessage
deriving DecidableEq, Repr

/-- How a call of `producer.send` ends, with the `what()` of the exception. -/
inductive SendEnd
  | threw (what : String)
  | onSuccess (msgId : String)
  | onException (what : String)
deriving DecidableEq, Repr

structure ProduceCallData where
  request : ProduceRequest
  reply : ProduceReply
  status : CallStatus
  retryCount : Nat
  /-- The reply of each call of `responder_.Finish`, in order. -/
  finished : List ProduceReply
  deleted : Bool
  sends : List Send
  ends : List SendEnd
deriving DecidableEq, Repr

/-- `ROCKETMQ_PROXY_PRODUCE_MAX_RETRY_COUNT`. -/
def produceMaxRetryCount : Nat := 5

namespace ProduceRequest

/-- Whether `process` goes on past its check of the fields. -/
def Complete (request : ProduceRequest) : Prop :=
  request.topic ≠ "" ∧ request.group ≠ "" ∧ request.tag ≠ "" ∧ request.body ≠ ""

instance (request : ProduceRequest) : Decidable request.Complete :=
  inferInstanceAs (Decidable (_ ∧ _ ∧ _ ∧ _))

/-- The message that `produce` builds.  `process` calls it without its last argument,
whose default is 0. -/
def msg (request : ProduceRequest) : MQMessage :=
  { topic := request.topic, tags := request.tag, body := request.body, delayTimeLevel := 0 }

end ProduceRequest

namespace ProduceCallData

/-- The call object when its request has come. -/
def new (request : ProduceRequest) : ProduceCallData :=
  { request := request, reply := { code := 0, msgId := "", errMsg := "" }, status := .process,
    retryCount := 0, finished := [], deleted := false, sends := [], ends := [] }

/-- `responder_.Finish` with this reply. -/
def finish (call : ProduceCallData) (reply : ProduceReply) : ProduceCallData :=
  { call with reply := reply, status := .finish, finished := call.finished ++ [reply] }

/-- The end of `process` when a field is empty, of `failureFunc` when the retries are used
up, and of the handler of an exception. -/
def fail (call : ProduceCallData) (errMsg : String) : ProduceCallData :=
  call.finish { call.reply with code := responseError, errMsg := errMsg }

/-- `successFunc`, but for the entry in the log. -/
def succeed (call : ProduceCallData) (msgId : String) : ProduceCallData :=
  call.finish { call.reply with code := responseSuccess, msgId := msgId }

def send (call : ProduceCallData) (s : Send) : ProduceCallData :=
  { call with sends := call.sends ++ [s] }

/-- `retryCount++`. -/
def retry (call : ProduceCallData) : ProduceCallData :=
  { call with retryCount := call.retryCount + 1 }

def endSend (call : ProduceCallData) (e : SendEnd) : ProduceCallData :=
  { call with ends := call.ends ++ [e] }

/-- A send has been made that has not ended. -/
def Outstanding (call : ProduceCallData) : Prop := call.ends.length < call.sends.length

instance (call : ProduceCallData) : Decidable call.Outstanding :=
  inferInstanceAs (Decidable (_ < _))

def del (call : ProduceCallData) : ProduceCallData :=
  { call with status := .finish, deleted := true }

/-- The entry that `successFunc` writes. -/
def logUnit (call : ProduceCallData) (msgId : String) : LogUnit :=
  { type := proxyLoggerTypeProduce, msgId := msgId, topic := call.request.topic,
    group := call.request.group, body := call.request.body,
    delayLevel := call.request.delayLevel, status := 0 }

end ProduceCallData
end RocketmqProxy
