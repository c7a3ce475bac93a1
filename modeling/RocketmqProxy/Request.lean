import RocketmqProxy.ConsumerUnit

/-!
# Requests

The call objects of the Consume and the ConsumeAck service, the unit that stands for
a Consume request in the matcher's pool, and the entries of the log.
-/

namespace RocketmqProxy

/-- `CallStatus`.  A call object is past CREATE once it is constructed. -/
inductive CallStatus
  | create
  | process
  | finish
deriving DecidableEq, Repr

def responseSuccess : Int := 0

def responseError : Int := 1

def responseTimeout : Int := 1000

structure ConsumeReply where
  code : Int
  msgId : String
  body : String
  errorMsg : String
deriving DecidableEq, Repr

structure ConsumeCallData where
  topic : String
  group : String
  msgId : String
  status : CallStatus
  reply : ConsumeReply
  /-- The reply of each call of `responder_.Finish`, in order. -/
  finished : List ConsumeReply
  /-- `delete this` has run. -/
  deleted : Bool
deriving DecidableEq, Repr

namespace ConsumeCallData

/-- The call object once `process` has read the request. -/
def new (topic group : String) : ConsumeCallData :=
  { topic := topic, group := group, msgId := "", status := .process,
    reply := { code := 0, msgId := "", body := "", errorMsg := "" },
    finished := [], deleted := false }

def responseMsg (call : ConsumeCallData) (code : Int) (errMsg id body : String) :
    ConsumeCallData :=
  let reply : ConsumeReply := { code := code, msgId := id, body := body, errorMsg := errMsg }
  { call with reply := reply, status := .finish, msgId := id,
              finished := call.finished ++ [reply] }

def responseTimeOut (call : ConsumeCallData) : ConsumeCallData :=
  let reply := { call.reply with code := responseTimeout, errorMsg := "get msg timeout" }
  { call with reply := reply, status := .finish, finished := call.finished ++ [reply] }

/-- `del`, and the end of `cancel`, which sets the status before it. -/
def del (call : ConsumeCallData) : ConsumeCallData :=
  { call with status := .finish, deleted := true }

end ConsumeCallData

structure ConsumeAckReply where
  code : Int
  errorMsg : String
deriving DecidableEq, Repr

structure ConsumeAckCallData where
  topic : String
  group : String
  msgId : String
  /-- `request_.status()`. -/
  requestStatus : Int
  status : CallStatus
  finished : List ConsumeAckReply
  deleted : Bool
deriving DecidableEq, Repr

namespace ConsumeAckCallData

def new (topic group msgId : String) (requestStatus : Int) : ConsumeAckCallData :=
  { topic := topic, group := group, msgId := msgId, requestStatus := requestStatus,
    status := .process, finished := [], deleted := false }

/-- The end of `process` when `setMsgAck` found the message. -/
def accept (call : ConsumeAckCallData) : ConsumeAckCallData :=
  { call with status := .finish,
              finished := call.finished ++
                [{ code := responseSuccess, errorMsg := "msg ack succ!" }] }

/-- The end of `process` when `setMsgAck` found no such message. -/
def reject (call : ConsumeAckCallData) : ConsumeAckCallData :=
  { call with status := .finish,
              finished := call.finished ++
                [{ code := responseError,
                   errorMsg := "msg[" ++ call.msgId ++ "] cannot be found!" }] }

def del (call : ConsumeAckCallData) : ConsumeAckCallData :=
  { call with status := .finish, deleted := true }

end ConsumeAckCallData

/-- `MAX_MSG_WAIT_CONSUME_TIME`. -/
def maxMsgWaitConsumeTime : Int := 10

/-- `MAX_MSG_WAIT_CONSUME_ACK_TIME`. -/
def maxMsgWaitConsumeAckTime : Int := 10

structure ConsumeMsgUnit where
  callData : CallRef
  topic : String
  group : String
  msgId : String
  lastActiveAt : Int
  status : MsgWorkerConsumeStatus
deriving DecidableEq, Repr

namespace ConsumeMsgUnit

def new (callData : CallRef) (topic group : String) (now : Int) : ConsumeMsgUnit :=
  { callData := callData, topic := topic, group := group, msgId := "",
    lastActiveAt := now, status := .proxyConsumeInit }

def getIsFetchMsgTimeout (unit : ConsumeMsgUnit) (now : Int) : Bool :=
  unit.status = .proxyConsumeInit && now - unit.lastActiveAt ≥ maxMsgWaitConsumeTime

def getIsAckTimeout (unit : ConsumeMsgUnit) (now : Int) : Bool :=
  unit.status = .clientReceive && now - unit.lastActiveAt ≥ maxMsgWaitConsumeAckTime

end ConsumeMsgUnit

def proxyLoggerTypeProduce : Int := 1

def proxyLoggerTypeConsume : Int := 2

def proxyLoggerTypeConsumeAcl : Int := 3

structure LogUnit where
  type : Int
  msgId : String
  topic : String
  group : String
  body : String
  delayLevel : Int
  status : Int
deriving DecidableEq, Repr

end RocketmqProxy
