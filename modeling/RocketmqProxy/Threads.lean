import RocketmqProxy.Lib.Iterator
import RocketmqProxy.Lib.SharedMutex
import RocketmqProxy.Locker

/-!
# The threads of one consumer

Here each statement that touches what threads share is a step: the locks, the map of
batches, the members of a batch, and the condition variable its callback sleeps on.  Any
number of listener callbacks run beside any number of calls of `setMsgAck`,
`fetchAndConsume` and `unlockAll`.
-/

namespace RocketmqProxy

open Std (TreeMap)

abbrev BatchRef := Nat

abbrev WorkRef := Nat

/-- A listener callback, or a call of one of the other functions. -/
inductive Tid
  | callback (b : BatchRef)
  | worker (c : WorkRef)
deriving DecidableEq, Repr

/-! ## Writes to the members of a batch -/

inductive RecordWrite
  | statusMap (p : Addr) (s : ConsumeStatus)
  | clientStatusMap (p : Addr) (cs : ClientMsgConsumeStatus)
  /-- `reconsumeMap[msgId] = 1`. -/
  | reconsumeMap (msgId : String)
  | status (s : ConsumeStatus)
  | clientStatus (cs : ClientMsgConsumeStatus)
deriving DecidableEq, Repr

def ConsumerUnitLocker.write (l : ConsumerUnitLocker) : RecordWrite → ConsumerUnitLocker
  | .statusMap p s => { l with statusMap := l.statusMap.insert p s }
  | .clientStatusMap p cs => { l with clientStatusMap := l.clientStatusMap.insert p cs }
  | .reconsumeMap msgId => { l with reconsumeMap := l.reconsumeMap.insert msgId 1 }
  | .status s => { l with status := s }
  | .clientStatus cs => { l with clientStatus := cs }

/-- One turn of the loop of `setMsgStatus` is its writes one after the other. -/
theorem ConsumerUnitLocker.setOne_eq_write (msgId : String) (s : ConsumeStatus)
    (cs : ClientMsgConsumeStatus) (l : ConsumerUnitLocker) (p : Addr × Int) :
    setOne msgId s cs l p =
      let l := (l.write (.statusMap p.1 s)).write (.clientStatusMap p.1 cs)
      if s = .reconsumeLater then l.write (.reconsumeMap msgId) else l := by
  by_cases hs : s = .reconsumeLater
  · simp [setOne, write, hs]
  · simp [setOne, write, hs]

/-! ## The functions that walk the map of batches -/

inductive Op
  | setMsgAck (msgId : String) (s : ConsumeStatus)
  | fetchAndConsume
  | unlockAll
deriving DecidableEq, Repr

def Op.setMsgReconsume (msgId : String) : Op := .setMsgAck msgId .reconsumeLater

/-- How the function locks `lockersMtx`. -/
def Op.mode : Op → SharedMutex.Mode
  | .setMsgAck _ _ | .fetchAndConsume => .shared
  | .unlockAll => .exclusive

/-- Where a thread is in the body of such a loop, with the locals of the function it
calls there. -/
inductive BodyPc
  -- `setMsgStatus(msgId, s, MSG_CONSUME_ACK)`
  | find (msgId : String) (s : ConsumeStatus)
  | setStatus (msgId : String) (s : ConsumeStatus) (p : Addr)
  | setClientStatus (msgId : String) (s : ConsumeStatus) (p : Addr)
  | setReconsume (msgId : String) (s : ConsumeStatus) (p : Addr)
  /-- `ret = true`. -/
  | found
  -- the inner loop of `unlockAll`
  | unlockBegin
  | unlockTest (p : Addr)
  | unlockClientStatus (p : Addr)
  | unlockStatus (p : Addr)
  -- `triggerCheck(forced)`
  | check (forced : Bool)
  | scan (p : Addr) (s : ConsumeStatus)
  | release (s : ConsumeStatus)
  | releaseClient
  | notify
  -- `getMsg`
  | lockMtx
  | pop
  | unlockMtx (taken : Bool)
  /-- `iter++`. -/
  | iterNext
  | break
deriving DecidableEq, Repr

/-- The start of the body. -/
def Op.body : Op → BodyPc
  | .setMsgAck msgId s => .find msgId s
  | .fetchAndConsume => .lockMtx
  | .unlockAll => .unlockBegin

/-- What a step does beside moving on. -/
inductive Action
  | none
  | write (w : RecordWrite)
  | found
  | lockMtx
  | unlockMtx
  | pop
  | notify
deriving DecidableEq, Repr

namespace BodyPc

def action : BodyPc → Action
  | .setStatus _ s p => .write (.statusMap p s)
  | .setClientStatus _ _ p => .write (.clientStatusMap p .msgConsumeAck)
  | .setReconsume msgId _ _ => .write (.reconsumeMap msgId)
  | .found => .found
  | .unlockClientStatus p => .write (.clientStatusMap p .msgConsumeAck)
  | .unlockStatus p => .write (.statusMap p .reconsumeLater)
  | .release s => .write (.status s)
  | .releaseClient => .write (.clientStatus .msgConsumeAck)
  | .notify => .notify
  | .lockMtx => .lockMtx
  | .pop => .pop
  | .unlockMtx _ => .unlockMtx
  | .find _ _ | .unlockBegin | .unlockTest _ | .check _ | .scan _ _ | .iterNext | .break => .none

/-- `iter++` in the loop of `setMsgStatus`. -/
def setNext (l : ConsumerUnitLocker) (msgId : String) (s : ConsumeStatus) (p : Addr) : BodyPc :=
  match l.idMsgMap[msgId]?.bind (Iterator.next · p) with
  | some q => .setStatus msgId s q.1
  | none => .found

/-- `iter1++` in the loop of `unlockAll`. -/
def unlockNext (l : ConsumerUnitLocker) (p : Addr) : BodyPc :=
  match Iterator.next l.clientStatusMap p with
  | some q => .unlockTest q.1
  | none => .check true

/-- The step that follows, read off the batch as the step finds it. -/
def next (l : ConsumerUnitLocker) : BodyPc → BodyPc
  | .find msgId s =>
    match l.idMsgMap[msgId]?.bind Iterator.first with
    | some p => .setStatus msgId s p.1
    | none => .check false
  | .setStatus msgId s p => .setClientStatus msgId s p
  | .setClientStatus msgId s p =>
    if s = .reconsumeLater then .setReconsume msgId s p else setNext l msgId s p
  | .setReconsume msgId s p => setNext l msgId s p
  | .found => .check false
  | .unlockBegin =>
    match Iterator.first l.clientStatusMap with
    | some p => .unlockTest p.1
    | none => .check true
  | .unlockTest p =>
    if l.clientStatusMap[p]? ≠ some .msgConsumeAck then .unlockClientStatus p else unlockNext l p
  | .unlockClientStatus p => .unlockStatus p
  | .unlockStatus p => unlockNext l p
  | .check forced =>
    if !forced && !l.fetchedArr.isEmpty then .iterNext
    else
      match Iterator.first l.clientStatusMap with
      | some p => .scan p.1 .consumeSuccess
      -- `cs` is MSG_CONSUME_ACK before the loop
      | none => .release .consumeSuccess
  | .scan p s =>
    if l.clientStatusMap[p]? ≠ some .msgConsumeAck then .iterNext
    else
      let s := if l.statusMap.getD p .consumeSuccess = .reconsumeLater then .reconsumeLater else s
      match Iterator.next l.clientStatusMap p with
      | some q => .scan q.1 s
      | none => .release s
  | .release _ => .releaseClient
  | .releaseClient => .notify
  | .notify => .iterNext
  | .lockMtx => .pop
  | .pop => .unlockMtx !l.fetchedArr.isEmpty
  | .unlockMtx taken => if taken then .break else .iterNext
  | .iterNext => .iterNext
  | .break => .break

end BodyPc

inductive WorkPc
  | lock
  /-- `iter = lockers.begin()`. -/
  | begin
  /-- In the body of the loop, with `iter` at the batch `b`, whose address is `a`. -/
  | visit (a : Addr) (b : BatchRef) (pc : BodyPc)
  | unlock
  | done
deriving DecidableEq, Repr

/-- The thread holds `lockersMtx`. -/
def WorkPc.Inside : WorkPc → Prop
  | .lock | .done => False
  | .begin | .visit _ _ _ | .unlock => True

instance : (pc : WorkPc) → Decidable pc.Inside
  | .lock | .done => .isFalse id
  | .begin | .visit _ _ _ | .unlock => .isTrue trivial

/-- A call of one of the functions, with the locals `ret` of `setMsgAck` and `msg` of
`fetchAndConsume`. -/
structure Work where
  op : Op
  pc : WorkPc
  ret : Bool
  msg : Option MsgPtr
deriving DecidableEq, Repr

def Work.new (op : Op) : Work := { op := op, pc := .lock, ret := false, msg := none }

/-! ## The listener callbacks -/

inductive CallbackPc
  -- `waitLock`
  | lock
  | insert
  | lockMtx
  | unlock
  /-- At the predicate of `cv.wait`, with `mtx` held. -/
  | test
  /-- The predicate was false; `mtx` is still held. -/
  | sleep
  | asleep
  /-- Awake, and about to lock `mtx` again. -/
  | woken
  | unlockMtx
  -- `eraseLock`
  | lockErase
  | erase
  | unlockErase
  -- the rest of the callback
  | readStatus
  | readReconsume (i : Nat) (statusVector : List ConsumeStatus)
  | readResult (statusVector : List ConsumeStatus)
  | returned (status : ConsumeStatus) (statusVector : List ConsumeStatus)
deriving DecidableEq, Repr

/-- The callback holds `lockersMtx`. -/
def CallbackPc.Inside : CallbackPc → Prop
  | .insert | .lockMtx | .unlock | .erase | .unlockErase => True
  | _ => False

instance : (pc : CallbackPc) → Decidable pc.Inside
  | .insert | .lockMtx | .unlock | .erase | .unlockErase => .isTrue trivial
  | .lock | .test | .sleep | .asleep | .woken | .unlockMtx | .lockErase | .readStatus
  | .readReconsume _ _ | .readResult _ | .returned _ _ => .isFalse id

/-- A batch, and its callback: the locker that the callback has allocated at `addr`, the
mutex of that locker, and where the callback is. -/
structure Batch where
  addr : Addr
  msgs : List MQMessageExt
  record : ConsumerUnitLocker
  mtx : Option Tid
  pc : CallbackPc

/-- The start of the callback. -/
def Batch.new (group : String) (addr : Addr) (msgs : List (Addr × MQMessageExt)) : Batch :=
  { addr := addr, msgs := msgs.map Prod.snd, record := .new msgs group, mtx := none, pc := .lock }

/-- The callback has not returned. -/
def Batch.Live (batch : Batch) : Prop := ∀ status vec, batch.pc ≠ .returned status vec

instance (batch : Batch) : Decidable batch.Live :=
  match h : batch.pc with
  | .returned status vec => .isFalse fun hl => hl status vec h
  | .lock | .insert | .lockMtx | .unlock | .test | .sleep | .asleep | .woken | .unlockMtx
  | .lockErase | .erase | .unlockErase | .readStatus | .readReconsume _ _ | .readResult _ =>
    .isTrue fun _ _ he => by rw [h] at he; cases he

/-- The end of the sleep in `cv.wait`. -/
def Batch.wake (batch : Batch) : Batch :=
  if batch.pc = .asleep then { batch with pc := .woken } else batch

/-! ## The state and its steps -/

/-- What has happened, in order. -/
inductive ThreadObs
  | wrote (t : Tid) (b : BatchRef) (w : RecordWrite)
  /-- `setMsgStatus` has found the id in the batch. -/
  | found (c : WorkRef) (b : BatchRef)
  | fetched (c : WorkRef) (b : BatchRef) (msg : MsgPtr)
  | notified (c : WorkRef) (b : BatchRef)
  /-- The call has unlocked `lockersMtx` and returns `ret`. -/
  | returned (c : WorkRef) (ret : Bool)
  /-- The callback has released `mtx` in `cv.wait`. -/
  | slept (b : BatchRef)
  /-- The callback has begun to compute what it returns. -/
  | verdict (b : BatchRef)
deriving DecidableEq, Repr

structure UnitThreads where
  group : String
  lockersMtx : SharedMutex Tid
  lockers : TreeMap Addr BatchRef
  batches : List Batch
  works : List Work
  trace : List ThreadObs

inductive ThreadEvent
  /-- The SDK calls the listener; the locker is allocated at `addr`, and the copy of each
  message at the address paired with it. -/
  | callback (addr : Addr) (msgs : List (Addr × MQMessageExt))
  | call (op : Op)
  /-- The thread takes its next step. -/
  | turn (t : Tid)
  /-- A callback wakes up without having been notified. -/
  | wake (b : BatchRef)
deriving DecidableEq, Repr

namespace UnitThreads

def init (group : String) : UnitThreads where
  group := group
  lockersMtx := .free
  lockers := ∅
  batches := []
  works := []
  trace := []

def setBatch (s : UnitThreads) (b : BatchRef) (batch : Batch) : UnitThreads :=
  { s with batches := s.batches.set b batch }

def setWork (s : UnitThreads) (c : WorkRef) (w : Work) : UnitThreads :=
  { s with works := s.works.set c w }

def log (s : UnitThreads) (o : ThreadObs) : UnitThreads := { s with trace := s.trace ++ [o] }

/-- The action of the call `c` on the batch `b`, after which the call is `w`. -/
def act (s : UnitThreads) (c : WorkRef) (w : Work) (b : BatchRef) (batch : Batch) :
    Action → Option UnitThreads
  | .none => some (s.setWork c w)
  | .write r =>
    some (((s.setWork c w).setBatch b { batch with record := batch.record.write r }).log
      (.wrote (.worker c) b r))
  | .found => some ((s.setWork c { w with ret := true }).log (.found c b))
  | .lockMtx =>
    if batch.mtx = none then
      some ((s.setWork c w).setBatch b { batch with mtx := some (.worker c) })
    else none
  | .unlockMtx => some ((s.setWork c w).setBatch b { batch with mtx := none })
  | .pop =>
    match batch.record.getMsg with
    | none => some (s.setWork c w)
    | some (msg, l) =>
      some (((s.setWork c { w with msg := some msg }).setBatch b { batch with record := l }).log
        (.fetched c b msg))
  | .notify => some (((s.setWork c w).setBatch b batch.wake).log (.notified c b))

/-- Where the loop goes on. -/
def visitAt (op : Op) : Option (Addr × BatchRef) → WorkPc
  | some p => .visit p.1 p.2 op.body
  | none => .unlock

def workTurn (s : UnitThreads) (c : WorkRef) (w : Work) : Option UnitThreads :=
  match w.pc with
  | .lock => (s.lockersMtx.lock w.op.mode (.worker c)).map fun m =>
      { s.setWork c { w with pc := .begin } with lockersMtx := m }
  | .begin => some (s.setWork c { w with pc := visitAt w.op (Iterator.first s.lockers) })
  | .visit a _ .iterNext =>
    some (s.setWork c { w with pc := visitAt w.op (Iterator.next s.lockers a) })
  | .visit _ _ .break => some (s.setWork c { w with pc := .unlock })
  | .visit a b pc => do
    let batch ← s.batches[b]?
    s.act c { w with pc := .visit a b (pc.next batch.record) } b batch pc.action
  | .unlock =>
    some ({ s.setWork c { w with pc := .done } with
      lockersMtx := s.lockersMtx.unlock w.op.mode (.worker c) }.log (.returned c w.ret))
  | .done => none

def callbackTurn (s : UnitThreads) (b : BatchRef) (batch : Batch) : Option UnitThreads :=
  match batch.pc with
  | .lock => (s.lockersMtx.lock .exclusive (.callback b)).map fun m =>
      { s.setBatch b { batch with pc := .insert } with lockersMtx := m }
  | .insert => some { s.setBatch b { batch with pc := .lockMtx } with
      lockers := s.lockers.insertIfNew batch.addr b }
  | .lockMtx =>
    if batch.mtx = none then
      some (s.setBatch b { batch with mtx := some (.callback b), pc := .unlock })
    else none
  | .unlock => some { s.setBatch b { batch with pc := .test } with
      lockersMtx := s.lockersMtx.unlock .exclusive (.callback b) }
  | .test =>
    some (s.setBatch b { batch with
      pc := if batch.record.clientStatus = .msgConsumeAck then .unlockMtx else .sleep })
  | .sleep => some ((s.setBatch b { batch with mtx := none, pc := .asleep }).log (.slept b))
  | .asleep => none
  | .woken =>
    if batch.mtx = none then
      some (s.setBatch b { batch with mtx := some (.callback b), pc := .test })
    else none
  | .unlockMtx => some (s.setBatch b { batch with mtx := none, pc := .lockErase })
  | .lockErase => (s.lockersMtx.lock .exclusive (.callback b)).map fun m =>
      { s.setBatch b { batch with pc := .erase } with lockersMtx := m }
  | .erase => some { s.setBatch b { batch with pc := .unlockErase } with
      lockers := s.lockers.erase batch.addr }
  | .unlockErase => some { s.setBatch b { batch with pc := .readStatus } with
      lockersMtx := s.lockersMtx.unlock .exclusive (.callback b) }
  | .readStatus =>
    some ((s.setBatch b { batch with
      pc := if batch.record.status = .reconsumeLater then .readReconsume 0 []
        else .readResult [] }).log (.verdict b))
  | .readReconsume i vec =>
    match batch.msgs[i]? with
    | none => some (s.setBatch b { batch with pc := .readResult vec })
    | some msg =>
      let st := if batch.record.reconsumeMap.contains msg.msgId then .reconsumeLater
        else .consumeSuccess
      some (s.setBatch b { batch with pc := .readReconsume (i + 1) (vec ++ [st]) })
  | .readResult vec => some (s.setBatch b { batch with pc := .returned batch.record.status vec })
  | .returned _ _ => none

def step (s : UnitThreads) : ThreadEvent → Option UnitThreads
  | .callback addr msgs =>
    -- the lockers and the copies of the messages that are in use have different addresses
    if (∀ batch ∈ s.batches, batch.Live → batch.addr ≠ addr) ∧ (msgs.map Prod.fst).Nodup then
      some { s with batches := s.batches ++ [.new s.group addr msgs] }
    else none
  | .call op => some { s with works := s.works ++ [.new op] }
  | .turn (.worker c) => s.works[c]?.bind (s.workTurn c)
  | .turn (.callback b) => s.batches[b]?.bind (s.callbackTurn b)
  | .wake b => s.batches[b]?.bind fun batch =>
      if batch.pc = .asleep then some (s.setBatch b batch.wake) else none

end UnitThreads
end RocketmqProxy
