import RocketmqProxy.Locker.History

/-!
# One consumer and its registered batches

`ConsumerUnit` keeps the batches whose listener callbacks have not returned, each
under the address of its `ConsumerUnitLocker`.  The loops of `fetchAndConsume`,
`setMsgAck` and `unlockAll` walk them in address order under `lockersMtx`; each
operation is one step here.
-/

namespace RocketmqProxy

open Std

abbrev CallRef := Nat

abbrev UnitRef := Nat

abbrev ConsumerRef := Nat

inductive SdkState
  | created
  | started
  /-- `shutdown()` has been called and has not returned. -/
  | shutdown
  | stopped
deriving DecidableEq, Repr

/-- The SDK consumer: its group, the topic it is subscribed to, and how far its life
has gone.  The connection settings that `getConsumer` passes on are the same for
every consumer and nothing in the proxy reads them back. -/
structure DefaultMQPushConsumer where
  groupName : String
  topic : String
  state : SdkState
deriving DecidableEq, Repr

structure ConsumerUnit where
  /-- The C++ map sends each locker to the constant 1; here the entry is the record
  itself. -/
  lockers : TreeMap Addr ConsumerUnitLocker
  consumer : DefaultMQPushConsumer
  lastActiveAt : Int
  /-- The `msgs` argument of each listener callback that has not returned, by the
  address of its locker. -/
  callbacks : TreeMap Addr (List MQMessageExt)

/-- `MAX_MSG_CONSUME_MAX_INACTIVE_TIME`. -/
def maxMsgConsumeMaxInactiveTime : Int := 20

namespace ConsumerUnit

/-- `new ConsumerUnit(group)` with the subscription that `getConsumer` makes. -/
def new (topic group : String) (now : Int) : ConsumerUnit where
  lockers := ∅
  consumer := { groupName := group, topic := topic, state := .created }
  lastActiveAt := now
  callbacks := ∅

/-- The SDK consumer moves on to `state`. -/
def setState (state : SdkState) (u : ConsumerUnit) : ConsumerUnit :=
  { u with consumer := { u.consumer with state := state } }

def setLastActiveAt (now : Int) (u : ConsumerUnit) : ConsumerUnit :=
  { u with lastActiveAt := now }

def getIsTooInactive (u : ConsumerUnit) (now : Int) : Bool :=
  now - u.lastActiveAt ≥ maxMsgConsumeMaxInactiveTime

def unlockAll (u : ConsumerUnit) : ConsumerUnit :=
  { u with lockers := u.lockers.map fun _ l => l.unlock }

/-- `setMsgAck`: whether some registered batch holds a message of that id. -/
def setMsgAck (u : ConsumerUnit) (msgId : String) (s : ConsumeStatus) :
    Bool × ConsumerUnit :=
  (u.lockers.toList.any fun p => (p.2.setMsgStatus msgId s .msgConsumeAck).1,
    { u with lockers := u.lockers.map fun _ l => l.ack msgId s })

def setMsgReconsume (u : ConsumerUnit) (msgId : String) : Bool × ConsumerUnit :=
  u.setMsgAck msgId .reconsumeLater

/-- The loop of `fetchAndConsume`: the first batch whose `getMsg` succeeds. -/
def fetchFrom : List (Addr × ConsumerUnitLocker) → Option (Addr × MsgPtr × ConsumerUnitLocker)
  | [] => none
  | p :: rest =>
    match p.2.getMsg with
    | some (msg, l) => some (p.1, msg, l)
    | none => fetchFrom rest

/-- `fetchAndConsume`, up to the call of `callback`: the message it is called with,
and the batch it came from. -/
def fetchAndConsume (u : ConsumerUnit) : Option (Addr × MsgPtr) × ConsumerUnit :=
  match fetchFrom u.lockers.toList with
  | none => (none, u)
  | some (a, msg, l) => (some (a, msg), { u with lockers := u.lockers.insert a l })

/-- `waitLock`, up to the wait. -/
def waitLock (u : ConsumerUnit) (a : Addr) (locker : ConsumerUnitLocker) : ConsumerUnit :=
  { u with lockers := u.lockers.insertIfNew a locker }

def eraseLock (u : ConsumerUnit) (a : Addr) : ConsumerUnit :=
  { u with lockers := u.lockers.erase a }

/-- The listener callback built in `getConsumer`, up to its wait.  The locker is
allocated at `a`, and the copy of each message at the address paired with it. -/
def callbackBegin (u : ConsumerUnit) (a : Addr) (msgs : List (Addr × MQMessageExt)) :
    ConsumerUnit :=
  { u.waitLock a (.new msgs u.consumer.groupName) with
    callbacks := u.callbacks.insert a (msgs.map Prod.snd) }

/-- The rest of the listener callback, from the end of its wait: what it returns,
and the `statusVector` it has filled.  After `eraseLock` no other thread holds the
locker, so erasing it and reading it is one step. -/
def callbackEnd (u : ConsumerUnit) (a : Addr) :
    Option (ConsumeStatus × List ConsumeStatus × ConsumerUnit) := do
  let locker ← u.lockers[a]?
  let msgs ← u.callbacks[a]?
  if locker.clientStatus = .msgConsumeAck then
    let (status, statusVector) := locker.verdict msgs
    some (status, statusVector, { u.eraseLock a with callbacks := u.callbacks.erase a })
  else none

/-! ## What each operation does to the registered batches -/

/-- The callback of a batch whose record is released returns. -/
theorem callbackEnd_of_released {u : ConsumerUnit} {a : Addr} {l : ConsumerUnitLocker}
    {msgs : List MQMessageExt} (hl : u.lockers[a]? = some l) (hm : u.callbacks[a]? = some msgs)
    (hrel : l.clientStatus = .msgConsumeAck) :
    u.callbackEnd a = some ((l.verdict msgs).1, (l.verdict msgs).2,
      { u with lockers := u.lockers.erase a, callbacks := u.callbacks.erase a }) := by
  simp only [callbackEnd, hl, hm, Option.bind_eq_bind, Option.bind_some, if_pos hrel]
  rfl

@[simp] theorem unlockAll_lockers (u : ConsumerUnit) (a : Addr) :
    u.unlockAll.lockers[a]? = u.lockers[a]?.map ConsumerUnitLocker.unlock := by
  rw [unlockAll, TreeMap.getElem?_map]

@[simp] theorem setMsgAck_lockers (u : ConsumerUnit) (msgId : String) (s : ConsumeStatus)
    (a : Addr) :
    (u.setMsgAck msgId s).2.lockers[a]? = u.lockers[a]?.map fun l => l.ack msgId s := by
  rw [setMsgAck, TreeMap.getElem?_map]

theorem setMsgAck_accepted (u : ConsumerUnit) (msgId : String) (s : ConsumeStatus) :
    (u.setMsgAck msgId s).1 = true ↔
      ∃ (a : Addr) (l : ConsumerUnitLocker) (p : Addr),
        u.lockers[a]? = some l ∧ l.Filed msgId p := by
  simp only [setMsgAck, List.any_eq_true, ConsumerUnitLocker.setMsgStatus_found]
  constructor
  · rintro ⟨q, hq, p, hp⟩
    exact ⟨q.1, q.2, p, TreeMap.mem_toList_iff_getElem?_eq_some.mp hq, hp⟩
  · rintro ⟨a, l, p, hl, hp⟩
    exact ⟨(a, l), TreeMap.mem_toList_iff_getElem?_eq_some.mpr hl, p, hp⟩

theorem fetchFrom_some {ps : List (Addr × ConsumerUnitLocker)} {a : Addr} {msg : MsgPtr}
    {l : ConsumerUnitLocker} (h : fetchFrom ps = some (a, msg, l)) :
    ∃ l₀, (a, l₀) ∈ ps ∧ l₀.fetchedArr = msg :: l.fetchedArr ∧
      l = { l₀ with fetchedArr := l.fetchedArr } := by
  induction ps with
  | nil => simp [fetchFrom] at h
  | cons p ps ih =>
    rw [fetchFrom] at h
    cases hg : p.2.getMsg with
    | none =>
      rw [hg] at h
      obtain ⟨l₀, hmem, hrest⟩ := ih h
      exact ⟨l₀, List.mem_cons_of_mem p hmem, hrest⟩
    | some r =>
      rw [hg] at h
      simp only [Option.some.injEq, Prod.mk.injEq] at h
      obtain ⟨rfl, rfl, rfl⟩ := h
      obtain ⟨rest, hq, hl⟩ := ConsumerUnitLocker.getMsg_eq_some hg
      refine ⟨p.2, List.mem_cons_self, ?_⟩
      rw [hl]
      exact ⟨hq, rfl⟩

theorem fetchFrom_none {ps : List (Addr × ConsumerUnitLocker)} (h : fetchFrom ps = none) :
    ∀ p ∈ ps, p.2.fetchedArr = [] := by
  induction ps with
  | nil => simp
  | cons p ps ih =>
    rw [fetchFrom] at h
    cases hg : p.2.getMsg with
    | some r => simp [hg] at h
    | none =>
      rw [hg] at h
      have hp : p.2.fetchedArr = [] := ConsumerUnitLocker.getMsg_eq_none hg
      exact List.forall_mem_cons.mpr ⟨hp, ih h⟩

/-- A fetch that finds a message takes it from the head of one batch's queue. -/
theorem fetchAndConsume_some {u u' : ConsumerUnit} {a : Addr} {msg : MsgPtr}
    (h : u.fetchAndConsume = (some (a, msg), u')) :
    ∃ l rest, u.lockers[a]? = some l ∧ l.fetchedArr = msg :: rest ∧
      u' = { u with lockers := u.lockers.insert a { l with fetchedArr := rest } } := by
  unfold fetchAndConsume at h
  split at h
  · exact absurd h (by simp)
  · rename_i b m l hf
    simp only [Prod.mk.injEq, Option.some.injEq] at h
    obtain ⟨⟨rfl, rfl⟩, rfl⟩ := h
    obtain ⟨l₀, hmem, hq, hl⟩ := fetchFrom_some hf
    exact ⟨l₀, l.fetchedArr, TreeMap.mem_toList_iff_getElem?_eq_some.mp hmem, hq, by rw [← hl]⟩

/-- A fetch that finds nothing has seen every queue empty, and changes nothing. -/
theorem fetchAndConsume_none {u u' : ConsumerUnit} (h : u.fetchAndConsume = (none, u')) :
    u' = u ∧ ∀ (a : Addr) (l : ConsumerUnitLocker), u.lockers[a]? = some l → l.fetchedArr = [] := by
  unfold fetchAndConsume at h
  split at h
  · rename_i hf
    simp only [Prod.mk.injEq, true_and] at h
    refine ⟨h.symm, fun a l hl => ?_⟩
    exact fetchFrom_none hf (a, l) (TreeMap.mem_toList_iff_getElem?_eq_some.mpr hl)
  · exact absurd h (by simp)

theorem fetchAndConsume_eq_none {u : ConsumerUnit} : u.fetchAndConsume.1 = none ↔
    ∀ (a : Addr) (l : ConsumerUnitLocker), u.lockers[a]? = some l → l.fetchedArr = [] := by
  constructor
  · exact fun h => (fetchAndConsume_none (Prod.ext h rfl)).2
  · intro h
    cases hf : u.fetchAndConsume.1 with
    | none => rfl
    | some p =>
      obtain ⟨l, rest, hl, hq, -⟩ := fetchAndConsume_some (Prod.ext hf rfl)
      exact absurd ((h p.1 l hl).symm.trans hq) (by simp)

/-- An ack takes nothing out of a queue, and puts nothing into one. -/
theorem setMsgAck_fetch (u : ConsumerUnit) (msgId : String) (s : ConsumeStatus) :
    (u.setMsgAck msgId s).2.fetchAndConsume.1 = none ↔ u.fetchAndConsume.1 = none := by
  simp only [fetchAndConsume_eq_none, setMsgAck_lockers]
  constructor
  · intro h a l hl
    have hq := h a (l.ack msgId s) (by rw [hl]; rfl)
    rwa [ConsumerUnitLocker.ack, ConsumerUnitLocker.triggerCheck_fetchedArr,
      ConsumerUnitLocker.setMsgStatus_fetchedArr] at hq
  · intro h a l' hl'
    obtain ⟨l, hl, rfl⟩ := Option.map_eq_some_iff.mp hl'
    rw [ConsumerUnitLocker.ack, ConsumerUnitLocker.triggerCheck_fetchedArr,
      ConsumerUnitLocker.setMsgStatus_fetchedArr]
    exact h a l hl

theorem callbackEnd_some {u u' : ConsumerUnit} {a : Addr} {st : ConsumeStatus}
    {vec : List ConsumeStatus} (h : u.callbackEnd a = some (st, vec, u')) :
    ∃ l msgs, u.lockers[a]? = some l ∧ u.callbacks[a]? = some msgs ∧
      l.clientStatus = .msgConsumeAck ∧ (st, vec) = l.verdict msgs ∧
      u' = { u with lockers := u.lockers.erase a, callbacks := u.callbacks.erase a } := by
  simp only [callbackEnd, Option.bind_eq_bind, Option.bind_eq_some_iff] at h
  obtain ⟨l, hl, msgs, hm, h⟩ := h
  split at h
  · rename_i hc
    simp only [Option.some.injEq, Prod.mk.injEq] at h
    obtain ⟨rfl, rfl, rfl⟩ := h
    exact ⟨l, msgs, hl, hm, hc, rfl, rfl⟩
  · exact absurd h (by simp)

end ConsumerUnit
end RocketmqProxy
