import RocketmqProxy.Locker.Spec

/-!
# A batch record as a function of its history

`LockerOp` lists what can happen to a registered batch.  `after msgs group ops` is
the record that `ops` leave of the batch `msgs`, and `Tracks` says what each of its
fields holds in terms of `ops` alone: a message is settled once its id was acked or
the batch was unlocked, `statusMap` holds the last ack, `reconsumeMap` the ids ever
acked RECONSUME_LATER, and the fetch queue what `getMsg` has left of the batch.
-/

namespace RocketmqProxy

open Std

inductive LockerOp
  | getMsg
  | setMsgAck (msgId : String) (s : ConsumeStatus)
  | unlock
deriving DecidableEq

namespace LockerOp

/-- The statuses acked for `msgId`, oldest first. -/
def acks (msgId : String) (ops : List LockerOp) : List ConsumeStatus :=
  ops.filterMap fun op =>
    match op with
    | .setMsgAck x s => if x = msgId then some s else none
    | _ => none

/-- The status last acked for `msgId`; RECONSUME_LATER before the first ack. -/
def lastAck (msgId : String) (ops : List LockerOp) : ConsumeStatus :=
  (acks msgId ops).getLast?.getD .reconsumeLater

/-- The message has been acked, or given up by a forced unlock. -/
def Settled (msgId : String) (ops : List LockerOp) : Prop :=
  acks msgId ops ≠ [] ∨ .unlock ∈ ops

@[simp] theorem acks_append (msgId : String) (ops ops' : List LockerOp) :
    acks msgId (ops ++ ops') = acks msgId ops ++ acks msgId ops' := by
  simp [acks]

@[simp] theorem acks_nil (msgId : String) : acks msgId [] = [] := rfl

@[simp] theorem acks_getMsg (msgId : String) : acks msgId [.getMsg] = [] := rfl

@[simp] theorem acks_unlock (msgId : String) : acks msgId [.unlock] = [] := rfl

@[simp] theorem acks_setMsgAck_self (msgId : String) (s : ConsumeStatus) :
    acks msgId [.setMsgAck msgId s] = [s] := by
  simp [acks]

@[simp] theorem acks_setMsgAck_ne {msgId x : String} (h : x ≠ msgId) (s : ConsumeStatus) :
    acks msgId [.setMsgAck x s] = [] := by
  simp [acks, h]

theorem lastAck_append_self (msgId : String) (ops : List LockerOp) (s : ConsumeStatus) :
    lastAck msgId (ops ++ [.setMsgAck msgId s]) = s := by
  simp [lastAck]

theorem lastAck_append_of_acks_nil {msgId : String} {op : LockerOp}
    (h : acks msgId [op] = []) (ops : List LockerOp) :
    lastAck msgId (ops ++ [op]) = lastAck msgId ops := by
  rw [lastAck, acks_append, h, List.append_nil, lastAck]

theorem Settled.append {msgId : String} {ops : List LockerOp} (h : Settled msgId ops)
    (ops' : List LockerOp) : Settled msgId (ops ++ ops') := by
  rcases h with h | h
  · left
    simp [h]
  · exact .inr (List.mem_append_left ops' h)

end LockerOp

namespace ConsumerUnitLocker

open LockerOp

def apply (l : ConsumerUnitLocker) : LockerOp → ConsumerUnitLocker
  | .getMsg =>
    match l.getMsg with
    | some (_, l') => l'
    | none => l
  | .setMsgAck msgId s => l.ack msgId s
  | .unlock => l.unlock

/-- The record of the batch `msgs` after `ops`. -/
def after (msgs : List (Addr × MQMessageExt)) (group : String) (ops : List LockerOp) :
    ConsumerUnitLocker :=
  ops.foldl apply (new msgs group)

theorem after_concat (msgs : List (Addr × MQMessageExt)) (group : String)
    (ops : List LockerOp) (op : LockerOp) :
    after msgs group (ops ++ [op]) = (after msgs group ops).apply op := by
  simp [after]

theorem apply_getMsg (l : ConsumerUnitLocker) :
    l.apply .getMsg = { l with fetchedArr := l.fetchedArr.drop 1 } := by
  cases l with
  | mk clientStatusMap statusMap idMsgMap fetchedArr reconsumeMap status clientStatus =>
    cases fetchedArr with
    | nil => rfl
    | cons m rest => rfl

theorem apply_released {l : ConsumerUnitLocker} (op : LockerOp)
    (h : l.clientStatus = .msgConsumeAck) : (l.apply op).clientStatus = .msgConsumeAck := by
  cases op with
  | getMsg => rwa [apply_getMsg]
  | setMsgAck msgId s =>
    rw [apply, ack]
    refine triggerCheck_released _ _ ?_
    rwa [setMsgStatus_clientStatus]
  | unlock =>
    classical exact (unlock_releases l).1

/-- What the fields of the record say about the history of the batch. -/
structure Tracks (msgs : List (Addr × MQMessageExt)) (group : String)
    (ops : List LockerOp) (l : ConsumerUnitLocker) : Prop where
  settled : ∀ p ∈ msgs, ∃ cs, l.clientStatusMap[p.1]? = some cs ∧
    (cs = .msgConsumeAck ↔ Settled p.2.msgId ops)
  only : ∀ (a : Addr) (cs : ClientMsgConsumeStatus),
    l.clientStatusMap[a]? = some cs → ∃ p ∈ msgs, p.1 = a
  lastAck : ∀ p ∈ msgs, l.statusMap[p.1]? = some (lastAck p.2.msgId ops)
  reconsume : ∀ msgId, msgId ∈ l.reconsumeMap ↔
    .reconsumeLater ∈ acks msgId ops ∧ ∃ p ∈ msgs, p.2.msgId = msgId
  filed : ∀ msgId a, l.Filed msgId a ↔ ∃ p ∈ msgs, p.1 = a ∧ p.2.msgId = msgId
  queue : l.fetchedArr = (msgs.map (ptr group)).drop (ops.count .getMsg)

variable {msgs : List (Addr × MQMessageExt)} {group : String}

theorem tracks_new : Tracks msgs group [] (new msgs group) where
  settled p hp := by
    refine ⟨.msgFetchFromBroker, ?_, ?_⟩
    · rw [new_clientStatusMap, if_pos (List.mem_map_of_mem hp)]
    · simp [Settled]
  only a cs h := by
    rw [new_clientStatusMap] at h
    split at h
    · rename_i ha
      obtain ⟨p, hp, rfl⟩ := List.mem_map.mp ha
      exact ⟨p, hp, rfl⟩
    · exact absurd h (by simp)
  lastAck p hp := by
    rw [new_statusMap, if_pos (List.mem_map_of_mem hp)]
    rfl
  reconsume msgId := by simp
  filed msgId a := filed_new msgs group msgId a
  queue := by simp

namespace Tracks

variable {ops : List LockerOp} {l : ConsumerUnitLocker}

theorem getMsg (h : Tracks msgs group ops l) :
    Tracks msgs group (ops ++ [.getMsg]) (l.apply .getMsg) := by
  rw [apply_getMsg]
  refine ⟨?_, h.only, ?_, ?_, h.filed, ?_⟩
  · intro p hp
    obtain ⟨cs, hcs, hiff⟩ := h.settled p hp
    refine ⟨cs, hcs, hiff.trans ?_⟩
    simp [Settled]
  · intro p hp
    rw [lastAck_append_of_acks_nil (acks_getMsg _)]
    exact h.lastAck p hp
  · intro msgId
    rw [acks_append, acks_getMsg, List.append_nil]
    exact h.reconsume msgId
  · simp [h.queue]

theorem setMsgAck (hn : (msgs.map Prod.fst).Nodup) (h : Tracks msgs group ops l)
    (msgId : String) (s : ConsumeStatus) :
    Tracks msgs group (ops ++ [.setMsgAck msgId s]) (l.apply (.setMsgAck msgId s)) := by
  classical
  -- one address holds one message, so an ack of `msgId` reaches exactly its copies
  have hfiled : ∀ p ∈ msgs, (l.Filed msgId p.1 ↔ p.2.msgId = msgId) := by
    intro p hp
    rw [h.filed]
    constructor
    · rintro ⟨q, hq, hqp, hid⟩
      rwa [List.inj_on_of_nodup_map hn hq hp hqp] at hid
    · intro hid
      exact ⟨p, hp, rfl, hid⟩
  refine ⟨?_, ?_, ?_, ?_, ?_, ?_⟩
  · intro p hp
    obtain ⟨cs, hcs, hiff⟩ := h.settled p hp
    simp only [apply, ack, triggerCheck_clientStatusMap, setMsgStatus_clientStatusMap,
      hfiled p hp]
    by_cases hid : p.2.msgId = msgId
    · refine ⟨.msgConsumeAck, if_pos hid, ?_⟩
      simp [Settled, hid]
    · refine ⟨cs, (if_neg hid).trans hcs, hiff.trans ?_⟩
      simp [Settled, Ne.symm hid]
  · intro a cs ha
    simp only [apply, ack, triggerCheck_clientStatusMap, setMsgStatus_clientStatusMap] at ha
    split at ha
    · rename_i hf
      obtain ⟨p, hp, hpa, -⟩ := (h.filed msgId a).mp hf
      exact ⟨p, hp, hpa⟩
    · exact h.only a cs ha
  · intro p hp
    simp only [apply, ack, triggerCheck_statusMap, setMsgStatus_statusMap, hfiled p hp]
    by_cases hid : p.2.msgId = msgId
    · rw [if_pos hid, hid, lastAck_append_self]
    · rw [if_neg hid, lastAck_append_of_acks_nil (acks_setMsgAck_ne (Ne.symm hid) s)]
      exact h.lastAck p hp
  · intro x
    simp only [apply, ack, triggerCheck_reconsumeMap, mem_setMsgStatus_reconsumeMap,
      h.reconsume, h.filed, acks_append]
    by_cases hx : x = msgId
    · subst hx
      by_cases hs : s = .reconsumeLater
      · simp [hs]
      · simp [hs, Ne.symm hs]
    · simp [hx, Ne.symm hx]
  · intro x a
    simp only [Filed, apply, ack, triggerCheck_idMsgMap, setMsgStatus_idMsgMap]
    exact h.filed x a
  · simp [apply, ack, h.queue]

theorem unlock (h : Tracks msgs group ops l) :
    Tracks msgs group (ops ++ [.unlock]) (l.apply .unlock) := by
  have hclient : ∀ (a : Addr) (cs : ClientMsgConsumeStatus),
      l.clientStatusMap[a]? = some cs → l.unlock.clientStatusMap[a]? = some .msgConsumeAck := by
    intro a cs ha
    rw [unlock_clientStatusMap, ha]
    cases cs <;> simp
  refine ⟨?_, ?_, ?_, ?_, ?_, ?_⟩
  · intro p hp
    obtain ⟨cs, hcs, -⟩ := h.settled p hp
    refine ⟨.msgConsumeAck, hclient p.1 cs hcs, ?_⟩
    simp [Settled]
  · intro a cs ha
    rw [apply, unlock_clientStatusMap] at ha
    split at ha
    · rename_i hf
      exact h.only a _ hf
    · exact h.only a cs ha
  · intro p hp
    obtain ⟨cs, hcs, hiff⟩ := h.settled p hp
    rw [lastAck_append_of_acks_nil (acks_unlock _), apply, unlock_statusMap]
    split
    · -- a pending message was never acked, so its record still says RECONSUME_LATER
      rename_i hf
      obtain rfl := Option.some.inj (hcs.symm.trans hf)
      have hnil : acks p.2.msgId ops = [] := by
        by_contra hne
        exact absurd (hiff.mpr (Or.inl hne)) (by simp)
      simp [LockerOp.lastAck, hnil]
    · exact h.lastAck p hp
  · intro x
    rw [acks_append, acks_unlock, List.append_nil, apply, unlock_reconsumeMap]
    exact h.reconsume x
  · intro x a
    simp only [Filed, apply, unlock_idMsgMap]
    exact h.filed x a
  · simp [apply, h.queue]

theorem apply (hn : (msgs.map Prod.fst).Nodup) (h : Tracks msgs group ops l)
    (op : LockerOp) : Tracks msgs group (ops ++ [op]) (l.apply op) := by
  cases op with
  | getMsg => exact h.getMsg
  | setMsgAck msgId s => exact h.setMsgAck hn msgId s
  | unlock => exact h.unlock

theorem allAcked_iff (h : Tracks msgs group ops l) :
    l.AllAcked ↔ ∀ p ∈ msgs, Settled p.2.msgId ops := by
  constructor
  · intro hall p hp
    obtain ⟨cs, hcs, hiff⟩ := h.settled p hp
    exact hiff.mp (hall p.1 cs hcs)
  · intro hset a cs ha
    obtain ⟨p, hp, rfl⟩ := h.only a cs ha
    obtain ⟨cs', hcs', hiff⟩ := h.settled p hp
    obtain rfl := Option.some.inj (hcs'.symm.trans ha)
    exact hiff.mpr (hset p hp)

theorem someReconsume_iff (h : Tracks msgs group ops l) :
    l.SomeReconsume ↔ ∃ p ∈ msgs, LockerOp.lastAck p.2.msgId ops = .reconsumeLater := by
  have hget : ∀ p ∈ msgs,
      l.statusMap.getD p.1 .consumeSuccess = LockerOp.lastAck p.2.msgId ops := by
    intro p hp
    rw [TreeMap.getD_eq_getD_getElem?, h.lastAck p hp]
    rfl
  constructor
  · rintro ⟨a, ha, hs⟩
    rw [TreeMap.mem_iff_isSome_getElem?] at ha
    obtain ⟨cs, hcs⟩ := Option.isSome_iff_exists.mp ha
    obtain ⟨p, hp, rfl⟩ := h.only a cs hcs
    exact ⟨p, hp, (hget p hp).symm.trans hs⟩
  · rintro ⟨p, hp, hs⟩
    obtain ⟨cs, hcs, -⟩ := h.settled p hp
    refine ⟨p.1, ?_, (hget p hp).trans hs⟩
    rw [TreeMap.mem_iff_isSome_getElem?, hcs]
    rfl

end Tracks

theorem tracks_after (hn : (msgs.map Prod.fst).Nodup) (ops : List LockerOp) :
    Tracks msgs group ops (after msgs group ops) := by
  induction ops using List.reverseRecOn with
  | nil => exact tracks_new
  | append_singleton ops op ih =>
    rw [after_concat]
    exact ih.apply hn op

/-! ## What a released batch has been through

A check that is allowed to run releases the batch exactly when everything is
settled, and then sets the aggregate status from the last acks. -/

/-- The aggregate of the last acks. -/
def aggregate (msgs : List (Addr × MQMessageExt)) (ops : List LockerOp) : ConsumeStatus :=
  if ∃ p ∈ msgs, lastAck p.2.msgId ops = .reconsumeLater
  then .reconsumeLater else .consumeSuccess

/-- `Tracks` says nothing about the two fields that a check writes. -/
theorem tracks_triggerCheck_iff {forced : Bool} {ops : List LockerOp}
    {l : ConsumerUnitLocker} :
    Tracks msgs group ops (l.triggerCheck forced) ↔ Tracks msgs group ops l := by
  obtain ⟨s, cs, h⟩ := triggerCheck_writes forced l
  rw [h]
  constructor <;> exact fun t => ⟨t.1, t.2, t.3, t.4, t.5, t.6⟩

theorem Tracks.check {ops : List LockerOp} {l : ConsumerUnitLocker}
    (h : Tracks msgs group ops l) (forced : Bool) :
    ((forced = true ∨ l.fetchedArr = []) ∧ (∀ p ∈ msgs, Settled p.2.msgId ops) ∧
        (l.triggerCheck forced).clientStatus = .msgConsumeAck ∧
        (l.triggerCheck forced).status = aggregate msgs ops) ∨
      (¬ ((forced = true ∨ l.fetchedArr = []) ∧ ∀ p ∈ msgs, Settled p.2.msgId ops) ∧
        l.triggerCheck forced = l) := by
  classical
  by_cases hc : (forced = true ∨ l.fetchedArr = []) ∧ ∀ p ∈ msgs, Settled p.2.msgId ops
  · have hcheck := triggerCheck_of_allAcked hc.1 (h.allAcked_iff.mpr hc.2)
    refine .inl ⟨hc.1, hc.2, ?_, ?_⟩
    · rw [hcheck]
    · rw [hcheck, aggregate]
      simp only [h.someReconsume_iff]
  · refine .inr ⟨hc, triggerCheck_of_not ?_⟩
    rw [h.allAcked_iff]
    rcases not_and_or.mp hc with hf | hs
    · left
      simpa using hf
    · exact .inr hs

section Released

variable (hn : (msgs.map Prod.fst).Nodup)
include hn

/-- An ack either finds the queue empty and every message settled, and releases
the batch, or leaves both status fields as they were. -/
theorem after_setMsgAck (ops : List LockerOp) (msgId : String) (s : ConsumeStatus) :
    let ops' := ops ++ [.setMsgAck msgId s]
    ((after msgs group ops).fetchedArr = [] ∧ (∀ p ∈ msgs, Settled p.2.msgId ops') ∧
        (after msgs group ops').clientStatus = .msgConsumeAck ∧
        (after msgs group ops').status = aggregate msgs ops') ∨
      (¬ ((after msgs group ops).fetchedArr = [] ∧ ∀ p ∈ msgs, Settled p.2.msgId ops') ∧
        (after msgs group ops').clientStatus = (after msgs group ops).clientStatus ∧
        (after msgs group ops').status = (after msgs group ops).status) := by
  intro ops'
  have ht : Tracks msgs group ops' ((after msgs group ops).ack msgId s) := by
    have := @tracks_after msgs group hn ops'
    rwa [after_concat] at this
  have hcheck := (tracks_triggerCheck_iff.mp ht).check false
  simp only [Bool.false_eq_true, false_or, setMsgStatus_fetchedArr] at hcheck
  rw [after_concat]
  rcases hcheck with h | ⟨hne, heq⟩
  · exact .inl h
  · refine .inr ⟨hne, ?_, ?_⟩
    · rw [apply, ack, heq, setMsgStatus_clientStatus]
    · rw [apply, ack, heq, setMsgStatus_status]

theorem after_unlock (ops : List LockerOp) :
    (after msgs group (ops ++ [.unlock])).clientStatus = .msgConsumeAck ∧
      (after msgs group (ops ++ [.unlock])).status = aggregate msgs (ops ++ [.unlock]) := by
  have ht : Tracks msgs group (ops ++ [.unlock]) (after msgs group ops).unlock := by
    have := @tracks_after msgs group hn (ops ++ [.unlock])
    rwa [after_concat] at this
  rw [after_concat]
  rcases (tracks_triggerCheck_iff.mp ht).check true with h | ⟨hne, -⟩
  · exact h.2.2
  · refine absurd ⟨.inl rfl, fun p _ => .inr ?_⟩ hne
    exact List.mem_append_right ops List.mem_cons_self

omit hn in
theorem after_getMsg (ops : List LockerOp) :
    after msgs group (ops ++ [.getMsg]) =
      { after msgs group ops with fetchedArr := (after msgs group ops).fetchedArr.drop 1 } := by
  rw [after_concat, apply_getMsg]

/-- A released batch has nothing left to settle. -/
theorem settled_of_released (ops : List LockerOp)
    (h : (after msgs group ops).clientStatus = .msgConsumeAck) :
    ∀ p ∈ msgs, Settled p.2.msgId ops := by
  induction ops using List.reverseRecOn with
  | nil => simp [after] at h
  | append_singleton ops op ih =>
    cases op with
    | getMsg =>
      rw [after_getMsg] at h
      exact fun p hp => (ih h p hp).append _
    | setMsgAck msgId s =>
      rcases @after_setMsgAck msgs group hn ops msgId s with h' | h'
      · exact h'.2.1
      · exact fun p hp => (ih (h'.2.1.symm.trans h) p hp).append _
    | unlock => exact fun p _ => .inr (List.mem_append_right ops List.mem_cons_self)

omit hn in
theorem acked_of_aggregate {ops : List LockerOp} (h : aggregate msgs ops = .consumeSuccess)
    {p : Addr × MQMessageExt} (hp : p ∈ msgs) :
    ∃ s ∈ acks p.2.msgId ops, s ≠ .reconsumeLater := by
  have hlast : lastAck p.2.msgId ops ≠ .reconsumeLater := by
    intro he
    rw [aggregate, if_pos ⟨p, hp, he⟩] at h
    exact absurd h (by simp)
  cases hl : (acks p.2.msgId ops).getLast? with
  | none => simp [lastAck, hl] at hlast
  | some s =>
    refine ⟨s, List.mem_of_getLast? hl, ?_⟩
    simpa [lastAck, hl] using hlast

/-- A batch that is released with CONSUME_SUCCESS had every message acked with
something other than RECONSUME_LATER. -/
theorem acked_of_success (ops : List LockerOp)
    (h : (after msgs group ops).status = .consumeSuccess) :
    ∀ p ∈ msgs, ∃ s ∈ acks p.2.msgId ops, s ≠ .reconsumeLater := by
  induction ops using List.reverseRecOn with
  | nil => simp [after] at h
  | append_singleton ops op ih =>
    have hih : (after msgs group ops).status = .consumeSuccess →
        ∀ p ∈ msgs, ∃ s ∈ acks p.2.msgId (ops ++ [op]), s ≠ .reconsumeLater := by
      intro h' p hp
      obtain ⟨s, hs, hne⟩ := ih h' p hp
      exact ⟨s, by rw [acks_append]; exact List.mem_append_left _ hs, hne⟩
    cases op with
    | getMsg =>
      rw [after_getMsg] at h
      exact hih h
    | setMsgAck msgId s =>
      rcases @after_setMsgAck msgs group hn ops msgId s with h' | h'
      · exact fun p hp => acked_of_aggregate (h'.2.2.2.symm.trans h) hp
      · exact hih (h'.2.2.symm.trans h)
    | unlock =>
      exact fun p hp => acked_of_aggregate ((after_unlock hn ops).2.symm.trans h) hp

/-- Without a forced unlock, a released batch has an empty queue and its status is
the aggregate of the last acks. -/
theorem quiet_of_released (ops : List LockerOp) (hu : .unlock ∉ ops)
    (h : (after msgs group ops).clientStatus = .msgConsumeAck) :
    (after msgs group ops).fetchedArr = [] ∧
      (after msgs group ops).status = aggregate msgs ops := by
  induction ops using List.reverseRecOn with
  | nil => simp [after] at h
  | append_singleton ops op ih =>
    have hu' : .unlock ∉ ops := fun hm => hu (List.mem_append_left _ hm)
    cases op with
    | getMsg =>
      rw [after_getMsg] at h ⊢
      obtain ⟨hq, hs⟩ := ih hu' h
      refine ⟨by simp [hq], hs.trans ?_⟩
      simp only [aggregate, lastAck_append_of_acks_nil (acks_getMsg _)]
    | setMsgAck msgId s =>
      have hq : (after msgs group (ops ++ [.setMsgAck msgId s])).fetchedArr =
          (after msgs group ops).fetchedArr := by
        rw [after_concat]
        simp [apply, ack]
      rcases @after_setMsgAck msgs group hn ops msgId s with h' | h'
      · exact ⟨hq.trans h'.1, h'.2.2.2⟩
      · -- it was released before this ack, so this ack found everything settled
        have hrel := h'.2.1.symm.trans h
        refine absurd ⟨(ih hu' hrel).1, fun p hp => ?_⟩ h'.1
        exact (settled_of_released hn ops hrel p hp).append _
    | unlock => exact absurd (List.mem_append_right ops List.mem_cons_self) hu

end Released

end ConsumerUnitLocker
end RocketmqProxy
