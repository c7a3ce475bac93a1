import RocketmqProxy.Locker

/-!
# What each operation of a batch record does

One lemma for each field an operation writes, in terms of lookups only.  Nothing
after this module unfolds the loops of `RocketmqProxy.Locker`, and nothing
depends on the order in which the pointer-keyed maps are walked.
-/

namespace RocketmqProxy
namespace ConsumerUnitLocker

open Std

/-- The message at `a` is filed under `msgId`. -/
def Filed (l : ConsumerUnitLocker) (msgId : String) (a : Addr) : Prop :=
  ∃ idMap, l.idMsgMap[msgId]? = some idMap ∧ a ∈ idMap

/-- The pointer the constructor makes for one message of the batch. -/
def ptr (group : String) (p : Addr × MQMessageExt) : MsgPtr :=
  ⟨p.1, MsgUnit.ofMsg p.2 group⟩

theorem getMsg_eq_some {l l' : ConsumerUnitLocker} {msg : MsgPtr}
    (h : l.getMsg = some (msg, l')) :
    ∃ rest, l.fetchedArr = msg :: rest ∧ l' = { l with fetchedArr := rest } := by
  unfold getMsg at h
  split at h
  · cases h
  · next unit rest hq =>
    obtain ⟨rfl, rfl⟩ := Prod.mk.inj (Option.some.inj h)
    exact ⟨rest, hq, rfl⟩

theorem getMsg_eq_none {l : ConsumerUnitLocker} (h : l.getMsg = none) : l.fetchedArr = [] := by
  unfold getMsg at h
  split at h
  · assumption
  · cases h

/-! ## The constructor -/

theorem filed_push (group : String) (l : ConsumerUnitLocker) (p : Addr × MQMessageExt)
    (msgId : String) (a : Addr) :
    (push group l p).Filed msgId a ↔
      l.Filed msgId a ∨ (p.1 = a ∧ p.2.msgId = msgId) := by
  have hnone : l.idMsgMap[p.2.msgId]? = none → (push group l p).idMsgMap =
      l.idMsgMap.insertIfNew p.2.msgId ((∅ : TreeMap Addr Int).insertIfNew p.1 1) := by
    intro h
    simp only [push, h]
  have hsome : ∀ q, l.idMsgMap[p.2.msgId]? = some q → (push group l p).idMsgMap =
      l.idMsgMap.insert p.2.msgId (q.insertIfNew p.1 1) := by
    intro q h
    simp only [push, h]
  by_cases hid : p.2.msgId = msgId
  · subst hid
    cases h : l.idMsgMap[p.2.msgId]? with
    | none =>
      rw [Filed, hnone h, TreeMapLoop.getElem?_insertIfNew, if_pos rfl, h]
      simp [Filed, h]
    | some q =>
      rw [Filed, hsome q h, TreeMap.getElem?_insert_self]
      simp [Filed, h, or_comm]
  · cases h : l.idMsgMap[p.2.msgId]? with
    | none =>
      rw [Filed, hnone h, TreeMapLoop.getElem?_insertIfNew, if_neg hid]
      simp [Filed, hid]
    | some q =>
      rw [Filed, hsome q h, TreeMap.getElem?_insert]
      simp [Filed, hid]

theorem foldl_push_fetchedArr (group : String) (msgs : List (Addr × MQMessageExt))
    (l : ConsumerUnitLocker) :
    (msgs.foldl (push group) l).fetchedArr = l.fetchedArr ++ msgs.map (ptr group) := by
  induction msgs generalizing l with
  | nil => simp
  | cons p msgs ih => rw [List.foldl_cons, ih]; simp [push, ptr]

theorem foldl_push_clientStatusMap (group : String) (msgs : List (Addr × MQMessageExt))
    (l : ConsumerUnitLocker) (a : Addr) :
    (msgs.foldl (push group) l).clientStatusMap[a]? =
      l.clientStatusMap[a]?.or
        (if a ∈ msgs.map Prod.fst then some .msgFetchFromBroker else none) := by
  induction msgs generalizing l with
  | nil => simp
  | cons p msgs ih =>
    have hpush : (push group l p).clientStatusMap =
        l.clientStatusMap.insertIfNew p.1 .msgFetchFromBroker := rfl
    rw [List.foldl_cons, ih, hpush, TreeMapLoop.getElem?_insertIfNew]
    by_cases hp : p.1 = a
    · rw [if_pos hp]
      cases l.clientStatusMap[a]? <;> simp [hp]
    · rw [if_neg hp]
      simp only [List.map_cons, List.mem_cons, Ne.symm hp, false_or]

theorem foldl_push_statusMap (group : String) (msgs : List (Addr × MQMessageExt))
    (l : ConsumerUnitLocker) (a : Addr) :
    (msgs.foldl (push group) l).statusMap[a]? =
      l.statusMap[a]?.or
        (if a ∈ msgs.map Prod.fst then some .reconsumeLater else none) := by
  induction msgs generalizing l with
  | nil => simp
  | cons p msgs ih =>
    have hpush : (push group l p).statusMap = l.statusMap.insertIfNew p.1 .reconsumeLater :=
      rfl
    rw [List.foldl_cons, ih, hpush, TreeMapLoop.getElem?_insertIfNew]
    by_cases hp : p.1 = a
    · rw [if_pos hp]
      cases l.statusMap[a]? <;> simp [hp]
    · rw [if_neg hp]
      simp only [List.map_cons, List.mem_cons, Ne.symm hp, false_or]

theorem filed_foldl_push (group : String) (msgs : List (Addr × MQMessageExt))
    (l : ConsumerUnitLocker) (msgId : String) (a : Addr) :
    (msgs.foldl (push group) l).Filed msgId a ↔
      l.Filed msgId a ∨ ∃ p ∈ msgs, p.1 = a ∧ p.2.msgId = msgId := by
  induction msgs generalizing l with
  | nil => simp
  | cons p msgs ih =>
    rw [List.foldl_cons, ih, filed_push]
    simp [or_assoc]

theorem foldl_push_rest (group : String) (msgs : List (Addr × MQMessageExt))
    (l : ConsumerUnitLocker) :
    (msgs.foldl (push group) l).reconsumeMap = l.reconsumeMap ∧
      (msgs.foldl (push group) l).status = l.status ∧
      (msgs.foldl (push group) l).clientStatus = l.clientStatus := by
  induction msgs generalizing l with
  | nil => exact ⟨rfl, rfl, rfl⟩
  | cons p msgs ih =>
    rw [List.foldl_cons]
    exact ih (push group l p)

section New

variable (msgs : List (Addr × MQMessageExt)) (group : String)

@[simp] theorem new_fetchedArr : (new msgs group).fetchedArr = msgs.map (ptr group) := by
  rw [new, foldl_push_fetchedArr]
  rfl

@[simp] theorem new_clientStatusMap (a : Addr) :
    (new msgs group).clientStatusMap[a]? =
      if a ∈ msgs.map Prod.fst then some .msgFetchFromBroker else none := by
  rw [new, foldl_push_clientStatusMap]
  simp [empty]

@[simp] theorem new_statusMap (a : Addr) :
    (new msgs group).statusMap[a]? =
      if a ∈ msgs.map Prod.fst then some .reconsumeLater else none := by
  rw [new, foldl_push_statusMap]
  simp [empty]

theorem filed_new (msgId : String) (a : Addr) :
    (new msgs group).Filed msgId a ↔ ∃ p ∈ msgs, p.1 = a ∧ p.2.msgId = msgId := by
  rw [new, filed_foldl_push]
  simp [Filed, empty]

@[simp] theorem new_reconsumeMap : (new msgs group).reconsumeMap = ∅ :=
  (foldl_push_rest group msgs empty).1

@[simp] theorem new_status : (new msgs group).status = .reconsumeLater :=
  (foldl_push_rest group msgs empty).2.1

@[simp] theorem new_clientStatus : (new msgs group).clientStatus = .msgFetchFromBroker :=
  (foldl_push_rest group msgs empty).2.2

end New

/-! ## `setMsgStatus` -/

section SetMsgStatus

variable (msgId : String) (s : ConsumeStatus) (cs : ClientMsgConsumeStatus)

theorem foldl_setOne_statusMap (ps : List (Addr × Int)) (l : ConsumerUnitLocker) :
    (ps.foldl (setOne msgId s cs) l).statusMap =
      ps.foldl (fun m p => m.insert p.1 s) l.statusMap := by
  induction ps generalizing l with
  | nil => rfl
  | cons p ps ih => rw [List.foldl_cons, List.foldl_cons, ih]; rfl

theorem foldl_setOne_clientStatusMap (ps : List (Addr × Int)) (l : ConsumerUnitLocker) :
    (ps.foldl (setOne msgId s cs) l).clientStatusMap =
      ps.foldl (fun m p => m.insert p.1 cs) l.clientStatusMap := by
  induction ps generalizing l with
  | nil => rfl
  | cons p ps ih => rw [List.foldl_cons, List.foldl_cons, ih]; rfl

theorem mem_foldl_setOne_reconsumeMap (ps : List (Addr × Int)) (l : ConsumerUnitLocker)
    (x : String) :
    x ∈ (ps.foldl (setOne msgId s cs) l).reconsumeMap ↔
      x ∈ l.reconsumeMap ∨ (x = msgId ∧ s = .reconsumeLater ∧ ps ≠ []) := by
  induction ps generalizing l with
  | nil => simp
  | cons p ps ih =>
    rw [List.foldl_cons, ih]
    by_cases hs : s = .reconsumeLater
    · simp [setOne, hs]
      tauto
    · simp [setOne, hs]

theorem foldl_setOne_rest (ps : List (Addr × Int)) (l : ConsumerUnitLocker) :
    (ps.foldl (setOne msgId s cs) l).idMsgMap = l.idMsgMap ∧
      (ps.foldl (setOne msgId s cs) l).fetchedArr = l.fetchedArr ∧
      (ps.foldl (setOne msgId s cs) l).status = l.status ∧
      (ps.foldl (setOne msgId s cs) l).clientStatus = l.clientStatus := by
  induction ps generalizing l with
  | nil => exact ⟨rfl, rfl, rfl, rfl⟩
  | cons p ps ih =>
    rw [List.foldl_cons]
    exact ih (setOne msgId s cs l p)

variable (l : ConsumerUnitLocker)

theorem setMsgStatus_statusMap (a : Addr) [Decidable (l.Filed msgId a)] :
    (l.setMsgStatus msgId s cs).2.statusMap[a]? =
      if l.Filed msgId a then some s else l.statusMap[a]? := by
  cases h : l.idMsgMap[msgId]? with
  | none => simp [setMsgStatus, Filed, h]
  | some idMap =>
    simp only [setMsgStatus, h, foldl_setOne_statusMap, TreeMapLoop.getElem?_foldl_insert]
    simp [Filed, h]

theorem setMsgStatus_clientStatusMap (a : Addr) [Decidable (l.Filed msgId a)] :
    (l.setMsgStatus msgId s cs).2.clientStatusMap[a]? =
      if l.Filed msgId a then some cs else l.clientStatusMap[a]? := by
  cases h : l.idMsgMap[msgId]? with
  | none => simp [setMsgStatus, Filed, h]
  | some idMap =>
    simp only [setMsgStatus, h, foldl_setOne_clientStatusMap,
      TreeMapLoop.getElem?_foldl_insert]
    simp [Filed, h]

theorem setMsgStatus_found :
    (l.setMsgStatus msgId s cs).1 = true ↔ ∃ a, l.Filed msgId a := by
  cases h : l.idMsgMap[msgId]? with
  | none => simp [setMsgStatus, Filed, h]
  | some idMap =>
    simp [setMsgStatus, Filed, h, TreeMap.isEmpty_eq_false_iff_exists_mem]

theorem mem_setMsgStatus_reconsumeMap (x : String) :
    x ∈ (l.setMsgStatus msgId s cs).2.reconsumeMap ↔
      x ∈ l.reconsumeMap ∨
        (x = msgId ∧ s = .reconsumeLater ∧ ∃ a, l.Filed msgId a) := by
  rw [← setMsgStatus_found msgId s cs]
  cases h : l.idMsgMap[msgId]? with
  | none => simp [setMsgStatus, h]
  | some idMap =>
    simp [setMsgStatus, h, mem_foldl_setOne_reconsumeMap, ← List.isEmpty_eq_false_iff]

@[simp] theorem setMsgStatus_idMsgMap :
    (l.setMsgStatus msgId s cs).2.idMsgMap = l.idMsgMap := by
  cases h : l.idMsgMap[msgId]? with
  | none => simp [setMsgStatus, h]
  | some idMap => simpa [setMsgStatus, h] using (foldl_setOne_rest msgId s cs _ l).1

@[simp] theorem setMsgStatus_fetchedArr :
    (l.setMsgStatus msgId s cs).2.fetchedArr = l.fetchedArr := by
  cases h : l.idMsgMap[msgId]? with
  | none => simp [setMsgStatus, h]
  | some idMap => simpa [setMsgStatus, h] using (foldl_setOne_rest msgId s cs _ l).2.1

@[simp] theorem setMsgStatus_status :
    (l.setMsgStatus msgId s cs).2.status = l.status := by
  cases h : l.idMsgMap[msgId]? with
  | none => simp [setMsgStatus, h]
  | some idMap => simpa [setMsgStatus, h] using (foldl_setOne_rest msgId s cs _ l).2.2.1

@[simp] theorem setMsgStatus_clientStatus :
    (l.setMsgStatus msgId s cs).2.clientStatus = l.clientStatus := by
  cases h : l.idMsgMap[msgId]? with
  | none => simp [setMsgStatus, h]
  | some idMap => simpa [setMsgStatus, h] using (foldl_setOne_rest msgId s cs _ l).2.2.2

end SetMsgStatus

/-! ## `triggerCheck`

The scan sees every message settled exactly when `AllAcked` holds, and then it
leaves RECONSUME_LATER exactly when `SomeReconsume` holds. -/

def AllAcked (l : ConsumerUnitLocker) : Prop :=
  ∀ (a : Addr) (cs : ClientMsgConsumeStatus),
    l.clientStatusMap[a]? = some cs → cs = .msgConsumeAck

def SomeReconsume (l : ConsumerUnitLocker) : Prop :=
  ∃ a, a ∈ l.clientStatusMap ∧ l.statusMap.getD a .consumeSuccess = .reconsumeLater

theorem scan_snd (st : TreeMap Addr ConsumeStatus)
    (ps : List (Addr × ClientMsgConsumeStatus)) (s : ConsumeStatus) :
    (scan st ps s .msgConsumeAck).2 = .msgConsumeAck ↔ ∀ p ∈ ps, p.2 = .msgConsumeAck := by
  induction ps generalizing s with
  | nil => simp [scan]
  | cons p ps ih =>
    by_cases hp : p.2 = .msgConsumeAck
    · simp [scan, hp, ih]
    · simp [scan, hp]

theorem scan_fst (st : TreeMap Addr ConsumeStatus)
    (ps : List (Addr × ClientMsgConsumeStatus)) (s : ConsumeStatus)
    (h : ∀ p ∈ ps, p.2 = .msgConsumeAck) :
    (scan st ps s .msgConsumeAck).1 =
      if ∃ p ∈ ps, st.getD p.1 .consumeSuccess = .reconsumeLater
      then .reconsumeLater else s := by
  induction ps generalizing s with
  | nil => simp [scan]
  | cons p ps ih =>
    have hp : p.2 = .msgConsumeAck := h p List.mem_cons_self
    have hrest : ∀ q ∈ ps, q.2 = .msgConsumeAck := fun q hq => h q (List.mem_cons_of_mem p hq)
    simp only [scan, hp, ne_eq, not_true_eq_false, if_false, ih _ hrest,
      List.mem_cons, exists_eq_or_imp]
    by_cases hex : ∃ q ∈ ps, st.getD q.1 .consumeSuccess = .reconsumeLater
    · rw [if_pos hex, if_pos (Or.inr hex)]
    · rw [if_neg hex]
      simp only [hex, or_false]

theorem forall_mem_toList_iff (l : ConsumerUnitLocker) :
    (∀ p ∈ l.clientStatusMap.toList, p.2 = .msgConsumeAck) ↔ l.AllAcked := by
  constructor
  · intro h a cs ha
    exact h (a, cs) (TreeMap.mem_toList_iff_getElem?_eq_some.mpr ha)
  · intro h p hp
    exact h p.1 p.2 (TreeMap.mem_toList_iff_getElem?_eq_some.mp hp)

theorem exists_mem_toList_iff (l : ConsumerUnitLocker) :
    (∃ p ∈ l.clientStatusMap.toList, l.statusMap.getD p.1 .consumeSuccess = .reconsumeLater) ↔
      l.SomeReconsume := by
  constructor
  · rintro ⟨p, hp, hs⟩
    refine ⟨p.1, ?_, hs⟩
    rw [TreeMap.mem_iff_isSome_getElem?, TreeMap.mem_toList_iff_getElem?_eq_some.mp hp]
    rfl
  · rintro ⟨a, ha, hs⟩
    rw [TreeMap.mem_iff_isSome_getElem?] at ha
    obtain ⟨cs, hcs⟩ := Option.isSome_iff_exists.mp ha
    exact ⟨(a, cs), TreeMap.mem_toList_iff_getElem?_eq_some.mpr hcs, hs⟩

/-- A check that finds every message settled releases the batch. -/
theorem triggerCheck_of_allAcked {forced : Bool} {l : ConsumerUnitLocker}
    [Decidable l.SomeReconsume] (hf : forced = true ∨ l.fetchedArr = []) (h : l.AllAcked) :
    l.triggerCheck forced =
      { l with
        status := if l.SomeReconsume then .reconsumeLater else .consumeSuccess
        clientStatus := .msgConsumeAck } := by
  have hgo : (!forced && !l.fetchedArr.isEmpty) = false := by
    rcases hf with rfl | hf
    · rfl
    · simp [hf]
  have hall := (forall_mem_toList_iff l).mpr h
  have hsnd := (scan_snd l.statusMap l.clientStatusMap.toList .consumeSuccess).mpr hall
  simp only [triggerCheck, hgo, Bool.false_eq_true, if_false, hsnd, if_true,
    scan_fst _ _ _ hall, exists_mem_toList_iff]

theorem triggerCheck_of_not {forced : Bool} {l : ConsumerUnitLocker}
    (h : (forced = false ∧ l.fetchedArr ≠ []) ∨ ¬ l.AllAcked) : l.triggerCheck forced = l := by
  rcases h with ⟨rfl, hne⟩ | h
  · simp [triggerCheck, hne]
  · rw [← forall_mem_toList_iff, ← scan_snd l.statusMap _ .consumeSuccess] at h
    simp only [triggerCheck, h, if_false, ite_self]

section Trigger

variable (forced : Bool) (l : ConsumerUnitLocker)

/-- Whatever it finds, the check writes nothing but `status` and `clientStatus`. -/
theorem triggerCheck_writes :
    ∃ s cs, l.triggerCheck forced = { l with status := s, clientStatus := cs } := by
  unfold triggerCheck
  split
  · exact ⟨l.status, l.clientStatus, rfl⟩
  · dsimp only
    split
    · exact ⟨_, _, rfl⟩
    · exact ⟨l.status, l.clientStatus, rfl⟩

@[simp] theorem triggerCheck_statusMap : (l.triggerCheck forced).statusMap = l.statusMap := by
  obtain ⟨s, cs, h⟩ := triggerCheck_writes forced l
  rw [h]

@[simp] theorem triggerCheck_clientStatusMap :
    (l.triggerCheck forced).clientStatusMap = l.clientStatusMap := by
  obtain ⟨s, cs, h⟩ := triggerCheck_writes forced l
  rw [h]

@[simp] theorem triggerCheck_idMsgMap : (l.triggerCheck forced).idMsgMap = l.idMsgMap := by
  obtain ⟨s, cs, h⟩ := triggerCheck_writes forced l
  rw [h]

@[simp] theorem triggerCheck_fetchedArr :
    (l.triggerCheck forced).fetchedArr = l.fetchedArr := by
  obtain ⟨s, cs, h⟩ := triggerCheck_writes forced l
  rw [h]

@[simp] theorem triggerCheck_reconsumeMap :
    (l.triggerCheck forced).reconsumeMap = l.reconsumeMap := by
  obtain ⟨s, cs, h⟩ := triggerCheck_writes forced l
  rw [h]

theorem triggerCheck_released (h : l.clientStatus = .msgConsumeAck) :
    (l.triggerCheck forced).clientStatus = .msgConsumeAck := by
  unfold triggerCheck
  split
  · exact h
  · dsimp only
    split
    · assumption
    · exact h

end Trigger

/-! ## `unlockAll` on one batch -/

section Unlock

variable (ps : List (Addr × ClientMsgConsumeStatus)) (l : ConsumerUnitLocker) (a : Addr)

theorem foldl_unlockOne_clientStatusMap :
    (ps.foldl unlockOne l).clientStatusMap[a]? =
      if ∃ p ∈ ps, p.1 = a ∧ p.2 ≠ .msgConsumeAck then some .msgConsumeAck
      else l.clientStatusMap[a]? := by
  have hmap : (ps.foldl unlockOne l).clientStatusMap =
      ps.foldl (fun m p => if p.2 ≠ .msgConsumeAck then m.insert p.1 .msgConsumeAck else m)
        l.clientStatusMap := by
    refine (List.foldl_hom clientStatusMap fun l p => ?_).symm
    unfold unlockOne
    split <;> rfl
  rw [hmap]
  exact TreeMapLoop.getElem?_foldl_insert_if (fun p => p.2 ≠ .msgConsumeAck) ps _ _ a

theorem foldl_unlockOne_statusMap :
    (ps.foldl unlockOne l).statusMap[a]? =
      if ∃ p ∈ ps, p.1 = a ∧ p.2 ≠ .msgConsumeAck then some .reconsumeLater
      else l.statusMap[a]? := by
  have hmap : (ps.foldl unlockOne l).statusMap =
      ps.foldl (fun m p => if p.2 ≠ .msgConsumeAck then m.insert p.1 .reconsumeLater else m)
        l.statusMap := by
    refine (List.foldl_hom statusMap fun l p => ?_).symm
    unfold unlockOne
    split <;> rfl
  rw [hmap]
  exact TreeMapLoop.getElem?_foldl_insert_if (fun p => p.2 ≠ .msgConsumeAck) ps _ _ a

theorem foldl_unlockOne_rest :
    (ps.foldl unlockOne l).idMsgMap = l.idMsgMap ∧
      (ps.foldl unlockOne l).fetchedArr = l.fetchedArr ∧
      (ps.foldl unlockOne l).reconsumeMap = l.reconsumeMap := by
  induction ps generalizing l with
  | nil => exact ⟨rfl, rfl, rfl⟩
  | cons p ps ih =>
    have hp : (unlockOne l p).idMsgMap = l.idMsgMap ∧
        (unlockOne l p).fetchedArr = l.fetchedArr ∧
        (unlockOne l p).reconsumeMap = l.reconsumeMap := by
      unfold unlockOne
      split <;> exact ⟨rfl, rfl, rfl⟩
    obtain ⟨h₁, h₂, h₃⟩ := ih (unlockOne l p)
    exact ⟨h₁.trans hp.1, h₂.trans hp.2.1, h₃.trans hp.2.2⟩

theorem exists_pending_iff :
    (∃ p ∈ l.clientStatusMap.toList, p.1 = a ∧ p.2 ≠ .msgConsumeAck) ↔
      l.clientStatusMap[a]? = some .msgFetchFromBroker := by
  constructor
  · rintro ⟨p, hp, rfl, hne⟩
    rw [TreeMap.mem_toList_iff_getElem?_eq_some.mp hp]
    cases hcs : p.2 with
    | msgFetchFromBroker => rfl
    | msgConsumeAck => exact absurd hcs hne
  · intro h
    exact ⟨(a, .msgFetchFromBroker), TreeMap.mem_toList_iff_getElem?_eq_some.mpr h, rfl,
      by simp⟩

/-- Every message that was pending is settled. -/
theorem unlock_clientStatusMap :
    l.unlock.clientStatusMap[a]? =
      if l.clientStatusMap[a]? = some .msgFetchFromBroker then some .msgConsumeAck
      else l.clientStatusMap[a]? := by
  rw [unlock, triggerCheck_clientStatusMap, foldl_unlockOne_clientStatusMap]
  simp only [exists_pending_iff]

/-- Every message that was pending gets RECONSUME_LATER in `statusMap`. -/
theorem unlock_statusMap :
    l.unlock.statusMap[a]? =
      if l.clientStatusMap[a]? = some .msgFetchFromBroker then some .reconsumeLater
      else l.statusMap[a]? := by
  rw [unlock, triggerCheck_statusMap, foldl_unlockOne_statusMap]
  simp only [exists_pending_iff]

@[simp] theorem unlock_idMsgMap : l.unlock.idMsgMap = l.idMsgMap := by
  rw [unlock, triggerCheck_idMsgMap]
  exact (foldl_unlockOne_rest _ l).1

@[simp] theorem unlock_fetchedArr : l.unlock.fetchedArr = l.fetchedArr := by
  rw [unlock, triggerCheck_fetchedArr]
  exact (foldl_unlockOne_rest _ l).2.1

/-- `reconsumeMap` is not told. -/
@[simp] theorem unlock_reconsumeMap : l.unlock.reconsumeMap = l.reconsumeMap := by
  rw [unlock, triggerCheck_reconsumeMap]
  exact (foldl_unlockOne_rest _ l).2.2

theorem unlock_allAcked : l.unlock.AllAcked := by
  intro a cs ha
  rw [unlock_clientStatusMap] at ha
  split at ha
  · exact (Option.some.inj ha).symm
  · next hne =>
    cases cs with
    | msgFetchFromBroker => exact absurd ha hne
    | msgConsumeAck => rfl

/-- The check made by `unlock` finds every message settled, so it releases the
batch. -/
theorem unlock_releases [Decidable l.unlock.SomeReconsume] :
    l.unlock.clientStatus = .msgConsumeAck ∧
      l.unlock.status =
        if l.unlock.SomeReconsume then .reconsumeLater else .consumeSuccess := by
  classical
  have hall : (l.clientStatusMap.toList.foldl unlockOne l).AllAcked := by
    have hunlock := l.unlock_allAcked
    rwa [AllAcked, unlock, triggerCheck_clientStatusMap] at hunlock
  have hcheck := @triggerCheck_of_allAcked true _ _ (Or.inl rfl) hall
  have hsome : l.unlock.SomeReconsume ↔
      (l.clientStatusMap.toList.foldl unlockOne l).SomeReconsume := by
    simp only [SomeReconsume, unlock, triggerCheck_clientStatusMap, triggerCheck_statusMap]
  constructor
  · rw [unlock, hcheck]
  · simp only [hsome]
    rw [unlock, hcheck]

end Unlock

end ConsumerUnitLocker
end RocketmqProxy
