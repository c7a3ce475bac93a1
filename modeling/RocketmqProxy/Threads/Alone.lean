import RocketmqProxy.Locker.Spec
import RocketmqProxy.Threads.Locks

/-!
# A body that nothing interrupts

When no other thread comes in between, the steps of a body compute what the operations of
`RocketmqProxy.Locker` compute in one.
-/

namespace RocketmqProxy

open Std (TreeMap)
open ConsumerUnitLocker

/-- What the action leaves of the record. -/
def Action.apply (l : ConsumerUnitLocker) : Action → ConsumerUnitLocker
  | .write r => l.write r
  | .pop => { l with fetchedArr := l.fetchedArr.tail }
  | .none | .found | .lockMtx | .unlockMtx | .notify => l

theorem UnitThreads.Acts.record {c : WorkRef} {w w' : Work} {b : BatchRef}
    {batch batch' : Batch} {action : Action} {obs : List ThreadObs}
    (h : Acts c w b batch action w' batch' obs) :
    batch'.record = action.apply batch.record := by
  cases h with
  | none | write | found | lockMtx | unlockMtx => rfl
  | popNone hg =>
    have hq := getMsg_eq_none hg
    rw [Action.apply, hq, List.tail_nil, ← hq]
  | pop hg =>
    obtain ⟨rest, hq, rfl⟩ := getMsg_eq_some hg
    rw [Action.apply, hq]
    rfl
  | notify => exact wake_record batch

/-- One step of the body. -/
def bodyStep (x : ConsumerUnitLocker × BodyPc) : ConsumerUnitLocker × BodyPc :=
  (x.2.action.apply x.1, x.2.next x.1)

/-- The body gets from the one to the other by its own steps. -/
abbrev Alone : ConsumerUnitLocker × BodyPc → ConsumerUnitLocker × BodyPc → Prop :=
  Relation.ReflTransGen fun x y => bodyStep x = y

section Bodies

variable {l : ConsumerUnitLocker} {msgId : String} {st : ConsumeStatus}

/-! ## `setMsgStatus` -/

theorem keys_of_toList {α : Type} {m : TreeMap Addr α} {pre rest : List (Addr × α)}
    {p : Addr × α} (hl : m.toList = pre ++ p :: rest) :
    m.keys = pre.map Prod.fst ++ p.1 :: rest.map Prod.fst := by
  rw [← TreeMap.map_fst_toList_eq_keys, hl, List.map_append, List.map_cons]

theorem setNext_eq {idMap : TreeMap Addr Int} {pre rest : List (Addr × Int)} {p : Addr × Int}
    (hid : l.idMsgMap[msgId]? = some idMap) (hl : idMap.toList = pre ++ p :: rest) :
    BodyPc.setNext l msgId st p.1 =
      rest.head?.elim .found fun q => .setStatus msgId st q.1 := by
  have hnext := Iterator.next_elim (keys_of_toList hl) .found (BodyPc.setStatus msgId st)
  rw [List.head?_map] at hnext
  rw [BodyPc.setNext, hid, Option.bind_some]
  calc
    _ = (Iterator.next idMap p.1).elim .found fun q => BodyPc.setStatus msgId st q.1 := by
      cases Iterator.next idMap p.1 <;> rfl
    _ = _ := hnext
    _ = _ := by cases rest <;> rfl

theorem setOne_alone (l : ConsumerUnitLocker) (msgId : String) (st : ConsumeStatus)
    (p : Addr × Int) :
    Alone (l, .setStatus msgId st p.1)
      (setOne msgId st .msgConsumeAck l p, BodyPc.setNext l msgId st p.1) := by
  have hstatus : bodyStep (l, .setStatus msgId st p.1) =
      (l.write (.statusMap p.1 st), .setClientStatus msgId st p.1) := rfl
  have hclient : bodyStep (l.write (.statusMap p.1 st), .setClientStatus msgId st p.1) =
      ((l.write (.statusMap p.1 st)).write (.clientStatusMap p.1 .msgConsumeAck),
        if st = .reconsumeLater then .setReconsume msgId st p.1
        else BodyPc.setNext l msgId st p.1) := rfl
  rw [setOne_eq_write]
  by_cases hst : st = .reconsumeLater
  · rw [if_pos hst] at hclient ⊢
    exact .head hstatus (.head hclient (.single rfl))
  · rw [if_neg hst] at hclient ⊢
    exact .head hstatus (.single hclient)

/-- The loop, from the message it stands at to its end. -/
theorem set_loop_alone {idMap : TreeMap Addr Int} {rest : List (Addr × Int)} :
    ∀ (l : ConsumerUnitLocker) (pre : List (Addr × Int)) (p : Addr × Int),
      l.idMsgMap[msgId]? = some idMap → idMap.toList = pre ++ p :: rest →
      Alone (l, .setStatus msgId st p.1)
        ((p :: rest).foldl (setOne msgId st .msgConsumeAck) l, .found) := by
  induction rest with
  | nil =>
    intro l pre p hid hl
    have hone := setOne_alone l msgId st p
    rwa [setNext_eq hid hl] at hone
  | cons q rest ih =>
    intro l pre p hid hl
    have hone := setOne_alone l msgId st p
    rw [setNext_eq hid hl] at hone
    exact hone.trans (ih _ (pre ++ [p]) q hid (by rw [hl, List.append_assoc]; rfl))

theorem setMsgStatus_alone :
    Alone (l, .find msgId st) ((l.setMsgStatus msgId st .msgConsumeAck).2, .check false) := by
  cases hid : l.idMsgMap[msgId]? with
  | none =>
    have hfind : bodyStep (l, .find msgId st) = (l, .check false) := by
      simp only [bodyStep, BodyPc.action, BodyPc.next, Action.apply, hid, Option.bind_none]
    rw [setMsgStatus, hid]
    exact .single hfind
  | some idMap =>
    have hset : (l.setMsgStatus msgId st .msgConsumeAck).2 =
        idMap.toList.foldl (setOne msgId st .msgConsumeAck) l := by
      rw [setMsgStatus, hid]
    rw [hset]
    cases hl : idMap.toList with
    | nil =>
      have hfind : bodyStep (l, .find msgId st) = (l, .check false) := by
        simp only [bodyStep, BodyPc.action, BodyPc.next, Action.apply, hid, Option.bind_some,
          Iterator.first, hl, List.head?_nil]
      exact .single hfind
    | cons p rest =>
      have hfind : bodyStep (l, .find msgId st) = (l, .setStatus msgId st p.1) := by
        simp only [bodyStep, BodyPc.action, BodyPc.next, Action.apply, hid, Option.bind_some,
          Iterator.first, hl, List.head?_cons]
      exact .head hfind ((set_loop_alone l [] p hid hl).trans (.single rfl))

/-! ## `triggerCheck` -/

/-- The end of `triggerCheck`, from what its loop has left in `s` and `cs`. -/
def settle (l : ConsumerUnitLocker) (r : ConsumeStatus × ClientMsgConsumeStatus) :
    ConsumerUnitLocker :=
  if r.2 = .msgConsumeAck then { l with status := r.1, clientStatus := r.2 } else l

theorem release_alone (s : ConsumeStatus) :
    Alone (l, .release s) (settle l (s, .msgConsumeAck), .iterNext) :=
  .head rfl (.head rfl (.single rfl))

theorem scan_next {pre rest : List (Addr × ClientMsgConsumeStatus)}
    {p : Addr × ClientMsgConsumeStatus} (hl : l.clientStatusMap.toList = pre ++ p :: rest)
    (hp : p.2 = .msgConsumeAck) (s : ConsumeStatus) :
    bodyStep (l, .scan p.1 s) =
      let s := if l.statusMap.getD p.1 .consumeSuccess = .reconsumeLater then .reconsumeLater
        else s
      (l, rest.head?.elim (.release s) fun q => .scan q.1 s) := by
  have hget : l.clientStatusMap[p.1]? = some p.2 :=
    TreeMap.mem_toList_iff_getElem?_eq_some.mp (by rw [hl]; simp)
  have hnext (s : ConsumeStatus) :=
    Iterator.next_elim (keys_of_toList hl) (BodyPc.release s) fun q => .scan q s
  simp only [List.head?_map, Option.elim_map] at hnext
  simp only [bodyStep, BodyPc.action, BodyPc.next, Action.apply, hget, hp, ne_eq,
    not_true_eq_false, if_false]
  refine congrArg (Prod.mk l) (Eq.trans ?_ (hnext _))
  cases Iterator.next l.clientStatusMap p.1 <;> rfl

/-- The loop, from the message it stands at. -/
theorem scan_alone {rest : List (Addr × ClientMsgConsumeStatus)} :
    ∀ (pre : List (Addr × ClientMsgConsumeStatus)) (p : Addr × ClientMsgConsumeStatus)
      (s : ConsumeStatus) (cs : ClientMsgConsumeStatus),
      l.clientStatusMap.toList = pre ++ p :: rest →
      Alone (l, .scan p.1 s) (settle l (scan l.statusMap (p :: rest) s cs), .iterNext) := by
  have hbreak {pre rest : List (Addr × ClientMsgConsumeStatus)}
      {p : Addr × ClientMsgConsumeStatus} (s : ConsumeStatus) (cs : ClientMsgConsumeStatus)
      (hl : l.clientStatusMap.toList = pre ++ p :: rest) (hp : p.2 ≠ .msgConsumeAck) :
      Alone (l, .scan p.1 s) (settle l (scan l.statusMap (p :: rest) s cs), .iterNext) := by
    have hget : l.clientStatusMap[p.1]? = some p.2 :=
      TreeMap.mem_toList_iff_getElem?_eq_some.mp (by rw [hl]; simp)
    refine .single ?_
    rw [scan, if_pos hp, settle, if_neg hp, bodyStep, BodyPc.next, hget, if_pos (by simpa using hp)]
    rfl
  induction rest with
  | nil =>
    intro pre p s cs hl
    by_cases hp : p.2 = .msgConsumeAck
    · rw [scan, if_neg (not_not.mpr hp), scan, hp]
      exact .head (scan_next hl hp s) (release_alone _)
    · exact hbreak s cs hl hp
  | cons q rest ih =>
    intro pre p s cs hl
    by_cases hp : p.2 = .msgConsumeAck
    · rw [scan, if_neg (not_not.mpr hp)]
      exact .head (scan_next hl hp s) (ih (pre ++ [p]) q _ _ (by rw [hl, List.append_assoc]; rfl))
    · exact hbreak s cs hl hp

theorem triggerCheck_alone (forced : Bool) :
    Alone (l, .check forced) (l.triggerCheck forced, .iterNext) := by
  rw [triggerCheck]
  by_cases hq : (!forced && !l.fetchedArr.isEmpty) = true
  · rw [if_pos hq]
    refine .single ?_
    rw [bodyStep, BodyPc.next, if_pos hq]
    rfl
  · rw [if_neg hq]
    cases hl : l.clientStatusMap.toList with
    | nil =>
      have hcheck : bodyStep (l, .check forced) = (l, .release .consumeSuccess) := by
        rw [bodyStep, BodyPc.next, if_neg hq, Iterator.first, hl]
        rfl
      exact .head hcheck (release_alone _)
    | cons p rest =>
      have hcheck : bodyStep (l, .check forced) = (l, .scan p.1 .consumeSuccess) := by
        rw [bodyStep, BodyPc.next, if_neg hq, Iterator.first, hl]
        rfl
      exact .head hcheck (scan_alone [] p _ _ hl)

/-- `setMsgAck` in one batch. -/
theorem ack_alone : Alone (l, .find msgId st) (l.ack msgId st, .iterNext) :=
  setMsgStatus_alone.trans (triggerCheck_alone false)

/-! ## `unlockAll` -/

theorem unlockNext_eq {pre rest : List Addr} {a : Addr}
    (hk : l.clientStatusMap.keys = pre ++ a :: rest) :
    BodyPc.unlockNext l a = rest.head?.elim (.check true) .unlockTest := by
  rw [BodyPc.unlockNext, ← Iterator.next_elim hk]
  cases Iterator.next l.clientStatusMap a <;> rfl

theorem unlockOne_keys {p : Addr × ClientMsgConsumeStatus} (hp : p.1 ∈ l.clientStatusMap) :
    (unlockOne l p).clientStatusMap.keys = l.clientStatusMap.keys := by
  unfold unlockOne
  split
  · exact Iterator.keys_insert hp _
  · rfl

theorem unlockOne_alone {pre rest : List Addr} {p : Addr × ClientMsgConsumeStatus}
    (hk : l.clientStatusMap.keys = pre ++ p.1 :: rest)
    (hp : l.clientStatusMap[p.1]? = some p.2) :
    Alone (l, .unlockTest p.1)
      (unlockOne l p, rest.head?.elim (.check true) .unlockTest) := by
  have hmem : p.1 ∈ l.clientStatusMap := TreeMap.mem_iff_isSome_getElem?.mpr (by simp [hp])
  have htest : bodyStep (l, .unlockTest p.1) =
      (l, if p.2 ≠ .msgConsumeAck then .unlockClientStatus p.1 else BodyPc.unlockNext l p.1) := by
    simp only [bodyStep, BodyPc.action, BodyPc.next, Action.apply, hp, ne_eq, Option.some.injEq]
  by_cases hack : p.2 = .msgConsumeAck
  · rw [if_neg (not_not.mpr hack), unlockNext_eq hk] at htest
    rw [unlockOne, if_neg (not_not.mpr hack)]
    exact .single htest
  · rw [if_pos hack] at htest
    have hclient : bodyStep (l, .unlockClientStatus p.1) =
        (l.write (.clientStatusMap p.1 .msgConsumeAck), .unlockStatus p.1) := rfl
    have hkeys : (l.write (.clientStatusMap p.1 .msgConsumeAck)).clientStatusMap.keys =
        pre ++ p.1 :: rest := (Iterator.keys_insert hmem _).trans hk
    refine .head htest (.head hclient (.single ?_))
    rw [bodyStep, BodyPc.next, unlockNext_eq hkeys, unlockOne, if_pos hack]
    rfl

/-- The loop, from the message it stands at. -/
theorem unlock_loop_alone {rest : List (Addr × ClientMsgConsumeStatus)} :
    ∀ (l : ConsumerUnitLocker) (pre : List Addr) (p : Addr × ClientMsgConsumeStatus),
      l.clientStatusMap.keys = pre ++ (p :: rest).map Prod.fst →
      (∀ q ∈ p :: rest, l.clientStatusMap[q.1]? = some q.2) →
      Alone (l, .unlockTest p.1) ((p :: rest).foldl unlockOne l, .check true) := by
  induction rest with
  | nil =>
    intro l pre p hk hv
    exact unlockOne_alone hk (hv p List.mem_cons_self)
  | cons q rest ih =>
    intro l pre p hk hv
    have hp := hv p List.mem_cons_self
    have hmem : p.1 ∈ l.clientStatusMap := TreeMap.mem_iff_isSome_getElem?.mpr (by simp [hp])
    refine (unlockOne_alone hk hp).trans (ih _ (pre ++ [p.1]) q ?_ fun r hr => ?_)
    · rw [unlockOne_keys hmem, hk, List.append_assoc]
      rfl
    · -- the keys are distinct, so the write at `p` leaves the entries to come
      have hne : p.1 ≠ r.1 := by
        have hnodup := TreeMap.nodup_keys (t := l.clientStatusMap)
        rw [hk, List.map_cons] at hnodup
        have hnot := (List.nodup_cons.mp (List.nodup_append.mp hnodup).2.1).1
        rintro heq
        exact hnot (heq ▸ List.mem_map_of_mem hr)
      have hr' := hv r (List.mem_cons_of_mem _ hr)
      unfold unlockOne
      split
      · rw [TreeMap.getElem?_insert, if_neg (by simpa using hne), hr']
      · exact hr'

theorem unlock_alone : Alone (l, .unlockBegin) (l.unlock, .iterNext) := by
  refine Relation.ReflTransGen.trans ?_ (triggerCheck_alone true)
  cases hl : l.clientStatusMap.toList with
  | nil =>
    have hbegin : bodyStep (l, .unlockBegin) = (l, .check true) := by
      rw [bodyStep, BodyPc.next, Iterator.first, hl]
      rfl
    exact .single hbegin
  | cons p rest =>
    have hbegin : bodyStep (l, .unlockBegin) = (l, .unlockTest p.1) := by
      rw [bodyStep, BodyPc.next, Iterator.first, hl]
      rfl
    refine .head hbegin (unlock_loop_alone l [] p ?_ fun q hq => ?_)
    · rw [← TreeMap.map_fst_toList_eq_keys, hl]
      rfl
    · exact TreeMap.mem_toList_iff_getElem?_eq_some.mp (hl ▸ hq)

/-! ## `getMsg` -/

theorem getMsg_alone :
    Alone (l, .lockMtx) (l.getMsg.elim (l, .iterNext) fun r => (r.2, .break)) := by
  cases hg : l.getMsg with
  | none =>
    have hq := getMsg_eq_none hg
    have hpop : bodyStep (l, .pop) = (l, .unlockMtx false) := by
      simp only [bodyStep, BodyPc.action, Action.apply, BodyPc.next, hq, List.tail_nil,
        List.isEmpty_nil, Bool.not_true]
      rw [← hq]
    exact .head rfl (.head hpop (.single rfl))
  | some r =>
    obtain ⟨rest, hq, hr⟩ := getMsg_eq_some hg
    have hpop : bodyStep (l, .pop) = (r.2, .unlockMtx true) := by
      simp only [bodyStep, BodyPc.action, Action.apply, BodyPc.next, hq, hr, List.tail_cons,
        List.isEmpty_cons, Bool.not_false]
    exact .head rfl (.head hpop (.single rfl))

end Bodies
end RocketmqProxy
