import RocketmqProxy.Proxy.Requests

/-!
# Acks that are rejected

A ConsumeAck for a message that no batch has is answered with an error.  On the way there
`getConsumer` creates a consumer if the topic and group have none, `setMsgAck` checks every
batch of the consumer again, and `del` takes the message id out of the index, whichever
unit it leads to.
-/

namespace RocketmqProxy

open Std

namespace ConsumerUnitLocker

/-- If the batch is drained and all its messages are settled, it has been released, with
the status that the check would give it. -/
structure Checked (l : ConsumerUnitLocker) : Prop where
  released : l.fetchedArr = [] → l.AllAcked → l.clientStatus = .msgConsumeAck
  reconsume : l.fetchedArr = [] → l.AllAcked → l.SomeReconsume → l.status = .reconsumeLater
  success : l.fetchedArr = [] → l.AllAcked → ¬ l.SomeReconsume → l.status = .consumeSuccess

theorem triggerCheck_eq_iff {l : ConsumerUnitLocker} : l.triggerCheck false = l ↔ l.Checked := by
  classical
  by_cases hgo : l.fetchedArr = [] ∧ l.AllAcked
  · obtain ⟨hq, hall⟩ := hgo
    rw [triggerCheck_of_allAcked (.inr hq) hall]
    constructor
    · intro h
      have hstatus := congrArg status h
      have hclient := congrArg clientStatus h
      refine ⟨fun _ _ => hclient.symm, fun _ _ hsome => ?_, fun _ _ hsome => ?_⟩
      · exact (hstatus.symm.trans (if_pos hsome))
      · exact (hstatus.symm.trans (if_neg hsome))
    · intro h
      have hstatus : (if l.SomeReconsume then .reconsumeLater else .consumeSuccess) = l.status := by
        split
        · rename_i hsome
          exact (h.reconsume hq hall hsome).symm
        · rename_i hsome
          exact (h.success hq hall hsome).symm
      rw [hstatus, ← h.released hq hall]
  · have hsame : l.triggerCheck false = l := by
      rw [not_and_or] at hgo
      exact triggerCheck_of_not (hgo.imp (fun hq => ⟨rfl, hq⟩) id)
    refine ⟨fun _ => ?_, fun _ => hsame⟩
    exact ⟨fun hq hall => absurd ⟨hq, hall⟩ hgo, fun hq hall => absurd ⟨hq, hall⟩ hgo,
      fun hq hall => absurd ⟨hq, hall⟩ hgo⟩

/-- An ack that finds no message of its id only checks the batch. -/
theorem ack_of_not_filed {l : ConsumerUnitLocker} {msgId : String} {s : ConsumeStatus}
    (h : ∀ p, ¬ l.Filed msgId p) : l.ack msgId s = l.triggerCheck false := by
  rw [ack, setMsgStatus]
  cases hid : l.idMsgMap[msgId]? with
  | none => rfl
  | some idMap =>
    have hempty : idMap.toList = [] := by
      refine List.eq_nil_iff_forall_not_mem.mpr fun p hp => ?_
      have hmem : p.1 ∈ idMap := by
        rw [TreeMap.mem_iff_isSome_getElem?, TreeMap.mem_toList_iff_getElem?_eq_some.mp hp]
        rfl
      exact h p.1 ⟨idMap, hid, hmem⟩
    simp only [hempty, List.foldl_nil]

end ConsumerUnitLocker

namespace Proxy

/-- The record that `c` has under `a`. -/
def record (s : Proxy) (c : ConsumerRef) (a : Addr) : Option ConsumerUnitLocker :=
  s.consumerUnits[c]?.bind fun consumer => consumer.lockers[a]?

/-- From `s` to `s'` the registered consumers, the index, the units and the records of the
batches have stayed as they were. -/
structure Untouched (s s' : Proxy) : Prop where
  consumers : ∀ key : String, s'.consumers[key]? = s.consumers[key]?
  index : ∀ msgId : String, s'.idUnitMap[msgId]? = s.idUnitMap[msgId]?
  units : s'.consumeMsgUnits = s.consumeMsgUnits
  batches : ∀ c a, s'.record c a = s.record c a

/-- The topic and group have a consumer, the index has no unit for the id, and no batch of
the consumer waits to be checked. -/
def Harmless (s : Proxy) (topic group msgId : String) : Prop :=
  ∃ c, s.consumers[topic ++ group]? = some c ∧ s.idUnitMap[msgId]? = none ∧
    ∀ a l, s.record c a = some l → l.Checked

/-! ## Records -/

theorem record_set {s s' : Proxy} {c d : ConsumerRef} {unit unit' : ConsumerUnit} {a : Addr}
    (hc : s.consumerUnits[c]? = some unit) (hu : s'.consumerUnits = s.consumerUnits.set c unit') :
    s'.record d a = if c = d then unit'.lockers[a]? else s.record d a := by
  rw [record, hu]
  by_cases hcd : c = d
  · subst hcd
    rw [Heap.set_self hc, if_pos rfl]
    rfl
  · rw [List.getElem?_set_ne hcd, if_neg hcd, record]

theorem record_resetConsumerActive (s : Proxy) (topic group : String) (now : Int)
    (c : ConsumerRef) (a : Addr) :
    (s.resetConsumerActive topic group now).record c a = s.record c a := by
  simp only [record, resetConsumerActive]
  cases s.consumers[topic ++ group]? with
  | none => rfl
  | some d =>
    simp only [List.getElem?_modify]
    cases s.consumerUnits[c]? with
    | none => rfl
    | some unit => by_cases hdc : d = c <;> simp [hdc, ConsumerUnit.setLastActiveAt]

/-! ## A request handled without a pause -/

/-- What a call of `getConsumer` for `key` that began in `s₀` has done. -/
inductive Looked (s₀ : Proxy) (key : String) (s : Proxy) : GetConsumer → Prop
  | lookup (hc : s.consumers = s₀.consumers) (hr : ∀ c a, s.record c a = s₀.record c a) :
      Looked s₀ key s .lookup
  | found {c : ConsumerRef} (h : s₀.consumers[key]? = some c) (hc : s.consumers = s₀.consumers)
      (hr : ∀ c a, s.record c a = s₀.record c a) : Looked s₀ key s (.done (some c))
  | start {c : ConsumerRef} (h : s₀.consumers[key]? = none) : Looked s₀ key s (.start c)
  | insert {c : ConsumerRef} (h : s₀.consumers[key]? = none) : Looked s₀ key s (.insert c)
  | failed : Looked s₀ key s (.done none)
  | created {c : ConsumerRef} (h : s₀.consumers[key]? = none) (hc : s.consumers[key]? ≠ none) :
      Looked s₀ key s (.done (some c))

theorem Looked.step {s₀ s s' : Proxy} {topic group : String} {now : Int}
    {get get' : GetConsumer} {msgPool : TreeMap String (List MsgUnit)}
    (h : Looked s₀ (topic ++ group) s get)
    (hget : GetStep s topic group now get s'.consumers msgPool s'.consumerUnits get') :
    Looked s₀ (topic ++ group) s' get' := by
  generalize hcons : s'.consumers = consumers at hget
  generalize hunits : s'.consumerUnits = units at hget
  cases hget with
  | @found c hfound =>
    cases h with
    | lookup hc hr =>
      refine .found (hc ▸ hfound) (hcons.trans hc) fun d a => ?_
      rw [record, hunits, ← hr, record]
  | created hnone =>
    cases h with
    | lookup hc _ => exact .start (hc ▸ hnone)
  | started c =>
    cases h with
    | start hn => exact .insert hn
  | failed => exact .failed
  | inserted c =>
    cases h with
    | insert hn =>
      refine .created hn ?_
      rw [hcons, TreeMapLoop.getElem?_insertIfNew, if_pos rfl]
      simp

/-- `setMsgAck` of `c` has found no message of the id. -/
def Rechecked (s₀ : Proxy) (c : ConsumerRef) (s : Proxy) : Prop :=
  ∀ d a, s.record d a =
    if d = c then (s₀.record d a).map (ConsumerUnitLocker.triggerCheck false) else s₀.record d a

/-- How far the handling of the ack call `k`, which began in `s₀`, has come. -/
inductive Rejecting (s₀ : Proxy) (k : CallRef) (key msgId : String) (s : Proxy) : Prop
  | pending {call : ConsumeAckCallData} {get : GetConsumer} (hg : s.grpc = .ack k get)
      (hk : s.ackCalls[k]? = some call) (hkey : call.topic ++ call.group = key)
      (hid : call.msgId = msgId) (hf : call.finished = []) (hget : Looked s₀ key s get)
      (hm : s.idUnitMap = s₀.idUnitMap) (hu : s.consumeMsgUnits = s₀.consumeMsgUnits)
  | accepting {call : ConsumeAckCallData}
      (hg : s.grpc = .ackLookup k ∨ ∃ unit, s.grpc = .ackStore k unit)
      (hk : s.ackCalls[k]? = some call) (hf : call.finished = [])
  | accepted {call : ConsumeAckCallData} (hg : s.grpc = .next)
      (hk : s.ackCalls[k]? = some call) (hf : ∀ r ∈ call.finished, r.code = responseSuccess)
  | rejected {call : ConsumeAckCallData} (hg : s.grpc = .next)
      (hk : s.ackCalls[k]? = some call) (hid : call.msgId = msgId)
      (hm : s.idUnitMap = s₀.idUnitMap) (hu : s.consumeMsgUnits = s₀.consumeMsgUnits)
      (hget : (∃ c, s₀.consumers[key]? = some c ∧ s.consumers = s₀.consumers ∧
          Rechecked s₀ c s) ∨
        (s₀.consumers[key]? = none ∧ s.consumers[key]? ≠ none))

/-- A rejected ack has only checked the batches. -/
theorem rechecked_of_rejected {s₀ s s' : Proxy} {c : ConsumerRef} {unit : ConsumerUnit}
    {msgId : String} {st : ConsumeStatus} (hr : ∀ d a, s.record d a = s₀.record d a)
    (hc : s.consumerUnits[c]? = some unit) (hret : (unit.setMsgAck msgId st).1 = false)
    (hu : s'.consumerUnits = s.consumerUnits.set c (unit.setMsgAck msgId st).2) :
    Rechecked s₀ c s' := by
  have hnone : ∀ (a : Addr) (l : ConsumerUnitLocker), unit.lockers[a]? = some l →
      l.ack msgId st = l.triggerCheck false := by
    intro a l hl
    refine ConsumerUnitLocker.ack_of_not_filed fun p hp => ?_
    have := (ConsumerUnit.setMsgAck_accepted unit msgId st).mpr ⟨a, l, p, hl, hp⟩
    exact absurd (hret.symm.trans this) (by simp)
  intro d a
  rw [record_set hc hu, ← hr]
  by_cases hdc : c = d
  · subst hdc
    rw [if_pos rfl, if_pos rfl, record, hc, Option.bind_some, ConsumerUnit.setMsgAck_lockers]
    cases hl : unit.lockers[a]? with
    | none => rfl
    | some l => exact congrArg some (hnone a l hl)
  · rw [if_neg hdc, if_neg (Ne.symm hdc)]

theorem Rejecting.step {s₀ s s' : Proxy} {k : CallRef} {key msgId : String} {now : Int}
    {started : Bool} (hh : Rejecting s₀ k key msgId s) (h : Step s (.grpc now started) s') :
    Rejecting s₀ k key msgId s' := by
  cases hh with
  | accepted hg | rejected hg => exact absurd hg h.grpc_ne_next
  | @pending call get hg hk hkey hid hf hget hm hu =>
    cases h with
    | cancelGet hg' | cancelSet hg' | cancelErase hg' => exact absurd (hg.symm.trans hg') (by simp)
    | ackLookup hg' | ackStore hg' => exact absurd (hg.symm.trans hg') (by simp)
    | @ackGet j call' get₁ get' _ _ consumers msgPool units hg' hj hstep =>
      obtain ⟨rfl, rfl⟩ := GrpcPc.ack.inj (hg.symm.trans hg')
      obtain rfl := Option.some.inj (hk.symm.trans hj)
      subst hkey
      refine .pending rfl hk rfl hid hf ?_ hm hu
      exact @Looked.step _ _ { s with
        consumers := consumers, msgPool := msgPool, consumerUnits := units,
        grpc := .ack k get' } _ _ _ _ _ _ hget hstep
    | @ackAccepted j call' c unit _ _ hg' hj hc hret =>
      obtain ⟨rfl, -⟩ := GrpcPc.ack.inj (hg.symm.trans hg')
      exact .accepting (.inl rfl) hk hf
    | @ackRejected j call' c unit _ _ hg' hj hc hret =>
      obtain ⟨rfl, rfl⟩ := GrpcPc.ack.inj (hg.symm.trans hg')
      obtain rfl := Option.some.inj (hk.symm.trans hj)
      refine .rejected rfl (Heap.set_self hk _) hid hm hu ?_
      cases hget with
      | found hfound hcons hr =>
        exact .inl ⟨c, hfound, hcons, rechecked_of_rejected hr hc hret rfl⟩
      | created hnone hsome => exact .inr ⟨hnone, hsome⟩
  | @accepting call hg hk hf =>
    cases h with
    | cancelGet hg' | cancelSet hg' | cancelErase hg' => simp [hg'] at hg
    | ackGet hg' | ackAccepted hg' | ackRejected hg' => simp [hg'] at hg
    | @ackLookup j call' _ _ hg' hj =>
      obtain rfl : j = k := by simpa [hg'] using hg
      exact .accepting (.inr ⟨_, rfl⟩) hk hf
    | @ackStore j call' u _ _ hg' hj =>
      obtain rfl : j = k := by simpa [hg'] using hg
      obtain rfl := Option.some.inj (hk.symm.trans hj)
      refine .accepted rfl (Heap.set_self hk _) fun r hr => ?_
      simp only [ConsumeAckCallData.accept, hf, List.nil_append, List.mem_singleton] at hr
      rw [hr]

/-- A request handled from `process` to `del` while no other thread moves, with an error
for an answer. -/
theorem rejected_handled {s s' : Proxy} {topic group msgId : String} {status now : Int}
    {es : List Event} {ok : Bool} (hes : ∀ e ∈ es, ∃ now started, e = .grpc now started)
    (h : Runs.exec step s (.consumeAck topic group msgId status now ::
      (es ++ [.ackDone s.ackCalls.length ok])) = some s')
    {call : ConsumeAckCallData} (hk : s'.ackCalls[s.ackCalls.length]? = some call)
    {r : ConsumeAckReply} (hr : r ∈ call.finished) (hcode : r.code = responseError) :
    (∀ id : String, s'.idUnitMap[id]? = if msgId = id then none else s.idUnitMap[id]?) ∧
      s'.consumeMsgUnits = s.consumeMsgUnits ∧
      ((∃ c, s.consumers[topic ++ group]? = some c ∧ s'.consumers = s.consumers ∧
          Rechecked s c s') ∨
        (s.consumers[topic ++ group]? = none ∧ s'.consumers[topic ++ group]? ≠ none)) := by
  obtain ⟨s₁, s₂, hs₁, hs₂, hs₃⟩ := Runs.exec_between h
  have hstart : Rejecting s s.ackCalls.length (topic ++ group) msgId s₁ := by
    cases step_cases hs₁ with
    | consumeAck hg =>
      exact .pending rfl List.getElem?_concat_length rfl rfl rfl
        (.lookup rfl (record_resetConsumerActive s topic group now)) rfl rfl
  have hend : Rejecting s s.ackCalls.length (topic ++ group) msgId s₂ := by
    refine Runs.exec_invariant (fun _ _ _ hh he hs => ?_) hes hstart hs₂
    obtain ⟨_, _, rfl⟩ := he
    exact hh.step (step_cases hs)
  cases step_cases hs₃ with
  | @ackDel _ call' _ hg hk' hf hd =>
    obtain rfl := Option.some.inj ((Heap.set_self hk' _).symm.trans hk)
    cases hend with
    | pending hg' => exact absurd (hg.symm.trans hg') (by simp)
    | accepting hg' => simp [hg] at hg'
    | accepted _ hk'' hcodes =>
      obtain rfl := Option.some.inj (hk'.symm.trans hk'')
      exact absurd (hcode.symm.trans (hcodes r hr)) (by decide)
    | rejected _ hk'' hid hm hu hget =>
      obtain rfl := Option.some.inj (hk'.symm.trans hk'')
      refine ⟨fun id => ?_, hu, hget⟩
      rw [TreeMap.getElem?_erase, hm, hid]
      simp only [Std.compare_eq_iff_eq]

/-- In every state, an ack that is answered with an error leaves the registered consumers,
the index, the units and the batches alone exactly when its topic and group have a
consumer, the index has no unit for its message id, and no batch of the consumer waits to
be checked. -/
theorem untouched_iff {s s' : Proxy} {topic group msgId : String} {status now : Int}
    {es : List Event} {ok : Bool} (hes : ∀ e ∈ es, ∃ now started, e = .grpc now started)
    (h : Runs.exec step s (.consumeAck topic group msgId status now ::
      (es ++ [.ackDone s.ackCalls.length ok])) = some s')
    {call : ConsumeAckCallData} (hk : s'.ackCalls[s.ackCalls.length]? = some call)
    (hr : ∃ r ∈ call.finished, r.code = responseError) :
    Untouched s s' ↔ Harmless s topic group msgId := by
  obtain ⟨r, hr, hcode⟩ := hr
  obtain ⟨hindex, hunits, hget⟩ := rejected_handled hes h hk hr hcode
  constructor
  · intro hsame
    rcases hget with ⟨c, hc, hcons, hrec⟩ | ⟨hnone, hsome⟩
    · refine ⟨c, hc, ?_, fun a l hl => ?_⟩
      · rw [← hsame.index, hindex, if_pos rfl]
      · have hcheck := hrec c a
        rw [if_pos rfl, hsame.batches, hl] at hcheck
        exact ConsumerUnitLocker.triggerCheck_eq_iff.mp (Option.some.inj hcheck).symm
    · exact absurd ((hsame.consumers _).trans hnone) hsome
  · rintro ⟨c, hc, hid, hchecked⟩
    rcases hget with ⟨d, hd, hcons, hrec⟩ | ⟨hnone, -⟩
    · obtain rfl := Option.some.inj (hc.symm.trans hd)
      refine ⟨fun key => by rw [hcons], fun id => ?_, hunits, fun d a => ?_⟩
      · rw [hindex]
        split
        · rename_i heq
          rw [← heq, hid]
        · rfl
      · rw [hrec d a]
        split
        · rename_i hdc
          subst hdc
          cases hl : s.record d a with
          | none => rfl
          | some l =>
            exact congrArg some (ConsumerUnitLocker.triggerCheck_eq_iff.mpr (hchecked a l hl))
        · rfl
    · exact absurd (hnone.symm.trans hc) (by simp)

/-- An ack for an id that is not known to the consumer of its topic and group. -/
theorem untouched_unknown : ∃ s s', run deliveredOnce = some s ∧
    Runs.exec step s [.consumeAck "t" "g" "x" 0 1, .grpc 1 true, .grpc 1 true,
      .ackDone s.ackCalls.length true] = some s' ∧ Untouched s s' := by
  have hrun : ((run deliveredOnce).bind fun s =>
      (Runs.exec step s [.consumeAck "t" "g" "x" 0 1, .grpc 1 true, .grpc 1 true,
        .ackDone s.ackCalls.length true]).bind fun s' => s.consumerUnits[0]?.map fun consumer =>
          ((s'.ackCalls[s.ackCalls.length]?.map fun call => call.finished.map (·.code)),
            s.consumers["tg"]?, s.idUnitMap["x"]?,
            consumer.lockers.toList.map fun p => p.2.clientStatusMap[10]?)) =
      some (some [1], some 0, none, [some .msgFetchFromBroker]) := by
    decide
  obtain ⟨s, hs, hrun⟩ := Option.bind_eq_some_iff.mp hrun
  obtain ⟨s', hs', hrun⟩ := Option.bind_eq_some_iff.mp hrun
  obtain ⟨consumer, hc, hfacts⟩ := Option.map_eq_some_iff.mp hrun
  simp only [Prod.mk.injEq] at hfacts
  obtain ⟨hcodes, hkey, hid, hpending⟩ := hfacts
  obtain ⟨call, hk, hcodes⟩ := Option.map_eq_some_iff.mp hcodes
  have hreply : ∃ r ∈ call.finished, r.code = responseError := by
    have hone : (1 : Int) ∈ call.finished.map (·.code) := hcodes ▸ List.mem_singleton_self 1
    exact List.mem_map.mp hone
  refine ⟨s, s', hs, hs', (@untouched_iff s s' "t" "g" "x" 0 1 [.grpc 1 true, .grpc 1 true]
    true (by simp) hs' call hk hreply).mpr ⟨0, hkey, hid, fun a l hl => ?_⟩⟩
  rw [record, hc, Option.bind_some] at hl
  have hmem := List.mem_map_of_mem (f := fun p : Addr × ConsumerUnitLocker =>
    p.2.clientStatusMap[10]?) (TreeMap.mem_toList_iff_getElem?_eq_some.mpr hl)
  rw [hpending, List.mem_singleton] at hmem
  have hwaits : ¬ l.AllAcked := fun hall => absurd (hall 10 _ hmem) (by simp)
  exact ⟨fun _ hall => absurd hall hwaits, fun _ hall => absurd hall hwaits,
    fun _ hall => absurd hall hwaits⟩

/-- The id is that of a message another group has, and its unit loses its entry. -/
theorem rejected_ack_erases : ¬ ∀ s s' topic group msgId status now es ok call, Reachable s →
    (∀ e ∈ es, ∃ now started, e = .grpc now started) →
    Runs.exec step s (.consumeAck topic group msgId status now ::
      (es ++ [.ackDone s.ackCalls.length ok])) = some s' →
    s'.ackCalls[s.ackCalls.length]? = some call →
    (∃ r ∈ call.finished, r.code = responseError) → Untouched s s' := by
  have hrun : ((run (deliveredOnce ++ [.consume "t" "h" 0, .matcher 0 0 true, .matcher 0 0 true,
      .matcher 0 0 true, .matcher 0 0 true, .matcher 0 0 true, .matcher 0 0 true,
      .matcher 0 0 true])).bind fun s =>
      (Runs.exec step s [.consumeAck "t" "h" "m" 0 1, .grpc 1 true, .grpc 1 true,
        .ackDone s.ackCalls.length true]).map fun s' =>
          ((s'.ackCalls[s.ackCalls.length]?.map fun call => call.finished.map (·.code)),
            [s.idUnitMap["m"]?, s'.idUnitMap["m"]?])) =
      some (some [1], [some 0, none]) := by
    decide
  obtain ⟨s, hs, hrun⟩ := Option.bind_eq_some_iff.mp hrun
  obtain ⟨s', hs', hfacts⟩ := Option.map_eq_some_iff.mp hrun
  simp only [Prod.mk.injEq, List.cons.injEq, and_true] at hfacts
  obtain ⟨hcodes, hbefore, hafter⟩ := hfacts
  obtain ⟨call, hk, hcodes⟩ := Option.map_eq_some_iff.mp hcodes
  have hone : (1 : Int) ∈ call.finished.map (·.code) := hcodes ▸ List.mem_singleton_self 1
  intro hall
  have hsame := hall s s' "t" "h" "m" 0 1 [.grpc 1 true, .grpc 1 true] true call
    (reachable_run hs) (by simp) hs' hk (List.mem_map.mp hone)
  exact absurd (hbefore.symm.trans ((hsame.index "m").symm.trans hafter)) (by simp)

end Proxy
end RocketmqProxy
