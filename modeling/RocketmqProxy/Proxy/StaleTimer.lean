import RocketmqProxy.Proxy.Progress

/-!
# What an ack timeout touches

The timer of a unit settles by message id: it marks every message of that id in every
registered batch of the consumer, whichever unit it was delivered through, and also while
it is still in the queue of its batch.
-/

namespace RocketmqProxy

open Std

/-- The record that the batch keeps of the message at `p`, whose id is `msgId`. -/
structure SameRecord (l l' : ConsumerUnitLocker) (msgId : String) (p : Addr) : Prop where
  status : l'.statusMap[p]? = l.statusMap[p]?
  clientStatus : l'.clientStatusMap[p]? = l.clientStatusMap[p]?
  reconsume : msgId ∈ l'.reconsumeMap ↔ msgId ∈ l.reconsumeMap

/-- The message at `p` is settled, and to be consumed again. -/
structure Reconsumed (l : ConsumerUnitLocker) (msgId : String) (p : Addr) : Prop where
  status : l.statusMap[p]? = some .reconsumeLater
  clientStatus : l.clientStatusMap[p]? = some .msgConsumeAck
  reconsume : msgId ∈ l.reconsumeMap

theorem reconsumed_iff {l : ConsumerUnitLocker} {msgId : String} {p : Addr} :
    Reconsumed l msgId p ↔ l.statusMap[p]? = some .reconsumeLater ∧
      l.clientStatusMap[p]? = some .msgConsumeAck ∧ msgId ∈ l.reconsumeMap :=
  ⟨fun ⟨h₁, h₂, h₃⟩ => ⟨h₁, h₂, h₃⟩, fun ⟨h₁, h₂, h₃⟩ => ⟨h₁, h₂, h₃⟩⟩

instance (l : ConsumerUnitLocker) (msgId : String) (p : Addr) : Decidable (Reconsumed l msgId p) :=
  decidable_of_iff _ reconsumed_iff.symm

theorem SameRecord.refl (l : ConsumerUnitLocker) (msgId : String) (p : Addr) :
    SameRecord l l msgId p := ⟨rfl, rfl, Iff.rfl⟩

section Ack

variable {l : ConsumerUnitLocker} {msgId x : String} {p : Addr}

/-- A reconsume of the id leaves the record of a message as it is only if it says so
already. -/
theorem sameRecord_reconsume_iff (hf : l.Filed msgId p) :
    SameRecord l (l.ack msgId .reconsumeLater) msgId p ↔ Reconsumed l msgId p := by
  classical
  have hstatus : (l.ack msgId .reconsumeLater).statusMap[p]? = some .reconsumeLater := by
    rw [ConsumerUnitLocker.ack, ConsumerUnitLocker.triggerCheck_statusMap,
      ConsumerUnitLocker.setMsgStatus_statusMap, if_pos hf]
  have hclient : (l.ack msgId .reconsumeLater).clientStatusMap[p]? = some .msgConsumeAck := by
    rw [ConsumerUnitLocker.ack, ConsumerUnitLocker.triggerCheck_clientStatusMap,
      ConsumerUnitLocker.setMsgStatus_clientStatusMap, if_pos hf]
  have hreconsume : msgId ∈ (l.ack msgId .reconsumeLater).reconsumeMap := by
    rw [ConsumerUnitLocker.ack, ConsumerUnitLocker.triggerCheck_reconsumeMap,
      ConsumerUnitLocker.mem_setMsgStatus_reconsumeMap]
    exact .inr ⟨rfl, rfl, p, hf⟩
  constructor
  · rintro ⟨h₁, h₂, h₃⟩
    exact ⟨h₁ ▸ hstatus, h₂ ▸ hclient, h₃.mp hreconsume⟩
  · rintro ⟨h₁, h₂, h₃⟩
    exact ⟨hstatus.trans h₁.symm, hclient.trans h₂.symm, fun _ => h₃, fun _ => hreconsume⟩

theorem sameRecord_other (hne : msgId ≠ x) (hf : ¬ l.Filed x p) :
    SameRecord l (l.ack x .reconsumeLater) msgId p := by
  classical
  refine ⟨?_, ?_, ?_⟩
  · rw [ConsumerUnitLocker.ack, ConsumerUnitLocker.triggerCheck_statusMap,
      ConsumerUnitLocker.setMsgStatus_statusMap, if_neg hf]
  · rw [ConsumerUnitLocker.ack, ConsumerUnitLocker.triggerCheck_clientStatusMap,
      ConsumerUnitLocker.setMsgStatus_clientStatusMap, if_neg hf]
  · rw [ConsumerUnitLocker.ack, ConsumerUnitLocker.triggerCheck_reconsumeMap,
      ConsumerUnitLocker.mem_setMsgStatus_reconsumeMap]
    simp [hne]

end Ack

namespace Proxy

open UnitObs

/-- The message at `p` in the batch that `c` has under `a` was delivered through `u`. -/
def DeliveredThrough (s : Proxy) (u : UnitRef) (c : ConsumerRef) (a p : Addr) : Prop :=
  ∃ t₁ msg t₂, s.trace = t₁ ++ .unit c (.fetched u a msg) :: t₂ ∧ Open a (history c t₂) ∧
    msg.addr = p

/-- From `s` to `s'` no message but what was delivered through `u` has changed its record. -/
def OthersKept (u : UnitRef) (s s' : Proxy) : Prop :=
  ∀ (c : ConsumerRef) (consumer : ConsumerUnit) (a : Addr) (l : ConsumerUnitLocker)
    (msgId : String) (p : Addr), s.consumerUnits[c]? = some consumer →
      consumer.lockers[a]? = some l → l.Filed msgId p → ¬ DeliveredThrough s u c a p →
      ∃ consumer' l', s'.consumerUnits[c]? = some consumer' ∧
        consumer'.lockers[a]? = some l' ∧ SameRecord l l' msgId p

/-- Every message of that id in a registered batch of `c` was delivered through `u`, or is
to be consumed again already. -/
def OthersReconsumed (s : Proxy) (u : UnitRef) (c : ConsumerRef) (msgId : String) : Prop :=
  ∀ (consumer : ConsumerUnit) (a : Addr) (l : ConsumerUnitLocker) (p : Addr),
    s.consumerUnits[c]? = some consumer → consumer.lockers[a]? = some l → l.Filed msgId p →
      ¬ DeliveredThrough s u c a p → Reconsumed l msgId p

theorem filed_unique {s : Proxy} (h : Reachable s) {c : ConsumerRef} {consumer : ConsumerUnit}
    {a : Addr} {l : ConsumerUnitLocker} (hc : s.consumerUnits[c]? = some consumer)
    (hl : consumer.lockers[a]? = some l) {msgId x : String} {p : Addr} (hf : l.Filed msgId p)
    (hx : l.Filed x p) : msgId = x := by
  obtain ⟨-, msgs, h₂, -, hr, -⟩ := (unitHistory h hc).registered a l hl
  have htracks :=
    @ConsumerUnitLocker.tracks_after msgs consumer.consumer.groupName hr.nodup (ops a h₂)
  rw [← hr.record] at htracks
  obtain ⟨q, hq, hqp, rfl⟩ := (htracks.filed msgId p).mp hf
  obtain ⟨q', hq', hqp', rfl⟩ := (htracks.filed x p).mp hx
  obtain rfl : q = q' := List.inj_on_of_nodup_map hr.nodup hq hq' (hqp.trans hqp'.symm)
  rfl

/-- In every reachable state, the ack timeout of a unit changes the record of no message
but the one delivered through it exactly when the other messages of its id in the
registered batches of the consumer are to be consumed again already. -/
theorem othersKept_iff {s s' : Proxy} (h : Reachable s) {now now' : Int} {started : Bool}
    {u : UnitRef} {unit : ConsumeMsgUnit} {c : ConsumerRef}
    (hm : s.matcher = .getConsumer u (.done (some c))) (hu : s.consumeMsgUnits[u]? = some unit)
    (ht : unit.getIsAckTimeout now = true)
    (hs : s.step (.matcher now now' started) = some s') :
    OthersKept u s s' ↔ OthersReconsumed s u c unit.msgId := by
  obtain ⟨consumer, hc, rfl⟩ := ackTimeout_next hm hu ht hs
  have hself : ∀ {a : Addr} {l : ConsumerUnitLocker}, consumer.lockers[a]? = some l →
      (consumer.setMsgReconsume unit.msgId).2.lockers[a]? =
        some (l.ack unit.msgId .reconsumeLater) := by
    intro a l hl
    rw [ConsumerUnit.setMsgReconsume, ConsumerUnit.setMsgAck_lockers, hl]
    rfl
  constructor
  · intro hkept consumer₁ a l p hc₁ hl hf hnot
    obtain rfl := Option.some.inj (hc.symm.trans hc₁)
    obtain ⟨consumer', l', hc', hl', hsame⟩ := hkept c consumer a l unit.msgId p hc hl hf hnot
    obtain rfl := Option.some.inj ((Heap.set_self hc _).symm.trans hc')
    obtain rfl := Option.some.inj ((hself hl).symm.trans hl')
    exact (sameRecord_reconsume_iff hf).mp hsame
  · intro hothers d consumer₁ a l msgId p hd hl hf hnot
    rcases Heap.set_cases hc hd with ⟨rfl, rfl, hset⟩ | hset
    · refine ⟨_, _, hset, hself hl, ?_⟩
      by_cases hid : msgId = unit.msgId
      · subst hid
        exact (sameRecord_reconsume_iff hf).mpr (hothers consumer a l p hc hl hf hnot)
      · exact sameRecord_other hid fun hx => hid (filed_unique h hc hl hf hx)
    · exact ⟨consumer₁, l, hset, hl, .refl l msgId p⟩

/-- The messages in the batches of a consumer, by batch, id and address. -/
def filing (consumer : ConsumerUnit) : List (Addr × String × Addr) :=
  consumer.lockers.toList.flatMap fun q => q.2.idMsgMap.toList.flatMap fun r =>
    r.2.keys.map fun p => (q.1, r.1, p)

theorem mem_filing {consumer : ConsumerUnit} {a : Addr} {l : ConsumerUnitLocker}
    {msgId : String} {p : Addr} (hl : consumer.lockers[a]? = some l) :
    (a, msgId, p) ∈ filing consumer ↔ l.Filed msgId p := by
  simp only [filing, List.mem_flatMap, List.mem_map, Prod.mk.injEq]
  constructor
  · rintro ⟨q, hq, r, hr, p', hp, rfl, rfl, rfl⟩
    have hlocker := TreeMap.mem_toList_iff_getElem?_eq_some.mp hq
    obtain rfl := Option.some.inj (hl.symm.trans hlocker)
    exact ⟨r.2, TreeMap.mem_toList_iff_getElem?_eq_some.mp hr, TreeMap.mem_keys.mp hp⟩
  · rintro ⟨idMap, hid, hp⟩
    exact ⟨(a, l), TreeMap.mem_toList_iff_getElem?_eq_some.mpr hl, (msgId, idMap),
      TreeMap.mem_toList_iff_getElem?_eq_some.mpr hid, p, TreeMap.mem_keys.mpr hp, rfl, rfl, rfl⟩

theorem not_deliveredThrough {s : Proxy} {u : UnitRef} {c : ConsumerRef} {a p : Addr}
    (h : a ∉ (deliveries u s.trace).map fun d => d.2.1) : ¬ DeliveredThrough s u c a p := by
  rintro ⟨t₁, msg, t₂, ht, -, -⟩
  have hd : (c, a, msg) ∈ deliveries u s.trace := mem_deliveries.mpr (by rw [ht]; simp)
  exact h (List.mem_map_of_mem (f := fun d : ConsumerRef × Addr × MsgPtr => d.2.1) hd)

/-- The client goes away, and so does the next one, which gets the message from a new
batch. -/
def givenBackTwice : List Event :=
  deliveredOnce ++ [.consumeDone 0 false, .grpc 1 true, .grpc 1 true, .grpc 1 true,
    .callbackReturn 0 1, .callback 0 2 [(20, ⟨"m", "t", "b", 0⟩), (30, ⟨"n", "t", "b", 0⟩)],
    .consume "t" "g" 2] ++ List.replicate 6 (.matcher 2 2 true) ++
    [.consumeDone 1 false, .grpc 3 true, .grpc 3 true, .grpc 3 true, .matcher 10 10 true,
      .matcher 10 10 true]

/-- The timer of the first delivery leaves the second one, which has been given back, as it
is. -/
theorem othersKept_givenBack : ∃ s s' unit consumer l, Reachable s ∧
    s.consumeMsgUnits[0]? = some unit ∧ unit.getIsAckTimeout 10 = true ∧
    s.step (.matcher 10 10 true) = some s' ∧ s.consumerUnits[0]? = some consumer ∧
    consumer.lockers[2]? = some l ∧ l.Filed "m" 20 ∧ ¬ DeliveredThrough s 0 0 2 20 ∧
    OthersKept 0 s s' := by
  have hrun : ((run givenBackTwice).bind fun s =>
      (s.step (.matcher 10 10 true)).bind fun _ => s.consumerUnits[0]?.bind fun consumer =>
        consumer.lockers[2]?.map fun l => decide (s.matcher = .getConsumer 0 (.done (some 0)) ∧
          s.consumeMsgUnits = [⟨0, "t", "g", "m", 0, .clientReceive⟩,
            ⟨1, "t", "g", "m", 2, .clientReceive⟩] ∧
          filing consumer = [(2, "m", 20), (2, "n", 30)] ∧
          (deliveries 0 s.trace).map (fun d => d.2.1) = [1] ∧ Reconsumed l "m" 20)) =
      some true := by
    decide
  obtain ⟨s, hs, hrun⟩ := Option.bind_eq_some_iff.mp hrun
  obtain ⟨s', hs', hrun⟩ := Option.bind_eq_some_iff.mp hrun
  obtain ⟨consumer, hc, hrun⟩ := Option.bind_eq_some_iff.mp hrun
  obtain ⟨l, hl, hfacts⟩ := Option.map_eq_some_iff.mp hrun
  obtain ⟨hm, hunits, hfiling, hds, hreconsumed⟩ := of_decide_eq_true hfacts
  have hu : s.consumeMsgUnits[0]? = some ⟨0, "t", "g", "m", 0, .clientReceive⟩ := by
    rw [hunits]
    rfl
  have ht : ConsumeMsgUnit.getIsAckTimeout ⟨0, "t", "g", "m", 0, .clientReceive⟩ 10 = true := by
    decide
  have hfiled : l.Filed "m" 20 := (mem_filing hl).mp (by rw [hfiling]; decide)
  have hnot : ¬ DeliveredThrough s 0 0 2 20 := not_deliveredThrough (by rw [hds]; decide)
  have hr := reachable_run hs
  have hiff := othersKept_iff hr hm hu ht hs'
  refine ⟨s, s', _, consumer, l, hr, hu, ht, hs', hc, hl, hfiled, hnot, hiff.mpr ?_⟩
  intro consumer₁ a l₁ p hc₁ hl₁ hf _
  obtain rfl := Option.some.inj (hc.symm.trans hc₁)
  have hmem := (mem_filing hl₁).mpr hf
  rw [hfiling] at hmem
  obtain ⟨rfl, rfl⟩ : a = 2 ∧ p = 20 := by simpa using hmem
  obtain rfl := Option.some.inj (hl.symm.trans hl₁)
  exact hreconsumed

/-- The client goes away, and its message is pulled again in a new batch. -/
def redeliveredOnce : List Event :=
  deliveredOnce ++ [.consumeDone 0 false, .grpc 1 true, .grpc 1 true, .grpc 1 true,
    .callbackReturn 0 1, .callback 0 2 [(20, ⟨"m", "t", "b", 0⟩)], .matcher 10 10 true,
    .matcher 10 10 true]

/-- The client is gone, its message is pulled again in a new batch, and the timer of the
first delivery settles the second batch. -/
theorem stale_timer_hits : ¬ ∀ s s' now now' started u unit c, Reachable s →
    s.matcher = .getConsumer u (.done (some c)) → s.consumeMsgUnits[u]? = some unit →
    unit.getIsAckTimeout now = true → s.step (.matcher now now' started) = some s' →
    OthersKept u s s' := by
  have hrun : (((run redeliveredOnce).bind fun s =>
        (s.step (.matcher 10 10 true)).bind fun s' => s.consumerUnits[0]?.bind fun consumer =>
          s'.consumerUnits[0]?.bind fun consumer' => consumer.lockers[2]?.bind fun l =>
            consumer'.lockers[2]?.map fun l' => ((s.matcher, s.consumeMsgUnits),
              (deliveries 0 s.trace).map fun d => d.2.1,
              l.idMsgMap["m"]?.map fun m => m.contains 20,
              [l.clientStatusMap[20]?, l'.clientStatusMap[20]?])) :
        Option ((MatcherPc × List ConsumeMsgUnit) × List Addr × Option Bool ×
          List (Option ClientMsgConsumeStatus))) =
      some ((.getConsumer 0 (.done (some 0)), [⟨0, "t", "g", "m", 0, .clientReceive⟩]),
        [1], some true, [some .msgFetchFromBroker, some .msgConsumeAck]) := by
    decide
  obtain ⟨s, hs, hrun⟩ := Option.bind_eq_some_iff.mp hrun
  obtain ⟨s', hs', hrun⟩ := Option.bind_eq_some_iff.mp hrun
  obtain ⟨consumer, hc, hrun⟩ := Option.bind_eq_some_iff.mp hrun
  obtain ⟨consumer', hc', hrun⟩ := Option.bind_eq_some_iff.mp hrun
  obtain ⟨l, hl, hrun⟩ := Option.bind_eq_some_iff.mp hrun
  obtain ⟨l', hl', hfacts⟩ := Option.map_eq_some_iff.mp hrun
  simp only [Prod.mk.injEq, List.cons.injEq, and_true] at hfacts
  obtain ⟨⟨hm, hunits⟩, hds, hfiled, hbefore, hafter⟩ := hfacts
  obtain ⟨m, hidm, hmem⟩ := Option.map_eq_some_iff.mp hfiled
  have hnot : ¬ DeliveredThrough s 0 0 2 20 := not_deliveredThrough (by rw [hds]; decide)
  intro hall
  obtain ⟨consumer₁, l₁, hc₁, hl₁, hsame⟩ := hall s s' 10 10 true 0 _ 0 (reachable_run hs) hm
    (by rw [hunits]; rfl) (by decide) hs' 0 consumer 2 l "m" 20 hc hl
    ⟨m, hidm, TreeMap.contains_iff_mem.mp hmem⟩ hnot
  obtain rfl := Option.some.inj (hc'.symm.trans hc₁)
  obtain rfl := Option.some.inj (hl'.symm.trans hl₁)
  have hkept := hsame.clientStatus
  rw [hbefore, hafter] at hkept
  exact absurd hkept (by decide)

end Proxy
end RocketmqProxy
