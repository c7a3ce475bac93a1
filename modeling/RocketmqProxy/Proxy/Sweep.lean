import RocketmqProxy.Lib.Worklist
import RocketmqProxy.Proxy.Progress
import RocketmqProxy.Proxy.OneConsumer

/-!
# A sweep of the matcher

The inner loop of `loopMatch`, while no other thread moves and the clock stands still.
The loop empties `tmp` into the pool after each unit, so a unit that is put back is taken
again before the loop can end.
-/

namespace RocketmqProxy
namespace Proxy

open Std

/-! ## The loop -/

/-- The next step of the matcher; `starts` says for which keys a `start()` returns. -/
def goOn (now : Int) (starts : String → Bool) (s : Proxy) : Event :=
  .matcher now now (match s.call .matcher with
    | some (key, _) => starts key
    | none => true)

/-- The matcher handles the unit it has in hand. -/
inductive Handles (now : Int) (starts : String → Bool) : Proxy → Proxy → Prop
  | last {s s' : Proxy} (hm : s.matcher ≠ .pop) (hs : s.step (goOn now starts s) = some s')
      (hp : s'.matcher = .pop) : Handles now starts s s'
  | more {s s₁ s' : Proxy} (hm : s.matcher ≠ .pop) (hs : s.step (goOn now starts s) = some s₁)
      (h : Handles now starts s₁ s') : Handles now starts s s'

/-- One turn of the inner loop. -/
def Turn (now : Int) (starts : String → Bool) (s s' : Proxy) : Prop :=
  s.matcher = .pop ∧ ∃ s₁, s.step (goOn now starts s) = some s₁ ∧ Handles now starts s₁ s'

/-- The inner loop takes these units from the pool, one after the other, and comes to its
end in `s'`. -/
abbrev Sweeps (now : Int) (starts : String → Bool) : Proxy → List UnitRef → Proxy → Prop :=
  Worklist.Drains consumeMsgPool (Turn now starts)

/-- The unit waits for a message or for its ack: it has not been answered, timed out or
acked. -/
def stillWaits (s : Proxy) (now : Int) (u : UnitRef) : Bool :=
  match s.consumeMsgUnits[u]? with
  | none => false
  | some unit =>
    match unit.status with
    | .proxyConsumeInit => s.consumeCalls[unit.callData]?.any fun call => call.finished.isEmpty
    | .clientReceive => !unit.getIsAckTimeout now
    | .consumeAck => false

/-- A sweep takes each unit once, and ends with those in the pool that still wait, in
their order. -/
def SweepEnds (now : Int) (starts : String → Bool) (s : Proxy) : Prop :=
  ∃ units s', Sweeps now starts s units s' ∧ units.Perm s.consumeMsgPool ∧
    s'.consumeMsgPool = s.consumeMsgPool.filter (s'.stillWaits now)

/-! ## Units that leave at once -/

/-- The consumer of a key, if it has one, has no message queued in any of its batches. -/
def NoneQueued (s : Proxy) (key : String) : Prop :=
  ∀ c consumer, s.consumers[key]? = some c → s.consumerUnits[c]? = some consumer →
    ∀ (a : Addr) (l : ConsumerUnitLocker), consumer.lockers[a]? = some l → l.fetchedArr = []

/-- The matcher takes the unit out of the pool for good when it next comes to it. -/
def Settles (now : Int) (starts : String → Bool) (s : Proxy) (u : UnitRef) : Prop :=
  ∃ unit, s.consumeMsgUnits[u]? = some unit ∧ (unit.status = .consumeAck ∨
    (unit.getIsAckTimeout now = true ∨ unit.getIsFetchMsgTimeout now = true ∧
        s.NoneQueued (unit.topic ++ unit.group)) ∧
      (s.consumers[unit.topic ++ unit.group]? ≠ none ∨ starts (unit.topic ++ unit.group) = true))

/-! ## The steps of a turn -/

section Handles

variable {now : Int} {starts : String → Bool} {s s' : Proxy} {u : UnitRef}
  {unit : ConsumeMsgUnit}

theorem goOn_held {get : GetConsumer} (hm : s.matcher = .getConsumer u get)
    (hu : s.consumeMsgUnits[u]? = some unit) :
    goOn now starts s = .matcher now now (starts (unit.topic ++ unit.group)) := by
  simp [goOn, Proxy.call, Proxy.unitNames, hm, hu]

theorem matchUnit_pop {p : Option ConsumerRef} (hm : s.matcher = .getConsumer u (.done p))
    (h : s.matchUnit u p now now = some s') : s'.matcher = .pop := by
  cases @matchUnit_cases s s' u p now now true hm h with
  | pop hm' => exact absurd (hm.symm.trans hm') (by simp)
  | matcherGet hm' _ hget =>
    obtain ⟨-, rfl⟩ := MatcherPc.getConsumer.inj (hm.symm.trans hm')
    cases hget
  | deliver | fetchTimeout | requeue | ackTimeout | drop => rfl

theorem handles_done {p : Option ConsumerRef} (hm : s.matcher = .getConsumer u (.done p))
    (hu : s.consumeMsgUnits[u]? = some unit) :
    Handles now starts s s' ↔ s.matchUnit u p now now = some s' := by
  have hne : s.matcher ≠ .pop := by simp [hm]
  have hstep : s.step (goOn now starts s) = s.matchUnit u p now now := by
    rw [goOn_held hm hu]
    simp only [step, matcherStep, hm]
  constructor
  · rintro (⟨-, hs, -⟩ | ⟨-, hs, h⟩)
    · rwa [hstep] at hs
    · rw [hstep] at hs
      have hpop := matchUnit_pop hm hs
      cases h with
      | last hm₁ | more hm₁ => exact absurd hpop hm₁
  · exact fun h => .last hne (hstep.trans h) (matchUnit_pop hm h)

/-- The state after one more step of the call. -/
def got (now : Int) (starts : String → Bool) (s : Proxy) (u : UnitRef) (unit : ConsumeMsgUnit)
    (get : GetConsumer) : Proxy :=
  let r := s.getConsumer unit.topic unit.group now (starts (unit.topic ++ unit.group)) get
  { r.1 with matcher := .getConsumer u r.2 }

theorem handles_get {get : GetConsumer} (hm : s.matcher = .getConsumer u get)
    (hu : s.consumeMsgUnits[u]? = some unit) (hget : ∀ c, get ≠ .done c) :
    Handles now starts s s' ↔ Handles now starts (got now starts s u unit get) s' := by
  have hne : s.matcher ≠ .pop := by simp [hm]
  have hstep : s.step (goOn now starts s) = some (got now starts s u unit get) := by
    rw [goOn_held hm hu]
    exact step_matcherGet hm hu hget now now _
  constructor
  · rintro (⟨-, hs, hp⟩ | ⟨-, hs, h⟩)
    · obtain rfl := Option.some.inj (hstep.symm.trans hs)
      exact absurd hp (by simp [got])
    · obtain rfl := Option.some.inj (hstep.symm.trans hs)
      exact h
  · exact .more hne hstep

end Handles

/-! ## Queues of consumers -/

/-- No batch of the consumer has a message queued. -/
def drained (unit : ConsumerUnit) : Bool := unit.fetchAndConsume.1.isNone

section Queues

variable {now : Int} {starts : String → Bool} {s s' : Proxy} {u : UnitRef}
  {unit : ConsumeMsgUnit} {key : String}

theorem drained_iff {unit : ConsumerUnit} : drained unit = true ↔
    ∀ (a : Addr) (l : ConsumerUnitLocker), unit.lockers[a]? = some l → l.fetchedArr = [] := by
  rw [drained, Option.isNone_iff_eq_none, ConsumerUnit.fetchAndConsume_eq_none]

theorem noneQueued_iff : s.NoneQueued key ↔ ∀ c, s.consumers[key]? = some c →
    (s.consumerUnits.map drained)[c]? ≠ some false := by
  simp only [List.getElem?_map, ne_eq, Option.map_eq_some_iff, not_exists, not_and,
    Bool.not_eq_false, drained_iff]
  exact ⟨fun h c hc consumer => h c consumer hc, fun h c consumer hc => h c hc consumer⟩

theorem noneQueued_congr (hc : s'.consumers[key]? = s.consumers[key]?)
    (hd : ∀ c : ConsumerRef, (s'.consumerUnits.map drained)[c]? ≠ some false ↔
      (s.consumerUnits.map drained)[c]? ≠ some false) : s'.NoneQueued key ↔ s.NoneQueued key := by
  rw [noneQueued_iff, noneQueued_iff, hc]
  exact forall_congr' fun c => imp_congr_right fun _ => hd c

theorem drained_congr {unit unit' : ConsumerUnit} (h : unit'.lockers = unit.lockers) :
    drained unit' = drained unit := by
  rw [Bool.eq_iff_iff, drained_iff, drained_iff, h]

theorem drained_setMsgReconsume (unit : ConsumerUnit) (msgId : String) :
    drained (unit.setMsgReconsume msgId).2 = drained unit := by
  rw [Bool.eq_iff_iff, drained, drained, Option.isNone_iff_eq_none, Option.isNone_iff_eq_none]
  exact ConsumerUnit.setMsgAck_fetch unit msgId .reconsumeLater

theorem drained_setState (units : List ConsumerUnit) (c : ConsumerRef) (state : SdkState) :
    (units.modify c (ConsumerUnit.setState state)).map drained = units.map drained :=
  Heap.map_modify drained (ConsumerUnit.setState state) (fun _ => drained_congr rfl) units c

theorem drained_append (units : List ConsumerUnit) (topic group : String) (now : Int)
    (c : ConsumerRef) :
    ((units ++ [ConsumerUnit.new topic group now]).map drained)[c]? ≠ some false ↔
      (units.map drained)[c]? ≠ some false := by
  have hnew : drained (ConsumerUnit.new topic group now) = true := rfl
  rw [List.map_append, List.map_singleton, hnew, List.getElem?_append]
  split
  · exact Iff.rfl
  · next hge =>
    rw [List.getElem?_singleton, List.getElem?_eq_none (Nat.le_of_not_lt hge)]
    split <;> simp

/-! ## The call of a turn -/

/-- A call of `getConsumer` for `key` has gone from `s` to `s'` and returned `p`; `started`
says whether a `start()` returns. -/
structure Obtained (key : String) (started : Bool) (s s' : Proxy) (p : Option ConsumerRef) :
    Prop where
  pool : s'.consumeMsgPool = s.consumeMsgPool
  units : s'.consumeMsgUnits = s.consumeMsgUnits
  calls : s'.consumeCalls = s.consumeCalls
  registered : ∀ k : String, s'.consumers[k]? ≠ none ↔
    s.consumers[k]? ≠ none ∨ k = key ∧ started = true
  queued : ∀ k, s'.NoneQueued k ↔ s.NoneQueued k
  found : ∀ c, p = some c → s'.consumers[key]? = some c ∧ ∃ unit, s'.consumerUnits[c]? = some unit
  missed : p = none ↔ s.consumers[key]? = none ∧ started = false

/-- A call of `getConsumer` while no other thread moves. -/
def getConsumerAlone (s : Proxy) (topic group : String) (now : Int) (started : Bool) :
    Proxy × Option ConsumerRef :=
  match s.consumers[topic ++ group]? with
  | some unit => (s, some unit)
  | none =>
    let consumerUnit := s.consumerUnits.length
    let units := s.consumerUnits ++ [ConsumerUnit.new topic group now]
    let msgPool := s.msgPool.insertIfNew (topic ++ group) []
    if started then
      ({ s with
          consumers := s.consumers.insertIfNew (topic ++ group) consumerUnit
          msgPool := msgPool
          consumerUnits := units.modify consumerUnit (ConsumerUnit.setState .started) },
        some consumerUnit)
    else ({ s with msgPool := msgPool, consumerUnits := units }, none)

/-- The steps of the matcher's call come to this. -/
theorem handles_iff (hm : s.matcher = .getConsumer u .lookup)
    (hu : s.consumeMsgUnits[u]? = some unit) {r : Proxy × Option ConsumerRef}
    (hr : s.getConsumerAlone unit.topic unit.group now (starts (unit.topic ++ unit.group)) = r) :
    Handles now starts s s' ↔
      ({ r.1 with matcher := .getConsumer u (.done r.2) } : Proxy).matchUnit u r.2 now now =
        some s' := by
  subst hr
  rw [handles_get hm hu (by simp)]
  unfold getConsumerAlone
  split
  · next c hc =>
    have hfound : got now starts s u unit .lookup =
        { s with matcher := .getConsumer u (.done (some c)) } := by
      simp only [got, getConsumer, hc]
    rw [hfound]
    exact handles_done (s := { s with matcher := _ }) rfl hu
  · next hc =>
    let s₁ : Proxy := { s with
      consumerUnits := s.consumerUnits ++ [ConsumerUnit.new unit.topic unit.group now]
      matcher := .getConsumer u (.start s.consumerUnits.length) }
    have hcreated : got now starts s u unit .lookup = s₁ := by
      simp only [got, getConsumer, hc, s₁]
    rw [hcreated, handles_get (s := s₁) rfl hu (by simp)]
    cases hst : starts (unit.topic ++ unit.group) with
    | false =>
      simp only [got, getConsumer, hst, Bool.false_eq_true, if_false]
      exact handles_done rfl (s := { s₁ with msgPool := _, matcher := _ }) hu
    | true =>
      let s₂ : Proxy := { s₁ with
        msgPool := s.msgPool.insertIfNew (unit.topic ++ unit.group) []
        consumerUnits := s₁.consumerUnits.modify s.consumerUnits.length
          (ConsumerUnit.setState .started)
        matcher := .getConsumer u (.insert s.consumerUnits.length) }
      have hstarted : got now starts s₁ u unit (.start s.consumerUnits.length) = s₂ := by
        simp [got, getConsumer, hst, s₁, s₂]
      rw [hstarted, handles_get (s := s₂) rfl hu (by simp), if_pos rfl]
      exact handles_done (s := { s₂ with consumers := _, matcher := _ }) rfl hu

theorem obtained (hi : RegistryInv s) (topic group : String) (started : Bool)
    {r : Proxy × Option ConsumerRef} (hr : s.getConsumerAlone topic group now started = r) :
    Obtained (topic ++ group) started s r.1 r.2 := by
  subst hr
  unfold getConsumerAlone
  split
  · next c hc =>
    refine ⟨rfl, rfl, rfl, fun k => ⟨.inl, fun h => h.elim id ?_⟩, fun k => Iff.rfl,
      fun d hd => ?_, by simp [hc]⟩
    · rintro ⟨rfl, -⟩
      simp [hc]
    · obtain rfl := Option.some.inj hd
      obtain ⟨con, hcon, -⟩ := hi.keyed _ c hc
      obtain ⟨unit, hunit, -⟩ := Option.map_eq_some_iff.mp ((List.getElem?_map ..).symm.trans hcon)
      exact ⟨hc, unit, hunit⟩
  · next hc =>
    have hnew := drained_append s.consumerUnits topic group now
    cases started with
    | false =>
      exact ⟨rfl, rfl, rfl, by simp, fun k => noneQueued_congr rfl hnew, by simp, by simp [hc]⟩
    | true =>
      have hkey (k : String) : (s.consumers.insertIfNew (topic ++ group)
          s.consumerUnits.length)[k]? =
          if topic ++ group = k then some s.consumerUnits.length else s.consumers[k]? := by
        rw [TreeMapLoop.getElem?_insertIfNew]
        split
        · next he => rw [← he, hc]; rfl
        · rfl
      refine ⟨rfl, rfl, rfl, fun k => ?_, fun k => ?_, fun d hd => ?_, by simp⟩
      · rw [if_pos rfl, hkey]
        by_cases he : topic ++ group = k
        · simp [he]
        · simp [he, Ne.symm he]
      · by_cases he : topic ++ group = k
        · subst he
          refine iff_of_true (noneQueued_iff.mpr fun c hk => ?_) (noneQueued_iff.mpr (by simp [hc]))
          rw [if_pos rfl, drained_setState]
          obtain rfl := Option.some.inj (((hkey _).trans (if_pos rfl)).symm.trans hk)
          rw [hnew]
          simp
        · exact noneQueued_congr ((hkey k).trans (if_neg he)) (by
            rw [if_pos rfl, drained_setState]
            exact hnew)
      · obtain rfl := Option.some.inj hd
        exact ⟨(hkey _).trans (if_pos rfl), _, Heap.modify_self List.getElem?_concat_length _⟩

/-! ## The branches of a turn -/

/-- The timer of the unit has not run out, and it has not been acked. -/
def Pending (s : Proxy) (now : Int) (u : UnitRef) : Prop :=
  ∃ unit, s.consumeMsgUnits[u]? = some unit ∧ unit.status ≠ .consumeAck ∧
    now - unit.lastActiveAt < maxMsgWaitConsumeTime

/-- A branch of the loop body that does not put the unit back is taken, with the pointer
`p`. -/
def Leaves (s : Proxy) (now : Int) (unit : ConsumeMsgUnit) (p : Option ConsumerRef) : Prop :=
  unit.status = .consumeAck ∨ ∃ c consumer, p = some c ∧ s.consumerUnits[c]? = some consumer ∧
    (unit.getIsAckTimeout now = true ∨
      unit.getIsFetchMsgTimeout now = true ∧ consumer.fetchAndConsume.1 = none)

/-- What a turn that takes a unit out of the pool leaves of everything else. -/
structure Left (now : Int) (u : UnitRef) (s s' : Proxy) : Prop where
  pool : s'.consumeMsgPool = s.consumeMsgPool
  units : s'.consumeMsgUnits = s.consumeMsgUnits
  consumers : s'.consumers = s.consumers
  drained : s'.consumerUnits.map drained = s.consumerUnits.map drained
  gone : s'.stillWaits now u = false
  waits : ∀ v, s'.stillWaits now v = true → s.stillWaits now v = true

theorem status_of_fetchTimeout (h : unit.getIsFetchMsgTimeout now = true) :
    unit.status = .proxyConsumeInit := by
  rw [ConsumeMsgUnit.getIsFetchMsgTimeout, Bool.and_eq_true] at h
  exact of_decide_eq_true h.1

theorem stillWaits_mono (hu : s'.consumeMsgUnits = s.consumeMsgUnits)
    (hc : ∀ (k : CallRef) (call : ConsumeCallData), s'.consumeCalls[k]? = some call →
      call.finished = [] → s.consumeCalls[k]? = some call) (v : UnitRef)
    (h : s'.stillWaits now v = true) : s.stillWaits now v = true := by
  rw [stillWaits, hu] at h
  rw [stillWaits]
  split at h
  · exact absurd h (by simp)
  · next unit _ =>
    split at h
    · obtain ⟨call, hk, hf⟩ := (Option.any_eq_true _ _).mp h
      exact (Option.any_eq_true _ _).mpr ⟨call, hc _ call hk (List.isEmpty_iff.mp hf), hf⟩
    · exact h
    · exact h

theorem matchUnit_turn {p : Option ConsumerRef} (hm : s.matcher = .getConsumer u (.done p))
    (hu : s.consumeMsgUnits[u]? = some unit) (h : s.matchUnit u p now now = some s') :
    s'.consumeMsgPool = s.consumeMsgPool ++ [u] ∧ (∀ v, s.Pending now v → s'.Pending now v) ∨
      Leaves s now unit p ∧ Left now u s s' := by
  cases @matchUnit_cases s s' u p now now true hm h with
  | pop hm' => exact absurd (hm.symm.trans hm') (by simp)
  | matcherGet hm' _ hget =>
    obtain ⟨-, rfl⟩ := MatcherPc.getConsumer.inj (hm.symm.trans hm')
    cases hget
  | deliver hm' hu' =>
    obtain ⟨rfl, -⟩ := MatcherPc.getConsumer.inj (hm.symm.trans hm')
    refine .inl ⟨rfl, ?_⟩
    rintro v ⟨unit', hv, hst, hlt⟩
    rcases Heap.set_cases hu' hv with ⟨-, rfl, hset⟩ | hset
    · exact ⟨_, hset, by simp, hlt⟩
    · exact ⟨unit', hset, hst, hlt⟩
  | requeue hm' =>
    obtain ⟨rfl, -⟩ := MatcherPc.getConsumer.inj (hm.symm.trans hm')
    exact .inl ⟨rfl, fun v hv => hv⟩
  | @fetchTimeout v unit' c consumer call _ _ _ hm' hu' hc hs hk hf ht =>
    obtain ⟨rfl, hp⟩ := MatcherPc.getConsumer.inj (hm.symm.trans hm')
    obtain rfl := GetConsumer.done.inj hp
    obtain rfl := Option.some.inj (hu.symm.trans hu')
    refine .inr ⟨.inr ⟨c, consumer, rfl, hc, .inr ⟨ht, hf⟩⟩, rfl, rfl, rfl, ?_, ?_,
      stillWaits_mono rfl fun k call' hk' hf' => ?_⟩
    · simp only [Proxy.fetchTimeout, resetConsumerActive]
      split
      · exact Heap.map_modify Proxy.drained (ConsumerUnit.setLastActiveAt now)
          (fun _ => drained_congr rfl) _ _
      · rfl
    · simp only [stillWaits, Proxy.fetchTimeout, resetConsumerActive, hu, hs, Heap.set_self hk]
      simp [ConsumeCallData.responseTimeOut]
    · rcases Heap.of_set hk' with ⟨-, rfl⟩ | hk'
      · exact absurd hf' (by simp [ConsumeCallData.responseTimeOut])
      · exact hk'
  | @ackTimeout v unit' c consumer _ _ _ hm' hu' hc hs ht =>
    obtain ⟨rfl, hp⟩ := MatcherPc.getConsumer.inj (hm.symm.trans hm')
    obtain rfl := GetConsumer.done.inj hp
    obtain rfl := Option.some.inj (hu.symm.trans hu')
    refine .inr ⟨.inr ⟨c, consumer, rfl, hc, .inl ht⟩, rfl, rfl, rfl,
      Heap.map_set hc (drained_setMsgReconsume _ _), ?_, fun w hw => hw⟩
    simp only [stillWaits, onConsumer, hu, hs, ht, Bool.not_true]
  | @drop v unit' _ _ _ _ hm' hu' hs =>
    obtain ⟨rfl, -⟩ := MatcherPc.getConsumer.inj (hm.symm.trans hm')
    obtain rfl := Option.some.inj (hu.symm.trans hu')
    refine .inr ⟨.inl hs, rfl, rfl, rfl, rfl, ?_, fun w hw => hw⟩
    simp only [stillWaits, hu, hs]

theorem Leaves.turn {p : Option ConsumerRef} (h : Leaves s now unit p)
    (hu : s.consumeMsgUnits[u]? = some unit)
    (hk : ∃ call, s.consumeCalls[unit.callData]? = some call) :
    ∃ s', s.matchUnit u p now now = some s' ∧ s'.consumeMsgPool = s.consumeMsgPool := by
  obtain ⟨call, hk⟩ := hk
  rcases h with hs | ⟨c, consumer, rfl, hc, ht | ⟨ht, hf⟩⟩
  · exact ⟨{ s with matcher := .pop }, by simp [matchUnit, hu, hs], rfl⟩
  · let r := consumer.setMsgReconsume unit.msgId
    refine ⟨{ s.onConsumer c r.2 (.acked (.ackTimeout u) unit.msgId .reconsumeLater r.1) with
      matcher := .pop }, ?_, rfl⟩
    simp only [matchUnit, hu, hc, status_of_ackTimeout ht, ht, Option.bind_eq_bind,
      Option.bind_some, if_true, r]
  · refine ⟨s.fetchTimeout unit call now, ?_, rfl⟩
    have hfetch : consumer.fetchAndConsume = (none, consumer.fetchAndConsume.2) := Prod.ext hf rfl
    simp only [matchUnit, hu, hc, hk, status_of_fetchTimeout ht, Option.bind_eq_bind,
      Option.bind_some]
    rw [hfetch]
    simp only [ht, if_true]

/-- The unit settles exactly if the branch that its turn comes to takes it out of the
pool. -/
theorem Obtained.settles_iff {p : Option ConsumerRef}
    (h : Obtained (unit.topic ++ unit.group) (starts (unit.topic ++ unit.group)) s s' p)
    (hu : s.consumeMsgUnits[u]? = some unit) :
    Settles now starts s u ↔ Leaves s' now unit p := by
  constructor
  · rintro ⟨unit', hu', hs⟩
    obtain rfl := Option.some.inj (hu.symm.trans hu')
    refine hs.imp_right fun ⟨ht, hreg⟩ => ?_
    cases hp : p with
    | none =>
      obtain ⟨hnone, hst⟩ := h.missed.mp hp
      rcases hreg with hreg | hst'
      · exact absurd hnone hreg
      · exact absurd (hst.symm.trans hst') (by simp)
    | some c =>
      obtain ⟨hc, consumer, hconsumer⟩ := h.found c hp
      exact ⟨c, consumer, rfl, hconsumer,
        ht.imp_right fun ⟨ht, hq⟩ => ⟨ht, ConsumerUnit.fetchAndConsume_eq_none.mpr
          ((h.queued _).mpr hq c consumer hc hconsumer)⟩⟩
  · refine fun hl => ⟨unit, hu, hl.imp_right ?_⟩
    rintro ⟨c, consumer, hp, hconsumer, ht⟩
    have hq (hf : consumer.fetchAndConsume.1 = none) :
        s'.NoneQueued (unit.topic ++ unit.group) := by
      intro d consumer' hd hd'
      obtain rfl := Option.some.inj ((h.found c hp).1.symm.trans hd)
      obtain rfl := Option.some.inj (hconsumer.symm.trans hd')
      exact ConsumerUnit.fetchAndConsume_eq_none.mp hf
    have hne : ¬ (s.consumers[unit.topic ++ unit.group]? = none ∧
        starts (unit.topic ++ unit.group) = false) := fun hmiss => by
      simp [h.missed.mpr hmiss] at hp
    rw [not_and_or, Bool.not_eq_false] at hne
    exact ⟨ht.imp_right fun ⟨ht, hf⟩ => ⟨ht, (h.queued _).mp (hq hf)⟩, hne⟩

/-- A turn leaves it to every other unit whether it settles. -/
theorem Obtained.settles_other {key : String} {p : Option ConsumerRef} {s₁ : Proxy}
    (h : Obtained key (starts key) s s₁ p) (hl : Left now u s₁ s') (v : UnitRef) :
    Settles now starts s' v ↔ Settles now starts s v := by
  have hqueued (k : String) : s'.NoneQueued k ↔ s.NoneQueued k :=
    (noneQueued_congr (by rw [hl.consumers]) fun c => by rw [hl.drained]).trans (h.queued k)
  have hreg (k : String) : (s'.consumers[k]? ≠ none ∨ starts k = true) ↔
      (s.consumers[k]? ≠ none ∨ starts k = true) := by
    rw [hl.consumers, h.registered, or_assoc]
    refine or_congr_right ⟨fun hk => hk.elim (fun ⟨hk, hst⟩ => hk ▸ hst) id, .inr⟩
  simp only [Settles, hl.units, h.units, hqueued, hreg]

/-! ## A turn of the loop -/

theorem turn_iff (hr : Reachable s) (hm : s.matcher = .pop) {rest : List UnitRef}
    (hp : s.consumeMsgPool = u :: rest) : ∃ unit s₁ p,
      s.consumeMsgUnits[u]? = some unit ∧ s₁.matcher = .getConsumer u (.done p) ∧
      Obtained (unit.topic ++ unit.group) (starts (unit.topic ++ unit.group))
        { s with consumeMsgPool := rest } s₁ p ∧
      ∀ s', Turn now starts s s' ↔ s₁.matchUnit u p now now = some s' := by
  have hlt := (requestsInv hr).requests.bound u (by rw [queue, hm, hp]; exact List.mem_cons_self)
  have hu := List.getElem?_eq_getElem hlt
  have hgo : goOn now starts s = .matcher now now true := by simp [goOn, Proxy.call, hm]
  let s₀ : Proxy := { s with consumeMsgPool := rest, matcher := .getConsumer u .lookup }
  have hs : s.step (.matcher now now true) = some s₀ := matcher_pop now hm hp
  have hi : RegistryInv s₀ := registryInv (Runs.Reach.step hr trivial hs)
  generalize s.consumeMsgUnits[u] = unit at hu
  obtain ⟨r, he⟩ : ∃ r, s₀.getConsumerAlone unit.topic unit.group now
    (starts (unit.topic ++ unit.group)) = r := ⟨_, rfl⟩
  have ho := obtained hi unit.topic unit.group (starts (unit.topic ++ unit.group)) he
  refine ⟨unit, { r.1 with matcher := .getConsumer u (.done r.2) }, r.2, hu, rfl,
    ⟨ho.pool, ho.units, ho.calls, ho.registered, ho.queued, ho.found, ho.missed⟩, fun s' => ?_⟩
  refine Iff.trans ?_ (handles_iff (s := s₀) rfl hu he)
  rw [Turn, hgo, hs]
  constructor
  · rintro ⟨-, s₁, hs₁, h⟩
    obtain rfl := Option.some.inj hs₁
    exact h
  · exact fun h => ⟨hm, _, rfl, h⟩

theorem Handles.reachable (h : Handles now starts s s') (hr : Reachable s) :
    Reachable s' ∧ s'.matcher = .pop := by
  induction h with
  | last _ hs hp => exact ⟨.step hr trivial hs, hp⟩
  | more _ hs _ ih => exact ih (.step hr trivial hs)

/-- A turn that takes its unit out of the pool. -/
structure Done (now : Int) (starts : String → Bool) (u : UnitRef) (s s' : Proxy) : Prop where
  settled : Settles now starts s u
  others : ∀ v, Settles now starts s' v ↔ Settles now starts s v
  stale : ¬ s.Pending now u
  gone : s'.stillWaits now u = false
  waits : ∀ v, s'.stillWaits now v = true → s.stillWaits now v = true

theorem pending_congr (h : s'.consumeMsgUnits = s.consumeMsgUnits) (v : UnitRef) :
    s'.Pending now v ↔ s.Pending now v := by
  rw [Pending, Pending, h]

theorem Leaves.not_pending {p : Option ConsumerRef} (h : Leaves s now unit p)
    (hu : s.consumeMsgUnits[u]? = some unit) : ¬ s.Pending now u := by
  rintro ⟨unit', hu', hst, hlt⟩
  obtain rfl := Option.some.inj (hu.symm.trans hu')
  rcases h with hs | ⟨_, _, -, -, ht | ⟨ht, -⟩⟩
  · exact hst hs
  · rw [ConsumeMsgUnit.getIsAckTimeout, Bool.and_eq_true] at ht
    exact absurd hlt (Int.not_lt.mpr (of_decide_eq_true ht.2))
  · rw [ConsumeMsgUnit.getIsFetchMsgTimeout, Bool.and_eq_true] at ht
    exact absurd hlt (Int.not_lt.mpr (of_decide_eq_true ht.2))

theorem turn_cases (hr : Reachable s) (hm : s.matcher = .pop) {rest : List UnitRef}
    (hp : s.consumeMsgPool = u :: rest) (ht : Turn now starts s s') :
    (∀ v, s.Pending now v → s'.Pending now v) ∧ (s'.consumeMsgPool = rest ++ [u] ∨
      s'.consumeMsgPool = rest ∧ Done now starts u s s') := by
  obtain ⟨unit, s₁, p, hu, hm₁, ho, hturn⟩ := @turn_iff now starts s u hr hm rest hp
  have hu₁ : s₁.consumeMsgUnits[u]? = some unit := ho.units ▸ hu
  have hpend := fun v => @pending_congr now _ s₁ ho.units v
  rcases matchUnit_turn hm₁ hu₁ ((hturn s').mp ht) with ⟨hback, hkeep⟩ | ⟨hleaves, hleft⟩
  · exact ⟨fun v hv => hkeep v ((hpend v).mpr hv), .inl (by rw [hback, ho.pool])⟩
  · refine ⟨fun v hv => (pending_congr hleft.units v).mpr ((hpend v).mpr hv),
      .inr ⟨hleft.pool.trans ho.pool, (ho.settles_iff hu).mpr hleaves, ho.settles_other hleft,
        fun hf => hleaves.not_pending hu₁ ((hpend u).mpr hf), hleft.gone, fun v hv => ?_⟩⟩
    exact stillWaits_mono ho.units (fun k call hk _ => ho.calls ▸ hk) v (hleft.waits v hv)

theorem turn_done (hr : Reachable s) (hm : s.matcher = .pop) {rest : List UnitRef}
    (hp : s.consumeMsgPool = u :: rest) (ht : Turn now starts s s')
    (hpool : s'.consumeMsgPool = rest) : Done now starts u s s' := by
  rcases (turn_cases hr hm hp ht).2 with hback | ⟨-, hdone⟩
  · exact absurd (hpool.symm.trans hback) (by simp)
  · exact hdone

theorem settles_turn (hr : Reachable s) (hm : s.matcher = .pop) {rest : List UnitRef}
    (hp : s.consumeMsgPool = u :: rest) (hs : Settles now starts s u) :
    ∃ s', Turn now starts s s' ∧ s'.consumeMsgPool = rest := by
  obtain ⟨unit, s₁, p, hu, hm₁, ho, hturn⟩ := @turn_iff now starts s u hr hm rest hp
  obtain ⟨hk, call, hcall, -⟩ := (requestsInv hr).requests.life u unit hu
  obtain ⟨s', hs', hpool⟩ := ((ho.settles_iff hu).mp hs).turn (s := s₁) (ho.units ▸ hu)
    ⟨call, by rw [ho.calls, hk]; exact hcall⟩
  exact ⟨s', (hturn s').mpr hs', hpool.trans ho.pool⟩

theorem turn_reachable (hr : Reachable s) (ht : Turn now starts s s') :
    Reachable s' ∧ s'.matcher = .pop := by
  obtain ⟨-, s₁, hs, h⟩ := ht
  exact h.reachable (.step hr trivial hs)

/-- The inner loop, with a unit either done with or put back in each turn. -/
theorem innerLoop (now : Int) (starts : String → Bool) :
    Worklist.Loop consumeMsgPool (Turn now starts) (fun s => Reachable s ∧ s.matcher = .pop)
      (Settles now starts) where
  keeps hi ht := turn_reachable hi.1 ht
  front hi ht hp := (turn_cases hi.1 hi.2 hp ht).2.symm.imp_left And.left
  settled hi ht hp hpool := (turn_done hi.1 hi.2 hp ht hpool).settled
  settling hi hp hs := settles_turn hi.1 hi.2 hp hs
  stable hi ht hp hpool v _ := (turn_done hi.1 hi.2 hp ht hpool).others v

/-! ## Whole sweeps -/

theorem settles_of_sweepEnds (hr : Reachable s) (hm : s.matcher = .pop)
    (h : SweepEnds now starts s) : ∀ u ∈ s.consumeMsgPool, Settles now starts s u := by
  have hnodup := (requestsInv hr).requests.nodup
  rw [queue, hm] at hnodup
  obtain ⟨units, s', hsweep, hperm, -⟩ := h
  exact hsweep.all_settle (innerLoop now starts) ⟨hr, hm⟩ hnodup hperm

theorem sweepEnds_of_settles (hr : Reachable s) (hm : s.matcher = .pop)
    (h : ∀ u ∈ s.consumeMsgPool, Settles now starts s u) : SweepEnds now starts s := by
  have hgone {s s₁ : Proxy} {u : UnitRef} {rest : List UnitRef}
      (hi : Reachable s ∧ s.matcher = .pop) (ht : Turn now starts s s₁)
      (hp : s.consumeMsgPool = u :: rest) (hpool : s₁.consumeMsgPool = rest) :
      s₁.stillWaits now u = false ∧
        ∀ v, s.stillWaits now v = false → s₁.stillWaits now v = false := by
    have hdone := turn_done hi.1 hi.2 hp ht hpool
    refine ⟨hdone.gone, fun v hv => Bool.eq_false_iff.mpr fun hw => ?_⟩
    exact absurd (hv.symm.trans (hdone.waits v hw)) (by simp)
  obtain ⟨s', hsweep, hall, -⟩ := (innerLoop now starts).drains _ hgone ⟨hr, hm⟩ h
  refine ⟨s.consumeMsgPool, s', hsweep, .refl _, ?_⟩
  rw [hsweep.empty]
  exact (List.filter_eq_nil_iff.mpr fun u hu => by simp [hall u hu]).symm

/-- A sweep does not end while the timer of a unit that is not acked is running. -/
theorem not_sweeps_of_pending (hr : Reachable s) (hm : s.matcher = .pop)
    (hu : u ∈ s.consumeMsgPool) (hf : s.Pending now u) (units : List UnitRef) :
    ¬ Sweeps now starts s units s' := by
  intro h
  refine h.elim (K := fun s => (Reachable s ∧ s.matcher = .pop) ∧
    u ∈ s.consumeMsgPool ∧ s.Pending now u) (fun hk => List.ne_nil_of_mem hk.2.1) ?_ ⟨⟨hr, hm⟩, hu, hf⟩
  rintro s s₁ v rest ⟨hi, hmem, hf⟩ hp ht
  obtain ⟨hkeep, hcases⟩ := turn_cases hi.1 hi.2 hp ht
  refine ⟨turn_reachable hi.1 ht, ?_, hkeep u hf⟩
  rw [hp, List.mem_cons] at hmem
  rcases hcases with hback | ⟨hpool, hdone⟩
  · rw [hback, List.mem_append, List.mem_singleton]
    exact hmem.symm
  · rw [hpool]
    refine hmem.resolve_left ?_
    rintro rfl
    exact hdone.stale hf

end Queues

/-- A sweep comes to its end, having taken each unit once and leaving those that wait,
exactly if each unit of the pool leaves it the first time. -/
theorem sweepEnds_iff {s : Proxy} (hr : Reachable s) (hm : s.matcher = .pop) (now : Int)
    (starts : String → Bool) :
    SweepEnds now starts s ↔ ∀ u ∈ s.consumeMsgPool, Settles now starts s u :=
  ⟨settles_of_sweepEnds hr hm, sweepEnds_of_settles hr hm⟩

/-- Two requests time out in one sweep. -/
theorem sweepEnds_two : ∃ s, run [.consume "t" "g" 0, .consume "u" "g" 1] = some s ∧
    s.consumeMsgPool = [0, 1] ∧ SweepEnds 20 (fun _ => true) s := by
  have hs : run [.consume "t" "g" 0, .consume "u" "g" 1] =
      some ((init.consumeProcess "t" "g" 0).consumeProcess "u" "g" 1) := rfl
  refine ⟨_, hs, rfl, (sweepEnds_iff (reachable_run hs) rfl 20 _).mpr fun u hu => ?_⟩
  have hu : u ∈ [0, 1] := hu
  have hnone (key : String) :
      ((init.consumeProcess "t" "g" 0).consumeProcess "u" "g" 1).NoneQueued key :=
    fun c consumer hc => absurd hc (by simp [consumeProcess, init])
  simp only [List.mem_cons, List.not_mem_nil, or_false] at hu
  rcases hu with rfl | rfl
  · exact ⟨_, rfl, .inr ⟨.inr ⟨rfl, hnone _⟩, .inr rfl⟩⟩
  · exact ⟨_, rfl, .inr ⟨.inr ⟨rfl, hnone _⟩, .inr rfl⟩⟩

/-- The matcher takes a request that waits for a message again and again. -/
theorem sweep_never_ends : ∃ s, run [.consume "t" "g" 0] = some s ∧ s.matcher = .pop ∧
    s.consumeMsgPool = [0] ∧ (∀ units s', ¬ Sweeps 0 (fun _ => true) s units s') ∧
    ¬ SweepEnds 0 (fun _ => true) s := by
  have hs : run [.consume "t" "g" 0] = some (init.consumeProcess "t" "g" 0) := rfl
  have hnever (units : List UnitRef) (s' : Proxy) :
      ¬ Sweeps 0 (fun _ => true) (init.consumeProcess "t" "g" 0) units s' :=
    not_sweeps_of_pending (reachable_run hs) rfl List.mem_cons_self ⟨_, rfl, by decide, by decide⟩
      units
  exact ⟨_, hs, rfl, rfl, hnever, fun ⟨units, s', h, _⟩ => hnever units s' h⟩

end Proxy
end RocketmqProxy
