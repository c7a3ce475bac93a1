import RocketmqProxy.Proxy.AckTimer
import RocketmqProxy.Proxy.OneConsumer
import RocketmqProxy.Proxy.Timed

/-!
# Consumers that clients wait for

The shutdown thread goes by the time stamp of a consumer.  A delivery, a fetch timeout and
the arrival of a ConsumeAck renew it, the arrival of a Consume does not.
-/

namespace RocketmqProxy

/-- The unit waits for a message, or for the ack of one, and its time is not up. -/
def ConsumeMsgUnit.Waits (unit : ConsumeMsgUnit) (now : Int) : Prop :=
  (unit.status = .proxyConsumeInit ∧ now - unit.lastActiveAt < maxMsgWaitConsumeTime) ∨
    (unit.status = .clientReceive ∧ now - unit.lastActiveAt < maxMsgWaitConsumeAckTime)

/-- A consumer whose last activity precedes a request by no more than this is not too
inactive before the time of the request is up. -/
def maxIdle : Int := maxMsgConsumeMaxInactiveTime - maxMsgWaitConsumeTime

theorem ConsumeMsgUnit.waits_of_lt {unit : ConsumeMsgUnit} {now : Int}
    (hs : unit.status ≠ .consumeAck)
    (h : now - unit.lastActiveAt < maxMsgWaitConsumeTime) : unit.Waits now := by
  cases hst : unit.status with
  | proxyConsumeInit => exact .inl ⟨hst, h⟩
  | clientReceive => exact .inr ⟨hst, h⟩
  | consumeAck => exact absurd hst hs

namespace Proxy

open Std

/-- Units for `key`, in the pool or in the matcher's hand. -/
def Queued (s : Proxy) (key : String) (u : UnitRef) (unit : ConsumeMsgUnit) : Prop :=
  u ∈ s.queue ∧ s.consumeMsgUnits[u]? = some unit ∧ unit.topic ++ unit.group = key

/-- No client waits on a consumer that the shutdown thread has found too inactive. -/
def NoneWaiting (p : Proxy × Int) : Prop :=
  ∀ i key c, p.1.shutdown = .select i key c →
    ∀ u unit, p.1.Queued key u unit → ¬ unit.Waits p.2

/-- The time stamps of the consumers. -/
def stamps (s : Proxy) : List Int := s.consumerUnits.map ConsumerUnit.lastActiveAt

/-- The time stamp of the consumer that is registered under `key`. -/
def activeAt (s : Proxy) (key : String) : Option Int :=
  s.consumers[key]?.bind fun c => s.stamps[c]?

/-- The step puts a consumer with the time stamp `active` into the registry. -/
def Inserts (s : Proxy) (e : Event) (key : String) (active : Int) : Prop :=
  ∃ t c, turn e = some t ∧ s.call t = some (key, .insert c) ∧
    s.consumers[key]? = none ∧ s.stamps[c]? = some active

/-- Requests arrive while the consumer of their key is active, and consumers that are put
into the registry are active enough for the requests that wait for them. -/
structure Prompt (p : Proxy × Int) (e : Event) : Prop where
  arrival : ∀ topic group now, e = .consume topic group now →
    ∀ active, p.1.activeAt (topic ++ group) = some active → now - active ≤ maxIdle
  unselected : ∀ topic group now, e = .consume topic group now →
    ∀ i c, p.1.shutdown ≠ .select i (topic ++ group) c
  insertion : ∀ key active, Inserts p.1 e key active → ∀ u unit, p.1.Queued key u unit →
    (∀ now ∈ readings p.1 e, unit.Waits now) → unit.lastActiveAt - active ≤ maxIdle

/-! ## The time stamp under a key -/

/-- What a step does to the time stamp of the consumer that is registered under `key`. -/
inductive Stamped (s : Proxy) (e : Event) (s' : Proxy) (key : String) : Prop
  | kept (h : s'.activeAt key = s.activeAt key)
  | renewed {now : Int} (hr : now ∈ readings s e) (h : s'.activeAt key = some now)
  | inserted {active : Int} (hi : Inserts s e key active) (h : s'.activeAt key = some active)
  | erased (h : s'.activeAt key = none)

theorem stamps_set {units : List ConsumerUnit} {c : ConsumerRef} {unit unit' : ConsumerUnit}
    (hc : units[c]? = some unit) (he : unit'.lastActiveAt = unit.lastActiveAt) :
    (units.set c unit').map ConsumerUnit.lastActiveAt = units.map ConsumerUnit.lastActiveAt :=
  Heap.map_set hc he

theorem stamps_setState (units : List ConsumerUnit) (c : ConsumerRef) (state : SdkState) :
    (units.modify c (ConsumerUnit.setState state)).map ConsumerUnit.lastActiveAt =
      units.map ConsumerUnit.lastActiveAt :=
  Heap.map_modify ConsumerUnit.lastActiveAt (ConsumerUnit.setState state) (fun _ => rfl) units c

theorem Stamped.of_eq {s s' : Proxy} {e : Event} {key : String}
    (hc : s'.consumers = s.consumers) (hs : s'.stamps = s.stamps) : Stamped s e s' key :=
  .kept (by rw [activeAt, hc, hs, activeAt])

/-- `resetConsumerActive` has run, on time stamps that were as before. -/
theorem Stamped.of_reset {s s' : Proxy} {e : Event} {key topic group : String} {now : Int}
    {units : List ConsumerUnit} (hr : now ∈ readings s e) (hc : s'.consumers = s.consumers)
    (hs : units.map ConsumerUnit.lastActiveAt = s.stamps)
    (hu : s'.consumerUnits = match s.consumers[topic ++ group]? with
      | some c => units.modify c (ConsumerUnit.setLastActiveAt now)
      | none => units) : Stamped s e s' key := by
  cases hfound : s.consumers[topic ++ group]? with
  | none => exact .of_eq hc (by rw [stamps, hu, hfound, hs])
  | some d =>
    rw [hfound] at hu
    have hstamp : ∀ c : ConsumerRef, s'.stamps[c]? =
        if d = c then s.stamps[c]?.map fun _ => now else s.stamps[c]? := by
      intro c
      rw [stamps, hu, List.getElem?_map, List.getElem?_modify, ← hs, List.getElem?_map]
      by_cases hdc : d = c <;> simp [hdc, Function.comp_def, ConsumerUnit.setLastActiveAt]
    cases hk : s.consumers[key]? with
    | none => exact .erased (by rw [activeAt, hc, hk]; rfl)
    | some c =>
      have hactive : s'.activeAt key = s'.stamps[c]? := by rw [activeAt, hc, hk]; rfl
      have hactive₀ : s.activeAt key = s.stamps[c]? := by rw [activeAt, hk]; rfl
      rw [hstamp c] at hactive
      by_cases hdc : d = c
      · rw [if_pos hdc] at hactive
        cases ht : s.stamps[c]? with
        | none => exact .erased (by rw [hactive, ht]; rfl)
        | some t => exact .renewed hr (by rw [hactive, ht]; rfl)
      · rw [if_neg hdc] at hactive
        exact .kept (hactive.trans hactive₀.symm)

theorem stamp_registered {s : Proxy} (h : RegistryInv s) {key : String} {c : ConsumerRef}
    (hk : s.consumers[key]? = some c) : c < s.stamps.length := by
  obtain ⟨con, hcon, -⟩ := h.keyed key c hk
  simpa [stamps, sdk] using (List.getElem?_eq_some_iff.mp hcon).1

theorem GetStep.stamped {s s' : Proxy} {e : Event} (hi : RegistryInv s) {t : Caller}
    {topic group : String} {now : Int} {get get' : GetConsumer}
    {msgPool : TreeMap String (List MsgUnit)} (he : turn e = some t)
    (hcall : s.call t = some (topic ++ group, get))
    (h : GetStep s topic group now get s'.consumers msgPool s'.consumerUnits get')
    (key : String) : Stamped s e s' key := by
  generalize hcons : s'.consumers = consumers at h
  generalize hunits : s'.consumerUnits = units at h
  cases h with
  | found | failed => exact .of_eq hcons (by rw [stamps, hunits, stamps])
  | started c => exact .of_eq hcons (by rw [stamps, hunits, stamps_setState, stamps])
  | created =>
    refine .kept ?_
    rw [activeAt, hcons, stamps, hunits, List.map_append, activeAt]
    cases hk : s.consumers[key]? with
    | none => rfl
    | some c => exact List.getElem?_append_left (stamp_registered hi hk)
  | inserted c =>
    have hstamps : s'.stamps = s.stamps := by rw [stamps, hunits, stamps]
    cases hk : s.consumers[key]? with
    | some d =>
      refine .kept ?_
      rw [activeAt, hcons, TreeMapLoop.getElem?_insertIfNew, hstamps, activeAt, hk]
      split <;> rfl
    | none =>
      by_cases hkey : topic ++ group = key
      · subst hkey
        have hactive : s'.activeAt (topic ++ group) = s.stamps[c]? := by
          rw [activeAt, hcons, TreeMapLoop.getElem?_insertIfNew, if_pos rfl, hk, hstamps]
          rfl
        cases ht : s.stamps[c]? with
        | none => exact .erased (hactive.trans ht)
        | some active => exact .inserted ⟨t, c, he, hcall, hk, ht⟩ (hactive.trans ht)
      · refine .kept ?_
        rw [activeAt, hcons, TreeMapLoop.getElem?_insertIfNew, if_neg hkey, hstamps, activeAt]

theorem Step.stamped {s s' : Proxy} {e : Event} (h : Step s e s') (hi : RegistryInv s)
    (key : String) : Stamped s e s' key := by
  cases h with
  | consumeAck => exact .of_reset (List.mem_singleton_self _) rfl rfl rfl
  | @cancelGet k call get _ _ _ _ _ _ hn hk hget =>
    refine @GetStep.stamped _ _ _ hi .grpc _ _ _ _ _ _ rfl ?_ hget key
    simp [Proxy.call, Proxy.callNames, hn, hk]
  | @ackGet k call get _ _ _ _ _ _ hn hk hget =>
    refine @GetStep.stamped _ _ _ hi .grpc _ _ _ _ _ _ rfl ?_ hget key
    simp [Proxy.call, Proxy.ackNames, hn, hk]
  | @matcherGet u unit get _ _ _ _ _ _ _ hp hu hget =>
    refine @GetStep.stamped _ _ _ hi .matcher _ _ _ _ _ _ rfl ?_ hget key
    simp [Proxy.call, Proxy.unitNames, hp, hu]
  | cancelSet _ _ hc => exact .of_eq rfl (stamps_set hc rfl)
  | ackAccepted _ _ hc | ackRejected _ _ hc => exact .of_eq rfl (stamps_set hc rfl)
  | ackTimeout _ _ hc => exact .of_eq rfl (stamps_set hc rfl)
  | callback hc => exact .of_eq rfl (stamps_set hc rfl)
  | clearUnlock _ hc => exact .of_eq rfl (stamps_set hc rfl)
  | callbackReturn hc he =>
    obtain ⟨-, -, -, -, -, -, rfl⟩ := ConsumerUnit.callbackEnd_some he
    exact .of_eq rfl (stamps_set hc rfl)
  | @deliver u unit c consumer consumer' a msg call now now' started hm hu hc hs hk hf =>
    have hr : now ∈ readings s (.matcher now now' started) := by
      rw [readings]
      split <;> exact List.mem_cons_self
    have hsame : consumer'.lastActiveAt = consumer.lastActiveAt := by
      obtain ⟨-, -, -, -, rfl⟩ := ConsumerUnit.fetchAndConsume_some hf
      rfl
    exact @Stamped.of_reset _ _ _ _ unit.topic unit.group _ _ hr rfl (stamps_set hc hsame) rfl
  | @fetchTimeout u unit c consumer call now now' started hm hu hc hs hk hf ht =>
    have hr : now' ∈ readings s (.matcher now now' started) := by
      simp [readings, fetchTimesOut, hm, hu, hc, ht, hf]
    exact @Stamped.of_reset _ _ _ _ unit.topic unit.group _ _ hr rfl rfl rfl
  | shutdownBegin | shutdownEnd => exact .of_eq rfl (stamps_setState _ _ _)
  | @erase i key' =>
    by_cases hkey : key' = key
    · exact .erased (by simp [activeAt, hkey])
    · refine .kept ?_
      have hfound : (s.consumers.erase key')[key]? = s.consumers[key]? := by
        rw [TreeMap.getElem?_erase, if_neg (mt Std.compare_eq_iff_eq.mp hkey)]
      exact congrArg (fun d => d.bind fun c => s.stamps[c]?) hfound
  | _ => exact .of_eq rfl rfl

/-! ## Runs -/

/-- A unit that is queued after a step was queued before, or has arrived with it. -/
theorem Step.queued {s s' : Proxy} {e : Event} (h : Step s e s') {key : String} {u : UnitRef}
    {unit' : ConsumeMsgUnit} (hq : s'.Queued key u unit') (hs : unit'.status ≠ .consumeAck) :
    (∃ unit, s.Queued key u unit ∧ unit.status ≠ .consumeAck ∧
      unit.lastActiveAt = unit'.lastActiveAt) ∨
    ∃ topic group, topic ++ group = key ∧ e = .consume topic group unit'.lastActiveAt := by
  obtain ⟨hmem, hu', hkey⟩ := hq
  rcases h.unit_origin hu' with ⟨unit, hu⟩ | he
  · obtain ⟨unit₁, hu₁, -, hat⟩ := h.unit_kept hu
    obtain rfl := Option.some.inj (hu'.symm.trans hu₁)
    have hname : s.unitNames[u]? = some (unit.topic, unit.group) := by
      rw [Proxy.unitNames, List.getElem?_map, hu]
      rfl
    have hname' := h.unitNames.old hname
    rw [Proxy.unitNames, List.getElem?_map, hu'] at hname'
    obtain ⟨htopic, hgroup⟩ := Prod.mk.inj (Option.some.inj hname')
    refine .inl ⟨unit, ⟨?_, hu, ?_⟩, fun hack => hs ?_, hat.symm⟩
    · by_contra hout
      exact h.gone u (List.getElem?_eq_some_iff.mp hu).1 hout hmem
    · rw [← htopic, ← hgroup, hkey]
    · obtain ⟨unit₂, hu₂, hack'⟩ := h.marked hu hack
      obtain rfl := Option.some.inj (hu'.symm.trans hu₂)
      exact hack'
  · exact .inr ⟨unit'.topic, unit'.group, hkey, he⟩

/-- The consumer under `key` is active enough for the requests that wait for it, and the
requests of a consumer that was found too inactive have had their time. -/
def Active (p : Proxy × Int) : Prop :=
  ∀ key u unit, p.1.Queued key u unit → unit.status ≠ .consumeAck →
    p.2 - unit.lastActiveAt ≥ maxMsgWaitConsumeTime ∨
      (∀ active, p.1.activeAt key = some active → unit.lastActiveAt - active ≤ maxIdle) ∧
        ∀ i c, p.1.shutdown ≠ .select i key c

/-- What a step that finds a consumer too inactive has read. -/
theorem Step.selects {s s' : Proxy} {e : Event} (h : Step s e s') {i : Nat} {key : String}
    {c : ConsumerRef} (hp : s'.shutdown = .select i key c) :
    s.shutdown = .select i key c ∨ ∃ now active, e = .shutdown now ∧
      s.activeAt key = some active ∧ now - active ≥ maxMsgConsumeMaxInactiveTime := by
  cases h with
  | @select j key' d unit now hp' hi hk hc ht =>
    obtain ⟨rfl, rfl, rfl⟩ := ShutdownPc.select.inj hp
    refine .inr ⟨now, unit.lastActiveAt, rfl, ?_, of_decide_eq_true ht⟩
    rw [activeAt, hk, Option.bind_some, stamps, List.getElem?_map, hc]
    rfl
  | sweep | sweepEnd | skip | shutdownBegin | shutdownEnd | erase =>
    exact absurd hp (by simp)
  | _ => exact .inl hp

theorem Step.arrived {s s' : Proxy} {topic group : String} {now : Int}
    (h : Step s (.consume topic group now) s') : s' = s.consumeProcess topic group now := by
  cases h
  rfl

theorem active_next {p q : Proxy × Int} {e : Event} (hr : Reachable p.1)
    (hbefore : ∀ (u : UnitRef) (unit : ConsumeMsgUnit), p.1.consumeMsgUnits[u]? = some unit →
      unit.lastActiveAt ≤ p.2)
    (hs : timedStep p e = some q) (hP : Prompt p e) (ha : Active p) : Active q := by
  obtain ⟨hmono, hreadings⟩ := Clock.step_le hs
  have hstep := step_cases (Clock.step_eq_some.mp hs).2.1
  intro key u unit hq hst
  rcases hstep.queued hq hst with ⟨unit₀, hq₀, hst₀, hat⟩ | ⟨topic, group, rfl, rfl⟩
  · rw [← hat]
    by_cases hover : q.2 - unit₀.lastActiveAt ≥ maxMsgWaitConsumeTime
    · exact .inl hover
    have hbefore₀ := hbefore u unit₀ hq₀.2.1
    obtain ⟨hactive, hshut⟩ := (ha key u unit₀ hq₀ hst₀).resolve_left (by omega)
    refine .inr ⟨fun active hkey => ?_, fun i c hp => ?_⟩
    · cases hstep.stamped (Proxy.registryInv hr) key with
      | kept h => exact hactive active (h ▸ hkey)
      | @renewed now hnow h =>
        obtain rfl := Option.some.inj (h.symm.trans hkey)
        have := (hreadings now hnow).1
        simp only [maxIdle, maxMsgConsumeMaxInactiveTime, maxMsgWaitConsumeTime]
        omega
      | @inserted active' hi h =>
        obtain rfl := Option.some.inj (h.symm.trans hkey)
        refine hP.insertion key active' hi u unit₀ hq₀ fun now hnow =>
          ConsumeMsgUnit.waits_of_lt hst₀ ?_
        have := (hreadings now hnow).2
        omega
      | erased h => exact absurd (h.symm.trans hkey) (by simp)
    · rcases hstep.selects hp with hp₀ | ⟨now, active, rfl, hkey, hidle⟩
      · exact hshut i c hp₀
      · have hle := hactive active hkey
        have := (hreadings now List.mem_cons_self).2
        simp only [maxIdle, maxMsgConsumeMaxInactiveTime, maxMsgWaitConsumeTime] at *
        omega
  · refine .inr ⟨fun active hkey => ?_, fun i c hp => ?_⟩
    · rw [hstep.arrived] at hkey
      exact hP.arrival topic group _ rfl active hkey
    · rw [hstep.arrived] at hp
      exact hP.unselected topic group _ rfl i c hp

theorem active_of_prompt {t₀ : Int} {p : Proxy × Int} (h : TimedReachableBy Prompt t₀ p) :
    Active p := by
  refine h.invariant (I := Active) ?_ fun p e q hr ha hP hs =>
    active_next (reachable_of_timed hr) (arrived_before hr) hs hP ha
  rintro key u unit ⟨hq, -⟩
  exact absurd hq (by simp [queue, held, init])

/-- When the shutdown thread has found a consumer too inactive, no client waits for it, in
any run with a clock that never goes back whose requests arrive promptly. -/
theorem noneWaiting_of_prompt {t₀ : Int} {p : Proxy × Int} (h : TimedReachableBy Prompt t₀ p) :
    NoneWaiting p := by
  rintro i key c hp u unit hq hwaits
  have hst : unit.status ≠ .consumeAck := by
    rcases hwaits with ⟨hs, -⟩ | ⟨hs, -⟩ <;> simp [hs]
  rcases active_of_prompt h key u unit hq hst with hover | ⟨-, hshut⟩
  · simp only [ConsumeMsgUnit.Waits, maxMsgWaitConsumeTime, maxMsgWaitConsumeAckTime] at *
    omega
  · exact hshut i c hp

/-- No request arrives for a registered consumer, and each consumer is young enough for
every request that waits. -/
def Fresh (p : Proxy × Int) : Event → Prop
  | .consume topic group _ => p.1.consumers[topic ++ group]? = none ∧ p.1.shutdown = .sweep
  | .matcher _ _ _ | .grpc _ _ => ∀ u ∈ p.1.queue, ∀ unit ∈ p.1.consumeMsgUnits[u]?,
      ∀ active ∈ p.1.stamps, unit.lastActiveAt - active ≤ maxIdle
  | _ => True

instance (p : Proxy × Int) : (e : Event) → Decidable (Fresh p e)
  | .consume topic group _ => inferInstanceAs (Decidable
      (p.1.consumers[topic ++ group]? = none ∧ p.1.shutdown = .sweep))
  | .matcher _ _ _ | .grpc _ _ => inferInstanceAs (Decidable (∀ u ∈ p.1.queue,
      ∀ unit ∈ p.1.consumeMsgUnits[u]?, ∀ active ∈ p.1.stamps,
        unit.lastActiveAt - active ≤ maxIdle))
  | .consumeDone _ _ | .consumeAck _ _ _ _ _ | .ackDone _ _ | .callback _ _ _
  | .callbackReturn _ _ | .shutdown _ | .clear => inferInstanceAs (Decidable True)

theorem Fresh.prompt {p : Proxy × Int} {e : Event} (h : Fresh p e) : Prompt p e := by
  refine ⟨fun topic group now he active hkey => ?_, fun topic group now he i c hp => ?_, ?_⟩
  · subst he
    rw [activeAt, h.1] at hkey
    exact absurd hkey (by simp)
  · subst he
    exact absurd (h.2.symm.trans hp) (by simp)
  · rintro key active ⟨t, c, he, -, -, hc⟩ u unit ⟨hq, hu, -⟩ -
    cases e with
    | matcher | grpc => exact h u hq unit hu active (List.mem_of_getElem? hc)
    | _ => exact absurd he (by simp [turn])

/-- The message was delivered twenty seconds ago. -/
theorem noneWaiting_of_prompt_idle : ∃ p, TimedReachable 0 p ∧
    p.1.shutdown = .select 0 "tg" 0 ∧ p.1.queue = [0] ∧ NoneWaiting p := by
  have hrun : (Runs.exec (Runs.restrict timedStep Fresh) (init, 0)
      (deliveredOnce ++ [.shutdown 20, .shutdown 20])).map
        (fun p => (p.1.shutdown, p.1.queue)) = some (.select 0 "tg" 0, [0]) := by
    decide
  obtain ⟨p, hp, hfacts⟩ := Option.map_eq_some_iff.mp hrun
  obtain ⟨hshut, hqueue⟩ := Prod.mk.inj hfacts
  have h : TimedReachableBy Fresh 0 p := .of_exec_restrict .init hp
  exact ⟨p, h.mono fun _ _ _ => trivial, hshut, hqueue,
    noneWaiting_of_prompt (h.mono fun _ _ hf => hf.prompt)⟩

/-- A request arrives fifteen seconds after the last activity of its consumer, and has
waited five when the consumer is shut down. -/
theorem waiting_shut_down : ¬ ∀ t₀ p, TimedReachable t₀ p → NoneWaiting p := by
  have hrun : (Runs.exec timedStep (init, 0)
      (deliveredOnce ++ [.consume "t" "g" 15, .shutdown 20, .shutdown 20])).map
        (fun p => ((p.1.shutdown, p.2), p.1.queue, p.1.consumeMsgUnits[1]?)) =
      some ((.select 0 "tg" 0, 20), [0, 1], some ⟨1, "t", "g", "", 15, .proxyConsumeInit⟩) := by
    decide
  obtain ⟨p, hp, hfacts⟩ := Option.map_eq_some_iff.mp hrun
  obtain ⟨⟨hshut, hnow⟩, hqueue, hu⟩ : (_ ∧ _) ∧ _ ∧ _ := by simpa using hfacts
  intro hall
  refine hall 0 p (.of_exec .init hp) 0 "tg" 0 hshut 1 _ ⟨?_, hu, rfl⟩ (.inl ⟨rfl, ?_⟩)
  · rw [hqueue]
    simp
  · rw [hnow]
    decide

end Proxy
end RocketmqProxy
