import RocketmqProxy.Proxy.Step

/-!
# The history of each consumer

The trace restricted to one `ConsumerUnit` is a history of that consumer in the sense
of `UnitSteps`, whatever the threads do in between.  What holds of all histories of a
consumer thereby holds in every run of the proxy.
-/

namespace RocketmqProxy
namespace Proxy

open Std

/-- The operations on the batches of `c`, in order. -/
def history (c : ConsumerRef) (trace : List Obs) : List UnitObs :=
  trace.filterMap fun o =>
    match o with
    | .unit d o => if d = c then some o else none
    | .reset _ _ _ => none

@[simp] theorem history_nil (c : ConsumerRef) : history c [] = [] := rfl

@[simp] theorem history_append (c : ConsumerRef) (t t' : List Obs) :
    history c (t ++ t') = history c t ++ history c t' := by
  simp [history]

@[simp] theorem history_unit_self (c : ConsumerRef) (o : UnitObs) :
    history c [.unit c o] = [o] := by
  simp [history]

@[simp] theorem history_unit_ne {c d : ConsumerRef} (h : d ≠ c) (o : UnitObs) :
    history c [.unit d o] = [] := by
  simp [history, h]

@[simp] theorem history_reset (c : ConsumerRef) (topic group : String)
    (d : Option ConsumerRef) : history c (d.map (.reset topic group)).toList = [] := by
  cases d <;> rfl

theorem mem_history {c : ConsumerRef} {o : UnitObs} {t : List Obs} :
    o ∈ history c t ↔ .unit c o ∈ t := by
  simp only [history, List.mem_filterMap]
  constructor
  · rintro ⟨x, hx, he⟩
    cases x with
    | unit d o' =>
      simp only [Option.ite_none_right_eq_some, Option.some.injEq] at he
      obtain ⟨rfl, rfl⟩ := he
      exact hx
    | reset topic group d => exact absurd he (by simp)
  · exact fun h => ⟨_, h, by simp⟩

/-! ## What a step does to the consumers -/

/-- The two have the same batches, and differ at most in their activity time and in
how far the SDK consumer has gone. -/
structure SameBatches (u u' : ConsumerUnit) : Prop where
  lockers : u'.lockers = u.lockers
  callbacks : u'.callbacks = u.callbacks
  topic : u'.consumer.topic = u.consumer.topic
  groupName : u'.consumer.groupName = u.consumer.groupName

namespace SameBatches

theorem refl (u : ConsumerUnit) : SameBatches u u := ⟨rfl, rfl, rfl, rfl⟩

theorem trans {u u' u'' : ConsumerUnit} (h : SameBatches u u') (h' : SameBatches u' u'') :
    SameBatches u u'' :=
  ⟨h'.lockers.trans h.lockers, h'.callbacks.trans h.callbacks, h'.topic.trans h.topic,
    h'.groupName.trans h.groupName⟩

theorem setState (state : SdkState) (u : ConsumerUnit) :
    SameBatches u (u.setState state) := ⟨rfl, rfl, rfl, rfl⟩

theorem setLastActiveAt (now : Int) (u : ConsumerUnit) :
    SameBatches u (u.setLastActiveAt now) := ⟨rfl, rfl, rfl, rfl⟩

end SameBatches

/-- Each consumer of `us` is in `us'` with the same batches, and there is no other. -/
def SameUnits (us us' : List ConsumerUnit) : Prop :=
  ∀ c : ConsumerRef, Option.Rel SameBatches us[c]? us'[c]?

namespace SameUnits

theorem refl (us : List ConsumerUnit) : SameUnits us us := by
  intro c
  cases us[c]? with
  | none => exact .none
  | some u => exact .some (.refl u)

theorem modify {f : ConsumerUnit → ConsumerUnit} (hf : ∀ u, SameBatches u (f u))
    (us : List ConsumerUnit) (d : ConsumerRef) : SameUnits us (us.modify d f) := by
  intro c
  rw [List.getElem?_modify]
  cases us[c]? with
  | none => exact .none
  | some u =>
    by_cases hd : d = c
    · simpa [hd] using Option.Rel.some (hf u)
    · simpa [hd] using Option.Rel.some (SameBatches.refl u)

/-- What `resetConsumerActive` does to the consumers. -/
theorem resetConsumerActive (s : Proxy) (us : List ConsumerUnit) (topic group : String)
    (now : Int) :
    SameUnits us
      (match s.consumers[topic ++ group]? with
        | some c => us.modify c (ConsumerUnit.setLastActiveAt now)
        | none => us) := by
  split
  · exact modify (SameBatches.setLastActiveAt now) us _
  · exact refl us

theorem get {us us' : List ConsumerUnit} (h : SameUnits us us') {c : ConsumerRef}
    {u' : ConsumerUnit} (hu : us'[c]? = some u') : ∃ u, us[c]? = some u ∧ SameBatches u u' := by
  have hc := h c
  rw [hu] at hc
  cases hus : us[c]? with
  | none =>
    rw [hus] at hc
    exact absurd hc (by simp)
  | some u =>
    rw [hus] at hc
    cases hc with
    | some hr => exact ⟨u, rfl, hr⟩

theorem get' {us us' : List ConsumerUnit} (h : SameUnits us us') {c : ConsumerRef}
    {u : ConsumerUnit} (hu : us[c]? = some u) : ∃ u', us'[c]? = some u' ∧ SameBatches u u' := by
  have hc := h c
  rw [hu] at hc
  cases hus : us'[c]? with
  | none =>
    rw [hus] at hc
    exact absurd hc (by simp)
  | some u' =>
    rw [hus] at hc
    cases hc with
    | some hr => exact ⟨u', rfl, hr⟩

theorem none_iff {us us' : List ConsumerUnit} (h : SameUnits us us') {c : ConsumerRef} :
    us'[c]? = none ↔ us[c]? = none := by
  have hc := h c
  cases hus : us[c]? <;> cases hus' : us'[c]? <;> rw [hus, hus'] at hc <;> simp at hc ⊢

end SameUnits

/-- The thread and the event behind an operation on the batches of `c`. -/
inductive Caused (s : Proxy) (e : Event) (c : ConsumerRef) : UnitObs → Prop
  | callback {a : Addr} {msgs : List (Addr × MQMessageExt)} (he : e = .callback c a msgs) :
      Caused s e c (.registered a msgs)
  | callbackReturn {a : Addr} {st : ConsumeStatus} {vec : List ConsumeStatus}
      (he : e = .callbackReturn c a) : Caused s e c (.reported a st vec)
  | fetch {u : UnitRef} {unit : ConsumeMsgUnit} {a : Addr} {msg : MsgPtr}
      (hm : s.matcher = .getConsumer u (.done (some c)))
      (hu : s.consumeMsgUnits[u]? = some unit) (hs : unit.status = .proxyConsumeInit) :
      Caused s e c (.fetched u a msg)
  | ackTimeout {u : UnitRef} {unit : ConsumeMsgUnit} {ret : Bool} {now now' : Int}
      {started : Bool} (he : e = .matcher now now' started)
      (hm : s.matcher = .getConsumer u (.done (some c)))
      (hu : s.consumeMsgUnits[u]? = some unit) (hs : unit.status = .clientReceive)
      (ht : unit.getIsAckTimeout now = true) :
      Caused s e c (.acked (.ackTimeout u) unit.msgId .reconsumeLater ret)
  | consumeAck {k : CallRef} {call : ConsumeAckCallData} {ret : Bool} {now : Int}
      {started : Bool} (he : e = .grpc now started)
      (hg : s.grpc = .ack k (.done (some c))) (hk : s.ackCalls[k]? = some call) :
      Caused s e c (.acked (.consumeAck k) call.msgId (.ofInt call.requestStatus) ret)
  | cancel {k : CallRef} {call : ConsumeCallData} {ret : Bool} {now : Int}
      {started : Bool} (he : e = .grpc now started)
      (hg : s.grpc = .cancel k (.done (some c))) (hk : s.consumeCalls[k]? = some call) :
      Caused s e c (.acked (.cancel k) call.msgId .reconsumeLater ret)
  | clear (he : e = .clear) (hp : s.clear = .unlock c) : Caused s e c .unlocked

/-! ## What a step does to the trace -/

/-- The topic and the group of each unit. -/
def unitNames (s : Proxy) : List (String × String) :=
  s.consumeMsgUnits.map fun unit => (unit.topic, unit.group)

/-- The topic and the group of each Consume call. -/
def callNames (s : Proxy) : List (String × String) :=
  s.consumeCalls.map fun call => (call.topic, call.group)

/-- The topic and the group of each ConsumeAck call. -/
def ackNames (s : Proxy) : List (String × String) :=
  s.ackCalls.map fun call => (call.topic, call.group)

def requested (s : Proxy) : List (String × String) :=
  s.unitNames ++ s.callNames ++ s.ackNames

theorem mem_requested_unit {s : Proxy} {u : UnitRef} {unit : ConsumeMsgUnit}
    (hu : s.consumeMsgUnits[u]? = some unit) : (unit.topic, unit.group) ∈ s.requested :=
  List.mem_append_left _ (List.mem_append_left _
    (List.mem_map.mpr ⟨unit, List.mem_of_getElem? hu, rfl⟩))

theorem mem_requested_call {s : Proxy} {k : CallRef} {call : ConsumeCallData}
    (hk : s.consumeCalls[k]? = some call) : (call.topic, call.group) ∈ s.requested :=
  List.mem_append_left _ (List.mem_append_right _
    (List.mem_map.mpr ⟨call, List.mem_of_getElem? hk, rfl⟩))

theorem mem_requested_ack {s : Proxy} {k : CallRef} {call : ConsumeAckCallData}
    (hk : s.ackCalls[k]? = some call) : (call.topic, call.group) ∈ s.requested :=
  List.mem_append_right _ (List.mem_map.mpr ⟨call, List.mem_of_getElem? hk, rfl⟩)

/-- A step leaves every consumer its batches, creates a consumer, or does one
operation on the batches of one consumer. -/
inductive UnitsStep (s : Proxy) (e : Event) (s' : Proxy) : Prop
  | kept (units : SameUnits s.consumerUnits s'.consumerUnits)
      (trace : ∀ c, history c s'.trace = history c s.trace)
  | created (topic group : String) (now : Int) (known : (topic, group) ∈ s.requested)
      (units : s'.consumerUnits = s.consumerUnits ++ [.new topic group now])
      (trace : s'.trace = s.trace)
  | stepped {c : ConsumerRef} {o : UnitObs} {unit unit' : ConsumerUnit}
      (hc : s.consumerUnits[c]? = some unit) (hstep : UnitStep unit o unit')
      (cause : Caused s e c o)
      (units : SameUnits (s.consumerUnits.set c unit') s'.consumerUnits)
      (trace : ∀ d, history d s'.trace = history d (s.trace ++ [.unit c o]))

theorem GetStep.unitsStep {s s' : Proxy} {e : Event} {topic group : String} {now : Int}
    {get get' : GetConsumer} {consumers : TreeMap String ConsumerRef}
    {msgPool : TreeMap String (List MsgUnit)} {units : List ConsumerUnit}
    (h : GetStep s topic group now get consumers msgPool units get')
    (hreq : (topic, group) ∈ s.requested) (hu : s'.consumerUnits = units)
    (ht : s'.trace = s.trace) : UnitsStep s e s' := by
  have htrace : ∀ c, history c s'.trace = history c s.trace := fun c => by rw [ht]
  cases h with
  | found | failed | inserted => exact .kept (hu ▸ .refl _) htrace
  | created => exact .created topic group now hreq hu ht
  | started c => exact .kept (hu ▸ .modify (SameBatches.setState _) _ c) htrace

theorem Step.unitsStep {s s' : Proxy} {e : Event} (h : Step s e s') : UnitsStep s e s' := by
  cases h with
  | consumeAck =>
    exact .kept (.resetConsumerActive s _ _ _ _) fun c => by
      simp [ackProcess, Proxy.resetConsumerActive]
  | cancelGet _ hk hget => exact hget.unitsStep (mem_requested_call hk) rfl rfl
  | ackGet _ hk hget => exact hget.unitsStep (mem_requested_ack hk) rfl rfl
  | matcherGet _ hu hget => exact hget.unitsStep (mem_requested_unit hu) rfl rfl
  | cancelSet hg hk hc =>
    exact .stepped hc (.acked (.inr rfl)) (.cancel rfl hg hk) (.refl _) fun _ => rfl
  | ackAccepted hg hk hc hret | ackRejected hg hk hc hret =>
    exact .stepped hc (.ack hret (.inl ⟨_, rfl⟩)) (.consumeAck rfl hg hk) (.refl _) fun _ => rfl
  | @deliver u unit c consumer consumer' a msg call now now' _ hm hu hc hs hk hf =>
    refine .stepped hc (.fetched hf) (.fetch hm hu hs)
      (.resetConsumerActive s _ unit.topic unit.group now) fun d => ?_
    refine (history_append d _ _).trans ?_
    rw [history_reset, List.append_nil]
    rfl
  | fetchTimeout =>
    exact .kept (.resetConsumerActive s _ _ _ _) fun c => by
      simp [Proxy.fetchTimeout, Proxy.resetConsumerActive]
  | ackTimeout hm hu hc hs ht =>
    exact .stepped hc (.acked (.inr rfl)) (.ackTimeout rfl hm hu hs ht) (.refl _) fun _ => rfl
  | callback hc _ ha hn =>
    exact .stepped hc (.registered ha hn) (.callback rfl) (.refl _) fun _ => rfl
  | callbackReturn hc he =>
    exact .stepped hc (.reported he) (.callbackReturn rfl) (.refl _) fun _ => rfl
  | shutdownBegin | shutdownEnd =>
    exact .kept (.modify (SameBatches.setState _) _ _) fun _ => rfl
  | clearUnlock hp hc =>
    exact .stepped hc .unlocked (.clear rfl hp) (.refl _) fun _ => rfl
  | _ => exact .kept (.refl _) fun _ => rfl

/-- The topic and the group of the request that the event brings. -/
def request : Event → Option (String × String)
  | .consume topic group _ => some (topic, group)
  | .consumeAck topic group _ _ _ => some (topic, group)
  | _ => none

/-- How an entry of the trace comes about. -/
inductive Explained (s : Proxy) (e : Event) : Obs → Prop
  | unit {c : ConsumerRef} {o : UnitObs} {unit unit' : ConsumerUnit}
      (hc : s.consumerUnits[c]? = some unit) (hstep : UnitStep unit o unit')
      (cause : Caused s e c o) : Explained s e (.unit c o)
  | reset {topic group : String} {c : ConsumerRef}
      (hc : s.consumers[topic ++ group]? = some c)
      (known : (topic, group) ∈ s.requested ∨ (topic, group) ∈ (request e).toList) :
      Explained s e (.reset topic group c)

theorem explained_reset {s : Proxy} {e : Event} {topic group : String}
    (known : (topic, group) ∈ s.requested ∨ (topic, group) ∈ (request e).toList) :
    ∀ o ∈ (s.consumers[topic ++ group]?.map (.reset topic group)).toList, Explained s e o := by
  intro o ho
  cases hc : s.consumers[topic ++ group]? with
  | none => simp [hc] at ho
  | some c =>
    obtain rfl : o = .reset topic group c := by simpa [hc] using ho
    exact .reset hc known

theorem Step.explained {s s' : Proxy} {e : Event} (h : Step s e s') :
    ∃ t, s'.trace = s.trace ++ t ∧ ∀ o ∈ t, Explained s e o := by
  have hone : ∀ {c : ConsumerRef} {o : UnitObs} {unit unit' : ConsumerUnit},
      s.consumerUnits[c]? = some unit → UnitStep unit o unit' → Caused s e c o →
      ∀ x ∈ [Obs.unit c o], Explained s e x := by
    intro c o unit unit' hc hstep cause x hx
    obtain rfl := List.mem_singleton.mp hx
    exact .unit hc hstep cause
  cases h with
  | cancelSet hg hk hc =>
    exact ⟨_, rfl, hone hc (.acked (.inr rfl)) (.cancel rfl hg hk)⟩
  | consumeAck => exact ⟨_, rfl, explained_reset (.inr (by simp [request]))⟩
  | ackAccepted hg hk hc hret | ackRejected hg hk hc hret =>
    exact ⟨_, rfl, hone hc (.ack hret (.inl ⟨_, rfl⟩)) (.consumeAck rfl hg hk)⟩
  | deliver hm hu hc hs hk hf =>
    refine ⟨_, List.append_assoc _ _ _, fun o ho => ?_⟩
    rcases List.mem_append.mp ho with ho | ho
    · exact hone hc (.fetched hf) (.fetch hm hu hs) o ho
    · exact explained_reset (.inl (mem_requested_unit hu)) o ho
  | fetchTimeout hm hu => exact ⟨_, rfl, explained_reset (.inl (mem_requested_unit hu))⟩
  | ackTimeout hm hu hc hs ht =>
    exact ⟨_, rfl, hone hc (.acked (.inr rfl)) (.ackTimeout rfl hm hu hs ht)⟩
  | callback hc _ ha hn => exact ⟨_, rfl, hone hc (.registered ha hn) (.callback rfl)⟩
  | callbackReturn hc he => exact ⟨_, rfl, hone hc (.reported he) (.callbackReturn rfl)⟩
  | clearUnlock hp hc => exact ⟨_, rfl, hone hc .unlocked (.clear rfl hp)⟩
  | _ => exact ⟨[], (List.append_nil _).symm, by simp⟩

/-! ## Every run -/

/-- The trace accounts for the batches of every consumer. -/
structure Histories (units : List ConsumerUnit) (trace : List Obs) : Prop where
  run : ∀ c unit, units[c]? = some unit →
    ∃ topic group now, UnitSteps (.new topic group now) (history c trace) unit
  fresh : ∀ c, units[c]? = none → history c trace = []

theorem UnitSteps.same {u₀ u u' : ConsumerUnit} {h : List UnitObs} (hs : UnitSteps u₀ h u)
    (hsame : SameBatches u u') : UnitSteps u₀ h u' :=
  .silent hs hsame.lockers hsame.callbacks hsame.groupName

theorem Step.histories {s s' : Proxy} {e : Event} (h : Step s e s')
    (hh : Histories s.consumerUnits s.trace) : Histories s'.consumerUnits s'.trace := by
  cases h.unitsStep with
  | kept units trace =>
    refine ⟨fun c unit' hc => ?_, fun c hc => ?_⟩
    · obtain ⟨unit, hc₀, hsame⟩ := units.get hc
      obtain ⟨topic, group, now, hrun⟩ := hh.run c unit hc₀
      rw [trace]
      exact ⟨topic, group, now, UnitSteps.same hrun hsame⟩
    · rw [trace]
      exact hh.fresh c (units.none_iff.mp hc)
  | created topic group now _ units trace =>
    rw [units, trace]
    refine ⟨fun c unit hc => ?_, fun c hc => hh.fresh c ?_⟩
    · rw [List.getElem?_append] at hc
      split at hc
      · exact hh.run c unit hc
      · rename_i hlen
        rw [List.getElem?_singleton, Option.ite_none_right_eq_some] at hc
        obtain rfl := Option.some.inj hc.2
        rw [hh.fresh c (List.getElem?_eq_none (by omega))]
        exact ⟨topic, group, now, .refl⟩
    · rw [List.getElem?_eq_none_iff] at hc ⊢
      simp only [List.length_append, List.length_singleton] at hc
      omega
  | @stepped c o unit unit' hc hstep cause units trace =>
    refine ⟨fun d unit₂ hd => ?_, fun d hd => ?_⟩
    · obtain ⟨unit₁, hd₁, hsame⟩ := units.get hd
      rw [trace]
      by_cases hcd : c = d
      · subst hcd
        have hlen := (List.getElem?_eq_some_iff.mp hc).1
        rw [List.getElem?_set_self hlen] at hd₁
        obtain rfl := Option.some.inj hd₁
        obtain ⟨topic, group, now, hrun⟩ := hh.run c unit hc
        rw [history_append, history_unit_self]
        exact ⟨topic, group, now, UnitSteps.same (.step hrun hstep) hsame⟩
      · rw [List.getElem?_set_ne hcd] at hd₁
        obtain ⟨topic, group, now, hrun⟩ := hh.run d unit₁ hd₁
        rw [history_append, history_unit_ne hcd, List.append_nil]
        exact ⟨topic, group, now, UnitSteps.same hrun hsame⟩
    · have hne : c ≠ d := by
        rintro rfl
        rw [units.none_iff, List.getElem?_eq_none_iff, List.length_set,
          ← List.getElem?_eq_none_iff, hc] at hd
        exact absurd hd (by simp)
      rw [units.none_iff, List.getElem?_set_ne hne] at hd
      rw [trace, history_append, history_unit_ne hne, List.append_nil]
      exact hh.fresh d hd

theorem histories {P : Proxy → Event → Prop} {s : Proxy} (h : ReachableBy P s) :
    Histories s.consumerUnits s.trace :=
  h.invariant (I := fun s => Histories s.consumerUnits s.trace)
    ⟨fun c unit hc => absurd hc (by simp [init]), fun c _ => rfl⟩
    fun _ _ _ _ hh _ hs => (step_cases hs).histories hh

/-- In every run, the history of a consumer accounts for each of its batches. -/
theorem unitHistory {P : Proxy → Event → Prop} {s : Proxy} (h : ReachableBy P s)
    {c : ConsumerRef} {unit : ConsumerUnit} (hc : s.consumerUnits[c]? = some unit) :
    UnitHistory unit.consumer.groupName (history c s.trace) unit := by
  obtain ⟨topic, group, now, hrun⟩ := (histories h).run c unit hc
  rw [hrun.groupName]
  exact hrun.history rfl

end Proxy
end RocketmqProxy
