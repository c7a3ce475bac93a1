import RocketmqProxy.Proxy.OneConsumer
import RocketmqProxy.Proxy.Progress

/-!
# When `start()` throws

`getConsumer` then returns a null pointer, and its callers go on with what it has
returned.  The gRPC thread dereferences it at once.  The matcher looks at its unit first:
for a unit that has its message it needs the consumer only if the ack is overdue.
-/

namespace RocketmqProxy
namespace Proxy

open Std

/-- In this step a `start()` throws. -/
def FailsStart (s : Proxy) (e : Event) : Prop :=
  ¬ StartsReturn e ∧ ∃ t key c, turn e = some t ∧ s.call t = some (key, .start c)

/-- In this step `getConsumer` looks its key up. -/
def LooksUp (s : Proxy) (e : Event) : Prop :=
  ∃ t key, turn e = some t ∧ s.call t = some (key, .lookup)

/-- In this step a thread dereferences the null pointer that it has got from
`getConsumer`. -/
def Derefs (s : Proxy) : Event → Prop
  | .matcher now _ _ => ∃ u unit, s.matcher = .getConsumer u (.done none) ∧
      s.consumeMsgUnits[u]? = some unit ∧
      (unit.status = .proxyConsumeInit ∨ unit.getIsAckTimeout now = true)
  | .grpc _ _ => ∃ k, s.grpc = .ack k (.done none) ∨ s.grpc = .cancel k (.done none)
  | _ => False

/-- A `start()` that throws is called by the matcher, for a request that has its message;
and the ack of this request is not overdue when the matcher has the null pointer. -/
def StartHarmless (s : Proxy) : Event → Prop
  | .matcher now _ started =>
    match s.matcher with
    | .getConsumer u (.start _) =>
      started = true ∨ ∀ unit ∈ s.consumeMsgUnits[u]?, unit.status ≠ .proxyConsumeInit
    | .getConsumer u (.done none) =>
      ∀ unit ∈ s.consumeMsgUnits[u]?, unit.getIsAckTimeout now = false
    | _ => True
  | .grpc _ started =>
    match s.grpc with
    | .ack _ (.start _) | .cancel _ (.start _) => started = true
    | _ => True
  | _ => True

instance (s : Proxy) : (e : Event) → Decidable (StartHarmless s e)
  | .matcher now _ started =>
    match h : s.matcher with
    | .getConsumer u (.start _) =>
      decidable_of_iff (started = true ∨
        ∀ unit ∈ s.consumeMsgUnits[u]?, unit.status ≠ .proxyConsumeInit)
        (by simp only [StartHarmless, h])
    | .getConsumer u (.done none) =>
      decidable_of_iff (∀ unit ∈ s.consumeMsgUnits[u]?, unit.getIsAckTimeout now = false)
        (by simp only [StartHarmless, h])
    | .pop | .getConsumer _ .lookup | .getConsumer _ (.insert _)
    | .getConsumer _ (.done (some _)) => .isTrue (by simp only [StartHarmless, h])
  | .grpc _ started =>
    match h : s.grpc with
    | .ack _ (.start _) | .cancel _ (.start _) =>
      decidable_of_iff (started = true) (by simp only [StartHarmless, h])
    | .next | .ack _ .lookup | .ack _ (.insert _) | .ack _ (.done _) | .ackLookup _
    | .ackStore _ _ | .cancel _ .lookup | .cancel _ (.insert _) | .cancel _ (.done _)
    | .cancelErase _ => .isTrue (by simp only [StartHarmless, h])
  | .consume _ _ _ | .consumeDone _ _ | .consumeAck _ _ _ _ _ | .ackDone _ _ | .callback _ _ _
  | .callbackReturn _ _ | .shutdown _ | .clear => .isTrue trivial

section Calls

variable {s s' : Proxy} {e : Event}

theorem Derefs.step_none (h : s.Derefs e) : s.step e = none := by
  cases e with
  | matcher now now' started =>
    obtain ⟨u, unit, hm, hu, hs | ht⟩ := h
    · simp [step, matcherStep, matchUnit, hm, hu, hs]
    · simp [step, matcherStep, matchUnit, hm, hu, status_of_ackTimeout ht, ht]
  | grpc now started =>
    obtain ⟨k, hg | hg⟩ := h <;> simp [step, grpcStep, hg]
  | _ => exact h.elim

theorem lookup_keeps (hi : RegistryInv s) {t : Caller} {key : String} (ht : turn e = some t)
    (hc : s.call t = some (key, .lookup)) (hs : s.step e = some s') :
    s'.consumers = s.consumers ∧ s'.msgPool = s.msgPool := by
  obtain ⟨topic, group, now, started, s₁, -, -, hs₁, hstep⟩ := call_step hi ht hc (by simp)
  obtain rfl := Option.some.inj (hs₁.symm.trans hs)
  rw [hstep.consumers, hstep.msgPool]
  simp only [getConsumer]
  split <;> exact ⟨rfl, rfl⟩

/-- What `start()` leaves of the registries, whether it returns or throws. -/
theorem start_keeps (hi : RegistryInv s) {t : Caller} {key : String} {c : ConsumerRef}
    (ht : turn e = some t) (hc : s.call t = some (key, .start c)) (hs : s.step e = some s') :
    s'.consumers = s.consumers ∧ s'.msgPool = s.msgPool.insertIfNew key [] := by
  obtain ⟨topic, group, now, started, s₁, rfl, -, hs₁, hstep⟩ := call_step hi ht hc (by simp)
  obtain rfl := Option.some.inj (hs₁.symm.trans hs)
  rw [hstep.consumers, hstep.msgPool]
  cases started <;> exact ⟨rfl, rfl⟩

end Calls

/-! ## Keys with a queue -/

/-- The call is past `initMsgQueue`, or has not needed it. -/
def Initialised : GetConsumer → Prop
  | .insert _ | .done (some _) => True
  | _ => False

/-- The keys that `initMsgQueue` has been called for. -/
structure Pooled (s : Proxy) : Prop where
  registered : ∀ (key : String) (c : ConsumerRef), s.consumers[key]? = some c → key ∈ s.msgPool
  called : ∀ t key get, s.call t = some (key, get) → Initialised get → key ∈ s.msgPool
  delivered : ∀ (u : UnitRef) (unit : ConsumeMsgUnit), s.consumeMsgUnits[u]? = some unit →
    unit.status ≠ .proxyConsumeInit → unit.topic ++ unit.group ∈ s.msgPool

section Pooled

variable {s s' : Proxy} {e : Event}

theorem Step.msgPool_grows (h : Step s e s') {key : String} (hk : key ∈ s.msgPool) :
    key ∈ s'.msgPool := by
  cases h with
  | matcherGet _ _ hget | ackGet _ _ hget | cancelGet _ _ hget =>
    cases hget with
    | started | failed => exact TreeMap.mem_insertIfNew.mpr (.inr hk)
    | _ => exact hk
  | _ => exact hk

/-- A unit with a message had it before, or the matcher has had it in hand with a
consumer. -/
theorem Step.unit_before (h : Step s e s') (hi : RequestsInv s) {u : UnitRef}
    {unit' : ConsumeMsgUnit} (hu : s'.consumeMsgUnits[u]? = some unit')
    (hs : unit'.status ≠ .proxyConsumeInit) :
    ∃ unit, s.consumeMsgUnits[u]? = some unit ∧ unit.topic = unit'.topic ∧
      unit.group = unit'.group ∧
      (unit.status ≠ .proxyConsumeInit ∨ ∃ c, s.matcher = .getConsumer u (.done (some c))) := by
  cases h with
  | consume =>
    rcases Heap.of_append hu with ⟨-, rfl⟩ | hu
    · exact absurd rfl hs
    · exact ⟨unit', hu, rfl, rfl, .inl hs⟩
  | @ackStore k call v _ _ hg =>
    cases v with
    | none => exact ⟨unit', hu, rfl, rfl, .inl hs⟩
    | some v =>
      rw [Proxy.ackStore, List.getElem?_modify] at hu
      obtain ⟨unit, hunit, rfl⟩ := Option.map_eq_some_iff.mp hu
      by_cases hvu : v = u
      · subst hvu
        obtain ⟨unit₀, -, hunit₀, -, -, hs₀⟩ := hi.indexed.store k v hg
        obtain rfl := Option.some.inj (hunit.symm.trans hunit₀)
        exact ⟨unit, hunit, by simp, by simp, .inl hs₀⟩
      · simp only [hvu, if_false] at hs ⊢
        exact ⟨unit, hunit, rfl, rfl, .inl hs⟩
  | deliver hm hv =>
    rcases Heap.of_set hu with ⟨rfl, rfl⟩ | hu
    · exact ⟨_, hv, rfl, rfl, .inr ⟨_, hm⟩⟩
    · exact ⟨unit', hu, rfl, rfl, .inl hs⟩
  | _ => exact ⟨unit', hu, rfl, rfl, .inl hs⟩

/-- One step of a call of `getConsumer`. -/
theorem Pooled.got (h : Pooled s) (hmono : ∀ key ∈ s.msgPool, key ∈ s'.msgPool) {t : Caller}
    {topic group : String} {now : Int} {get get' : GetConsumer}
    {msgPool : TreeMap String (List MsgUnit)} (hcall : s.call t = some (topic ++ group, get))
    (hget : GetStep s topic group now get s'.consumers msgPool s'.consumerUnits get')
    (hstart : ∀ c, get = .start c → topic ++ group ∈ s'.msgPool) :
    (∀ (key : String) (c : ConsumerRef), s'.consumers[key]? = some c → key ∈ s'.msgPool) ∧
      (Initialised get' → topic ++ group ∈ s'.msgPool) := by
  have hkept (hc : s'.consumers = s.consumers) (key : String) (c : ConsumerRef)
      (hk : s'.consumers[key]? = some c) : key ∈ s'.msgPool :=
    hmono key (h.registered key c (hc ▸ hk))
  generalize hcons : s'.consumers = consumers at hget hkept
  generalize s'.consumerUnits = units at hget
  cases hget with
  | found hk => exact ⟨hkept rfl, fun _ => hkept rfl _ _ hk⟩
  | created => exact ⟨hkept rfl, fun hi => hi.elim⟩
  | started c => exact ⟨hkept rfl, fun _ => hstart c rfl⟩
  | failed => exact ⟨hkept rfl, fun hi => hi.elim⟩
  | inserted c =>
    have hkey := hmono _ (h.called t _ _ hcall trivial)
    refine ⟨fun key d hk => ?_, fun _ => hkey⟩
    rw [TreeMapLoop.getElem?_insertIfNew] at hk
    split at hk
    · next he => exact he ▸ hkey
    · exact hmono key (h.registered key d hk)

theorem Pooled.step (h : Pooled s) (hr : RequestsInv s) (hi : RegistryInv s)
    (hs : s.step e = some s') : Pooled s' := by
  have hstep := step_cases hs
  have hmono : ∀ key ∈ s.msgPool, key ∈ s'.msgPool := fun _ => hstep.msgPool_grows
  have hdelivered (u : UnitRef) (unit' : ConsumeMsgUnit) (hu : s'.consumeMsgUnits[u]? = some unit')
      (hne : unit'.status ≠ .proxyConsumeInit) : unit'.topic ++ unit'.group ∈ s'.msgPool := by
    obtain ⟨unit, hunit, ht, hg, hst⟩ := hstep.unit_before hr hu hne
    rw [← ht, ← hg]
    rcases hst with hst | ⟨c, hm⟩
    · exact hmono _ (h.delivered u unit hunit hst)
    · refine hmono _ (h.called .matcher _ (.done (some c)) ?_ trivial)
      simp [Proxy.call, Proxy.unitNames, hm, hunit]
  cases hstep.callStep hi with
  | kept hc hsdk hcalls =>
    refine ⟨fun key c hk => hmono key (h.registered key c (hc ▸ hk)), fun t key get hcall hin => ?_,
      hdelivered⟩
    rcases hcalls t with hsame | ⟨-, hnone | ⟨key', hlookup⟩⟩
    · exact hmono key (h.called t key get (hsame ▸ hcall) hin)
    · exact absurd (hnone.symm.trans hcall) (by simp)
    · obtain ⟨rfl, rfl⟩ := Prod.mk.inj (Option.some.inj (hlookup.symm.trans hcall))
      exact hin.elim
  | @got t topic group now get get' msgPool ht before hok hget after other =>
    obtain ⟨hreg, hget'⟩ := h.got hmono before hget (by
      rintro c rfl
      rw [(start_keeps hi ht before hs).2]
      exact TreeMap.mem_insertIfNew_self)
    refine ⟨hreg, fun t' key get₁ hcall hin => ?_, hdelivered⟩
    rcases t.eq_or_other t' with rfl | rfl
    · obtain ⟨rfl, rfl⟩ := Prod.mk.inj (Option.some.inj (after.symm.trans hcall))
      exact hget' hin
    · exact hmono key (h.called _ key get₁ (other ▸ hcall) hin)
  | shutting he =>
    subst he
    have hm : s'.matcher = s.matcher := by cases hstep <;> rfl
    have hg : s'.grpc = s.grpc := by cases hstep <;> rfl
    refine ⟨fun key c hk => hmono key (h.registered key c ?_), fun t key get hcall hin => ?_,
      hdelivered⟩
    · cases hstep with
      | erase =>
        rw [TreeMap.getElem?_erase] at hk
        split at hk
        · exact absurd hk (by simp)
        · exact hk
      | _ => exact hk
    · refine hmono key (h.called t key get ?_ hin)
      cases t with
      | matcher => rwa [hstep.call_matcher hi hm] at hcall
      | grpc => rwa [hstep.call_grpc hi hg] at hcall

theorem pooled {P : Proxy → Event → Prop} (h : ReachableBy P s) : Pooled s :=
  h.invariant (I := Pooled) ⟨by simp [init], fun t => by cases t <;> simp [Proxy.call, init],
    by simp [init]⟩ fun _ _ _ hr hp _ hs => hp.step (requestsInv hr) (registryInv hr) hs

end Pooled

/-! ## Runs in which no start does harm -/

/-- Only the matcher has a null pointer, with a unit that has its message. -/
structure Spared (s : Proxy) : Prop where
  acking : ∀ k, s.grpc ≠ .ack k (.done none)
  cancelling : ∀ k, s.grpc ≠ .cancel k (.done none)
  matching : ∀ u, s.matcher = .getConsumer u (.done none) →
    ∃ unit, s.consumeMsgUnits[u]? = some unit ∧ unit.status ≠ .proxyConsumeInit

section Spared

variable {s s' : Proxy} {e : Event}

theorem spared_init : Spared init := ⟨by simp [init], by simp [init], by simp [init]⟩

theorem Spared.step (h : Spared s) (hP : s.StartHarmless e) (hs : s.step e = some s') :
    Spared s' := by
  cases step_cases hs with
  | consume =>
    refine ⟨h.acking, h.cancelling, fun u hm => ?_⟩
    obtain ⟨unit, hu, hst⟩ := h.matching u hm
    exact ⟨unit, Heap.append_old hu _, hst⟩
  | @matcherGet u unit get get' now now' started _ _ _ hm hu hget =>
    refine ⟨h.acking, h.cancelling, fun v hv => ?_⟩
    obtain ⟨rfl, rfl⟩ := MatcherPc.getConsumer.inj hv
    cases hget with
    | failed c =>
      cases started with
      | false => exact ⟨unit, hu, by simpa [StartHarmless, hm, hu] using hP⟩
      | true =>
        rw [step_matcherGet hm hu (by simp)] at hs
        exact absurd (congrArg Proxy.matcher (Option.some.inj hs)) (by simp [getConsumer])
  | @ackGet k call get get' now started _ _ _ hg hk hget =>
    refine ⟨fun j hj => ?_, by simp, h.matching⟩
    obtain ⟨rfl, rfl⟩ := GrpcPc.ack.inj hj
    cases hget with
    | failed c =>
      obtain rfl : started = true := by simpa [StartHarmless, hg] using hP
      rw [step_ackGet hg hk (by simp)] at hs
      exact absurd (congrArg Proxy.grpc (Option.some.inj hs)) (by simp [getConsumer])
  | @cancelGet k call get get' now started _ _ _ hg hk hget =>
    refine ⟨by simp, fun j hj => ?_, h.matching⟩
    obtain ⟨rfl, rfl⟩ := GrpcPc.cancel.inj hj
    cases hget with
    | failed c =>
      obtain rfl : started = true := by simpa [StartHarmless, hg] using hP
      rw [step_cancelGet hg hk (by simp)] at hs
      exact absurd (congrArg Proxy.grpc (Option.some.inj hs)) (by simp [getConsumer])
  | @ackStore k call v =>
    refine ⟨by simp, by simp, fun u hm => ?_⟩
    obtain ⟨unit, hu, hst⟩ := h.matching u hm
    cases v with
    | none => exact ⟨unit, hu, hst⟩
    | some v =>
      by_cases hvu : v = u
      · subst hvu
        exact ⟨_, Heap.modify_self hu _, by simp⟩
      · exact ⟨unit, (List.getElem?_modify_ne _ _ hvu).trans hu, hst⟩
  | cancelBegin | cancelSet | cancelErase | consumeAck | ackAccepted | ackRejected | ackLookup =>
    exact ⟨by simp, by simp, h.matching⟩
  | pop | deliver | fetchTimeout | requeue | ackTimeout | drop =>
    exact ⟨h.acking, h.cancelling, by simp [pushBack, Proxy.fetchTimeout]⟩
  | _ => exact ⟨h.acking, h.cancelling, h.matching⟩

theorem Spared.not_derefs (h : Spared s) (hP : s.StartHarmless e) : ¬ s.Derefs e := by
  intro hd
  cases e with
  | matcher now now' started =>
    obtain ⟨u, unit, hm, hu, hst⟩ := hd
    obtain ⟨unit', hu', hst'⟩ := h.matching u hm
    obtain rfl := Option.some.inj (hu.symm.trans hu')
    rcases hst with hst | ht
    · exact hst' hst
    · simp only [StartHarmless, hm] at hP
      exact absurd ((hP unit hu).symm.trans ht) (by simp)
  | grpc now started =>
    obtain ⟨k, hg | hg⟩ := hd
    · exact h.acking k hg
    · exact h.cancelling k hg
  | _ => exact hd

/-- The start that throws without harm is made for a unit that has its message. -/
theorem StartHarmless.unit (hP : s.StartHarmless e) (hf : s.FailsStart e) :
    ∃ u unit c, turn e = some .matcher ∧ s.matcher = .getConsumer u (.start c) ∧
      s.call .matcher = some (unit.topic ++ unit.group, .start c) ∧
      s.consumeMsgUnits[u]? = some unit ∧ unit.status ≠ .proxyConsumeInit := by
  obtain ⟨hret, t, key, c, ht, hcall⟩ := hf
  cases e with
  | matcher now now' started =>
    obtain rfl := Option.some.inj ht
    simp only [Proxy.call] at hcall ⊢
    split at hcall
    · exact absurd hcall (by simp)
    · next u get hm =>
      obtain ⟨p, hp, hpair⟩ := Option.map_eq_some_iff.mp hcall
      obtain ⟨rfl, rfl⟩ := Prod.mk.inj hpair
      rw [Proxy.unitNames, List.getElem?_map] at hp
      obtain ⟨unit, hu, rfl⟩ := Option.map_eq_some_iff.mp hp
      simp only [StartHarmless, hm] at hP
      exact ⟨u, unit, c, rfl, hm, by simp [Proxy.unitNames, hu], hu, hP.resolve_left hret unit hu⟩
  | grpc now started =>
    obtain rfl := Option.some.inj ht
    simp only [Proxy.call] at hcall
    split at hcall
    · next k get hg =>
      obtain ⟨p, -, hpair⟩ := Option.map_eq_some_iff.mp hcall
      obtain ⟨rfl, rfl⟩ := Prod.mk.inj hpair
      simp only [StartHarmless, hg] at hP
      exact absurd hP hret
    · next k get hg =>
      obtain ⟨p, -, hpair⟩ := Option.map_eq_some_iff.mp hcall
      obtain ⟨rfl, rfl⟩ := Prod.mk.inj hpair
      simp only [StartHarmless, hg] at hP
      exact absurd hP hret
    · exact absurd hcall (by simp)
  | _ => exact absurd ht (by simp [turn])

/-- A start that throws without harm leaves the registries as they are, and the call of
its unit has been answered. -/
theorem StartHarmless.failed (hP : s.StartHarmless e) (hr : Reachable s) (hf : s.FailsStart e)
    (hs : s.step e = some s') :
    (s'.consumers = s.consumers ∧ ∀ key : String, s'.msgPool[key]? = s.msgPool[key]?) ∧
      ∃ u unit get call, turn e = some .matcher ∧ s.matcher = .getConsumer u get ∧
        s.consumeMsgUnits[u]? = some unit ∧ s.consumeCalls[unit.callData]? = some call ∧
        call.finished ≠ [] := by
  obtain ⟨u, unit, c, ht, hm, hcall, hu, hst⟩ := hP.unit hf
  have hkey := (pooled hr).delivered u unit hu hst
  obtain ⟨hcons, hpool⟩ := start_keeps (registryInv hr) ht hcall hs
  obtain ⟨hk, call, hcd, -, -, hlife⟩ := (requestsInv hr).requests.life u unit hu
  refine ⟨⟨hcons, fun key => ?_⟩, u, unit, _, call, ht, hm, hu, by rwa [hk], ?_⟩
  · rw [hpool, TreeMap.getElem?_insertIfNew, if_neg]
    rintro ⟨hcmp, hnew⟩
    exact hnew (by simpa using hkey)
  · generalize deliveries u s.trace = ds at hlife
    cases hlife with
    | waiting _ hs' _ => exact absurd hs' hst
    | timedOut _ hs' _ => exact absurd hs' hst
    | delivered _ _ hf' => simp [hf']

/-- Any other start that throws, and any other use of the null pointer, ends the proxy. -/
theorem derefs_of_not_harmless (hP : ¬ s.StartHarmless e) :
    s.Derefs e ∨ ∀ s', s.step e = some s' → ∃ e', s'.Derefs e' := by
  cases e with
  | matcher now now' started =>
    simp only [StartHarmless] at hP
    split at hP
    · next u c hm =>
      simp only [not_or, not_forall, not_not] at hP
      obtain ⟨hst, unit, hu, hinit⟩ := hP
      obtain rfl : started = false := by simpa using hst
      refine .inr fun s' hs => ⟨.matcher 0 0 true, u, unit, ?_⟩
      rw [step_matcherGet hm (Option.mem_def.mp hu) (by simp)] at hs
      obtain rfl := Option.some.inj hs
      exact ⟨rfl, hu, .inl hinit⟩
    · next u hm =>
      simp only [not_forall, Bool.not_eq_false] at hP
      obtain ⟨unit, hu, ht⟩ := hP
      exact .inl ⟨u, unit, hm, hu, .inr ht⟩
    · exact absurd trivial hP
  | grpc now started =>
    simp only [StartHarmless] at hP
    split at hP
    · next k c hg =>
      obtain rfl : started = false := by simpa using hP
      refine .inr fun s' hs => ⟨.grpc 0 true, k, .inl ?_⟩
      simp only [Proxy.step, grpcStep, hg, Option.bind_eq_bind, Option.bind_eq_some_iff] at hs
      obtain ⟨call, -, hs⟩ := hs
      obtain rfl := Option.some.inj hs
      rfl
    · next k c hg =>
      obtain rfl : started = false := by simpa using hP
      refine .inr fun s' hs => ⟨.grpc 0 true, k, .inr ?_⟩
      simp only [Proxy.step, grpcStep, hg, Option.bind_eq_bind, Option.bind_eq_some_iff] at hs
      obtain ⟨call, -, hs⟩ := hs
      obtain rfl := Option.some.inj hs
      rfl
    · exact absurd trivial hP
  | _ => exact absurd trivial hP

end Spared

end Proxy
end RocketmqProxy
