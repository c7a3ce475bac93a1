import RocketmqProxy.Proxy.Registry

/-!
# The slot between the shutdown and the clear thread

`clearConsumerKey` is written by the shutdown thread and emptied by the clear thread.
The other threads do not touch it; what they can do to a request in it is to register
a consumer under the key it names.
-/

namespace RocketmqProxy
namespace Proxy

open Std

/-- The shutdown thread has called `shutdown()` of the consumer. -/
def ShutDown (cons : List DefaultMQPushConsumer) (c : ConsumerRef) : Prop :=
  ∃ con, cons[c]? = some con ∧ (con.state = .shutdown ∨ con.state = .stopped)

instance (cons : List DefaultMQPushConsumer) (c : ConsumerRef) : Decidable (ShutDown cons c) :=
  decidable_of_iff (∃ con ∈ cons[c]?, con.state = .shutdown ∨ con.state = .stopped) (by
    simp [ShutDown])

/-- The key and the consumer that `getConsumer` inserts, if the event makes it insert
one. -/
def registering (s : Proxy) : Event → Option (String × ConsumerRef)
  | .matcher _ _ _ =>
    match s.matcher with
    | .getConsumer u (.insert c) =>
      s.consumeMsgUnits[u]?.map fun unit => (unit.topic ++ unit.group, c)
    | _ => none
  | .grpc _ _ =>
    match s.grpc with
    | .ack k (.insert c) => s.ackCalls[k]?.map fun call => (call.topic ++ call.group, c)
    | .cancel k (.insert c) => s.consumeCalls[k]?.map fun call => (call.topic ++ call.group, c)
    | _ => none
  | _ => none

namespace ShutDown

variable {cons : List DefaultMQPushConsumer} {c d : ConsumerRef}

theorem append (h : ShutDown cons c) (cons' : List DefaultMQPushConsumer) :
    ShutDown (cons ++ cons') c := by
  obtain ⟨con, hc, hs⟩ := h
  exact ⟨con, Heap.append_old hc _, hs⟩

/-- A consumer that is being started is not one that is being shut down. -/
theorem started (h : ShutDown cons c) {con : DefaultMQPushConsumer} (hd : cons[d]? = some con)
    (hs : con.state = .created) :
    ShutDown (cons.modify d fun con => { con with state := .started }) c := by
  obtain ⟨con', hc, hs'⟩ := h
  have hdc : d ≠ c := by
    rintro rfl
    obtain rfl := Option.some.inj (hd.symm.trans hc)
    rcases hs' with hs' | hs' <;> exact absurd (hs.symm.trans hs') (by simp)
  exact ⟨con', by rw [List.getElem?_modify_ne _ _ hdc, hc], hs'⟩

theorem setState {units : List ConsumerUnit} (h : ShutDown (units.map ConsumerUnit.consumer) c)
    {state : SdkState} (hs : state = .shutdown ∨ state = .stopped) (d : ConsumerRef) :
    ShutDown ((units.modify d (ConsumerUnit.setState state)).map ConsumerUnit.consumer) c := by
  rw [sdk_setState]
  obtain ⟨con, hc, hs'⟩ := h
  by_cases hdc : d = c
  · subst hdc
    exact ⟨_, Heap.modify_self hc _, hs⟩
  · exact ⟨con, by rw [List.getElem?_modify_ne _ _ hdc, hc], hs'⟩

/-- The consumer whose `shutdown()` the shutdown thread calls. -/
theorem of_started {units : List ConsumerUnit} (h : Started (units.map ConsumerUnit.consumer) c) :
    ShutDown ((units.modify c (ConsumerUnit.setState .shutdown)).map ConsumerUnit.consumer) c := by
  rw [sdk_setState]
  obtain ⟨con, hc, -⟩ := h
  exact ⟨_, Heap.modify_self hc _, .inl rfl⟩

end ShutDown

/-- What a step of another thread leaves of the two threads' business. -/
structure Work (s : Proxy) (e : Event) (s' : Proxy) : Prop where
  slot : s'.clearConsumerKey = s.clearConsumerKey
  shutdown : s'.shutdown = s.shutdown
  clear : s'.clear = s.clear
  kept : ∀ (key : String) (c : ConsumerRef), s.consumers[key]? = some c →
    s'.consumers[key]? = some c
  registered : ∀ (key : String) (c : ConsumerRef), s'.consumers[key]? = some c →
    s.consumers[key]? = some c ∨
      (s.consumers[key]? = none ∧ registering s e = some (key, c))
  down : ∀ c, ShutDown s.sdk c → ShutDown s'.sdk c

theorem Work.same {s s' : Proxy} {e : Event} (hslot : s'.clearConsumerKey = s.clearConsumerKey)
    (hshutdown : s'.shutdown = s.shutdown) (hclear : s'.clear = s.clear)
    (hcons : s'.consumers = s.consumers) (hsdk : s'.sdk = s.sdk) : Work s e s' where
  slot := hslot
  shutdown := hshutdown
  clear := hclear
  kept key c hc := by rwa [hcons]
  registered key c hc := .inl (by rwa [← hcons])
  down c hc := by rwa [hsdk]

/-- One step of a call of `getConsumer`, whichever thread makes it. -/
theorem GetStep.work {s : Proxy} {e : Event} {topic group : String} {now : Int}
    {get get' : GetConsumer} {consumers : TreeMap String ConsumerRef}
    {msgPool : TreeMap String (List MsgUnit)} {units : List ConsumerUnit} {m : MatcherPc}
    {g : GrpcPc} (h : GetStep s topic group now get consumers msgPool units get')
    (hok : GetOk s.sdk topic group get)
    (he : ∀ c, get = .insert c → registering s e = some (topic ++ group, c)) :
    Work s e { s with consumers := consumers, msgPool := msgPool, consumerUnits := units,
                      matcher := m, grpc := g } := by
  cases h with
  | found | failed => exact .same rfl rfl rfl rfl rfl
  | created hnone =>
    refine ⟨rfl, rfl, rfl, fun _ _ hc => hc, fun _ _ hc => .inl hc, fun c hc => ?_⟩
    rw [sdk, List.map_append]
    exact hc.append _
  | started d =>
    refine ⟨rfl, rfl, rfl, fun _ _ hc => hc, fun _ _ hc => .inl hc, fun c hc => ?_⟩
    rw [sdk, sdk_setState]
    cases hok with
    | start hd _ _ hs => exact hc.started hd hs
  | inserted d =>
    refine ⟨rfl, rfl, rfl, fun key c hc => ?_, fun key c hc => ?_, fun c hc => hc⟩
    · rw [TreeMapLoop.getElem?_insertIfNew]
      split
      · rw [hc]
        rfl
      · exact hc
    · rw [TreeMapLoop.getElem?_insertIfNew] at hc
      split at hc
      · rename_i hkey
        subst hkey
        cases hold : s.consumers[topic ++ group]? with
        | none =>
          rw [hold] at hc
          obtain rfl := Option.some.inj hc
          exact .inr ⟨rfl, he d rfl⟩
        | some c' =>
          rw [hold] at hc
          exact .inl hc
      · exact .inl hc

theorem Step.work {s s' : Proxy} {e : Event} (h : Step s e s') (hi : RegistryInv s)
    (hshutdown : ∀ now, e ≠ .shutdown now) (hclear : e ≠ .clear) : Work s e s' := by
  cases h with
  | @cancelGet k call _ _ _ _ _ _ _ hg hk hget =>
    obtain ⟨call', hk', hok⟩ := hi.cancelling _ _ hg
    obtain rfl := Option.some.inj (hk.symm.trans hk')
    exact hget.work hok fun c he => by simp [registering, hg, he, hk]
  | ackGet hg hk hget =>
    obtain ⟨call', hk', hok⟩ := hi.acking _ _ hg
    obtain rfl := Option.some.inj (hk.symm.trans hk')
    exact hget.work hok fun c he => by simp [registering, hg, he, hk]
  | matcherGet hm hu hget =>
    obtain ⟨unit', hu', hok⟩ := hi.matching _ _ hm
    obtain rfl := Option.some.inj (hu.symm.trans hu')
    exact hget.work hok fun c he => by simp [registering, hm, he, hu]
  | cancelSet _ _ hc | ackAccepted _ _ hc | ackRejected _ _ hc | ackTimeout _ _ hc
  | callback hc =>
    exact .same rfl rfl rfl rfl (sdk_set hc rfl)
  | callbackReturn hc he =>
    exact .same rfl rfl rfl rfl (sdk_set hc (UnitStep.reported he).consumer)
  | consumeAck => exact .same rfl rfl rfl rfl (sdk_resetConsumerActive s _ _ _ _)
  | @deliver u unit c _ _ _ _ _ now _ _ _ _ hc _ _ hf =>
    refine .same rfl rfl rfl rfl ?_
    exact (sdk_resetConsumerActive s _ unit.topic unit.group now).trans
      (sdk_set hc (@UnitStep.fetched _ _ u _ _ hf).consumer)
  | fetchTimeout => exact .same rfl rfl rfl rfl (sdk_resetConsumerActive s _ _ _ _)
  | sweep | sweepEnd | skip | select | shutdownBegin | shutdownEnd | erase =>
    exact absurd rfl (hshutdown _)
  | clearBegin | clearFound | clearMissed | clearUnlock | clearReset => exact absurd rfl hclear
  | _ => exact .same rfl rfl rfl rfl rfl

/-- The consumer that is being shut down is the one its key leads to. -/
def Selected (s : Proxy) : Prop :=
  ∀ i key c, s.shutdown = .select i key c ∨ s.shutdown = .shutdown i key c →
    s.consumers[key]? = some c

theorem Step.selected {s s' : Proxy} {e : Event} (h : Step s e s') (hi : RegistryInv s)
    (hs : Selected s) : Selected s' := by
  have hwork := h.work hi
  cases h with
  | sweep | sweepEnd | skip | shutdownEnd | erase => exact fun _ _ _ h => absurd h (by simp)
  | select hp hkey hk hc ht =>
    intro j key c h
    obtain ⟨rfl, rfl, rfl⟩ : _ = j ∧ _ = key ∧ _ = c := by simpa using h
    exact hk
  | shutdownBegin hp =>
    intro j key c h
    obtain ⟨rfl, rfl, rfl⟩ : _ = j ∧ _ = key ∧ _ = c := by simpa using h
    exact hs _ _ _ (.inl hp)
  | clearBegin | clearFound | clearMissed | clearUnlock | clearReset => exact hs
  | _ =>
    have hw := hwork (by simp) (by simp)
    intro i key c h
    rw [hw.shutdown] at h
    exact hw.kept key c (hs i key c h)

theorem selected {P : Proxy → Event → Prop} {s : Proxy} (h : ReachableBy P s) : Selected s :=
  h.invariant (fun _ _ _ h => absurd h (by simp [init]))
    fun _ _ _ hr hi _ hs => (step_cases hs).selected (registryInv hr) hi

end Proxy
end RocketmqProxy
