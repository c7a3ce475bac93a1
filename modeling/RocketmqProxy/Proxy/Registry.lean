import RocketmqProxy.Lib.Heap
import RocketmqProxy.Proxy.Requests

/-!
# The registry of consumers

`consumers` maps the concatenation of a topic and a group to a consumer.  A consumer
that a call of `getConsumer` creates has the topic and the group of the call; one
that it finds has a topic and a group with the same concatenation, and no more is
known of it.
-/

namespace RocketmqProxy
namespace Proxy

open Std

/-- The SDK consumers of the consumer units. -/
def sdk (s : Proxy) : List DefaultMQPushConsumer := s.consumerUnits.map ConsumerUnit.consumer

/-! ## How a step changes the SDK consumers -/

theorem sdk_set {units : List ConsumerUnit} {c : ConsumerRef} {unit unit' : ConsumerUnit}
    (hc : units[c]? = some unit) (h : unit'.consumer = unit.consumer) :
    (units.set c unit').map ConsumerUnit.consumer = units.map ConsumerUnit.consumer :=
  Heap.map_set hc h

theorem sdk_resetConsumerActive (s : Proxy) (units : List ConsumerUnit) (topic group : String)
    (now : Int) :
    (match s.consumers[topic ++ group]? with
      | some c => units.modify c (ConsumerUnit.setLastActiveAt now)
      | none => units).map ConsumerUnit.consumer = units.map ConsumerUnit.consumer := by
  split
  · exact Heap.map_modify _ (ConsumerUnit.setLastActiveAt now) (fun _ => rfl) units _
  · rfl

theorem sdk_setState (units : List ConsumerUnit) (c : ConsumerRef) (state : SdkState) :
    (units.modify c (ConsumerUnit.setState state)).map ConsumerUnit.consumer =
      (units.map ConsumerUnit.consumer).modify c fun con => { con with state := state } := by
  refine List.ext_getElem? fun d => ?_
  rw [List.getElem?_map, List.getElem?_modify, List.getElem?_modify, List.getElem?_map]
  cases units[d]? with
  | none => rfl
  | some unit => by_cases hcd : c = d <;> simp [hcd, ConsumerUnit.setState]

/-- Consumers keep their topic and group, none becomes unstarted again, and none but
`d` is started. -/
def SdkLater (cons cons' : List DefaultMQPushConsumer) (d : Option ConsumerRef) : Prop :=
  ∀ (c : ConsumerRef) (con : DefaultMQPushConsumer), cons[c]? = some con →
    ∃ con', cons'[c]? = some con' ∧ con'.topic = con.topic ∧ con'.groupName = con.groupName ∧
      (con.state ≠ .created → con'.state ≠ .created) ∧
      (con.state = .created → d ≠ some c → con'.state = .created)

namespace SdkLater

variable {cons : List DefaultMQPushConsumer}

theorem refl (cons : List DefaultMQPushConsumer) : SdkLater cons cons none :=
  fun _ con h => ⟨con, h, rfl, rfl, fun h => h, fun h _ => h⟩

theorem append (cons : List DefaultMQPushConsumer) (con : DefaultMQPushConsumer) :
    SdkLater cons (cons ++ [con]) none := by
  intro c con' h
  exact ⟨con', Heap.append_old h _, rfl, rfl, fun h => h, fun h _ => h⟩

theorem started (cons : List DefaultMQPushConsumer) (d : ConsumerRef) :
    SdkLater cons (cons.modify d fun con => { con with state := .started }) (some d) := by
  intro c con h
  by_cases hdc : d = c
  · subst hdc
    exact ⟨_, Heap.modify_self h _, rfl, rfl, fun _ => by simp, fun _ hne => absurd rfl hne⟩
  · exact ⟨con, by rw [List.getElem?_modify_ne _ _ hdc, h], rfl, rfl, fun h => h, fun h _ => h⟩

theorem moved {d : ConsumerRef} {state : SdkState} (hs : state ≠ .created)
    (hd : ∃ con, cons[d]? = some con ∧ con.state ≠ .created) :
    SdkLater cons (cons.modify d fun con => { con with state := state }) none := by
  intro c con h
  by_cases hdc : d = c
  · subst hdc
    obtain ⟨con', hcon, hne⟩ := hd
    obtain rfl := Option.some.inj (hcon.symm.trans h)
    exact ⟨_, Heap.modify_self h _, rfl, rfl, fun _ => hs, fun he => absurd he hne⟩
  · exact ⟨con, by rw [List.getElem?_modify_ne _ _ hdc, h], rfl, rfl, fun h => h, fun h _ => h⟩

end SdkLater

/-- The consumer has been started. -/
def Started (cons : List DefaultMQPushConsumer) (c : ConsumerRef) : Prop :=
  ∃ con, cons[c]? = some con ∧ con.state ≠ .created

theorem Started.later {cons cons' : List DefaultMQPushConsumer} {c : ConsumerRef}
    {d : Option ConsumerRef} (h : Started cons c) (hl : SdkLater cons cons' d) :
    Started cons' c := by
  obtain ⟨con, hc, hs⟩ := h
  obtain ⟨con', hc', -, -, hs', -⟩ := hl c con hc
  exact ⟨con', hc', hs' hs⟩

/-! ## What a call of `getConsumer` knows of its consumer -/

inductive GetOk (cons : List DefaultMQPushConsumer) (topic group : String) :
    GetConsumer → Prop
  | lookup : GetOk cons topic group .lookup
  | start {c : ConsumerRef} {con : DefaultMQPushConsumer} (hc : cons[c]? = some con)
      (ht : con.topic = topic) (hg : con.groupName = group) (hs : con.state = .created) :
      GetOk cons topic group (.start c)
  | insert {c : ConsumerRef} {con : DefaultMQPushConsumer} (hc : cons[c]? = some con)
      (ht : con.topic = topic) (hg : con.groupName = group) (hs : con.state ≠ .created) :
      GetOk cons topic group (.insert c)
  | failed : GetOk cons topic group (.done none)
  | done {c : ConsumerRef} {con : DefaultMQPushConsumer} (hc : cons[c]? = some con)
      (hkey : con.topic ++ con.groupName = topic ++ group) (hs : con.state ≠ .created) :
      GetOk cons topic group (.done (some c))

theorem GetOk.later {cons cons' : List DefaultMQPushConsumer} {topic group : String}
    {get : GetConsumer} {d : Option ConsumerRef} (h : GetOk cons topic group get)
    (hl : SdkLater cons cons' d) (hd : ∀ c, get = .start c → d ≠ some c) :
    GetOk cons' topic group get := by
  cases h with
  | lookup => exact .lookup
  | failed => exact .failed
  | start hc ht hg hs =>
    obtain ⟨con', hc', ht', hg', -, hs'⟩ := hl _ _ hc
    exact .start hc' (ht'.trans ht) (hg'.trans hg) (hs' hs (hd _ rfl))
  | insert hc ht hg hs =>
    obtain ⟨con', hc', ht', hg', hs', -⟩ := hl _ _ hc
    exact .insert hc' (ht'.trans ht) (hg'.trans hg) (hs' hs)
  | done hc hkey hs =>
    obtain ⟨con', hc', ht', hg', hs', -⟩ := hl _ _ hc
    exact .done hc' (by rw [ht', hg', hkey]) (hs' hs)

/-- Each key leads to a consumer whose topic and group make up the key. -/
def Keyed (consumers : TreeMap String ConsumerRef) (cons : List DefaultMQPushConsumer) : Prop :=
  ∀ (key : String) (c : ConsumerRef), consumers[key]? = some c →
    ∃ con, cons[c]? = some con ∧ con.topic ++ con.groupName = key ∧ con.state ≠ .created

theorem Keyed.later {consumers : TreeMap String ConsumerRef}
    {cons cons' : List DefaultMQPushConsumer} {d : Option ConsumerRef}
    (h : Keyed consumers cons) (hl : SdkLater cons cons' d) : Keyed consumers cons' := by
  intro key c hk
  obtain ⟨con, hc, hkey, hs⟩ := h key c hk
  obtain ⟨con', hc', ht, hg, hs', -⟩ := hl c con hc
  exact ⟨con', hc', by rw [ht, hg, hkey], hs' hs⟩

/-- The consumer that a call is about to start, if it is about to start one. -/
def starting : GetConsumer → Option ConsumerRef
  | .start c => some c
  | _ => none

/-- One step of a call: what it leaves in the registry, and what it knows of its own
consumer. -/
theorem GetStep.registry {s : Proxy} {topic group : String} {now : Int}
    {get get' : GetConsumer} {consumers : TreeMap String ConsumerRef}
    {msgPool : TreeMap String (List MsgUnit)} {units : List ConsumerUnit}
    (h : GetStep s topic group now get consumers msgPool units get')
    (hk : Keyed s.consumers s.sdk) (hget : GetOk s.sdk topic group get) :
    SdkLater s.sdk (units.map ConsumerUnit.consumer) (starting get) ∧
      Keyed consumers (units.map ConsumerUnit.consumer) ∧
      GetOk (units.map ConsumerUnit.consumer) topic group get' ∧
      ∀ c, get' = .start c → s.sdk.length ≤ c := by
  cases h with
  | found h =>
    obtain ⟨con, hc, hkey, hs⟩ := hk _ _ h
    exact ⟨.refl _, hk, .done hc hkey hs, by simp⟩
  | created h =>
    rw [List.map_append]
    have hnew : (s.sdk ++ [(ConsumerUnit.new topic group now).consumer])[
        s.consumerUnits.length]? = some (ConsumerUnit.new topic group now).consumer := by
      rw [List.getElem?_append_right (by simp [sdk])]
      simp [sdk]
    refine ⟨.append _ _, hk.later (.append _ _), .start hnew rfl rfl rfl, fun c he => ?_⟩
    · obtain rfl := GetConsumer.start.inj he
      simp [sdk]
  | started c =>
    rw [sdk_setState]
    refine ⟨.started _ c, hk.later (.started _ c), ?_, by simp⟩
    cases hget with
    | start hc ht hg hs =>
      exact .insert (Heap.modify_self hc _) ht hg (by simp)
  | failed c =>
    refine ⟨fun c' con h => ⟨con, h, rfl, rfl, fun h => h, fun h _ => h⟩, hk, .failed, by simp⟩
  | inserted c =>
    cases hget with
    | @insert _ con hc ht hg hs =>
      refine ⟨.refl _, fun key d hd => ?_, .done hc (by rw [ht, hg]) hs, by simp⟩
      rw [TreeMapLoop.getElem?_insertIfNew] at hd
      split at hd
      · rename_i hkey
        -- `insert` leaves a consumer that another call has registered meanwhile
        cases hold : s.consumers[key]? with
        | none =>
          rw [hold] at hd
          obtain rfl := Option.some.inj hd
          exact ⟨con, hc, by rw [ht, hg, hkey], hs⟩
        | some d' =>
          rw [hold] at hd
          obtain rfl := Option.some.inj hd
          exact hk key d' hold
      · exact hk key d hd

/-! ## Every run -/

/-- What the threads of a state know of the consumers they work on. -/
structure Registry (consumers : TreeMap String ConsumerRef) (cons : List DefaultMQPushConsumer)
    (units : List ConsumeMsgUnit) (calls : List ConsumeCallData)
    (ackCalls : List ConsumeAckCallData) (m : MatcherPc) (g : GrpcPc) (sh : ShutdownPc) :
    Prop where
  keyed : Keyed consumers cons
  matching : ∀ u get, m = .getConsumer u get →
    ∃ unit, units[u]? = some unit ∧ GetOk cons unit.topic unit.group get
  acking : ∀ k get, g = .ack k get →
    ∃ call, ackCalls[k]? = some call ∧ GetOk cons call.topic call.group get
  cancelling : ∀ k get, g = .cancel k get →
    ∃ call, calls[k]? = some call ∧ GetOk cons call.topic call.group get
  /-- The two threads that call `getConsumer` never start one consumer both. -/
  distinct : ∀ c u k, m = .getConsumer u (.start c) →
    g ≠ .ack k (.start c) ∧ g ≠ .cancel k (.start c)
  selected : ∀ i key c, sh = .select i key c ∨ sh = .shutdown i key c → Started cons c

namespace Registry

variable {consumers : TreeMap String ConsumerRef} {cons cons' : List DefaultMQPushConsumer}
  {units units' : List ConsumeMsgUnit} {calls calls' : List ConsumeCallData}
  {ackCalls ackCalls' : List ConsumeAckCallData} {m : MatcherPc} {g : GrpcPc}
  {sh sh' : ShutdownPc}

/-- The requests may change in everything but their topics and groups. -/
theorem requests (h : Registry consumers cons units calls ackCalls m g sh)
    (hu : ∀ (u : UnitRef) (unit : ConsumeMsgUnit), units[u]? = some unit →
      ∃ unit', units'[u]? = some unit' ∧ unit'.topic = unit.topic ∧ unit'.group = unit.group)
    (hc : ∀ (k : CallRef) (call : ConsumeCallData), calls[k]? = some call →
      ∃ call', calls'[k]? = some call' ∧ call'.topic = call.topic ∧ call'.group = call.group) :
    Registry consumers cons units' calls' ackCalls m g sh := by
  refine ⟨h.keyed, fun u get hm => ?_, h.acking, fun k get hg => ?_, h.distinct, h.selected⟩
  · obtain ⟨unit, hunit, hok⟩ := h.matching u get hm
    obtain ⟨unit', hunit', ht, hgr⟩ := hu u unit hunit
    exact ⟨unit', hunit', by rwa [ht, hgr]⟩
  · obtain ⟨call, hcall, hok⟩ := h.cancelling k get hg
    obtain ⟨call', hcall', ht, hgr⟩ := hc k call hcall
    exact ⟨call', hcall', by rwa [ht, hgr]⟩

theorem sdk_eq (h : Registry consumers cons units calls ackCalls m g sh) (he : cons' = cons) :
    Registry consumers cons' units calls ackCalls m g sh :=
  he ▸ h

/-- The consumers move on, and none of those being started is. -/
theorem later (h : Registry consumers cons units calls ackCalls m g sh)
    (hl : SdkLater cons cons' none) :
    Registry consumers cons' units calls ackCalls m g sh := by
  refine ⟨h.keyed.later hl, fun u get hm => ?_, fun k get hg => ?_, fun k get hg => ?_,
    h.distinct, fun i key c hs => (h.selected i key c hs).later hl⟩
  · obtain ⟨unit, hu, hok⟩ := h.matching u get hm
    exact ⟨unit, hu, hok.later hl (by simp)⟩
  · obtain ⟨call, hc, hok⟩ := h.acking k get hg
    exact ⟨call, hc, hok.later hl (by simp)⟩
  · obtain ⟨call, hc, hok⟩ := h.cancelling k get hg
    exact ⟨call, hc, hok.later hl (by simp)⟩

theorem grpc (h : Registry consumers cons units calls ackCalls m g sh) {g' : GrpcPc}
    (ha : ∀ k get, g' ≠ .ack k get) (hc : ∀ k get, g' ≠ .cancel k get) :
    Registry consumers cons units calls ackCalls' m g' sh :=
  ⟨h.keyed, h.matching, fun k get hg => absurd hg (ha k get),
    fun k get hg => absurd hg (hc k get), fun _ _ k _ => ⟨ha k _, hc k _⟩, h.selected⟩

/-- The matcher takes up a unit, or puts it down. -/
theorem pop (h : Registry consumers cons units calls ackCalls m g sh) :
    Registry consumers cons units calls ackCalls .pop g sh :=
  ⟨h.keyed, by simp, h.acking, h.cancelling, by simp, h.selected⟩

theorem shutdown (h : Registry consumers cons units calls ackCalls m g sh)
    (hs : ∀ i key c, sh' = .select i key c ∨ sh' = .shutdown i key c → Started cons c) :
    Registry consumers cons units calls ackCalls m g sh' :=
  ⟨h.keyed, h.matching, h.acking, h.cancelling, h.distinct, hs⟩

end Registry

/-- The fields of a state that `Registry` is about. -/
abbrev RegistryInv (s : Proxy) : Prop :=
  Registry s.consumers s.sdk s.consumeMsgUnits s.consumeCalls s.ackCalls s.matcher s.grpc
    s.shutdown

theorem GetOk.lt {cons : List DefaultMQPushConsumer} {topic group : String} {c : ConsumerRef}
    (h : GetOk cons topic group (.start c)) : c < cons.length := by
  cases h with
  | start hc => exact (List.getElem?_eq_some_iff.mp hc).1

theorem starting_eq_some {get : GetConsumer} {c : ConsumerRef} (h : starting get = some c) :
    get = .start c := by
  cases get with
  | start d =>
    obtain rfl := Option.some.inj h
    rfl
  | _ => exact absurd h (by simp [starting])

theorem units_set {units : List ConsumeMsgUnit} {u : UnitRef} {unit₀ unit₁ : ConsumeMsgUnit}
    (hu : units[u]? = some unit₀) (hname : unit₁.topic = unit₀.topic ∧ unit₁.group = unit₀.group)
    (v : UnitRef) (unit : ConsumeMsgUnit) (hv : units[v]? = some unit) :
    ∃ unit', (units.set u unit₁)[v]? = some unit' ∧ unit'.topic = unit.topic ∧
      unit'.group = unit.group :=
  Heap.set_rel (R := fun x y => y.topic = x.topic ∧ y.group = x.group) hu hname
    (fun _ => ⟨rfl, rfl⟩) hv

theorem calls_set {calls : List ConsumeCallData} {j : CallRef} {call₀ call₁ : ConsumeCallData}
    (hj : calls[j]? = some call₀) (hname : call₁.topic = call₀.topic ∧ call₁.group = call₀.group)
    (k : CallRef) (call : ConsumeCallData) (hk : calls[k]? = some call) :
    ∃ call', (calls.set j call₁)[k]? = some call' ∧ call'.topic = call.topic ∧
      call'.group = call.group :=
  Heap.set_rel (R := fun x y => y.topic = x.topic ∧ y.group = x.group) hj hname
    (fun _ => ⟨rfl, rfl⟩) hk

theorem Registry.matcherGet {s : Proxy} (h : RegistryInv s) {u : UnitRef}
    {unit : ConsumeMsgUnit} {get get' : GetConsumer} {now : Int}
    {consumers : TreeMap String ConsumerRef} {msgPool : TreeMap String (List MsgUnit)}
    {units : List ConsumerUnit} (hm : s.matcher = .getConsumer u get)
    (hu : s.consumeMsgUnits[u]? = some unit)
    (hget : GetStep s unit.topic unit.group now get consumers msgPool units get') :
    Registry consumers (units.map ConsumerUnit.consumer) s.consumeMsgUnits s.consumeCalls
      s.ackCalls (.getConsumer u get') s.grpc s.shutdown := by
  obtain ⟨unit', hu', hok⟩ := h.matching u get hm
  obtain rfl := Option.some.inj (hu.symm.trans hu')
  obtain ⟨hl, hkeyed, hok', hfresh⟩ := hget.registry h.keyed hok
  refine ⟨hkeyed, fun v get₁ hv => ?_, fun k get₁ hg => ?_, fun k get₁ hg => ?_,
    fun c v k hv => ?_, fun i key c hs => (h.selected i key c hs).later hl⟩
  · obtain ⟨rfl, rfl⟩ := MatcherPc.getConsumer.inj hv
    exact ⟨unit, hu, hok'⟩
  · obtain ⟨call, hc, hok₁⟩ := h.acking k get₁ hg
    refine ⟨call, hc, hok₁.later hl fun c hstart he => ?_⟩
    exact (h.distinct c u k (by rw [hm, starting_eq_some he])).1 (by rw [hg, hstart])
  · obtain ⟨call, hc, hok₁⟩ := h.cancelling k get₁ hg
    refine ⟨call, hc, hok₁.later hl fun c hstart he => ?_⟩
    exact (h.distinct c u k (by rw [hm, starting_eq_some he])).2 (by rw [hg, hstart])
  · -- the consumer the call has just created is no thread's yet
    obtain ⟨-, rfl⟩ := MatcherPc.getConsumer.inj hv
    have hle := hfresh c rfl
    constructor <;> intro hg
    · obtain ⟨call, -, hok₁⟩ := h.acking k _ hg
      exact absurd hok₁.lt (Nat.not_lt.mpr hle)
    · obtain ⟨call, -, hok₁⟩ := h.cancelling k _ hg
      exact absurd hok₁.lt (Nat.not_lt.mpr hle)

/-- A step of `getConsumer` made by the gRPC thread, for an ack or for a cancel. -/
theorem Registry.grpcGet {s : Proxy} (h : RegistryInv s) {topic group : String}
    {get get' : GetConsumer} {now : Int} {g' : GrpcPc}
    {consumers : TreeMap String ConsumerRef} {msgPool : TreeMap String (List MsgUnit)}
    {units : List ConsumerUnit} (hok : GetOk s.sdk topic group get)
    (hdistinct : ∀ c u, s.matcher = .getConsumer u (.start c) → get ≠ .start c)
    (hget : GetStep s topic group now get consumers msgPool units get')
    (hack : ∀ k get₁, g' = .ack k get₁ → get₁ = get' ∧
      ∃ call, s.ackCalls[k]? = some call ∧ call.topic = topic ∧ call.group = group)
    (hcancel : ∀ k get₁, g' = .cancel k get₁ → get₁ = get' ∧
      ∃ call, s.consumeCalls[k]? = some call ∧ call.topic = topic ∧ call.group = group) :
    Registry consumers (units.map ConsumerUnit.consumer) s.consumeMsgUnits s.consumeCalls
      s.ackCalls s.matcher g' s.shutdown := by
  obtain ⟨hl, hkeyed, hok', hfresh⟩ := hget.registry h.keyed hok
  refine ⟨hkeyed, fun u get₁ hm => ?_, fun k get₁ hg => ?_, fun k get₁ hg => ?_,
    fun c u k hm => ?_, fun i key c hs => (h.selected i key c hs).later hl⟩
  · obtain ⟨unit, hu, hok₁⟩ := h.matching u get₁ hm
    refine ⟨unit, hu, hok₁.later hl fun c hstart he => ?_⟩
    exact hdistinct c u (by rw [hm, hstart]) (starting_eq_some he)
  · obtain ⟨rfl, call, hc, rfl, rfl⟩ := hack k get₁ hg
    exact ⟨call, hc, hok'⟩
  · obtain ⟨rfl, call, hc, rfl, rfl⟩ := hcancel k get₁ hg
    exact ⟨call, hc, hok'⟩
  · obtain ⟨unit, -, hok₁⟩ := h.matching u _ hm
    constructor <;> intro hg
    · exact absurd hok₁.lt (Nat.not_lt.mpr (hfresh c (hack k _ hg).1.symm))
    · exact absurd hok₁.lt (Nat.not_lt.mpr (hfresh c (hcancel k _ hg).1.symm))

theorem Step.registryInv {s s' : Proxy} {e : Event} (h : Step s e s') (hr : RequestsInv s)
    (hi : RegistryInv s) : RegistryInv s' := by
  cases h with
  | consume hg =>
    exact hi.requests (fun u unit hu => ⟨unit, Heap.append_old hu _, rfl, rfl⟩)
      fun k call hk => ⟨call, Heap.append_old hk _, rfl, rfl⟩
  | consumeDel hg hk hf hd hok =>
    exact hi.requests (fun u unit hu => ⟨unit, hu, rfl, rfl⟩) (calls_set hk ⟨rfl, rfl⟩)
  | @cancelBegin k call hg hk hf hd hid =>
    refine ⟨hi.keyed, hi.matching, by simp, fun j get hj => ?_, by simp, hi.selected⟩
    obtain ⟨rfl, rfl⟩ := GrpcPc.cancel.inj hj
    exact ⟨call, hk, .lookup⟩
  | @cancelGet k call get get' _ _ _ _ _ hg hk hget =>
    obtain ⟨call', hk', hok⟩ := hi.cancelling k get hg
    obtain rfl := Option.some.inj (hk.symm.trans hk')
    refine hi.grpcGet hok (fun c u hm he => ?_) hget (by simp) fun j get₁ hj => ?_
    · exact (hi.distinct c u k hm).2 (by rw [hg, he])
    · obtain ⟨rfl, rfl⟩ := GrpcPc.cancel.inj hj
      exact ⟨rfl, call, hk, rfl, rfl⟩
  | cancelSet hg hk hc =>
    exact (hi.grpc (by simp) (by simp)).sdk_eq (sdk_set hc rfl)
  | cancelErase hg hk =>
    exact (hi.requests (fun u unit hu => ⟨unit, hu, rfl, rfl⟩)
      (@calls_set _ _ _ (ConsumeCallData.del _) hk ⟨rfl, rfl⟩)).grpc (by simp) (by simp)
  | @consumeAck topic group msgId status now hg =>
    have hack : Registry s.consumers s.sdk s.consumeMsgUnits s.consumeCalls
        (s.ackCalls ++ [.new topic group msgId status]) s.matcher
        (.ack s.ackCalls.length .lookup) s.shutdown := by
      refine ⟨hi.keyed, hi.matching, fun k get hk => ?_, by simp, by simp, hi.selected⟩
      obtain ⟨rfl, rfl⟩ := GrpcPc.ack.inj hk
      exact ⟨_, List.getElem?_concat_length, .lookup⟩
    exact hack.sdk_eq (sdk_resetConsumerActive s s.consumerUnits topic group now)
  | @ackGet k call get get' _ _ _ _ _ hg hk hget =>
    obtain ⟨call', hk', hok⟩ := hi.acking k get hg
    obtain rfl := Option.some.inj (hk.symm.trans hk')
    refine hi.grpcGet hok (fun c u hm he => ?_) hget (fun j get₁ hj => ?_) (by simp)
    · exact (hi.distinct c u k hm).1 (by rw [hg, he])
    · obtain ⟨rfl, rfl⟩ := GrpcPc.ack.inj hj
      exact ⟨rfl, call, hk, rfl, rfl⟩
  | ackAccepted hg hk hc hret | ackRejected hg hk hc hret =>
    exact (hi.grpc (by simp) (by simp)).sdk_eq (sdk_set hc rfl)
  | ackLookup hg hk => exact hi.grpc (by simp) (by simp)
  | @ackStore k call u _ _ hg hk =>
    have hnext : Registry s.consumers s.sdk s.consumeMsgUnits s.consumeCalls
        (s.ackStore k call u).ackCalls s.matcher .next s.shutdown := hi.grpc (by simp) (by simp)
    refine hnext.requests (fun v unit hv => ?_) fun j call hj => ⟨call, hj, rfl, rfl⟩
    cases u with
    | none => exact ⟨unit, hv, rfl, rfl⟩
    | some u =>
      by_cases huv : u = v
      · subst huv
        exact ⟨_, Heap.modify_self hv _, rfl, rfl⟩
      · exact ⟨unit, by simp [Proxy.ackStore, huv, hv], rfl, rfl⟩
  | ackDel hg hk hf hd => exact hi.grpc (by simp [hg]) (by simp [hg])
  | @pop u rest _ _ _ hm hp =>
    refine ⟨hi.keyed, fun v get hv => ?_, hi.acking, hi.cancelling, by simp, hi.selected⟩
    obtain ⟨rfl, rfl⟩ := MatcherPc.getConsumer.inj hv
    have hlt := hr.requests.bound u (by rw [queue, hm, hp]; exact List.mem_cons_self)
    exact ⟨_, List.getElem?_eq_getElem hlt, .lookup⟩
  | matcherGet hm hu hget => exact hi.matcherGet hm hu hget
  | @deliver u unit c consumer consumer' a msg call now now' _ hm hu hc hs hk hf =>
    have hsdk : ((s.deliver u unit c consumer' a msg call now).pushBack u).sdk = s.sdk :=
      (sdk_resetConsumerActive s _ unit.topic unit.group now).trans
        (sdk_set hc (@UnitStep.fetched _ _ u _ _ hf).consumer)
    have hunits := @units_set _ _ _
      { unit with msgId := msg.unit.msgId, status := .clientReceive } hu ⟨rfl, rfl⟩
    have hcalls := @calls_set _ _ _
      (call.responseMsg responseSuccess "" msg.unit.msgId msg.unit.body) hk ⟨rfl, rfl⟩
    exact (hi.requests hunits hcalls).pop.sdk_eq hsdk
  | @fetchTimeout u unit c consumer call now now' _ hm hu hc hs hk hf ht =>
    have hsdk : (s.fetchTimeout unit call now').sdk = s.sdk :=
      sdk_resetConsumerActive s _ unit.topic unit.group now'
    exact (hi.requests (fun u unit hu => ⟨unit, hu, rfl, rfl⟩)
      (@calls_set _ _ _ call.responseTimeOut hk ⟨rfl, rfl⟩)).pop.sdk_eq hsdk
  | requeue | drop => exact hi.pop
  | ackTimeout hm hu hc hs ht =>
    exact hi.pop.sdk_eq (sdk_set hc rfl)
  | callback hc hs ha hn => exact hi.sdk_eq (sdk_set hc rfl)
  | callbackReturn hc he => exact hi.sdk_eq (sdk_set hc (UnitStep.reported he).consumer)
  | clearUnlock hp hc => exact hi.sdk_eq (sdk_set hc rfl)
  | sweep | sweepEnd | skip => exact hi.shutdown (by simp)
  | @select i key c unit now hp hkey hk hc ht =>
    refine hi.shutdown fun j key' d hs => ?_
    obtain ⟨rfl, rfl, rfl⟩ : i = j ∧ key = key' ∧ c = d := by simpa using hs
    obtain ⟨con, hcon, -, hne⟩ := hi.keyed key c hk
    exact ⟨con, hcon, hne⟩
  | @shutdownBegin i key c now hp =>
    have hl := @SdkLater.moved s.sdk c .shutdown (by simp) (hi.selected i key c (.inl hp))
    refine ((hi.later hl).shutdown fun j key' d hs => ?_).sdk_eq
      (sdk_setState s.consumerUnits c .shutdown)
    obtain ⟨rfl, rfl, rfl⟩ : i = j ∧ key = key' ∧ c = d := by simpa using hs
    exact (hi.selected i key c (.inl hp)).later hl
  | @shutdownEnd i key c unit now hp hc he =>
    have hl := @SdkLater.moved s.sdk c .stopped (by simp) (hi.selected i key c (.inr hp))
    exact ((hi.later hl).shutdown (by simp)).sdk_eq (sdk_setState s.consumerUnits c .stopped)
  | @erase i key now hp =>
    refine ⟨fun key' c hk => hi.keyed key' c ?_, hi.matching, hi.acking, hi.cancelling,
      hi.distinct, by simp⟩
    rw [TreeMap.getElem?_erase] at hk
    split at hk
    · exact absurd hk (by simp)
    · exact hk
  | _ => exact hi

theorem registryInv {P : Proxy → Event → Prop} {s : Proxy} (h : ReachableBy P s) :
    RegistryInv s := by
  refine h.invariant (I := RegistryInv) ⟨?_, by simp [init], by simp [init], by simp [init],
    by simp [init], by simp [init]⟩
    fun s e s' hr hi _ hs => (step_cases hs).registryInv (requestsInv hr) hi
  exact fun key c hk => absurd hk (by simp [init])

end Proxy
end RocketmqProxy
