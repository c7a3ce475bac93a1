import RocketmqProxy.Proxy.Registry

/-!
# Topics and groups

The registry keys a consumer by the topic followed by the group, with nothing in
between.  Requests reach the consumer of their own topic and group as long as no two
pairs in use have the same concatenation, and in no other case.
-/

namespace RocketmqProxy
namespace Proxy

open Std

/-- The topic and the group of each consumer. -/
def subscribed (s : Proxy) : List (String × String) :=
  s.consumerUnits.map fun unit => (unit.consumer.topic, unit.consumer.groupName)

/-- What was done to a consumer for a request was done to the consumer that was created
for the topic and the group of the request. -/
def Right (s : Proxy) : Obs → Prop
  | .unit c (.fetched u _ msg) =>
    s.subscribed[c]? = some (msg.unit.topic, msg.unit.group) ∧
      s.unitNames[u]? = some (msg.unit.topic, msg.unit.group)
  | .unit c (.acked (.consumeAck k) _ _ _) =>
    ∃ p, s.subscribed[c]? = some p ∧ s.ackNames[k]? = some p
  | .reset topic group c => s.subscribed[c]? = some (topic, group)
  | _ => True

/-- Deliveries, acks and resets have respected topic and group. -/
def Respected (s : Proxy) : Prop := ∀ o ∈ s.trace, Right s o

/-- The SDK calls a listener with messages of the subscribed topic only. -/
def PullsSubscribed (s : Proxy) : Event → Prop
  | .callback c _ msgs =>
    ∀ unit ∈ s.consumerUnits[c]?, ∀ m ∈ msgs, m.2.topic = unit.consumer.topic
  | _ => True

instance (s : Proxy) : (e : Event) → Decidable (PullsSubscribed s e)
  | .callback c _ msgs => inferInstanceAs (Decidable
      (∀ unit ∈ s.consumerUnits[c]?, ∀ m ∈ msgs, m.2.topic = unit.consumer.topic))
  | .consume _ _ _ | .consumeDone _ _ | .consumeAck _ _ _ _ _ | .ackDone _ _ | .grpc _ _
  | .matcher _ _ _ | .callbackReturn _ _ | .shutdown _ | .clear => inferInstanceAs (Decidable True)

/-! ## Names last -/

/-- The list has grown by at most one name, and that from `new`. -/
def Grown (names names' new : List (String × String)) : Prop :=
  names' = names ∨ ∃ p ∈ new, names' = names ++ [p]

namespace Grown

variable {names names' new : List (String × String)}

theorem old (h : Grown names names' new) {i : Nat} {p : String × String}
    (hi : names[i]? = some p) : names'[i]? = some p := by
  rcases h with rfl | ⟨q, -, rfl⟩
  · exact hi
  · exact Heap.append_old hi [q]

theorem mem (h : Grown names names' new) {p : String × String} (hp : p ∈ names') :
    p ∈ names ∨ p ∈ new := by
  rcases h with rfl | ⟨q, hq, rfl⟩
  · exact .inl hp
  · rcases List.mem_append.mp hp with hp | hp
    · exact .inl hp
    · exact .inr (List.mem_singleton.mp hp ▸ hq)

end Grown

theorem Step.subscribed {s s' : Proxy} {e : Event} (h : Step s e s') :
    Grown s.subscribed s'.subscribed s.requested := by
  have hsame : ∀ {us us' : List ConsumerUnit}, SameUnits us us' →
      us'.map (fun unit => (unit.consumer.topic, unit.consumer.groupName)) =
        us.map fun unit => (unit.consumer.topic, unit.consumer.groupName) := by
    intro us us' hus
    refine List.ext_getElem? fun c => ?_
    rw [List.getElem?_map, List.getElem?_map]
    cases hc : us[c]? with
    | none => rw [hus.none_iff.mpr hc]
    | some unit =>
      obtain ⟨unit', hc', hb⟩ := hus.get' hc
      rw [hc', Option.map_some, Option.map_some, hb.topic, hb.groupName]
  cases h.unitsStep with
  | kept units => exact .inl (hsame units)
  | created topic group now known units =>
    exact .inr ⟨_, known, by rw [Proxy.subscribed, units, List.map_append]; rfl⟩
  | stepped hc hstep _ units =>
    exact .inl ((hsame units).trans (Heap.map_set hc (by rw [hstep.consumer])))

theorem Step.unitNames {s s' : Proxy} {e : Event} (h : Step s e s') :
    Grown s.unitNames s'.unitNames (request e).toList := by
  cases h with
  | @consume topic group => exact .inr ⟨(topic, group), by simp [request], by
      simp [Proxy.unitNames, consumeProcess, ConsumeMsgUnit.new]⟩
  | deliver hm hu => exact .inl (Heap.map_set hu rfl)
  | @ackStore k call u =>
    cases u with
    | none => exact .inl rfl
    | some u =>
      exact .inl (Heap.map_modify (fun unit : ConsumeMsgUnit => (unit.topic, unit.group))
        (fun unit => { unit with status := .consumeAck }) (fun _ => rfl) s.consumeMsgUnits u)
  | _ => exact .inl rfl

theorem Step.callNames {s s' : Proxy} {e : Event} (h : Step s e s') :
    Grown s.callNames s'.callNames (request e).toList := by
  cases h with
  | @consume topic group => exact .inr ⟨(topic, group), by simp [request], by
      simp [Proxy.callNames, consumeProcess, ConsumeCallData.new]⟩
  | consumeDel hg hk | cancelErase hg hk => exact .inl (Heap.map_set hk rfl)
  | deliver hm hu hc hs hk | fetchTimeout hm hu hc hs hk => exact .inl (Heap.map_set hk rfl)
  | _ => exact .inl rfl

theorem Step.ackNames {s s' : Proxy} {e : Event} (h : Step s e s') :
    Grown s.ackNames s'.ackNames (request e).toList := by
  cases h with
  | @consumeAck topic group => exact .inr ⟨(topic, group), by simp [request], by
      simp [Proxy.ackNames, ackProcess, ConsumeAckCallData.new]⟩
  | ackRejected hg hk | ackStore hg hk | ackDel hg hk => exact .inl (Heap.map_set hk rfl)
  | _ => exact .inl rfl

theorem Step.requested {s s' : Proxy} {e : Event} (h : Step s e s') {p : String × String}
    (hp : p ∈ s'.requested) : p ∈ s.requested ∨ p ∈ (request e).toList := by
  simp only [Proxy.requested, List.mem_append] at hp ⊢
  rcases hp with (hp | hp) | hp
  · exact (h.unitNames.mem hp).imp_left fun hp => .inl (.inl hp)
  · exact (h.callNames.mem hp).imp_left fun hp => .inl (.inr hp)
  · exact (h.ackNames.mem hp).imp_left .inr

theorem Right.step {s s' : Proxy} {e : Event} {o : Obs} (h : Step s e s') (hr : Right s o) :
    Right s' o := by
  unfold Right at hr ⊢
  split at hr
  · exact ⟨h.subscribed.old hr.1, h.unitNames.old hr.2⟩
  · obtain ⟨p, hc, hk⟩ := hr
    exact ⟨p, h.subscribed.old hc, h.ackNames.old hk⟩
  · exact h.subscribed.old hr
  · trivial

/-! ## Every run -/

/-- No two pairs of `S` make up one key. -/
def KeysDiffer (S : Set (String × String)) : Prop :=
  ∀ p ∈ S, ∀ q ∈ S, p.1 ++ p.2 = q.1 ++ q.2 → p = q

/-- The requests of the run have their topics and groups in `S`, and the SDK keeps to
its subscriptions. -/
def RequestsIn (S : Set (String × String)) (s : Proxy) (e : Event) : Prop :=
  (∀ p ∈ (request e).toList, p ∈ S) ∧ PullsSubscribed s e

structure Routed (S : Set (String × String)) (s : Proxy) : Prop where
  created : ∀ p ∈ s.subscribed, p ∈ S
  requests : ∀ p ∈ s.requested, p ∈ S
  pulled : ∀ c a msgs, .unit c (.registered a msgs) ∈ s.trace →
    ∃ p, s.subscribed[c]? = some p ∧ ∀ m ∈ msgs, m.2.topic = p.1
  respected : Respected s

theorem subscribed_of_sdk {s : Proxy} {c : ConsumerRef} {con : DefaultMQPushConsumer}
    (hc : s.sdk[c]? = some con) : s.subscribed[c]? = some (con.topic, con.groupName) := by
  rw [sdk, List.getElem?_map] at hc
  obtain ⟨unit, hunit, rfl⟩ := Option.map_eq_some_iff.mp hc
  rw [subscribed, List.getElem?_map, hunit]
  rfl

/-- A consumer found under the key of a pair of `S` was created for that pair. -/
theorem Routed.of_key {S : Set (String × String)} {s : Proxy} (h : Routed S s)
    (hS : KeysDiffer S) {c : ConsumerRef} {con : DefaultMQPushConsumer} {topic group : String}
    (hc : s.sdk[c]? = some con) (hkey : con.topic ++ con.groupName = topic ++ group)
    (hp : (topic, group) ∈ S) : s.subscribed[c]? = some (topic, group) := by
  have hsub := subscribed_of_sdk hc
  rw [hsub, hS _ (h.created _ (List.mem_of_getElem? hsub)) _ hp hkey]

theorem Routed.of_getConsumer {S : Set (String × String)} {s : Proxy} (h : Routed S s)
    (hS : KeysDiffer S) {c : ConsumerRef} {topic group : String}
    (hok : GetOk s.sdk topic group (.done (some c))) (hp : (topic, group) ∈ S) :
    s.subscribed[c]? = some (topic, group) := by
  cases hok with
  | done hc hkey _ => exact h.of_key hS hc hkey hp

/-- What a fetch pops has the topic and the group of the consumer it is popped from. -/
theorem Routed.of_fetched {S : Set (String × String)} {s : Proxy} (h : Routed S s)
    (hh : Histories s.consumerUnits s.trace) {c : ConsumerRef} {unit unit' : ConsumerUnit}
    {a : Addr} {msg : MsgPtr} (hc : s.consumerUnits[c]? = some unit)
    (hf : unit.fetchAndConsume = (some (a, msg), unit')) :
    s.subscribed[c]? = some (msg.unit.topic, msg.unit.group) := by
  have hsub : s.subscribed[c]? = some (unit.consumer.topic, unit.consumer.groupName) := by
    rw [subscribed, List.getElem?_map, hc]
    rfl
  obtain ⟨l, rest, hl, hq, -⟩ := ConsumerUnit.fetchAndConsume_some hf
  obtain ⟨topic, group, now, hrun⟩ := hh.run c unit hc
  obtain ⟨k₁, msgs, k₂, hk, hr, -⟩ := (hrun.history rfl).registered a l hl
  obtain ⟨p, hp, htopic⟩ := h.pulled c a msgs (mem_history.mp (by rw [hk]; simp))
  obtain rfl := Option.some.inj (hsub.symm.trans hp)
  have hmem : msg ∈ msgs.map (ConsumerUnitLocker.ptr group) := by
    have := hr.queue
    rw [hq] at this
    exact this ▸ List.mem_append_right _ List.mem_cons_self
  obtain ⟨m, hm, rfl⟩ := List.mem_map.mp hmem
  have htop : m.2.topic = unit.consumer.topic := htopic m hm
  rw [hsub, ← htop, hrun.groupName]
  rfl

theorem Explained.right {S : Set (String × String)} {s : Proxy} {e : Event} {o : Obs}
    (he : Explained s e o) (hS : KeysDiffer S) (h : Routed S s) (hi : RegistryInv s)
    (hh : Histories s.consumerUnits s.trace) (hreq : ∀ p ∈ (request e).toList, p ∈ S) :
    Right s o := by
  cases he with
  | unit hc hstep cause =>
    cases cause with
    | fetch hm hu hs =>
      cases hstep with
      | fetched hf =>
        obtain ⟨unit', hu', hok⟩ := hi.matching _ _ hm
        obtain rfl := Option.some.inj (hu.symm.trans hu')
        have hmsg := h.of_fetched hh hc hf
        have hunit := h.of_getConsumer hS hok (h.requests _ (mem_requested_unit hu))
        refine ⟨hmsg, ?_⟩
        rw [unitNames, List.getElem?_map, hu, ← hmsg, hunit]
        rfl
    | consumeAck _ hg hk =>
      obtain ⟨call, hk', hok⟩ := hi.acking _ _ hg
      obtain rfl := Option.some.inj (hk.symm.trans hk')
      refine ⟨_, h.of_getConsumer hS hok (h.requests _ (mem_requested_ack hk)), ?_⟩
      rw [ackNames, List.getElem?_map, hk]
      rfl
    | callback | callbackReturn | ackTimeout | cancel | clear => trivial
  | reset hc known =>
    obtain ⟨con, hcon, hkey, -⟩ := hi.keyed _ _ hc
    exact h.of_key hS hcon hkey (known.elim (h.requests _) (hreq _))

theorem Step.routed {S : Set (String × String)} {s s' : Proxy} {e : Event} (hstep : Step s e s')
    (hS : KeysDiffer S) (hP : RequestsIn S s e) (hi : RegistryInv s)
    (hh : Histories s.consumerUnits s.trace) (h : Routed S s) : Routed S s' := by
  obtain ⟨t, htrace, ht⟩ := hstep.explained
  refine ⟨fun p hp => ?_, fun p hp => ?_, fun c a msgs hmem => ?_, fun o ho => ?_⟩
  · exact (hstep.subscribed.mem hp).elim (h.created p) (h.requests p)
  · exact (hstep.requested hp).elim (h.requests p) (hP.1 p)
  · rcases List.mem_append.mp (htrace ▸ hmem) with hmem | hmem
    · obtain ⟨p, hp, hall⟩ := h.pulled c a msgs hmem
      exact ⟨p, hstep.subscribed.old hp, hall⟩
    · cases ht _ hmem with
      | @unit _ _ unit unit' hc _ cause =>
        cases cause with
        | callback he =>
          have hpulls := hP.2
          rw [he] at hpulls
          refine ⟨(unit.consumer.topic, unit.consumer.groupName), hstep.subscribed.old ?_,
            hpulls unit hc⟩
          rw [Proxy.subscribed, List.getElem?_map, hc]
          rfl
  · rcases List.mem_append.mp (htrace ▸ ho) with ho | ho
    · exact (h.respected o ho).step hstep
    · exact ((ht o ho).right hS h hi hh hP.1).step hstep

theorem routed {S : Set (String × String)} (hS : KeysDiffer S) {s : Proxy}
    (h : ReachableBy (RequestsIn S) s) : Routed S s :=
  h.invariant (I := Routed S) ⟨by simp [subscribed, init],
    by simp [requested, unitNames, callNames, ackNames, init], by simp [init],
    by simp [Respected, init]⟩
    fun _ _ _ hr hi hP hs => (step_cases hs).routed hS hP (registryInv hr) (histories hr) hi

/-! ## Pairs that collide -/

/-- An ack for `p` creates the consumer of its key, and an ack for `q` follows. -/
def twoAcks (p q : String × String) : List Event :=
  [.consumeAck p.1 p.2 "" 0 0, .grpc 0 true, .grpc 0 true, .grpc 0 true, .grpc 0 true,
    .consumeAck q.1 q.2 "" 0 0]

theorem run_twoAcks {p q : String × String} (hkey : p.1 ++ p.2 = q.1 ++ q.2) :
    ∃ s, run (twoAcks p q) = some s ∧ s.subscribed = [p] ∧ .reset q.1 q.2 0 ∈ s.trace := by
  have hreject : ∀ (topic group : String), (((ConsumerUnit.new topic group 0).setState
      .started).setMsgAck "" .consumeSuccess).1 = false := fun _ _ => rfl
  simp [run, twoAcks, Runs.exec, step, ackProcess, resetConsumerActive, grpcStep, getConsumer,
    init, ackSet, onConsumer, ConsumeAckCallData.new, ConsumeStatus.ofInt, hreject, hkey,
    subscribed, TreeMap.getElem_insertIfNew]
  rfl

/-- Topic and group are respected in all runs with requests for pairs of `S` exactly if
no two pairs of `S` make up one key. -/
theorem respected_iff (S : Set (String × String)) :
    (∀ s, ReachableBy (RequestsIn S) s → Respected s) ↔ KeysDiffer S := by
  constructor
  · intro hall p hp q hq hkey
    obtain ⟨s, hrun, hsub, hmem⟩ := run_twoAcks hkey
    have hP : ∀ e ∈ twoAcks p q, ∀ s, RequestsIn S s e := by
      intro e he s
      simp only [twoAcks, List.mem_cons, List.not_mem_nil, or_false] at he
      rcases he with rfl | rfl | rfl | rfl | rfl | rfl <;>
        exact ⟨by simp [request, hp, hq], trivial⟩
    have hreset := hall s (.of_exec_of_forall hP .init hrun) _ hmem
    rw [Right, hsub] at hreset
    exact Option.some.inj hreset
  · exact fun hS s h => (routed hS h).respected

/-- A client of topic "ab" and group "c" gets a message of topic "a" that was pulled for
group "bc". -/
theorem other_topic_delivered : ¬ ∀ s, ReachableBy (RequestsIn Set.univ) s → Respected s := by
  let es : List Event := [.consume "a" "bc" 0, .matcher 0 0 true, .matcher 0 0 true,
    .matcher 0 0 true, .matcher 0 0 true, .matcher 0 0 true, .consume "ab" "c" 0,
    .matcher 0 0 true, .matcher 0 0 true, .matcher 0 0 true,
    .callback 0 1 [(10, ⟨"m", "a", "b", 0⟩)], .matcher 0 0 true, .matcher 0 0 true,
    .matcher 0 0 true]
  have hrun : (Runs.exec (Runs.restrict step PullsSubscribed) init es).map
      (fun s => (s.trace, s.unitNames)) =
      some ([.unit 0 (.registered 1 [(10, ⟨"m", "a", "b", 0⟩)]),
        .unit 0 (.fetched 1 1 ⟨10, ⟨1, "m", "a", "bc", "b", 0⟩⟩), .reset "ab" "c" 0],
        [("a", "bc"), ("ab", "c")]) := by
    decide
  obtain ⟨s, hs, hpair⟩ := Option.map_eq_some_iff.mp hrun
  obtain ⟨htrace, hunits⟩ := Prod.mk.inj hpair
  have hreach : ReachableBy (RequestsIn Set.univ) s :=
    (Runs.Reach.of_exec_restrict .init hs).mono fun _ _ h => ⟨fun _ _ => trivial, h⟩
  intro hall
  obtain ⟨-, hunit⟩ := hall s hreach (.unit 0 (.fetched 1 1 ⟨10, ⟨1, "m", "a", "bc", "b", 0⟩⟩))
    (by simp [htrace])
  rw [hunits] at hunit
  exact absurd hunit (by decide)

end Proxy
end RocketmqProxy
