import RocketmqProxy.Proxy.Step
import RocketmqProxy.Server

/-!
# What one step of the server can do

The part of the proxy in a run of the server is a run of the proxy.
-/

namespace RocketmqProxy
namespace Server

open Std

inductive Step : Server → ServerEvent → Server → Prop
  | produce {s : Server} {i : Nat} {request : ProduceRequest} {started : Bool}
      (hg : s.proxy.grpc = .next) (hl : s.Listens i .produce) :
      Step s (.produce i request started)
        (((s.takeCall i).addCall request).process s.produceCalls.length (.new request) started)
  | consume {s : Server} {i : Nat} {topic group : String} {now : Int} {proxy : Proxy}
      (hl : s.Listens i .consume) (hs : s.proxy.step (.consume topic group now) = some proxy) :
      Step s (.consume i topic group now)
        { (s.takeCall i).construct .consume with proxy := proxy }
  | consumeAck {s : Server} {i : Nat} {topic group msgId : String} {status now : Int}
      {proxy : Proxy} (hl : s.Listens i .consumeAck)
      (hs : s.proxy.step (.consumeAck topic group msgId status now) = some proxy) :
      Step s (.consumeAck i topic group msgId status now)
        { (s.takeCall i).construct .consumeAck with proxy := proxy }
  | produceDone {s : Server} {k : CallRef} {call : ProduceCallData} {ok : Bool}
      (hg : s.proxy.grpc = .next) (hk : s.produceCalls[k]? = some call)
      (hf : call.finished ≠ []) (hd : call.deleted = false) :
      Step s (.produceDone k ok) (s.setCall k call.del)
  | sendEnd {s : Server} {k : CallRef} {call : ProduceCallData} {send : Send} {e : SendEnd}
      {started : Bool} (hk : s.produceCalls[k]? = some call)
      (hlast : call.sends.getLast? = some send) (ho : call.Outstanding)
      (hp : send.producer.isSome) :
      Step s (.sendEnd k e started) (s.sendEnd k (call.endSend e) started e)
  | proxy {s : Server} {e : Event} {proxy : Proxy} (hi : internal e = true)
      (hs : s.proxy.step e = some proxy) : Step s (.proxy e) { s with proxy := proxy }

theorem step_cases {s s' : Server} {e : ServerEvent} (h : s.step e = some s') : Step s e s' := by
  cases e with
  | produce i request started =>
    simp only [step, Option.ite_none_right_eq_some] at h
    obtain ⟨⟨hg, hl⟩, h⟩ := h
    obtain rfl := Option.some.inj h
    exact .produce hg hl
  | consume i topic group now =>
    simp only [step, Option.ite_none_right_eq_some, Option.map_eq_some_iff] at h
    obtain ⟨hl, proxy, hs, rfl⟩ := h
    exact .consume hl hs
  | consumeAck i topic group msgId status now =>
    simp only [step, Option.ite_none_right_eq_some, Option.map_eq_some_iff] at h
    obtain ⟨hl, proxy, hs, rfl⟩ := h
    exact .consumeAck hl hs
  | produceDone k ok =>
    simp only [step, Option.bind_eq_bind, Option.bind_eq_some_iff,
      Option.ite_none_right_eq_some] at h
    obtain ⟨call, hk, ⟨hg, hf, hd⟩, h⟩ := h
    obtain rfl := Option.some.inj h
    exact .produceDone hg hk hf hd
  | sendEnd k e started =>
    simp only [step, Option.bind_eq_bind, Option.bind_eq_some_iff,
      Option.ite_none_right_eq_some] at h
    obtain ⟨call, hk, send, hlast, ⟨ho, hp⟩, h⟩ := h
    obtain rfl := Option.some.inj h
    exact .sendEnd hk hlast ho hp
  | proxy e =>
    simp only [step, Option.ite_none_right_eq_some, Option.map_eq_some_iff] at h
    obtain ⟨hi, proxy, hs, rfl⟩ := h
    exact .proxy hi hs

/-! ## What the parts of a step leave alone -/

section Parts

variable (s : Server) (k : CallRef) (call : ProduceCallData) (request : ProduceRequest)
  (started : Bool) (e : SendEnd)

theorem getProducer_writes (topic group : String) :
    ∃ producers units, (s.getProducer topic group started).1 =
      { s with producers := producers, producerUnits := units } := by
  unfold getProducer
  split
  · exact ⟨s.producers, s.producerUnits, rfl⟩
  · split
    · exact ⟨_, _, rfl⟩
    · exact ⟨s.producers, s.producerUnits, rfl⟩

/-- What `process` does to the call, with the send it has made if it has made one. -/
theorem process_writes :
    ∃ producers units call', s.process k call started =
      { (s.construct .produce).setCall k call' with
        producers := producers, producerUnits := units } ∧
      ((call.request.Complete ∧ ∃ send, call' = call.send send) ∨
        (¬ call.request.Complete ∧ call' = call.fail "params error!")) := by
  unfold process
  by_cases hc : call.request.Complete
  · obtain ⟨producers, units, he⟩ :=
      (s.construct .produce).getProducer_writes started call.request.topic call.request.group
    refine ⟨producers, units, call.send ((s.construct .produce).produce call.request started).2,
      ?_, .inl ⟨hc, _, rfl⟩⟩
    simp only [if_pos hc, produce, he]
    rfl
  · refine ⟨s.producers, s.producerUnits, call.fail "params error!", ?_, .inr ⟨hc, rfl⟩⟩
    rw [if_neg hc]
    rfl

theorem failure_of_lt (msgResp : String) (h : call.retryCount < produceMaxRetryCount) :
    s.failure k call msgResp started = s.process k call.retry started :=
  if_neg (Nat.not_lt.mpr h)

theorem failure_of_le (msgResp : String) (h : produceMaxRetryCount ≤ call.retryCount) :
    s.failure k call msgResp started = s.setCall k (call.retry.fail msgResp) :=
  if_pos (Nat.lt_succ_of_le h)

end Parts

/-! ## Runs -/

/-- States the server reaches by steps that all meet `P`. -/
abbrev ReachableBy (P : Server → ServerEvent → Prop) : Server → Prop := Runs.Reach step init P

/-- States the server reaches. -/
abbrev Reachable : Server → Prop := ReachableBy Runs.always

theorem process_proxy (s : Server) (k : CallRef) (call : ProduceCallData) (started : Bool) :
    (s.process k call started).proxy = s.proxy := by
  obtain ⟨_, _, _, he, -⟩ := s.process_writes k call started
  rw [he]
  rfl

theorem sendEnd_proxy (s : Server) (k : CallRef) (call : ProduceCallData) (started : Bool)
    (e : SendEnd) : (s.sendEnd k call started e).proxy = s.proxy := by
  cases e with
  | threw | onSuccess => rfl
  | onException what =>
    rw [sendEnd]
    rcases Nat.lt_or_ge call.retryCount produceMaxRetryCount with hlt | hge
    · rw [failure_of_lt s k call started what hlt, process_proxy]
    · rw [failure_of_le s k call started what hge]
      rfl

theorem Step.proxyStep {s s' : Server} {e : ServerEvent} (h : Step s e s') :
    s'.proxy = s.proxy ∨ ∃ e', s.proxy.step e' = some s'.proxy := by
  cases h with
  | produce => exact .inl (process_proxy _ _ _ _)
  | consume _ hs | consumeAck _ hs | proxy _ hs => exact .inr ⟨_, hs⟩
  | produceDone => exact .inl rfl
  | sendEnd => exact .inl (sendEnd_proxy _ _ _ _ _)

theorem reachable_proxy {P : Server → ServerEvent → Prop} {s : Server} (h : ReachableBy P s) :
    Proxy.Reachable s.proxy := by
  refine h.invariant (I := fun s => Proxy.Reachable s.proxy) .init fun s e s' _ hr _ hs => ?_
  rcases (step_cases hs).proxyStep with he | ⟨e', he⟩
  · rwa [he]
  · exact .step hr trivial he

/-- A request as `process` wants it. -/
def orderRequest : ProduceRequest :=
  { topic := "orders", group := "g", tag := "t", body := "b", delayLevel := 0 }

end Server
end RocketmqProxy
