import RocketmqProxy.Lib.Runs
import RocketmqProxy.Proxy

/-!
# What one step can do

`Step` lists the actions of the threads one by one, each with the guards the code
has passed and the state it leaves.  `step_cases` says that there are no others, so a
property of every run is one case for each action.
-/

namespace RocketmqProxy
namespace Proxy

open Std

/-- One step of a call of `getConsumer`: the members it leaves, and how far the call
has come. -/
inductive GetStep (s : Proxy) (topic group : String) (now : Int) :
    GetConsumer → TreeMap String ConsumerRef → TreeMap String (List MsgUnit) →
      List ConsumerUnit → GetConsumer → Prop
  | found {c : ConsumerRef} (h : s.consumers[topic ++ group]? = some c) :
      GetStep s topic group now .lookup s.consumers s.msgPool s.consumerUnits (.done (some c))
  | created (h : s.consumers[topic ++ group]? = none) :
      GetStep s topic group now .lookup s.consumers s.msgPool
        (s.consumerUnits ++ [.new topic group now]) (.start s.consumerUnits.length)
  | started (c : ConsumerRef) :
      GetStep s topic group now (.start c) s.consumers
        (s.msgPool.insertIfNew (topic ++ group) [])
        (s.consumerUnits.modify c (ConsumerUnit.setState .started)) (.insert c)
  | failed (c : ConsumerRef) :
      GetStep s topic group now (.start c) s.consumers
        (s.msgPool.insertIfNew (topic ++ group) []) s.consumerUnits (.done none)
  | inserted (c : ConsumerRef) :
      GetStep s topic group now (.insert c) (s.consumers.insertIfNew (topic ++ group) c)
        s.msgPool s.consumerUnits (.done (some c))

theorem getConsumer_cases (s : Proxy) (topic group : String) (now : Int) (started : Bool)
    {get : GetConsumer} (hget : ∀ c, get ≠ .done c) :
    ∃ consumers msgPool units,
      (s.getConsumer topic group now started get).1 =
        { s with consumers := consumers, msgPool := msgPool, consumerUnits := units } ∧
      GetStep s topic group now get consumers msgPool units
        (s.getConsumer topic group now started get).2 := by
  cases get with
  | lookup =>
    simp only [getConsumer]
    split
    · rename_i c h
      exact ⟨_, _, _, rfl, .found h⟩
    · rename_i h
      exact ⟨_, _, _, rfl, .created h⟩
  | start c =>
    cases started with
    | true => exact ⟨_, _, _, rfl, .started c⟩
    | false => exact ⟨_, _, _, rfl, .failed c⟩
  | insert c => exact ⟨_, _, _, rfl, .inserted c⟩
  | done c => exact absurd rfl (hget c)

inductive Step : Proxy → Event → Proxy → Prop
  -- The gRPC thread, on Consume calls
  | consume {s : Proxy} {topic group : String} {now : Int} (hg : s.grpc = .next) :
      Step s (.consume topic group now) (s.consumeProcess topic group now)
  | consumeDel {s : Proxy} {k : CallRef} {call : ConsumeCallData} {ok : Bool}
      (hg : s.grpc = .next) (hk : s.consumeCalls[k]? = some call)
      (hf : call.finished ≠ []) (hd : call.deleted = false)
      (hok : ok = true ∨ call.msgId = "") :
      Step s (.consumeDone k ok) { s with consumeCalls := s.consumeCalls.set k call.del }
  | cancelBegin {s : Proxy} {k : CallRef} {call : ConsumeCallData}
      (hg : s.grpc = .next) (hk : s.consumeCalls[k]? = some call)
      (hf : call.finished ≠ []) (hd : call.deleted = false) (hid : call.msgId ≠ "") :
      Step s (.consumeDone k false) { s with grpc := .cancel k .lookup }
  | cancelGet {s : Proxy} {k : CallRef} {call : ConsumeCallData} {get get' : GetConsumer}
      {now : Int} {started : Bool} {consumers : TreeMap String ConsumerRef}
      {msgPool : TreeMap String (List MsgUnit)} {units : List ConsumerUnit}
      (hg : s.grpc = .cancel k get) (hk : s.consumeCalls[k]? = some call)
      (hget : GetStep s call.topic call.group now get consumers msgPool units get') :
      Step s (.grpc now started)
        { s with consumers := consumers, msgPool := msgPool, consumerUnits := units,
                 grpc := .cancel k get' }
  | cancelSet {s : Proxy} {k : CallRef} {call : ConsumeCallData} {c : ConsumerRef}
      {unit : ConsumerUnit} {now : Int} {started : Bool}
      (hg : s.grpc = .cancel k (.done (some c))) (hk : s.consumeCalls[k]? = some call)
      (hc : s.consumerUnits[c]? = some unit) :
      Step s (.grpc now started)
        { s.onConsumer c (unit.setMsgReconsume call.msgId).2
            (.acked (.cancel k) call.msgId .reconsumeLater
              (unit.setMsgReconsume call.msgId).1) with grpc := .cancelErase k }
  | cancelErase {s : Proxy} {k : CallRef} {call : ConsumeCallData} {now : Int}
      {started : Bool} (hg : s.grpc = .cancelErase k) (hk : s.consumeCalls[k]? = some call) :
      Step s (.grpc now started)
        { s with idUnitMap := s.idUnitMap.erase call.msgId,
                 consumeCalls := s.consumeCalls.set k call.del, grpc := .next }
  -- The gRPC thread, on ConsumeAck calls
  | consumeAck {s : Proxy} {topic group msgId : String} {status now : Int}
      (hg : s.grpc = .next) :
      Step s (.consumeAck topic group msgId status now)
        (s.ackProcess topic group msgId status now)
  | ackGet {s : Proxy} {k : CallRef} {call : ConsumeAckCallData} {get get' : GetConsumer}
      {now : Int} {started : Bool} {consumers : TreeMap String ConsumerRef}
      {msgPool : TreeMap String (List MsgUnit)} {units : List ConsumerUnit}
      (hg : s.grpc = .ack k get) (hk : s.ackCalls[k]? = some call)
      (hget : GetStep s call.topic call.group now get consumers msgPool units get') :
      Step s (.grpc now started)
        { s with consumers := consumers, msgPool := msgPool, consumerUnits := units,
                 grpc := .ack k get' }
  | ackAccepted {s : Proxy} {k : CallRef} {call : ConsumeAckCallData} {c : ConsumerRef}
      {unit : ConsumerUnit} {now : Int} {started : Bool}
      (hg : s.grpc = .ack k (.done (some c))) (hk : s.ackCalls[k]? = some call)
      (hc : s.consumerUnits[c]? = some unit)
      (hret : (unit.setMsgAck call.msgId (.ofInt call.requestStatus)).1 = true) :
      Step s (.grpc now started)
        { s.onConsumer c (unit.setMsgAck call.msgId (.ofInt call.requestStatus)).2
            (.acked (.consumeAck k) call.msgId (.ofInt call.requestStatus) true) with
          grpc := .ackLookup k }
  | ackRejected {s : Proxy} {k : CallRef} {call : ConsumeAckCallData} {c : ConsumerRef}
      {unit : ConsumerUnit} {now : Int} {started : Bool}
      (hg : s.grpc = .ack k (.done (some c))) (hk : s.ackCalls[k]? = some call)
      (hc : s.consumerUnits[c]? = some unit)
      (hret : (unit.setMsgAck call.msgId (.ofInt call.requestStatus)).1 = false) :
      Step s (.grpc now started)
        { s.onConsumer c (unit.setMsgAck call.msgId (.ofInt call.requestStatus)).2
            (.acked (.consumeAck k) call.msgId (.ofInt call.requestStatus) false) with
          ackCalls := s.ackCalls.set k call.reject, grpc := .next }
  | ackLookup {s : Proxy} {k : CallRef} {call : ConsumeAckCallData} {now : Int}
      {started : Bool} (hg : s.grpc = .ackLookup k) (hk : s.ackCalls[k]? = some call) :
      Step s (.grpc now started) { s with grpc := .ackStore k s.idUnitMap[call.msgId]? }
  | ackStore {s : Proxy} {k : CallRef} {call : ConsumeAckCallData} {unit : Option UnitRef}
      {now : Int} {started : Bool} (hg : s.grpc = .ackStore k unit)
      (hk : s.ackCalls[k]? = some call) :
      Step s (.grpc now started) (s.ackStore k call unit)
  | ackDel {s : Proxy} {k : CallRef} {call : ConsumeAckCallData} {ok : Bool}
      (hg : s.grpc = .next) (hk : s.ackCalls[k]? = some call)
      (hf : call.finished ≠ []) (hd : call.deleted = false) :
      Step s (.ackDone k ok)
        { s with idUnitMap := s.idUnitMap.erase call.msgId,
                 ackCalls := s.ackCalls.set k call.del }
  -- The matcher
  | pop {s : Proxy} {u : UnitRef} {rest : List UnitRef} {now now' : Int} {started : Bool}
      (hm : s.matcher = .pop) (hp : s.consumeMsgPool = u :: rest) :
      Step s (.matcher now now' started)
        { s with consumeMsgPool := rest, matcher := .getConsumer u .lookup }
  | matcherGet {s : Proxy} {u : UnitRef} {unit : ConsumeMsgUnit} {get get' : GetConsumer}
      {now now' : Int} {started : Bool} {consumers : TreeMap String ConsumerRef}
      {msgPool : TreeMap String (List MsgUnit)} {units : List ConsumerUnit}
      (hm : s.matcher = .getConsumer u get) (hu : s.consumeMsgUnits[u]? = some unit)
      (hget : GetStep s unit.topic unit.group now get consumers msgPool units get') :
      Step s (.matcher now now' started)
        { s with consumers := consumers, msgPool := msgPool, consumerUnits := units,
                 matcher := .getConsumer u get' }
  | deliver {s : Proxy} {u : UnitRef} {unit : ConsumeMsgUnit} {c : ConsumerRef}
      {consumer consumer' : ConsumerUnit} {a : Addr} {msg : MsgPtr} {call : ConsumeCallData}
      {now now' : Int} {started : Bool} (hm : s.matcher = .getConsumer u (.done (some c)))
      (hu : s.consumeMsgUnits[u]? = some unit) (hc : s.consumerUnits[c]? = some consumer)
      (hs : unit.status = .proxyConsumeInit)
      (hk : s.consumeCalls[unit.callData]? = some call)
      (hf : consumer.fetchAndConsume = (some (a, msg), consumer')) :
      Step s (.matcher now now' started)
        ((s.deliver u unit c consumer' a msg call now).pushBack u)
  | fetchTimeout {s : Proxy} {u : UnitRef} {unit : ConsumeMsgUnit} {c : ConsumerRef}
      {consumer : ConsumerUnit} {call : ConsumeCallData} {now now' : Int} {started : Bool}
      (hm : s.matcher = .getConsumer u (.done (some c)))
      (hu : s.consumeMsgUnits[u]? = some unit) (hc : s.consumerUnits[c]? = some consumer)
      (hs : unit.status = .proxyConsumeInit)
      (hk : s.consumeCalls[unit.callData]? = some call)
      (hf : consumer.fetchAndConsume.1 = none) (ht : unit.getIsFetchMsgTimeout now = true) :
      Step s (.matcher now now' started) (s.fetchTimeout unit call now')
  /-- Neither delivered nor timed out: the unit goes back to the pool as it is. -/
  | requeue {s : Proxy} {u : UnitRef} {unit : ConsumeMsgUnit} {p : Option ConsumerRef}
      {now now' : Int} {started : Bool} (hm : s.matcher = .getConsumer u (.done p))
      (hu : s.consumeMsgUnits[u]? = some unit)
      (hs : (unit.status = .proxyConsumeInit ∧ unit.getIsFetchMsgTimeout now = false ∧
          ∃ c consumer, p = some c ∧ s.consumerUnits[c]? = some consumer ∧
            consumer.fetchAndConsume.1 = none) ∨
        (unit.status = .clientReceive ∧ unit.getIsAckTimeout now = false)) :
      Step s (.matcher now now' started) (s.pushBack u)
  | ackTimeout {s : Proxy} {u : UnitRef} {unit : ConsumeMsgUnit} {c : ConsumerRef}
      {consumer : ConsumerUnit} {now now' : Int} {started : Bool}
      (hm : s.matcher = .getConsumer u (.done (some c)))
      (hu : s.consumeMsgUnits[u]? = some unit) (hc : s.consumerUnits[c]? = some consumer)
      (hs : unit.status = .clientReceive) (ht : unit.getIsAckTimeout now = true) :
      Step s (.matcher now now' started)
        { s.onConsumer c (consumer.setMsgReconsume unit.msgId).2
            (.acked (.ackTimeout u) unit.msgId .reconsumeLater
              (consumer.setMsgReconsume unit.msgId).1) with matcher := .pop }
  | drop {s : Proxy} {u : UnitRef} {unit : ConsumeMsgUnit} {p : Option ConsumerRef}
      {now now' : Int} {started : Bool} (hm : s.matcher = .getConsumer u (.done p))
      (hu : s.consumeMsgUnits[u]? = some unit) (hs : unit.status = .consumeAck) :
      Step s (.matcher now now' started) { s with matcher := .pop }
  -- The callback threads
  | callback {s : Proxy} {c : ConsumerRef} {a : Addr} {msgs : List (Addr × MQMessageExt)}
      {unit : ConsumerUnit} (hc : s.consumerUnits[c]? = some unit)
      (hs : unit.consumer.state = .started ∨ unit.consumer.state = .shutdown)
      (ha : a ∉ unit.lockers) (hn : (msgs.map Prod.fst).Nodup) :
      Step s (.callback c a msgs)
        (s.onConsumer c (unit.callbackBegin a msgs) (.registered a msgs))
  | callbackReturn {s : Proxy} {c : ConsumerRef} {a : Addr} {unit unit' : ConsumerUnit}
      {st : ConsumeStatus} {vec : List ConsumeStatus}
      (hc : s.consumerUnits[c]? = some unit) (he : unit.callbackEnd a = some (st, vec, unit')) :
      Step s (.callbackReturn c a) (s.onConsumer c unit' (.reported a st vec))
  -- The shutdown thread
  | sweep {s : Proxy} {now : Int} (hp : s.shutdown = .sweep) :
      Step s (.shutdown now)
        { s with keys := s.keys ++ s.consumers.keys, shutdown := .examine 0 }
  | sweepEnd {s : Proxy} {i : Nat} {now : Int} (hp : s.shutdown = .examine i)
      (hi : s.keys[i]? = none) : Step s (.shutdown now) { s with shutdown := .sweep }
  /-- The key has no consumer, or the consumer is active. -/
  | skip {s : Proxy} {i : Nat} {key : String} {now : Int} (hp : s.shutdown = .examine i)
      (hi : s.keys[i]? = some key)
      (hk : ∀ c unit, s.consumers[key]? = some c → s.consumerUnits[c]? = some unit →
        unit.getIsTooInactive now = false) :
      Step s (.shutdown now) { s with shutdown := .examine (i + 1) }
  | select {s : Proxy} {i : Nat} {key : String} {c : ConsumerRef} {unit : ConsumerUnit}
      {now : Int} (hp : s.shutdown = .examine i) (hi : s.keys[i]? = some key)
      (hk : s.consumers[key]? = some c) (hc : s.consumerUnits[c]? = some unit)
      (ht : unit.getIsTooInactive now = true) :
      Step s (.shutdown now) { s with shutdown := .select i key c }
  | shutdownBegin {s : Proxy} {i : Nat} {key : String} {c : ConsumerRef} {now : Int}
      (hp : s.shutdown = .select i key c) :
      Step s (.shutdown now)
        { s with
          clearConsumerKey := key
          consumerUnits := s.consumerUnits.modify c (ConsumerUnit.setState .shutdown)
          shutdown := .shutdown i key c }
  | shutdownEnd {s : Proxy} {i : Nat} {key : String} {c : ConsumerRef} {unit : ConsumerUnit}
      {now : Int} (hp : s.shutdown = .shutdown i key c)
      (hc : s.consumerUnits[c]? = some unit) (he : unit.callbacks.isEmpty = true) :
      Step s (.shutdown now)
        { s with
          consumerUnits := s.consumerUnits.modify c (ConsumerUnit.setState .stopped)
          shutdown := .erase i key }
  | erase {s : Proxy} {i : Nat} {key : String} {now : Int} (hp : s.shutdown = .erase i key) :
      Step s (.shutdown now)
        { s with consumers := s.consumers.erase key, shutdown := .examine (i + 1) }
  -- The clear thread
  | clearBegin {s : Proxy} (hp : s.clear = .idle) (hk : s.clearConsumerKey ≠ "") :
      Step s .clear { s with clear := .lookup }
  | clearFound {s : Proxy} {c : ConsumerRef} (hp : s.clear = .lookup)
      (hk : s.consumers[s.clearConsumerKey]? = some c) :
      Step s .clear { s with clear := .unlock c }
  | clearMissed {s : Proxy} (hp : s.clear = .lookup)
      (hk : s.consumers[s.clearConsumerKey]? = none) :
      Step s .clear { s with clear := .idle }
  | clearUnlock {s : Proxy} {c : ConsumerRef} {unit : ConsumerUnit} (hp : s.clear = .unlock c)
      (hc : s.consumerUnits[c]? = some unit) :
      Step s .clear { s.onConsumer c unit.unlockAll .unlocked with clear := .reset }
  | clearReset {s : Proxy} (hp : s.clear = .reset) :
      Step s .clear { s with clearConsumerKey := "", clear := .idle }

/-! ## The executable step takes no other action -/

theorem consumeDone_cases {s s' : Proxy} {k : CallRef} {ok : Bool} (hg : s.grpc = .next)
    (h : s.consumeDone k ok = some s') : Step s (.consumeDone k ok) s' := by
  simp only [consumeDone, Option.bind_eq_bind, Option.bind_eq_some_iff] at h
  obtain ⟨call, hk, h⟩ := h
  split at h
  · exact absurd h (by simp)
  · rename_i hlive
    rw [not_or, Bool.not_eq_true] at hlive
    split at h
    · rename_i hok
      obtain rfl := Option.some.inj h
      exact .consumeDel hg hk hlive.1 hlive.2 hok
    · rename_i hok
      rw [not_or, Bool.not_eq_true] at hok
      obtain rfl := Option.some.inj h
      obtain rfl := hok.1
      exact .cancelBegin hg hk hlive.1 hlive.2 hok.2

theorem ackDone_cases {s s' : Proxy} {k : CallRef} {ok : Bool} (hg : s.grpc = .next)
    (h : s.ackDone k = some s') : Step s (.ackDone k ok) s' := by
  simp only [ackDone, Option.bind_eq_bind, Option.bind_eq_some_iff] at h
  obtain ⟨call, hk, h⟩ := h
  split at h
  · exact absurd h (by simp)
  · rename_i hlive
    rw [not_or, Bool.not_eq_true] at hlive
    obtain rfl := Option.some.inj h
    exact .ackDel hg hk hlive.1 hlive.2

theorem matchUnit_cases {s s' : Proxy} {u : UnitRef} {p : Option ConsumerRef} {now now' : Int}
    {started : Bool} (hm : s.matcher = .getConsumer u (.done p))
    (h : s.matchUnit u p now now' = some s') : Step s (.matcher now now' started) s' := by
  simp only [matchUnit, Option.bind_eq_bind, Option.bind_eq_some_iff] at h
  obtain ⟨unit, hu, h⟩ := h
  split at h
  · rename_i hs
    simp only [Option.bind_eq_some_iff] at h
    obtain ⟨c, rfl, consumer, hc, call, hk, h⟩ := h
    split at h
    · rename_i hf
      obtain rfl := Option.some.inj h
      exact .deliver hm hu hc hs hk hf
    · rename_i hf
      split at h
      · rename_i ht
        obtain rfl := Option.some.inj h
        exact .fetchTimeout hm hu hc hs hk (by rw [hf]) ht
      · rename_i ht
        obtain rfl := Option.some.inj h
        exact .requeue hm hu (.inl ⟨hs, Bool.not_eq_true _ ▸ ht, c, consumer, rfl, hc, by rw [hf]⟩)
  · rename_i hs
    split at h
    · rename_i ht
      simp only [Option.bind_eq_some_iff] at h
      obtain ⟨c, rfl, consumer, hc, h⟩ := h
      obtain rfl := Option.some.inj h
      exact .ackTimeout hm hu hc hs ht
    · rename_i ht
      obtain rfl := Option.some.inj h
      exact .requeue hm hu (.inr ⟨hs, Bool.not_eq_true _ ▸ ht⟩)
  · rename_i hs
    obtain rfl := Option.some.inj h
    exact .drop hm hu hs

theorem matcherStep_cases {s s' : Proxy} {now now' : Int} {started : Bool}
    (h : s.matcherStep now now' started = some s') :
    Step s (.matcher now now' started) s' := by
  unfold matcherStep at h
  split at h
  · rename_i hm
    split at h
    · exact absurd h (by simp)
    · rename_i u rest hp
      obtain rfl := Option.some.inj h
      exact .pop hm hp
  · rename_i u p hm
    exact matchUnit_cases hm h
  · rename_i u get hget hm
    simp only [Option.bind_eq_bind, Option.bind_eq_some_iff] at h
    obtain ⟨unit, hu, h⟩ := h
    obtain rfl := Option.some.inj h
    obtain ⟨consumers, msgPool, units, he, hstep⟩ :=
      s.getConsumer_cases unit.topic unit.group now started hget
    rw [he]
    exact .matcherGet hm hu hstep

theorem ne_done {get : GetConsumer} (hsome : ∀ c, get ≠ .done (some c))
    (hnone : get ≠ .done none) : ∀ c, get ≠ .done c
  | some c => hsome c
  | none => hnone

theorem grpcStep_cases {s s' : Proxy} {now : Int} {started : Bool}
    (h : s.grpcStep now started = some s') : Step s (.grpc now started) s' := by
  unfold grpcStep at h
  split at h
  · exact absurd h (by simp)
  · rename_i k c hg
    simp only [Option.bind_eq_bind, Option.bind_eq_some_iff] at h
    obtain ⟨call, hk, unit, hc, h⟩ := h
    obtain rfl := Option.some.inj h
    cases hret : (unit.setMsgAck call.msgId (.ofInt call.requestStatus)).1 with
    | true =>
      simp only [ackSet, hret, if_true]
      exact .ackAccepted hg hk hc hret
    | false =>
      simp only [ackSet, hret, if_false, Bool.false_eq_true]
      exact .ackRejected hg hk hc hret
  · exact absurd h (by simp)
  · rename_i k get hsome hnone hg
    simp only [Option.bind_eq_bind, Option.bind_eq_some_iff] at h
    obtain ⟨call, hk, h⟩ := h
    obtain rfl := Option.some.inj h
    obtain ⟨consumers, msgPool, units, he, hstep⟩ :=
      s.getConsumer_cases call.topic call.group now started (ne_done hsome hnone)
    rw [he]
    exact .ackGet hg hk hstep
  · rename_i k hg
    simp only [Option.bind_eq_bind, Option.bind_eq_some_iff] at h
    obtain ⟨call, hk, h⟩ := h
    obtain rfl := Option.some.inj h
    exact .ackLookup hg hk
  · rename_i k unit hg
    simp only [Option.bind_eq_bind, Option.bind_eq_some_iff] at h
    obtain ⟨call, hk, h⟩ := h
    obtain rfl := Option.some.inj h
    exact .ackStore hg hk
  · rename_i k c hg
    simp only [Option.bind_eq_bind, Option.bind_eq_some_iff] at h
    obtain ⟨call, hk, unit, hc, h⟩ := h
    obtain rfl := Option.some.inj h
    exact .cancelSet hg hk hc
  · exact absurd h (by simp)
  · rename_i k get hsome hnone hg
    simp only [Option.bind_eq_bind, Option.bind_eq_some_iff] at h
    obtain ⟨call, hk, h⟩ := h
    obtain rfl := Option.some.inj h
    obtain ⟨consumers, msgPool, units, he, hstep⟩ :=
      s.getConsumer_cases call.topic call.group now started (ne_done hsome hnone)
    rw [he]
    exact .cancelGet hg hk hstep
  · rename_i k hg
    simp only [Option.bind_eq_bind, Option.bind_eq_some_iff] at h
    obtain ⟨call, hk, h⟩ := h
    obtain rfl := Option.some.inj h
    exact .cancelErase hg hk

theorem callback_cases {s s' : Proxy} {c : ConsumerRef} {a : Addr}
    {msgs : List (Addr × MQMessageExt)} (h : s.callback c a msgs = some s') :
    Step s (.callback c a msgs) s' := by
  simp only [callback, Option.bind_eq_bind, Option.bind_eq_some_iff] at h
  obtain ⟨unit, hc, h⟩ := h
  split at h
  · rename_i hall
    obtain rfl := Option.some.inj h
    exact .callback hc hall.1 hall.2.1 hall.2.2
  · exact absurd h (by simp)

theorem callbackReturn_cases {s s' : Proxy} {c : ConsumerRef} {a : Addr}
    (h : s.callbackReturn c a = some s') : Step s (.callbackReturn c a) s' := by
  simp only [callbackReturn, Option.bind_eq_bind, Option.bind_eq_some_iff] at h
  obtain ⟨unit, hc, r, he, h⟩ := h
  obtain rfl := Option.some.inj h
  exact .callbackReturn hc he

theorem shutdownStep_cases {s s' : Proxy} {now : Int} (h : s.shutdownStep now = some s') :
    Step s (.shutdown now) s' := by
  unfold shutdownStep at h
  split at h
  · rename_i hp
    obtain rfl := Option.some.inj h
    exact .sweep hp
  · rename_i i hp
    split at h
    · rename_i hi
      obtain rfl := Option.some.inj h
      exact .sweepEnd hp hi
    · rename_i key hi
      split at h
      · rename_i hk
        obtain rfl := Option.some.inj h
        exact .skip hp hi (by simp [hk])
      · rename_i c hk
        simp only [Option.bind_eq_bind, Option.bind_eq_some_iff] at h
        obtain ⟨unit, hc, h⟩ := h
        split at h
        · rename_i ht
          obtain rfl := Option.some.inj h
          exact .select hp hi hk hc ht
        · rename_i ht
          obtain rfl := Option.some.inj h
          refine .skip hp hi fun c' unit' hk' hc' => ?_
          obtain rfl := Option.some.inj (hk.symm.trans hk')
          obtain rfl := Option.some.inj (hc.symm.trans hc')
          exact Bool.not_eq_true _ ▸ ht
  · rename_i i key c hp
    obtain rfl := Option.some.inj h
    exact .shutdownBegin hp
  · rename_i i key c hp
    simp only [Option.bind_eq_bind, Option.bind_eq_some_iff] at h
    obtain ⟨unit, hc, h⟩ := h
    split at h
    · rename_i he
      obtain rfl := Option.some.inj h
      exact .shutdownEnd hp hc he
    · exact absurd h (by simp)
  · rename_i i key hp
    obtain rfl := Option.some.inj h
    exact .erase hp

theorem clearStep_cases {s s' : Proxy} (h : s.clearStep = some s') : Step s .clear s' := by
  unfold clearStep at h
  split at h
  · rename_i hp
    split at h
    · exact absurd h (by simp)
    · rename_i hk
      obtain rfl := Option.some.inj h
      exact .clearBegin hp hk
  · rename_i hp
    split at h
    · rename_i c hk
      obtain rfl := Option.some.inj h
      exact .clearFound hp hk
    · rename_i hk
      obtain rfl := Option.some.inj h
      exact .clearMissed hp hk
  · rename_i c hp
    simp only [Option.bind_eq_bind, Option.bind_eq_some_iff] at h
    obtain ⟨unit, hc, h⟩ := h
    obtain rfl := Option.some.inj h
    exact .clearUnlock hp hc
  · rename_i hp
    obtain rfl := Option.some.inj h
    exact .clearReset hp

theorem step_cases {s s' : Proxy} {e : Event} (h : s.step e = some s') : Step s e s' := by
  cases e with
  | consume topic group now =>
    simp only [step, Option.ite_none_right_eq_some] at h
    obtain ⟨hg, h⟩ := h
    obtain rfl := Option.some.inj h
    exact .consume hg
  | consumeDone k ok =>
    simp only [step, Option.ite_none_right_eq_some] at h
    exact consumeDone_cases h.1 h.2
  | consumeAck topic group msgId status now =>
    simp only [step, Option.ite_none_right_eq_some] at h
    obtain ⟨hg, h⟩ := h
    obtain rfl := Option.some.inj h
    exact .consumeAck hg
  | ackDone k ok =>
    simp only [step, Option.ite_none_right_eq_some] at h
    exact ackDone_cases h.1 h.2
  | grpc now started => exact grpcStep_cases h
  | matcher now now' started => exact matcherStep_cases h
  | callback c a msgs => exact callback_cases h
  | callbackReturn c a => exact callbackReturn_cases h
  | shutdown now => exact shutdownStep_cases h
  | clear => exact clearStep_cases h

/-! ## Calls of `getConsumer` -/

theorem step_matcherGet {s : Proxy} {u : UnitRef} {unit : ConsumeMsgUnit} {get : GetConsumer}
    (hm : s.matcher = .getConsumer u get) (hu : s.consumeMsgUnits[u]? = some unit)
    (hget : ∀ c, get ≠ .done c) (now now' : Int) (started : Bool) :
    s.step (.matcher now now' started) =
      some { (s.getConsumer unit.topic unit.group now started get).1 with
        matcher := .getConsumer u (s.getConsumer unit.topic unit.group now started get).2 } := by
  cases get with
  | done c => exact absurd rfl (hget c)
  | _ => simp only [step, matcherStep, hm, hu, Option.bind_eq_bind, Option.bind_some]

theorem step_ackGet {s : Proxy} {k : CallRef} {call : ConsumeAckCallData} {get : GetConsumer}
    (hg : s.grpc = .ack k get) (hk : s.ackCalls[k]? = some call)
    (hget : ∀ c, get ≠ .done c) (now : Int) (started : Bool) :
    s.step (.grpc now started) =
      some { (s.getConsumer call.topic call.group now started get).1 with
        grpc := .ack k (s.getConsumer call.topic call.group now started get).2 } := by
  cases get with
  | done c => exact absurd rfl (hget c)
  | _ => simp only [step, grpcStep, hg, hk, Option.bind_eq_bind, Option.bind_some]

theorem step_cancelGet {s : Proxy} {k : CallRef} {call : ConsumeCallData} {get : GetConsumer}
    (hg : s.grpc = .cancel k get) (hk : s.consumeCalls[k]? = some call)
    (hget : ∀ c, get ≠ .done c) (now : Int) (started : Bool) :
    s.step (.grpc now started) =
      some { (s.getConsumer call.topic call.group now started get).1 with
        grpc := .cancel k (s.getConsumer call.topic call.group now started get).2 } := by
  cases get with
  | done c => exact absurd rfl (hget c)
  | _ => simp only [step, grpcStep, hg, hk, Option.bind_eq_bind, Option.bind_some]

/-! ## Threads at rest -/

/-- Between two events of its queue the gRPC thread has nothing to go on with. -/
theorem Step.grpc_ne_next {s s' : Proxy} {now : Int} {started : Bool}
    (h : Step s (.grpc now started) s') : s.grpc ≠ .next := by
  intro hg
  cases h with
  | cancelGet hg' | cancelSet hg' | cancelErase hg' => exact absurd (hg.symm.trans hg') (by simp)
  | ackGet hg' | ackAccepted hg' | ackRejected hg' => exact absurd (hg.symm.trans hg') (by simp)
  | ackLookup hg' | ackStore hg' => exact absurd (hg.symm.trans hg') (by simp)

theorem matcher_grpc {s s' : Proxy} {now now' : Int} {started : Bool}
    (hs : s.step (.matcher now now' started) = some s') : s'.grpc = s.grpc := by
  cases step_cases hs <;> rfl

theorem grpc_matcher {s s' : Proxy} {now : Int} {started : Bool}
    (hs : s.step (.grpc now started) = some s') : s'.matcher = s.matcher := by
  cases step_cases hs <;> rfl

/-! ## Runs -/

/-- States the proxy reaches by steps that all meet `P`. -/
abbrev ReachableBy (P : Proxy → Event → Prop) : Proxy → Prop :=
  Runs.Reach step init P

/-- States the proxy reaches. -/
abbrev Reachable : Proxy → Prop := ReachableBy Runs.always

/-- The state after the events, from the start of the proxy. -/
def run (es : List Event) : Option Proxy := Runs.exec step init es

theorem reachable_run {es : List Event} {s : Proxy} (h : run es = some s) : Reachable s :=
  .of_exec .init h

/-- The first request creates a consumer for its topic and group, and gets the one
message of a batch. -/
def deliveredOnce : List Event :=
  [.consume "t" "g" 0, .matcher 0 0 true, .matcher 0 0 true, .matcher 0 0 true,
    .matcher 0 0 true, .callback 0 1 [(10, ⟨"m", "t", "b", 0⟩)], .matcher 0 0 true]

end Proxy
end RocketmqProxy
