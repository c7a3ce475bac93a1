import RocketmqProxy.Proxy.Requests

/-!
# Every Consume request is answered once

A unit is in the pool or in the matcher's hand until its call has been answered, it
never comes back after it has left, and no call is answered twice or after it has
been deleted.
-/

namespace RocketmqProxy
namespace Proxy

open Std

structure AnsweredOnce (s : Proxy) : Prop where
  /-- A unit is in the pool at most once, and not at all while the matcher has it. -/
  nodup : s.queue.Nodup
  /-- No two units share a call. -/
  owner : ∀ (u v : UnitRef) (unit unit' : ConsumeMsgUnit), s.consumeMsgUnits[u]? = some unit →
    s.consumeMsgUnits[v]? = some unit' → unit.callData = unit'.callData → u = v
  answer : ∀ (u : UnitRef) (unit : ConsumeMsgUnit), s.consumeMsgUnits[u]? = some unit →
    ∃ call, s.consumeCalls[unit.callData]? = some call ∧ call.finished.length ≤ 1 ∧
      (u ∉ s.queue → call.finished.length = 1)

/-- What a step may do to the requests. -/
structure AnswerStep (s : Proxy) (e : Event) (s' : Proxy) : Prop where
  /-- A unit that has left the pool does not come back. -/
  gone : ∀ u, u < s.consumeMsgUnits.length → u ∉ s.queue → u ∉ s'.queue
  /-- A unit keeps its call and its time of arrival. -/
  unit : ∀ (u : UnitRef) (unit : ConsumeMsgUnit), s.consumeMsgUnits[u]? = some unit →
    ∃ unit', s'.consumeMsgUnits[u]? = some unit' ∧ unit'.callData = unit.callData ∧
      unit'.lastActiveAt = unit.lastActiveAt
  /-- The replies of a call stay, and only the two replies of the matcher are added. -/
  call : ∀ (k : CallRef) (call : ConsumeCallData), s.consumeCalls[k]? = some call →
    ∃ call', s'.consumeCalls[k]? = some call' ∧ (call'.finished = call.finished ∨
      (∃ id body, call' = call.responseMsg responseSuccess "" id body) ∨
      call' = call.responseTimeOut)
  /-- A call times out when its unit has waited long enough and every registered batch
  of its consumer has an empty queue. -/
  timeOut : ∀ (k : CallRef) (call : ConsumeCallData), s.consumeCalls[k]? = some call →
    s'.consumeCalls[k]? = some call.responseTimeOut →
    ∃ u unit c consumer now now' started, e = .matcher now now' started ∧
      s.matcher = .getConsumer u (.done (some c)) ∧ s.consumeMsgUnits[u]? = some unit ∧
      unit.callData = k ∧ now - unit.lastActiveAt ≥ maxMsgWaitConsumeTime ∧
      s.consumerUnits[c]? = some consumer ∧
      ∀ (a : Addr) (l : ConsumerUnitLocker), consumer.lockers[a]? = some l → l.fetchedArr = []
  /-- The matcher writes to no deleted call. -/
  deleted : ∀ (now now' : Int) (started : Bool) (k : CallRef) (call : ConsumeCallData),
    e = .matcher now now' started → s.consumeCalls[k]? = some call →
    s'.consumeCalls[k]? ≠ some call → call.deleted = false

theorem answeredOnce_of_inv {s : Proxy} (h : RequestsInv s) : AnsweredOnce s where
  nodup := h.requests.nodup
  owner u v unit unit' hu hv he := by
    rw [(h.requests.life u unit hu).1, (h.requests.life v unit' hv).1] at he
    exact he
  answer u unit hu := by
    obtain ⟨hk, call, hc, -, -, hl⟩ := h.requests.life u unit hu
    rw [hk]
    refine ⟨call, hc, ?_⟩
    generalize deliveries u s.trace = ds at hl
    cases hl with
    | waiting hq _ hnew =>
      rw [hnew]
      exact ⟨Nat.zero_le 1, fun hn => absurd hq hn⟩
    | timedOut _ _ hf =>
      rw [hf]
      exact ⟨Nat.le_refl 1, fun _ => rfl⟩
    | delivered _ _ hf =>
      rw [hf]
      exact ⟨Nat.le_refl 1, fun _ => rfl⟩

/-- The call of a unit that waits in the matcher's hand has not been deleted. -/
theorem RequestsInv.not_deleted {s : Proxy} (h : RequestsInv s) {u : UnitRef}
    {unit : ConsumeMsgUnit} {call : ConsumeCallData} {get : GetConsumer}
    (hm : s.matcher = .getConsumer u get) (hu : s.consumeMsgUnits[u]? = some unit)
    (hs : unit.status = .proxyConsumeInit) (hk : s.consumeCalls[unit.callData]? = some call) :
    call.deleted = false := by
  obtain ⟨hcall, call', hc, -, -, hl⟩ := h.requests.life u unit hu
  rw [hcall] at hk
  obtain rfl := Option.some.inj (hk.symm.trans hc)
  generalize deliveries u s.trace = ds at hl
  cases hl with
  | waiting _ _ hnew =>
    rw [hnew]
    rfl
  | timedOut hq _ _ =>
    rw [queue_held hm] at hq
    exact absurd List.mem_cons_self hq
  | delivered hs' _ _ => exact absurd hs hs'

section Step

variable {s s' : Proxy} {e : Event}

theorem Step.unit_kept (h : Step s e s') {u : UnitRef} {unit : ConsumeMsgUnit}
    (hu : s.consumeMsgUnits[u]? = some unit) :
    ∃ unit', s'.consumeMsgUnits[u]? = some unit' ∧ unit'.callData = unit.callData ∧
      unit'.lastActiveAt = unit.lastActiveAt := by
  have hlt := (List.getElem?_eq_some_iff.mp hu).1
  cases h with
  | consume hg => exact ⟨unit, by rw [consumeProcess, List.getElem?_append_left hlt, hu], rfl, rfl⟩
  | @ackStore k call unit? _ _ hg hk =>
    cases unit? with
    | none => exact ⟨unit, hu, rfl, rfl⟩
    | some v =>
      by_cases hvu : v = u
      · subst hvu
        exact ⟨{ unit with status := .consumeAck }, by simp [Proxy.ackStore, hu], rfl, rfl⟩
      · exact ⟨unit, by simp [Proxy.ackStore, hvu, hu], rfl, rfl⟩
  | @deliver v unit' c consumer consumer' a msg call now now' _ hm hv hc hs hk hf =>
    by_cases hvu : v = u
    · subst hvu
      obtain rfl := Option.some.inj (hv.symm.trans hu)
      exact ⟨_, List.getElem?_set_self hlt, rfl, rfl⟩
    · exact ⟨unit, (List.getElem?_set_ne hvu).trans hu, rfl, rfl⟩
  | _ => exact ⟨unit, hu, rfl, rfl⟩

theorem Step.call_kept (h : Step s e s') {k : CallRef} {call : ConsumeCallData}
    (hk : s.consumeCalls[k]? = some call) :
    ∃ call', s'.consumeCalls[k]? = some call' ∧ (call'.finished = call.finished ∨
      (∃ id body, call' = call.responseMsg responseSuccess "" id body) ∨
      call' = call.responseTimeOut) := by
  cases h with
  | consume hg =>
    refine ⟨call, ?_, .inl rfl⟩
    rw [consumeProcess, List.getElem?_append_left (List.getElem?_eq_some_iff.mp hk).1, hk]
  | consumeDel hg hj hf hd hok =>
    rcases Heap.set_cases hj hk with ⟨-, rfl, hset⟩ | hset
    · exact ⟨_, hset, .inl rfl⟩
    · exact ⟨call, hset, .inl rfl⟩
  | cancelErase hg hj =>
    rcases Heap.set_cases hj hk with ⟨-, rfl, hset⟩ | hset
    · exact ⟨_, hset, .inl rfl⟩
    · exact ⟨call, hset, .inl rfl⟩
  | deliver hm hu hc hs hj hf =>
    rcases Heap.set_cases hj hk with ⟨-, rfl, hset⟩ | hset
    · exact ⟨_, hset, .inr (.inl ⟨_, _, rfl⟩)⟩
    · exact ⟨call, hset, .inl rfl⟩
  | fetchTimeout hm hu hc hs hj hf ht =>
    rcases Heap.set_cases hj hk with ⟨-, rfl, hset⟩ | hset
    · exact ⟨_, hset, .inr (.inr rfl)⟩
    · exact ⟨call, hset, .inl rfl⟩
  | _ => exact ⟨call, hk, .inl rfl⟩

theorem responseTimeOut_ne (call : ConsumeCallData) : call.responseTimeOut ≠ call := by
  intro he
  have := congrArg (fun c => c.finished.length) he
  simp [ConsumeCallData.responseTimeOut] at this

theorem responseMsg_ne_responseTimeOut (call : ConsumeCallData) (id body : String) :
    call.responseMsg responseSuccess "" id body ≠ call.responseTimeOut := by
  intro he
  have hcode : responseSuccess = responseTimeout := congrArg (fun c => c.reply.code) he
  exact absurd hcode (by decide)

theorem del_ne_responseTimeOut (call : ConsumeCallData) : call.del ≠ call.responseTimeOut := by
  intro he
  have := congrArg (fun c => c.finished.length) he
  simp [ConsumeCallData.responseTimeOut, ConsumeCallData.del] at this

theorem Step.timedOut (h : Step s e s') {k : CallRef} {call : ConsumeCallData}
    (hk : s.consumeCalls[k]? = some call)
    (hk' : s'.consumeCalls[k]? = some call.responseTimeOut) :
    ∃ u unit c consumer now now' started, e = .matcher now now' started ∧
      s.matcher = .getConsumer u (.done (some c)) ∧ s.consumeMsgUnits[u]? = some unit ∧
      unit.callData = k ∧ now - unit.lastActiveAt ≥ maxMsgWaitConsumeTime ∧
      s.consumerUnits[c]? = some consumer ∧
      ∀ (a : Addr) (l : ConsumerUnitLocker), consumer.lockers[a]? = some l →
        l.fetchedArr = [] := by
  have hsame : ∀ {call' : ConsumeCallData}, s'.consumeCalls[k]? = some call' →
      call' = call.responseTimeOut := fun h' => Option.some.inj (h'.symm.trans hk')
  cases h with
  | consume hg =>
    rw [consumeProcess, List.getElem?_append_left (List.getElem?_eq_some_iff.mp hk).1] at hk'
    exact absurd (Option.some.inj (hk'.symm.trans hk)) (responseTimeOut_ne call)
  | consumeDel hg hj hf hd hok =>
    rcases Heap.set_cases hj hk with ⟨-, rfl, hset⟩ | hset
    · exact absurd (hsame hset) (del_ne_responseTimeOut _)
    · exact absurd (hsame hset).symm (responseTimeOut_ne call)
  | cancelErase hg hj =>
    rcases Heap.set_cases hj hk with ⟨-, rfl, hset⟩ | hset
    · exact absurd (hsame hset) (del_ne_responseTimeOut _)
    · exact absurd (hsame hset).symm (responseTimeOut_ne call)
  | deliver hm hu hc hs hj hf =>
    rcases Heap.set_cases hj hk with ⟨-, rfl, hset⟩ | hset
    · exact absurd (hsame hset) (responseMsg_ne_responseTimeOut _ _ _)
    · exact absurd (hsame hset).symm (responseTimeOut_ne call)
  | @fetchTimeout u unit c consumer call' now now' started hm hu hc hs hj hf ht =>
    rcases Heap.set_cases hj hk with ⟨rfl, rfl, -⟩ | hset
    · refine ⟨u, unit, c, consumer, now, now', started, rfl, hm, hu, rfl, ?_, hc, ?_⟩
      · rw [ConsumeMsgUnit.getIsFetchMsgTimeout, Bool.and_eq_true] at ht
        exact of_decide_eq_true ht.2
      · exact (ConsumerUnit.fetchAndConsume_none (Prod.ext hf rfl)).2
    · exact absurd (hsame hset).symm (responseTimeOut_ne call)
  | _ => exact absurd (Option.some.inj (hk'.symm.trans hk)) (responseTimeOut_ne call)

theorem Step.not_deleted (h : Step s e s') (hi : RequestsInv s) {now now' : Int}
    {started : Bool} {k : CallRef} {call : ConsumeCallData} (he : e = .matcher now now' started)
    (hk : s.consumeCalls[k]? = some call) (hne : s'.consumeCalls[k]? ≠ some call) :
    call.deleted = false := by
  cases h with
  | deliver hm hu hc hs hj hf =>
    rcases Heap.set_cases hj hk with ⟨-, rfl, -⟩ | hset
    · exact hi.not_deleted hm hu hs hj
    · exact absurd hset hne
  | fetchTimeout hm hu hc hs hj hf ht =>
    rcases Heap.set_cases hj hk with ⟨-, rfl, -⟩ | hset
    · exact hi.not_deleted hm hu hs hj
    · exact absurd hset hne
  | consume | consumeDel | cancelErase => exact absurd he (by simp)
  | _ => exact absurd hk hne

end Step

/-- In every run each request is answered at most once, and exactly once when its unit
has left the pool; and every further step keeps to that. -/
theorem answered_once {s : Proxy} (h : Reachable s) :
    AnsweredOnce s ∧ ∀ e s', s.step e = some s' → AnswerStep s e s' := by
  have hi := requestsInv h
  refine ⟨answeredOnce_of_inv hi, fun e s' hs => ?_⟩
  have hstep := step_cases hs
  exact
    { gone := hstep.gone
      unit := fun _ _ => hstep.unit_kept
      call := fun _ _ => hstep.call_kept
      timeOut := fun _ _ => hstep.timedOut
      deleted := fun _ _ _ _ _ => hstep.not_deleted hi }

/-- A request for which no message arrives. -/
theorem answered_once_timeOut : ∃ s, run [.consume "t" "g" 0, .matcher 0 0 true,
      .matcher 0 0 true, .matcher 0 0 true, .matcher 0 0 true, .matcher 10 10 true] = some s ∧
    s.consumeCalls.map ConsumeCallData.finished = [[timeOutReply]] ∧ AnsweredOnce s := by
  have hrun : (run [.consume "t" "g" 0, .matcher 0 0 true, .matcher 0 0 true,
      .matcher 0 0 true, .matcher 0 0 true, .matcher 10 10 true]).map
        (fun s => s.consumeCalls.map ConsumeCallData.finished) = some [[timeOutReply]] := by
    decide
  obtain ⟨s, hs, hf⟩ := Option.map_eq_some_iff.mp hrun
  exact ⟨s, hs, hf, (answered_once (reachable_run hs)).1⟩

end Proxy
end RocketmqProxy
