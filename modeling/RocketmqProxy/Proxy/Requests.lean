import RocketmqProxy.Lib.Heap
import RocketmqProxy.Proxy.Histories

/-!
# The life of a Consume request

A request waits in the pool until it gets a message or its wait times out.  Either
way its call is answered there and then, once; a request that got a message stays in
the pool until it is acked or its ack times out, and nothing answers it again.
-/

namespace RocketmqProxy
namespace Proxy

open Std

/-- The unit the matcher has in hand. -/
def held : MatcherPc → List UnitRef
  | .pop => []
  | .getConsumer u _ => [u]

/-- The units that are in the pool or in the matcher's hand. -/
def queue (s : Proxy) : List UnitRef := held s.matcher ++ s.consumeMsgPool

/-- The messages delivered to the request `u`, and where each came from. -/
def deliveries (u : UnitRef) (trace : List Obs) : List (ConsumerRef × Addr × MsgPtr) :=
  trace.filterMap fun o =>
    match o with
    | .unit c (.fetched v a msg) => if v = u then some (c, a, msg) else none
    | _ => none

@[simp] theorem deliveries_append (u : UnitRef) (t t' : List Obs) :
    deliveries u (t ++ t') = deliveries u t ++ deliveries u t' := by
  simp [deliveries]

@[simp] theorem deliveries_reset (u : UnitRef) (topic group : String)
    (d : Option ConsumerRef) : deliveries u (d.map (.reset topic group)).toList = [] := by
  cases d <;> rfl

@[simp] theorem deliveries_fetched_self (u : UnitRef) (c : ConsumerRef) (a : Addr)
    (msg : MsgPtr) : deliveries u [.unit c (.fetched u a msg)] = [(c, a, msg)] := by
  simp [deliveries]

@[simp] theorem deliveries_fetched_ne {u v : UnitRef} (h : v ≠ u) (c : ConsumerRef) (a : Addr)
    (msg : MsgPtr) : deliveries u [.unit c (.fetched v a msg)] = [] := by
  simp [deliveries, h]

theorem mem_deliveries {u : UnitRef} {c : ConsumerRef} {a : Addr} {msg : MsgPtr}
    {t : List Obs} : (c, a, msg) ∈ deliveries u t ↔ .unit c (.fetched u a msg) ∈ t := by
  simp only [deliveries, List.mem_filterMap]
  constructor
  · rintro ⟨o, ho, he⟩
    split at he
    · rename_i d v b m
      simp only [Option.ite_none_right_eq_some, Option.some.injEq, Prod.mk.injEq] at he
      obtain ⟨rfl, rfl, rfl, rfl⟩ := he
      exact ho
    · exact absurd he (by simp)
  · exact fun h => ⟨_, h, by simp⟩

/-- The reply of `responseMsg` as the matcher calls it. -/
def msgReply (msg : MsgPtr) : ConsumeReply :=
  { code := responseSuccess, msgId := msg.unit.msgId, body := msg.unit.body, errorMsg := "" }

/-- The reply of `responseTimeOut`. -/
def timeOutReply : ConsumeReply :=
  { code := responseTimeout, msgId := "", body := "", errorMsg := "get msg timeout" }

/-- How far a request has come; `queued` says whether its unit is in the pool or in
the matcher's hand, and the last argument lists what was delivered to it. -/
inductive Life (queued : Prop) (unit : ConsumeMsgUnit) (call : ConsumeCallData) :
    List (ConsumerRef × Addr × MsgPtr) → Prop
  | waiting (hq : queued) (hs : unit.status = .proxyConsumeInit)
      (hc : call = .new call.topic call.group) : Life queued unit call []
  | timedOut (hq : ¬ queued) (hs : unit.status = .proxyConsumeInit)
      (hf : call.finished = [timeOutReply]) : Life queued unit call []
  | delivered {c : ConsumerRef} {a : Addr} {msg : MsgPtr}
      (hs : unit.status ≠ .proxyConsumeInit) (hid : unit.msgId = msg.unit.msgId)
      (hf : call.finished = [msgReply msg]) : Life queued unit call [(c, a, msg)]

namespace Life

variable {queued queued' : Prop} {unit : ConsumeMsgUnit} {call : ConsumeCallData}
  {ds : List (ConsumerRef × Addr × MsgPtr)}

theorem congr (h : Life queued unit call ds) (hq : queued ↔ queued') :
    Life queued' unit call ds := by
  cases h with
  | waiting h₁ h₂ h₃ => exact .waiting (hq.mp h₁) h₂ h₃
  | timedOut h₁ h₂ h₃ => exact .timedOut (mt hq.mpr h₁) h₂ h₃
  | delivered h₁ h₂ h₃ => exact .delivered h₁ h₂ h₃

/-- A request that has its message may leave the pool. -/
theorem leave (h : Life queued unit call ds) (hs : unit.status ≠ .proxyConsumeInit) :
    Life queued' unit call ds := by
  cases h with
  | waiting _ hs' _ => exact absurd hs' hs
  | timedOut _ hs' _ => exact absurd hs' hs
  | delivered hs hid hf => exact .delivered hs hid hf

theorem mark (h : Life queued unit call ds) (hs : unit.status ≠ .proxyConsumeInit) :
    Life queued { unit with status := .consumeAck } call ds := by
  cases h with
  | waiting _ hs' _ => exact absurd hs' hs
  | timedOut _ hs' _ => exact absurd hs' hs
  | delivered _ hid hf => exact .delivered (by simp) hid hf

theorem del (h : Life queued unit call ds) (hf : call.finished ≠ []) :
    Life queued unit call.del ds := by
  cases h with
  | waiting _ _ hc =>
    rw [hc] at hf
    exact absurd rfl hf
  | timedOut hq hs hf' => exact .timedOut hq hs hf'
  | delivered hs hid hf' => exact .delivered hs hid hf'

theorem not_deleted (h : Life queued unit call ds) (hf : call.finished = []) :
    call.deleted = false := by
  cases h with
  | waiting _ _ hc =>
    rw [hc]
    rfl
  | timedOut _ _ hf' => exact absurd (hf.symm.trans hf') (by simp)
  | delivered _ _ hf' => exact absurd (hf.symm.trans hf') (by simp)

end Life

/-- Each unit belongs to the call of the same number, and the two are at one point of
one life. -/
structure Requests (queue : List UnitRef) (units : List ConsumeMsgUnit)
    (calls : List ConsumeCallData) (trace : List Obs) : Prop where
  nodup : queue.Nodup
  bound : ∀ u ∈ queue, u < units.length
  length : calls.length = units.length
  life : ∀ u unit, units[u]? = some unit → unit.callData = u ∧
    ∃ call, calls[u]? = some call ∧ unit.topic = call.topic ∧ unit.group = call.group ∧
      Life (u ∈ queue) unit call (deliveries u trace)
  fresh : ∀ u, units.length ≤ u → deliveries u trace = []

namespace Requests

variable {q : List UnitRef} {units : List ConsumeMsgUnit} {calls : List ConsumeCallData}
  {trace : List Obs}

theorem start : Requests [] [] [] [] where
  nodup := List.nodup_nil
  bound := by simp
  length := rfl
  life u unit h := absurd h (by simp)
  fresh _ _ := rfl

/-- The trace grows by nothing that is a delivery. -/
theorem trace_append (h : Requests q units calls trace) {t : List Obs}
    (ht : ∀ u, deliveries u t = []) : Requests q units calls (trace ++ t) := by
  have hd : ∀ u, deliveries u (trace ++ t) = deliveries u trace := fun u => by simp [ht]
  refine ⟨h.nodup, h.bound, h.length, fun u unit hu => ?_, fun u hu => ?_⟩
  · rw [hd]
    exact h.life u unit hu
  · rw [hd]
    exact h.fresh u hu

theorem perm (h : Requests q units calls trace) {q' : List UnitRef} (hp : q.Perm q') :
    Requests q' units calls trace := by
  refine ⟨hp.nodup_iff.mp h.nodup, fun u hu => h.bound u (hp.mem_iff.mpr hu), h.length,
    fun u unit hu => ?_, h.fresh⟩
  obtain ⟨hk, call, hc, ht, hg, hl⟩ := h.life u unit hu
  exact ⟨hk, call, hc, ht, hg, hl.congr hp.mem_iff⟩

theorem consume (h : Requests q units calls trace) (topic group : String) (now : Int) :
    Requests (q ++ [units.length]) (units ++ [.new calls.length topic group now])
      (calls ++ [.new topic group]) trace where
  nodup := by
    refine List.nodup_append.mpr ⟨h.nodup, List.nodup_singleton _, fun u hu v hv => ?_⟩
    obtain rfl := List.mem_singleton.mp hv
    exact Nat.ne_of_lt (h.bound u hu)
  bound u hu := by
    rw [List.length_append, List.length_singleton]
    rcases List.mem_append.mp hu with hu | hu
    · exact Nat.lt_succ_of_lt (h.bound u hu)
    · rw [List.mem_singleton.mp hu]
      exact Nat.lt_succ_self _
  length := by simp [h.length]
  life u unit hu := by
    by_cases hlt : u < units.length
    · rw [List.getElem?_append_left hlt] at hu
      obtain ⟨hk, call, hc, ht, hg, hl⟩ := h.life u unit hu
      refine ⟨hk, call, ?_, ht, hg, hl.congr ?_⟩
      · rwa [List.getElem?_append_left (h.length ▸ hlt)]
      · simp [Nat.ne_of_lt hlt]
    · have hu' := (List.getElem?_eq_some_iff.mp hu).1
      rw [List.length_append, List.length_singleton] at hu'
      obtain rfl : u = units.length :=
        Nat.le_antisymm (Nat.le_of_lt_succ hu') (Nat.le_of_not_lt hlt)
      rw [List.getElem?_concat_length] at hu
      obtain rfl := Option.some.inj hu
      refine ⟨h.length, .new topic group, ?_, rfl, rfl, ?_⟩
      · rw [← h.length, List.getElem?_concat_length]
      · rw [h.fresh _ (Nat.le_refl _)]
        exact .waiting (by simp) rfl rfl
  fresh u hu := by
    rw [List.length_append, List.length_singleton] at hu
    exact h.fresh u (by omega)

/-- An answered call is deleted. -/
theorem del (h : Requests q units calls trace) {k : CallRef} {call : ConsumeCallData}
    (hk : calls[k]? = some call) (hf : call.finished ≠ []) :
    Requests q units (calls.set k call.del) trace := by
  refine ⟨h.nodup, h.bound, by rw [List.length_set, h.length], fun u unit hu => ?_, h.fresh⟩
  obtain ⟨hcall, call₀, hc, ht, hg, hl⟩ := h.life u unit hu
  by_cases hku : k = u
  · subst hku
    obtain rfl := Option.some.inj (hk.symm.trans hc)
    refine ⟨hcall, call.del, ?_, ht, hg, hl.del hf⟩
    rw [List.getElem?_set_self (List.getElem?_eq_some_iff.mp hk).1]
  · exact ⟨hcall, call₀, by rwa [List.getElem?_set_ne hku], ht, hg, hl⟩

/-- A unit that has its message is marked. -/
theorem mark (h : Requests q units calls trace) {u : UnitRef} {unit : ConsumeMsgUnit}
    (hu : units[u]? = some unit) (hs : unit.status ≠ .proxyConsumeInit) :
    Requests q (units.modify u fun unit => { unit with status := .consumeAck }) calls trace := by
  refine ⟨h.nodup, by simpa using h.bound, by simpa using h.length, fun v unit' hv => ?_,
    by simpa using h.fresh⟩
  by_cases huv : u = v
  · subst huv
    rw [List.getElem?_modify_eq, hu] at hv
    obtain rfl := Option.some.inj hv
    obtain ⟨hk, call, hc, ht, hg, hl⟩ := h.life u unit hu
    exact ⟨hk, call, hc, ht, hg, hl.mark hs⟩
  · rw [List.getElem?_modify_ne _ _ huv] at hv
    exact h.life v unit' hv

/-- A unit that has its message leaves the matcher's hand for good. -/
theorem leave {u : UnitRef} {unit : ConsumeMsgUnit}
    (h : Requests (u :: q) units calls trace) (hu : units[u]? = some unit)
    (hs : unit.status ≠ .proxyConsumeInit) : Requests q units calls trace := by
  refine ⟨(List.nodup_cons.mp h.nodup).2, fun v hv => h.bound v (List.mem_cons_of_mem u hv),
    h.length, fun v unit' hv => ?_, h.fresh⟩
  obtain ⟨hk, call, hc, ht, hg, hl⟩ := h.life v unit' hv
  refine ⟨hk, call, hc, ht, hg, ?_⟩
  by_cases huv : v = u
  · subst huv
    obtain rfl := Option.some.inj (hu.symm.trans hv)
    exact hl.leave hs
  · exact hl.congr (by simp [huv])

/-- The wait of the unit in the matcher's hand times out. -/
theorem timeOut {u : UnitRef} {unit : ConsumeMsgUnit} {call : ConsumeCallData}
    (h : Requests (u :: q) units calls trace) (hu : units[u]? = some unit)
    (hs : unit.status = .proxyConsumeInit) (hc : calls[unit.callData]? = some call) :
    Requests q units (calls.set unit.callData call.responseTimeOut) trace := by
  obtain ⟨hnot, hn⟩ := List.nodup_cons.mp h.nodup
  refine ⟨hn, fun v hv => h.bound v (List.mem_cons_of_mem u hv),
    by rw [List.length_set, h.length], fun v unit' hv => ?_, h.fresh⟩
  obtain ⟨hk, call', hc', ht, hg, hl⟩ := h.life v unit' hv
  rw [(h.life u unit hu).1] at hc ⊢
  by_cases huv : u = v
  · subst huv
    obtain rfl := Option.some.inj (hu.symm.trans hv)
    obtain rfl := Option.some.inj (hc.symm.trans hc')
    refine ⟨hk, call.responseTimeOut, ?_, ht, hg, ?_⟩
    · rw [List.getElem?_set_self (List.getElem?_eq_some_iff.mp hc).1]
    · generalize deliveries u trace = ds at hl
      cases hl with
      | waiting _ _ hnew =>
        refine .timedOut hnot hs ?_
        rw [hnew]
        rfl
      | timedOut hq _ _ => exact absurd List.mem_cons_self hq
      | delivered hs' _ _ => exact absurd hs hs'
  · refine ⟨hk, call', by rwa [List.getElem?_set_ne huv], ht, hg, hl.congr ?_⟩
    simp [Ne.symm huv]

/-- The unit in the matcher's hand gets the message `msg`. -/
theorem deliver {u : UnitRef} {unit : ConsumeMsgUnit} {call : ConsumeCallData}
    (h : Requests q units calls trace) (hq : u ∈ q) (hu : units[u]? = some unit)
    (hs : unit.status = .proxyConsumeInit) (hc : calls[unit.callData]? = some call)
    (c : ConsumerRef) (a : Addr) (msg : MsgPtr) :
    Requests q (units.set u { unit with msgId := msg.unit.msgId, status := .clientReceive })
      (calls.set unit.callData
        (call.responseMsg responseSuccess "" msg.unit.msgId msg.unit.body))
      (trace ++ [.unit c (.fetched u a msg)]) := by
  have hlt := (List.getElem?_eq_some_iff.mp hu).1
  rw [(h.life u unit hu).1] at hc ⊢
  refine ⟨h.nodup, by simpa using h.bound, by simpa using h.length, fun v unit' hv => ?_,
    fun v hv => ?_⟩
  · by_cases huv : u = v
    · subst huv
      rw [List.getElem?_set_self hlt] at hv
      obtain rfl := Option.some.inj hv
      obtain ⟨hk, call', hc', ht, hg, hl⟩ := h.life u unit hu
      obtain rfl := Option.some.inj (hc.symm.trans hc')
      refine ⟨rfl, _, List.getElem?_set_self (List.getElem?_eq_some_iff.mp hc).1, ht, hg, ?_⟩
      rw [deliveries_append, deliveries_fetched_self]
      generalize hds : deliveries u trace = ds at hl
      cases hl with
      | waiting _ _ hnew =>
        refine .delivered (by simp) rfl ?_
        rw [hnew]
        rfl
      | timedOut hq' _ _ => exact absurd hq hq'
      | delivered hs' _ _ => exact absurd hs hs'
    · rw [List.getElem?_set_ne huv] at hv
      rw [deliveries_append, deliveries_fetched_ne huv, List.append_nil,
        List.getElem?_set_ne huv]
      exact h.life v unit' hv
  · rw [List.length_set] at hv
    have huv : u ≠ v := Nat.ne_of_lt (Nat.lt_of_lt_of_le hlt hv)
    rw [deliveries_append, h.fresh v hv, deliveries_fetched_ne huv, List.append_nil]

end Requests

/-! ## The index -/

/-- The index points at units that have a message of that id, and so does what the
ack handler is about to mark. -/
structure Indexed (idUnitMap : TreeMap String UnitRef) (units : List ConsumeMsgUnit)
    (grpc : GrpcPc) (ackCalls : List ConsumeAckCallData) : Prop where
  entry : ∀ (msgId : String) (u : UnitRef), idUnitMap[msgId]? = some u →
    ∃ unit, units[u]? = some unit ∧ unit.msgId = msgId ∧ unit.status ≠ .proxyConsumeInit
  store : ∀ k u, grpc = .ackStore k (some u) → ∃ unit call, units[u]? = some unit ∧
    ackCalls[k]? = some call ∧ unit.msgId = call.msgId ∧ unit.status ≠ .proxyConsumeInit

namespace Indexed

variable {index : TreeMap String UnitRef} {units units' : List ConsumeMsgUnit}
  {grpc : GrpcPc} {ackCalls ackCalls' : List ConsumeAckCallData}

/-- The handler is not about to mark anything. -/
theorem of_entry (h : Indexed index units grpc ackCalls) {grpc' : GrpcPc}
    (hg : ∀ k u, grpc' ≠ .ackStore k (some u)) : Indexed index units grpc' ackCalls' :=
  ⟨h.entry, fun k u hk => absurd hk (hg k u)⟩

theorem mono (h : Indexed index units grpc ackCalls)
    (hu : ∀ (u : UnitRef) (unit : ConsumeMsgUnit), units[u]? = some unit →
      unit.status ≠ .proxyConsumeInit → ∃ unit', units'[u]? = some unit' ∧
        unit'.msgId = unit.msgId ∧ unit'.status ≠ .proxyConsumeInit) :
    Indexed index units' grpc ackCalls := by
  refine ⟨fun msgId u he => ?_, fun k u hk => ?_⟩
  · obtain ⟨unit, hunit, hid, hs⟩ := h.entry msgId u he
    obtain ⟨unit', hunit', hid', hs'⟩ := hu u unit hunit hs
    exact ⟨unit', hunit', hid'.trans hid, hs'⟩
  · obtain ⟨unit, call, hunit, hcall, hid, hs⟩ := h.store k u hk
    obtain ⟨unit', hunit', hid', hs'⟩ := hu u unit hunit hs
    exact ⟨unit', call, hunit', hcall, hid'.trans hid, hs'⟩

theorem erase (h : Indexed index units grpc ackCalls) (msgId : String) :
    Indexed (index.erase msgId) units grpc ackCalls := by
  refine ⟨fun x u he => h.entry x u ?_, h.store⟩
  rw [TreeMap.getElem?_erase] at he
  split at he
  · exact absurd he (by simp)
  · exact he

theorem insert (h : Indexed index units grpc ackCalls) {msgId : String} {u : UnitRef}
    {unit : ConsumeMsgUnit} (hu : units[u]? = some unit) (hid : unit.msgId = msgId)
    (hs : unit.status ≠ .proxyConsumeInit) :
    Indexed (index.insert msgId u) units grpc ackCalls := by
  refine ⟨fun x v he => ?_, h.store⟩
  rw [TreeMap.getElem?_insert] at he
  split at he
  · rename_i hx
    obtain rfl := Option.some.inj he
    exact ⟨unit, hu, hid.trans (Std.compare_eq_iff_eq.mp hx), hs⟩
  · exact h.entry x v he

end Indexed

/-- A cancel works on a call that was answered. -/
def CancelAnswered (grpc : GrpcPc) (calls : List ConsumeCallData) : Prop :=
  ∀ k, (∃ get, grpc = .cancel k get) ∨ grpc = .cancelErase k →
    ∃ call, calls[k]? = some call ∧ call.finished ≠ []

/-- No step of a run takes an answer back, so a call stays answered. -/
theorem CancelAnswered.mono {grpc : GrpcPc} {calls calls' : List ConsumeCallData}
    (h : CancelAnswered grpc calls)
    (hc : ∀ (k : CallRef) (call : ConsumeCallData), calls[k]? = some call →
      call.finished ≠ [] → ∃ call', calls'[k]? = some call' ∧ call'.finished ≠ []) :
    CancelAnswered grpc calls' := by
  intro k hk
  obtain ⟨call, hcall, hf⟩ := h k hk
  exact hc k call hcall hf

theorem CancelAnswered.of_ne {grpc : GrpcPc} {calls : List ConsumeCallData}
    (h₁ : ∀ k get, grpc ≠ .cancel k get) (h₂ : ∀ k, grpc ≠ .cancelErase k) :
    CancelAnswered grpc calls := by
  rintro k (⟨get, hk⟩ | hk)
  · exact absurd hk (h₁ k get)
  · exact absurd hk (h₂ k)

/-! ## Every run -/

structure RequestsInv (s : Proxy) : Prop where
  requests : Requests s.queue s.consumeMsgUnits s.consumeCalls s.trace
  indexed : Indexed s.idUnitMap s.consumeMsgUnits s.grpc s.ackCalls
  cancel : CancelAnswered s.grpc s.consumeCalls

theorem queue_held {s : Proxy} {u : UnitRef} {get : GetConsumer}
    (hm : s.matcher = .getConsumer u get) : s.queue = u :: s.consumeMsgPool := by
  rw [queue, hm]
  rfl

/-- A delivery keeps the index right: the unit had no message, so no entry led to it. -/
theorem Indexed.deliver {index : TreeMap String UnitRef} {units : List ConsumeMsgUnit}
    {grpc : GrpcPc} {ackCalls : List ConsumeAckCallData}
    (h : Indexed index units grpc ackCalls) {u : UnitRef} {unit : ConsumeMsgUnit}
    (hu : units[u]? = some unit) (hs : unit.status = .proxyConsumeInit) (msgId : String) :
    Indexed (index.insert msgId u)
      (units.set u { unit with msgId := msgId, status := .clientReceive }) grpc ackCalls := by
  have hlt := (List.getElem?_eq_some_iff.mp hu).1
  refine (h.mono fun v unit' hv hs' => ?_).insert (List.getElem?_set_self hlt) rfl (by simp)
  have huv : u ≠ v := by
    rintro rfl
    obtain rfl := Option.some.inj (hu.symm.trans hv)
    exact hs' hs
  exact ⟨unit', by rwa [List.getElem?_set_ne huv], rfl, hs'⟩

theorem answered_set {calls : List ConsumeCallData} {k : CallRef} {call₀ call' : ConsumeCallData}
    (hk : calls[k]? = some call₀) (hf : call'.finished ≠ []) (j : CallRef)
    (call : ConsumeCallData) (hj : calls[j]? = some call) (hfj : call.finished ≠ []) :
    ∃ c, (calls.set k call')[j]? = some c ∧ c.finished ≠ [] := by
  rcases Heap.set_cases hk hj with ⟨-, -, hset⟩ | hset
  · exact ⟨call', hset, hf⟩
  · exact ⟨call, hset, hfj⟩

theorem Step.requestsInv {s s' : Proxy} {e : Event} (h : Step s e s') (hi : RequestsInv s) :
    RequestsInv s' := by
  obtain ⟨hr, hx, hc⟩ := hi
  cases h with
  | consume hg =>
    refine ⟨?_, hx.mono fun u unit hu hs => ?_, hc.mono fun k call hk hf => ?_⟩
    · have := hr.consume
      rw [queue] at this ⊢
      simpa [consumeProcess] using this _ _ _
    · exact ⟨unit, by rw [consumeProcess, List.getElem?_append_left
        (List.getElem?_eq_some_iff.mp hu).1, hu], rfl, hs⟩
    · exact ⟨call, by rw [consumeProcess, List.getElem?_append_left
        (List.getElem?_eq_some_iff.mp hk).1, hk], hf⟩
  | consumeDel hg hk hf hd hok => exact ⟨hr.del hk hf, hx, hc.mono (answered_set hk hf)⟩
  | cancelBegin hg hk hf hd hid =>
    refine ⟨hr, hx.of_entry (by simp), ?_⟩
    rintro j (⟨get, hj⟩ | hj)
    · obtain ⟨rfl, -⟩ := GrpcPc.cancel.inj hj
      exact ⟨_, hk, hf⟩
    · exact absurd hj (by simp)
  | cancelGet hg hk hget =>
    refine ⟨hr, hx.of_entry (by simp), ?_⟩
    rintro j (⟨get, hj⟩ | hj)
    · obtain ⟨rfl, -⟩ := GrpcPc.cancel.inj hj
      exact hc _ (.inl ⟨_, hg⟩)
    · exact absurd hj (by simp)
  | cancelSet hg hk hu =>
    refine ⟨hr.trace_append fun _ => rfl, hx.of_entry (by simp), ?_⟩
    rintro j (⟨get, hj⟩ | hj)
    · exact absurd hj (by simp)
    · obtain rfl := GrpcPc.cancelErase.inj hj
      exact hc _ (.inl ⟨_, hg⟩)
  | cancelErase hg hk =>
    obtain ⟨call, hk', hf⟩ := hc _ (.inr hg)
    obtain rfl := Option.some.inj (hk.symm.trans hk')
    exact ⟨hr.del hk hf, (hx.erase _).of_entry (by simp), .of_ne (by simp) (by simp)⟩
  | consumeAck hg =>
    exact ⟨hr.trace_append fun _ => by simp, hx.of_entry (by simp), .of_ne (by simp) (by simp)⟩
  | ackGet hg hk hget => exact ⟨hr, hx.of_entry (by simp), .of_ne (by simp) (by simp)⟩
  | ackAccepted | ackRejected =>
    exact ⟨hr.trace_append fun _ => rfl, hx.of_entry (by simp), .of_ne (by simp) (by simp)⟩
  | @ackLookup k call _ _ hg hk =>
    refine ⟨hr, ⟨hx.entry, fun j u hj => ?_⟩, .of_ne (by simp) (by simp)⟩
    obtain ⟨rfl, he⟩ := GrpcPc.ackStore.inj hj
    obtain ⟨unit, hu, hid, hs⟩ := hx.entry call.msgId u he
    exact ⟨unit, call, hu, hk, hid, hs⟩
  | @ackStore k call unit _ _ hg hk =>
    cases unit with
    | none => exact ⟨hr, hx.of_entry (by simp), .of_ne (by simp) (by simp)⟩
    | some u =>
      obtain ⟨unit, call', hu, -, -, hs⟩ := hx.store k u hg
      refine ⟨hr.mark hu hs, (hx.mono fun v unit' hv hs' => ?_).of_entry (by simp),
        .of_ne (by simp) (by simp)⟩
      by_cases huv : u = v
      · subst huv
        exact ⟨{ unit' with status := .consumeAck }, by simp [Proxy.ackStore, hv], rfl, by simp⟩
      · exact ⟨unit', by simp [Proxy.ackStore, huv, hv], rfl, hs'⟩
  | ackDel hg hk hf hd =>
    exact ⟨hr, (hx.erase _).of_entry (by simp [hg]), .of_ne (by simp [hg]) (by simp [hg])⟩
  | pop hm hp =>
    refine ⟨?_, hx, hc⟩
    rw [queue, hm, hp] at hr
    exact hr
  | matcherGet hm hu hget =>
    refine ⟨?_, hx, hc⟩
    rw [queue, hm] at hr
    exact hr
  | @deliver u unit c consumer consumer' a msg call now now' _ hm hu hcu hs hk hf =>
    rw [queue_held hm] at hr
    refine ⟨?_, hx.deliver hu hs _,
      hc.mono (answered_set hk (by simp [ConsumeCallData.responseMsg]))⟩
    have hd := hr.deliver List.mem_cons_self hu hs hk c a msg
    exact (hd.trace_append fun v => by simp).perm (List.perm_append_singleton u _).symm
  | fetchTimeout hm hu hcu hs hk hf ht =>
    rw [queue_held hm] at hr
    refine ⟨(hr.timeOut hu hs hk).trace_append fun _ => by simp, hx,
      hc.mono (answered_set hk (by simp [ConsumeCallData.responseTimeOut]))⟩
  | requeue hm hu hs =>
    rw [queue_held hm] at hr
    exact ⟨hr.perm (List.perm_append_singleton _ _).symm, hx, hc⟩
  | ackTimeout hm hu hcu hs ht =>
    rw [queue_held hm] at hr
    exact ⟨(hr.leave hu (by simp [hs])).trace_append fun _ => rfl, hx, hc⟩
  | drop hm hu hs =>
    rw [queue_held hm] at hr
    exact ⟨hr.leave hu (by simp [hs]), hx, hc⟩
  | callback | callbackReturn | clearUnlock => exact ⟨hr.trace_append fun _ => rfl, hx, hc⟩
  | _ => exact ⟨hr, hx, hc⟩

/-- A unit that has left the pool does not come back. -/
theorem Step.gone {s s' : Proxy} {e : Event} (h : Step s e s') (u : UnitRef)
    (hu : u < s.consumeMsgUnits.length) (hq : u ∉ s.queue) : u ∉ s'.queue := by
  cases h with
  | consume hg =>
    rw [queue, List.mem_append, not_or] at hq
    rw [queue, List.mem_append, consumeProcess, List.mem_append, List.mem_singleton, not_or,
      not_or]
    exact ⟨hq.1, hq.2, Nat.ne_of_lt hu⟩
  | pop hm hp =>
    rw [queue, hm, hp] at hq
    exact hq
  | matcherGet hm hunit hget =>
    rw [queue_held hm] at hq
    exact hq
  | deliver hm hunit hc hs hk hf =>
    rw [queue_held hm] at hq
    exact mt (List.perm_append_singleton _ _).mem_iff.mp hq
  | requeue hm hunit hs =>
    rw [queue_held hm] at hq
    exact mt (List.perm_append_singleton _ _).mem_iff.mp hq
  | fetchTimeout hm hunit hc hs hk hf ht =>
    rw [queue_held hm] at hq
    exact fun hin => hq (List.mem_cons_of_mem _ hin)
  | ackTimeout hm hunit hc hs ht =>
    rw [queue_held hm] at hq
    exact fun hin => hq (List.mem_cons_of_mem _ hin)
  | drop hm hunit hs =>
    rw [queue_held hm] at hq
    exact fun hin => hq (List.mem_cons_of_mem _ hin)
  | _ => exact hq

theorem requestsInv {P : Proxy → Event → Prop} {s : Proxy} (h : ReachableBy P s) :
    RequestsInv s := by
  refine h.invariant ⟨.start, ⟨fun _ _ he => absurd he (by simp [init]), ?_⟩, ?_⟩
    fun _ _ _ _ hi _ hs => (step_cases hs).requestsInv hi
  · exact fun _ _ hk => absurd hk (by simp [init])
  · exact .of_ne (by simp [init]) (by simp [init])

end Proxy
end RocketmqProxy
