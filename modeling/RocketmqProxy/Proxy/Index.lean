import RocketmqProxy.Proxy.Requests

/-!
# The index and the pool

`idUnitMap` leads from the id of a delivered message to the unit that waits for its ack.
The matcher fills the index and takes units out of the pool, and the gRPC thread removes
entries, so whether the two agree is a matter of what else is under the same id.
-/

namespace RocketmqProxy
namespace Proxy

open Std

/-- The unit `u` waits for the ack of `msgId`, in the pool or in the matcher's hand. -/
def Waiting (s : Proxy) (u : UnitRef) (msgId : String) : Prop :=
  u ∈ s.queue ∧ ∃ unit, s.consumeMsgUnits[u]? = some unit ∧ unit.status = .clientReceive ∧
    unit.msgId = msgId

/-- The index leads to every unit that waits, and only to units that are still queued. -/
structure Agrees (s : Proxy) : Prop where
  indexed : ∀ u msgId, s.Waiting u msgId → s.idUnitMap[msgId]? = some u
  queued : ∀ (msgId : String) (u : UnitRef), s.idUnitMap[msgId]? = some u → u ∈ s.queue

/-- What a step does to the index or to the pool. -/
inductive IndexOp
  | keep
  | deliver (u : UnitRef) (msgId : String)
  | leave (u : UnitRef)
  | erase (msgId : String)
deriving DecidableEq, Repr

/-- The matcher delivers a message, finds an ack overdue, or drops a unit whose ack has
come. -/
def matchOp (s : Proxy) (u : UnitRef) (unit : ConsumeMsgUnit) (consumer : Option ConsumerRef)
    (now : Int) : IndexOp :=
  match unit.status with
  | .proxyConsumeInit =>
    match (consumer.bind fun c => s.consumerUnits[c]?).bind fun unit => unit.fetchAndConsume.1 with
    | some (_, msg) => .deliver u msg.unit.msgId
    | none => .keep
  | .clientReceive => if unit.getIsAckTimeout now then .leave u else .keep
  | .consumeAck => .leave u

def indexOp (s : Proxy) : Event → IndexOp
  | .matcher now _ _ =>
    match s.matcher with
    | .getConsumer u (.done consumer) =>
      match s.consumeMsgUnits[u]? with
      | some unit => matchOp s u unit consumer now
      | none => .keep
    | _ => .keep
  | .ackDone k _ => (s.ackCalls[k]?.map fun call => IndexOp.erase call.msgId).getD .keep
  | .grpc _ _ =>
    match s.grpc with
    | .cancelErase k => (s.consumeCalls[k]?.map fun call => IndexOp.erase call.msgId).getD .keep
    | _ => .keep
  | _ => .keep

/-- No unit waits for the ack of an id that is filed or erased, and no entry leads to a
unit that leaves. -/
def KeepsIndex (s : Proxy) (e : Event) : Prop :=
  match indexOp s e with
  | .keep => True
  | .deliver _ msgId | .erase msgId => ∀ u, ¬ s.Waiting u msgId
  | .leave u => ∀ msgId : String, s.idUnitMap[msgId]? ≠ some u

theorem not_waiting_iff {s : Proxy} {msgId : String} :
    (∀ u ∈ s.queue, ∀ unit ∈ s.consumeMsgUnits[u]?, unit.status = .clientReceive →
      unit.msgId ≠ msgId) ↔ ∀ u, ¬ s.Waiting u msgId := by
  constructor
  · rintro h u ⟨hmem, unit, hu, hst, hid⟩
    exact h u hmem unit hu hst hid
  · exact fun h u hmem unit hu hst hid => h u ⟨hmem, unit, hu, hst, hid⟩

instance (s : Proxy) (e : Event) : Decidable (KeepsIndex s e) :=
  match h : indexOp s e with
  | .keep => .isTrue (by rw [KeepsIndex, h]; trivial)
  | .deliver _ msgId | .erase msgId =>
    decidable_of_iff (∀ u ∈ s.queue, ∀ unit ∈ s.consumeMsgUnits[u]?,
      unit.status = .clientReceive → unit.msgId ≠ msgId) (by rw [KeepsIndex, h, not_waiting_iff])
  | .leave u =>
    decidable_of_iff (∀ p ∈ s.idUnitMap.toList, p.2 ≠ u) (by
      rw [KeepsIndex, h]
      constructor
      · exact fun hall msgId he =>
          hall (msgId, u) (TreeMap.mem_toList_iff_getElem?_eq_some.mpr he) rfl
      · rintro hall p hp rfl
        exact hall p.1 (TreeMap.mem_toList_iff_getElem?_eq_some.mp hp))

/-! ## One step -/

namespace Agrees

variable {s s' : Proxy}

/-- Nothing that waits is new, and nothing has left. -/
theorem kept (h : Agrees s) (hw : ∀ u msgId, s'.Waiting u msgId → s.Waiting u msgId)
    (hq : ∀ msgId : String, ∀ u ∈ s.idUnitMap[msgId]?, u ∈ s.queue → u ∈ s'.queue)
    (hm : s'.idUnitMap = s.idUnitMap) : Agrees s' := by
  refine ⟨fun u msgId hu => ?_, fun msgId u he => ?_⟩
  · rw [hm]
    exact h.indexed u msgId (hw u msgId hu)
  · rw [hm] at he
    exact hq msgId u he (h.queued msgId u he)

theorem erase_iff (h : Agrees s) {msgId : String}
    (hw : ∀ u x, s'.Waiting u x ↔ s.Waiting u x) (hq : ∀ u, u ∈ s.queue → u ∈ s'.queue)
    (hm : s'.idUnitMap = s.idUnitMap.erase msgId) :
    Agrees s' ↔ ∀ u, ¬ s.Waiting u msgId := by
  constructor
  · intro h' u hu
    have hentry := h'.indexed u msgId ((hw u msgId).mpr hu)
    rw [hm, TreeMap.getElem?_erase_self] at hentry
    exact absurd hentry (by simp)
  · refine fun hnone => ⟨fun u x hu => ?_, fun x u he => ?_⟩
    · have hne : msgId ≠ x := by
        rintro rfl
        exact hnone u ((hw u msgId).mp hu)
      rw [hm, TreeMap.getElem?_erase, if_neg (mt Std.compare_eq_iff_eq.mp hne)]
      exact h.indexed u x ((hw u x).mp hu)
    · rw [hm, TreeMap.getElem?_erase] at he
      split at he
      · exact absurd he (by simp)
      · exact hq u (h.queued x u he)

theorem leave_iff (h : Agrees s) {u : UnitRef}
    (hw : ∀ v x, s'.Waiting v x → s.Waiting v x)
    (hq : ∀ v, v ∈ s'.queue ↔ v ∈ s.queue ∧ v ≠ u) (hm : s'.idUnitMap = s.idUnitMap) :
    Agrees s' ↔ ∀ msgId : String, s.idUnitMap[msgId]? ≠ some u := by
  constructor
  · intro h' msgId he
    exact ((hq u).mp (h'.queued msgId u (hm ▸ he))).2 rfl
  · refine fun hnone => h.kept hw (fun msgId v he hv => (hq v).mpr ⟨hv, ?_⟩) hm
    rintro rfl
    exact hnone msgId he

theorem deliver_iff (h : Agrees s) {u : UnitRef} {msgId : String}
    (hu : ∀ x, ¬ s.Waiting u x)
    (hw : ∀ v x, s'.Waiting v x ↔ s.Waiting v x ∨ v = u ∧ x = msgId)
    (hq : ∀ v, v ∈ s'.queue ↔ v ∈ s.queue) (hmem : u ∈ s.queue)
    (hm : s'.idUnitMap = s.idUnitMap.insert msgId u) :
    Agrees s' ↔ ∀ v, ¬ s.Waiting v msgId := by
  constructor
  · intro h' v hv
    have hentry := h'.indexed v msgId ((hw v msgId).mpr (.inl hv))
    rw [hm, TreeMap.getElem?_insert_self] at hentry
    obtain rfl := Option.some.inj hentry
    exact hu msgId hv
  · refine fun hnone => ⟨fun v x hv => ?_, fun x v he => ?_⟩
    · rw [hm, TreeMap.getElem?_insert]
      rcases (hw v x).mp hv with hv | ⟨rfl, rfl⟩
      · have hne : msgId ≠ x := by
          rintro rfl
          exact hnone v hv
        rw [if_neg (mt Std.compare_eq_iff_eq.mp hne)]
        exact h.indexed v x hv
      · rw [if_pos (Std.compare_eq_iff_eq.mpr rfl)]
    · rw [hm, TreeMap.getElem?_insert] at he
      rw [hq]
      split at he
      · obtain rfl := Option.some.inj he
        exact hmem
      · exact h.queued x v he

end Agrees

theorem agrees_iff_of_same {s s' : Proxy} {e : Event} (h : Agrees s)
    (hq : ∀ u, u ∈ s'.queue ↔ u ∈ s.queue) (hu : s'.consumeMsgUnits = s.consumeMsgUnits)
    (hm : s'.idUnitMap = s.idUnitMap) (hop : indexOp s e = .keep) :
    Agrees s' ↔ KeepsIndex s e := by
  refine iff_of_true (h.kept (fun u msgId hw => ?_) (fun _ u _ hin => (hq u).mpr hin) hm) ?_
  · rw [Waiting, hq, hu] at hw
    exact hw
  · rw [KeepsIndex, hop]
    trivial

/-- The unit in the matcher's hand is out of the pool. -/
theorem RequestsInv.held {s : Proxy} (hr : RequestsInv s) {u : UnitRef} {get : GetConsumer}
    (hm : s.matcher = .getConsumer u get) (v : UnitRef) :
    v ∈ s.consumeMsgPool ↔ v ∈ s.queue ∧ v ≠ u := by
  have hn := hr.requests.nodup
  rw [queue_held hm] at hn ⊢
  rw [List.mem_cons]
  constructor
  · refine fun hv => ⟨.inr hv, ?_⟩
    rintro rfl
    exact (List.nodup_cons.mp hn).1 hv
  · rintro ⟨rfl | hv, hne⟩
    · exact absurd rfl hne
    · exact hv

/-- Only a unit that has arrived can be new in the pool. -/
theorem waiting_of_consume {s : Proxy} {topic group : String} {now : Int} {u : UnitRef}
    {msgId : String} (hw : (s.consumeProcess topic group now).Waiting u msgId) :
    s.Waiting u msgId := by
  obtain ⟨hmem, unit, hu, hst, hid⟩ := hw
  rw [consumeProcess, List.getElem?_append] at hu
  split at hu
  · rename_i hlt
    refine ⟨?_, unit, hu, hst, hid⟩
    rw [queue, consumeProcess, ← List.append_assoc, List.mem_append, List.mem_singleton] at hmem
    exact hmem.resolve_right (Nat.ne_of_lt hlt)
  · obtain rfl := List.mem_singleton.mp (List.mem_of_getElem? hu)
    exact absurd hst (by simp [ConsumeMsgUnit.new])

theorem waiting_of_ackStore {s : Proxy} {k : CallRef} {call : ConsumeAckCallData}
    {v : Option UnitRef} {u : UnitRef} {msgId : String}
    (hw : (s.ackStore k call v).Waiting u msgId) : s.Waiting u msgId := by
  obtain ⟨hmem, unit, hu, hst, hid⟩ := hw
  cases v with
  | none => exact ⟨hmem, unit, hu, hst, hid⟩
  | some v =>
    rw [Proxy.ackStore, List.getElem?_modify] at hu
    obtain ⟨unit₀, hu₀, rfl⟩ := Option.map_eq_some_iff.mp hu
    by_cases hvu : v = u
    · exact absurd hst (by simp [hvu])
    · simp only [hvu, if_false] at hst hid
      exact ⟨hmem, unit₀, hu₀, hst, hid⟩

/-- A delivery lets its unit wait, and no other. -/
theorem waiting_deliver_iff {s : Proxy} {u : UnitRef} {unit : ConsumeMsgUnit} {c : ConsumerRef}
    {consumer' : ConsumerUnit} {a : Addr} {msg : MsgPtr} {call : ConsumeCallData} {now : Int}
    {get : GetConsumer} (hm : s.matcher = .getConsumer u get)
    (hu : s.consumeMsgUnits[u]? = some unit) (hs : unit.status = .proxyConsumeInit)
    (v : UnitRef) (x : String) :
    ((s.deliver u unit c consumer' a msg call now).pushBack u).Waiting v x ↔
      s.Waiting v x ∨ v = u ∧ x = msg.unit.msgId := by
  have hq : v ∈ ((s.deliver u unit c consumer' a msg call now).pushBack u).queue ↔
      v ∈ s.queue := by
    rw [queue_held hm]
    exact (List.perm_append_singleton u s.consumeMsgPool).mem_iff
  have hunits : ((s.deliver u unit c consumer' a msg call now).pushBack u).consumeMsgUnits =
      s.consumeMsgUnits.set u { unit with msgId := msg.unit.msgId, status := .clientReceive } :=
    rfl
  rw [Waiting, hq, hunits]
  by_cases hvu : u = v
  · subst hvu
    rw [Heap.set_self hu]
    constructor
    · rintro ⟨-, unit', he, -, rfl⟩
      obtain rfl := Option.some.inj he
      exact .inr ⟨rfl, rfl⟩
    · rintro (⟨-, unit', he, hst, -⟩ | ⟨-, rfl⟩)
      · obtain rfl := Option.some.inj (hu.symm.trans he)
        exact absurd (hs.symm.trans hst) (by simp)
      · refine ⟨?_, _, rfl, rfl, rfl⟩
        rw [queue_held hm]
        exact List.mem_cons_self
  · rw [List.getElem?_set_ne hvu]
    exact ⟨.inl, fun h => h.resolve_right fun he => hvu he.1.symm⟩

/-- A step keeps the agreement exactly when it meets the condition. -/
theorem Step.agrees_iff {s s' : Proxy} {e : Event} (hstep : Step s e s') (hr : RequestsInv s)
    (h : Agrees s) : Agrees s' ↔ KeepsIndex s e := by
  cases hstep with
  | consume =>
    refine iff_of_true (h.kept (fun _ _ => waiting_of_consume) (fun _ u _ hin => ?_) rfl) trivial
    rw [queue, consumeProcess, ← List.append_assoc]
    exact List.mem_append_left _ hin
  | consumeDel | cancelBegin | consumeAck | callback | callbackReturn | sweep | sweepEnd | skip
  | select | shutdownBegin | shutdownEnd | erase | clearBegin | clearFound | clearMissed
  | clearUnlock | clearReset => exact agrees_iff_of_same h (fun _ => Iff.rfl) rfl rfl rfl
  | cancelGet hg | cancelSet hg | ackGet hg | ackAccepted hg | ackRejected hg | ackLookup hg =>
    exact agrees_iff_of_same h (fun _ => Iff.rfl) rfl rfl (by simp [indexOp, hg])
  | @cancelErase k call now started hg hk =>
    have hop : indexOp s (.grpc now started) = .erase call.msgId := by simp [indexOp, hg, hk]
    rw [KeepsIndex, hop]
    exact h.erase_iff (fun _ _ => Iff.rfl) (fun _ hin => hin) rfl
  | @ackDel k call ok hg hk =>
    have hop : indexOp s (.ackDone k ok) = .erase call.msgId := by simp [indexOp, hk]
    rw [KeepsIndex, hop]
    exact h.erase_iff (fun _ _ => Iff.rfl) (fun _ hin => hin) rfl
  | @ackStore k call v now started hg hk =>
    have hop : indexOp s (.grpc now started) = .keep := by simp [indexOp, hg]
    rw [KeepsIndex, hop]
    exact iff_of_true (h.kept (fun _ _ => waiting_of_ackStore) (fun _ _ _ hin => hin) rfl) trivial
  | @pop u rest _ _ _ hm hp =>
    refine agrees_iff_of_same h (fun v => ?_) rfl rfl (by simp [indexOp, hm])
    rw [queue, queue, hm, hp]
    exact Iff.rfl
  | matcherGet hm hu hget =>
    refine agrees_iff_of_same h (fun v => ?_) rfl rfl (by cases hget <;> simp [indexOp, hm])
    rw [queue_held hm]
    exact Iff.rfl
  | @deliver u unit c consumer consumer' a msg call now now' started hm hu hc hs hk hf =>
    have hop : indexOp s (.matcher now now' started) = .deliver u msg.unit.msgId := by
      simp [indexOp, matchOp, hm, hu, hc, hs, hf]
    have hnot : ∀ x, ¬ s.Waiting u x := by
      rintro x ⟨-, unit', hu', hst, -⟩
      obtain rfl := Option.some.inj (hu.symm.trans hu')
      exact absurd (hs.symm.trans hst) (by simp)
    rw [KeepsIndex, hop]
    refine h.deliver_iff hnot (waiting_deliver_iff hm hu hs) (fun v => ?_) ?_ rfl
    · rw [queue_held hm]
      exact (List.perm_append_singleton u s.consumeMsgPool).mem_iff
    · rw [queue_held hm]
      exact List.mem_cons_self
  | @requeue u unit p now now' started hm hu hs =>
    refine agrees_iff_of_same h (fun v => ?_) rfl rfl ?_
    · rw [queue_held hm]
      exact (List.perm_append_singleton u s.consumeMsgPool).mem_iff
    · rcases hs with ⟨hs, -, c, consumer, rfl, hc, hf⟩ | ⟨hs, ht⟩
      · simp [indexOp, matchOp, hm, hu, hc, hs, hf]
      · simp [indexOp, matchOp, hm, hu, hs, ht]
  | @fetchTimeout u unit c consumer call now now' started hm hu hc hs hk hf ht =>
    have hop : indexOp s (.matcher now now' started) = .keep := by
      simp [indexOp, matchOp, hm, hu, hc, hs, hf]
    rw [KeepsIndex, hop]
    refine iff_of_true (h.kept ?_ (fun msgId v he hin => (hr.held hm v).mpr ⟨hin, ?_⟩) rfl) trivial
    · exact fun v x hw => ⟨((hr.held hm v).mp hw.1).1, hw.2⟩
    · -- no entry leads to a unit without a message
      rintro rfl
      obtain ⟨unit', hu', -, hst⟩ := hr.indexed.entry msgId v he
      obtain rfl := Option.some.inj (hu.symm.trans hu')
      exact hst hs
  | @ackTimeout u unit c consumer now now' started hm hu hc hs ht =>
    have hop : indexOp s (.matcher now now' started) = .leave u := by
      simp [indexOp, matchOp, hm, hu, hs, ht]
    rw [KeepsIndex, hop]
    exact h.leave_iff (fun v x hw => ⟨((hr.held hm v).mp hw.1).1, hw.2⟩) (hr.held hm) rfl
  | @drop u unit c now now' started hm hu hs =>
    have hop : indexOp s (.matcher now now' started) = .leave u := by
      simp [indexOp, matchOp, hm, hu, hs]
    rw [KeepsIndex, hop]
    exact h.leave_iff (fun v x hw => ⟨((hr.held hm v).mp hw.1).1, hw.2⟩) (hr.held hm) rfl

theorem agrees_init : Agrees init := by
  refine ⟨fun u msgId hw => ?_, fun msgId u he => absurd he (by simp [init])⟩
  obtain ⟨-, unit, hu, -⟩ := hw
  exact absurd hu (by simp [init])

/-- The index agrees with the pool in every state of a run whose steps file and erase no id
that a unit waits for, and take no unit out that an entry leads to; and any other step
leaves them apart. -/
theorem agrees_of_keepsIndex (s : Proxy) :
    (ReachableBy KeepsIndex s → Agrees s) ∧
      ∀ e s', Reachable s → Agrees s → s.step e = some s' →
        (Agrees s' ↔ KeepsIndex s e) := by
  refine ⟨fun h => ?_, fun e s' hr ha hs => (step_cases hs).agrees_iff (requestsInv hr) ha⟩
  exact h.invariant agrees_init fun s e s' hr ha hP hs =>
    ((step_cases hs).agrees_iff (requestsInv hr) ha).mpr hP

/-- The reply to the ack completes before the matcher drops the unit. -/
theorem agrees_of_keepsIndex_acked : ∃ s, s.matcher = .pop ∧ s.consumeMsgPool = [] ∧
    s.ackCalls.map (·.deleted) = [true] ∧ Agrees s := by
  have hrun : (Runs.exec (Runs.restrict step KeepsIndex) init (deliveredOnce ++
      [.consumeAck "t" "g" "m" 0 1, .grpc 1 true, .grpc 1 true, .grpc 1 true, .grpc 1 true,
        .ackDone 0 true, .matcher 1 1 true, .matcher 1 1 true, .matcher 1 1 true])).map
        (fun s => (s.matcher, s.consumeMsgPool, s.ackCalls.map (·.deleted))) =
      some (.pop, [], [true]) := by
    decide
  obtain ⟨s, hs, hfacts⟩ := Option.map_eq_some_iff.mp hrun
  simp only [Prod.mk.injEq] at hfacts
  obtain ⟨hm, hpool, hdel⟩ := hfacts
  exact ⟨s, hm, hpool, hdel, (agrees_of_keepsIndex s).1 (.of_exec_restrict .init hs)⟩

/-- The ack is overdue, and the entry of the unit stays for good. -/
theorem timeout_leaves_entry : ¬ ∀ s, Reachable s → s.matcher = .pop → Agrees s := by
  have hrun : (run (deliveredOnce ++ [.matcher 10 10 true, .matcher 10 10 true,
      .matcher 10 10 true])).map (fun s => (s.matcher, s.queue, s.idUnitMap["m"]?)) =
      some (.pop, [], some 0) := by
    decide
  obtain ⟨s, hs, hfacts⟩ := Option.map_eq_some_iff.mp hrun
  obtain ⟨hm, hqueue, hentry⟩ : _ ∧ _ ∧ _ := by simpa using hfacts
  intro hall
  have hin := (hall s (reachable_run hs) hm).queued "m" 0 hentry
  rw [hqueue] at hin
  exact absurd hin (by simp)

end Proxy
end RocketmqProxy
