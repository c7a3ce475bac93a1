import RocketmqProxy.Proxy.AckCalls

/-!
# What the log says of a run

Beside its two kinds of entries the log has none: one for each message that the matcher has
delivered, and one for each ack that `setMsgAck` has accepted, in the order of these events.
The entry of an ack is written two steps after the ack is accepted.
-/

namespace RocketmqProxy
namespace Proxy

/-- The entry that the matcher writes for the message it delivers. -/
def deliveryEntry (msg : MsgPtr) : LogUnit :=
  { type := proxyLoggerTypeConsume, msgId := msg.unit.msgId, topic := msg.unit.topic,
    group := msg.unit.group, body := msg.unit.body, delayLevel := msg.unit.delayLevel,
    status := 0 }

/-- The entry that `process` writes for an ack. -/
def ackEntry (call : ConsumeAckCallData) : LogUnit :=
  { type := proxyLoggerTypeConsumeAcl, msgId := call.msgId, topic := call.topic,
    group := call.group, body := "", delayLevel := 0, status := call.requestStatus }

def deliveryEntries (trace : List Obs) : List LogUnit :=
  trace.filterMap fun o =>
    match o with
    | .unit _ (.fetched _ _ msg) => some (deliveryEntry msg)
    | _ => none

/-- The entries of the accepted acks, when `entries` has that of each call. -/
def ackEntries (entries : List LogUnit) (trace : List Obs) : List LogUnit :=
  trace.filterMap fun o =>
    match o with
    | .unit _ (.acked (.consumeAck k) _ _ true) => entries[k]?
    | _ => none

/-- The entry of an ack that has been accepted, until it is written. -/
def unwritten (grpc : GrpcPc) (entries : List LogUnit) : List LogUnit :=
  match grpc with
  | .ackLookup k | .ackStore k _ => entries[k]?.toList
  | _ => []

structure Logged (s : Proxy) : Prop where
  deliveries : s.logQueue.filter (fun unit => unit.type = proxyLoggerTypeConsume) =
    deliveryEntries s.trace
  acks : s.logQueue.filter (fun unit => unit.type = proxyLoggerTypeConsumeAcl) ++
      unwritten s.grpc (s.ackCalls.map ackEntry) = ackEntries (s.ackCalls.map ackEntry) s.trace
  types : ∀ unit ∈ s.logQueue,
    unit.type = proxyLoggerTypeConsume ∨ unit.type = proxyLoggerTypeConsumeAcl

/-! ## One step -/

theorem deliveryEntries_append (t t' : List Obs) :
    deliveryEntries (t ++ t') = deliveryEntries t ++ deliveryEntries t' := List.filterMap_append

theorem ackEntries_append (entries : List LogUnit) (t t' : List Obs) :
    ackEntries entries (t ++ t') = ackEntries entries t ++ ackEntries entries t' :=
  List.filterMap_append

/-- What is neither a delivery nor an ack of a client is not logged. -/
def Silent (t : List Obs) : Prop :=
  deliveryEntries t = [] ∧ ∀ entries, ackEntries entries t = []

theorem silent_nil : Silent [] := ⟨rfl, fun _ => rfl⟩

theorem silent_reset (topic group : String) (d : Option ConsumerRef) :
    Silent (d.map (.reset topic group)).toList := by
  cases d <;> exact ⟨rfl, fun _ => rfl⟩

theorem silent_unit {c : ConsumerRef} {o : UnitObs} (hf : ∀ u a msg, o ≠ .fetched u a msg)
    (ha : ∀ k msgId st, o ≠ .acked (.consumeAck k) msgId st true) : Silent [.unit c o] := by
  refine ⟨List.filterMap_eq_nil_iff.mpr fun x hx => ?_,
    fun entries => List.filterMap_eq_nil_iff.mpr fun x hx => ?_⟩
  · obtain rfl := List.mem_singleton.mp hx
    split
    · next he => exact absurd (Obs.unit.inj he).2 (hf _ _ _)
    · rfl
  · obtain rfl := List.mem_singleton.mp hx
    split
    · next he => exact absurd (Obs.unit.inj he).2 (ha _ _ _)
    · rfl

/-- A new call has no entry yet. -/
theorem ackEntries_arrive {calls : List ConsumeAckCallData} {grpc : GrpcPc} {trace : List Obs}
    (h : AckCalls grpc calls trace) (call : ConsumeAckCallData) :
    ackEntries ((calls ++ [call]).map ackEntry) trace = ackEntries (calls.map ackEntry) trace := by
  refine List.filterMap_congr fun o ho => ?_
  split
  · next c k msgId st =>
    have hlt : k < calls.length := by
      by_contra hk
      have hmem : (c, msgId, st, true) ∈ ackResults k trace :=
        List.mem_filterMap.mpr ⟨_, ho, if_pos rfl⟩
      rw [h.fresh k (Nat.le_of_not_lt hk)] at hmem
      cases hmem
    rw [List.map_append, List.getElem?_append_left (by rwa [List.length_map])]
  · rfl

theorem unwritten_eq_nil {grpc : GrpcPc} (h : ackCall grpc = none) (entries : List LogUnit) :
    unwritten grpc entries = [] := by
  cases grpc with
  | ackLookup k | ackStore k unit => cases h
  | _ => rfl

/-- A step that neither delivers nor accepts. -/
theorem Logged.keep {s s' : Proxy} (h : Logged s) (hq : s'.logQueue = s.logQueue)
    (hc : s'.ackCalls.map ackEntry = s.ackCalls.map ackEntry) {t : List Obs}
    (ht : s'.trace = s.trace ++ t) (hsilent : Silent t)
    (hg : unwritten s'.grpc (s.ackCalls.map ackEntry) =
      unwritten s.grpc (s.ackCalls.map ackEntry)) : Logged s' where
  deliveries := by
    rw [hq, ht, deliveryEntries_append, hsilent.1, List.append_nil]
    exact h.deliveries
  acks := by
    rw [hq, hc, hg, ht, ackEntries_append, hsilent.2, List.append_nil]
    exact h.acks
  types := by
    rw [hq]
    exact h.types

theorem Step.logged {s s' : Proxy} {e : Event} (h : Step s e s') (hi : AckInv s)
    (hl : Logged s) : Logged s' := by
  cases h with
  | consumeAck hg =>
    refine ⟨?_, ?_, hl.types⟩
    · exact hl.deliveries.trans
        (by rw [ackProcess, resetConsumerActive, deliveryEntries_append,
          (silent_reset _ _ _).1, List.append_nil])
    · have hacks := hl.acks
      rw [unwritten_eq_nil (by rw [hg]; rfl), List.append_nil] at hacks
      rw [ackProcess, resetConsumerActive, ackEntries_append, (silent_reset _ _ _).2,
        List.append_nil, ackEntries_arrive hi, ← hacks]
      exact List.append_nil _
  | ackGet hg hk hget =>
    exact hl.keep rfl rfl (List.append_nil _).symm silent_nil (by rw [hg]; rfl)
  | @ackAccepted k call c unit now started hg hk hc hret =>
    refine ⟨?_, ?_, hl.types⟩
    · rw [onConsumer, deliveryEntries_append]
      exact hl.deliveries.trans (List.append_nil _).symm
    · have hacks := hl.acks
      rw [hg] at hacks
      have hentry : (s.ackCalls.map ackEntry)[k]? = some (ackEntry call) := by
        rw [List.getElem?_map, hk, Option.map_some]
      have hnew : ackEntries (s.ackCalls.map ackEntry) [.unit c (.acked (.consumeAck k) call.msgId
          (.ofInt call.requestStatus) true)] = [ackEntry call] := by
        simp [ackEntries, hk]
      rw [onConsumer, ackEntries_append, hnew, ← hacks, unwritten, hentry]
      simp [unwritten]
  | @ackRejected k call c unit now started hg hk hc hret =>
    refine hl.keep rfl (Heap.map_set hk rfl) rfl (silent_unit (by simp) (by simp)) ?_
    rw [hg]
    rfl
  | @ackLookup k call now started hg hk =>
    exact hl.keep rfl rfl (List.append_nil _).symm silent_nil (by rw [hg]; rfl)
  | @ackStore k call unit now started hg hk =>
    have hsame : (s.ackStore k call unit).ackCalls.map ackEntry = s.ackCalls.map ackEntry :=
      Heap.map_set hk rfl
    have hentry : (s.ackCalls.map ackEntry)[k]? = some (ackEntry call) := by
      rw [List.getElem?_map, hk, Option.map_some]
    have hq : (s.ackStore k call unit).logQueue = s.logQueue ++ [ackEntry call] := rfl
    refine ⟨?_, ?_, fun unit' hmem => ?_⟩
    · rw [hq, List.filter_append, hl.deliveries]
      exact List.append_nil _
    · have hacks := hl.acks
      rw [hg, unwritten, hentry] at hacks
      rw [hsame, hq, List.filter_append, ackStore_grpc, unwritten_eq_nil rfl, List.append_nil]
      exact hacks
    · rw [hq] at hmem
      rcases List.mem_append.mp hmem with hmem | hmem
      · exact hl.types unit' hmem
      · rw [List.mem_singleton.mp hmem]
        exact .inr rfl
  | ackDel hg hk hf hd =>
    exact hl.keep rfl (Heap.map_set hk rfl) (List.append_nil _).symm silent_nil rfl
  | @deliver u unit c consumer consumer' a msg call now now' _ hm hu hc hs hk hf =>
    have hq : ((s.deliver u unit c consumer' a msg call now).pushBack u).logQueue =
        s.logQueue ++ [deliveryEntry msg] := rfl
    have ht : ((s.deliver u unit c consumer' a msg call now).pushBack u).trace =
        s.trace ++ [.unit c (.fetched u a msg)] ++
          (s.consumers[unit.topic ++ unit.group]?.map (.reset unit.topic unit.group)).toList := rfl
    refine ⟨?_, ?_, fun unit' hmem => ?_⟩
    · rw [hq, ht, List.filter_append, deliveryEntries_append, (silent_reset _ _ _).1,
        List.append_nil, deliveryEntries_append, hl.deliveries]
      rfl
    · rw [hq, ht, List.filter_append, ackEntries_append, (silent_reset _ _ _).2, List.append_nil,
        ackEntries_append]
      show List.filter _ s.logQueue ++ [] ++ unwritten s.grpc (s.ackCalls.map ackEntry) =
        ackEntries (s.ackCalls.map ackEntry) s.trace ++ []
      rw [List.append_nil, List.append_nil]
      exact hl.acks
    · rw [hq] at hmem
      rcases List.mem_append.mp hmem with hmem | hmem
      · exact hl.types unit' hmem
      · rw [List.mem_singleton.mp hmem]
        exact .inl rfl
  | cancelBegin hg | cancelGet hg | cancelErase hg =>
    exact hl.keep rfl rfl (List.append_nil _).symm silent_nil (by rw [hg]; rfl)
  | cancelSet hg hk hc =>
    exact hl.keep rfl rfl rfl (silent_unit (by simp) (by simp)) (by rw [hg]; rfl)
  | fetchTimeout hm hu hc hs hk hf ht =>
    exact hl.keep rfl rfl rfl (silent_reset _ _ _) rfl
  | ackTimeout hm hu hc hs ht => exact hl.keep rfl rfl rfl (silent_unit (by simp) (by simp)) rfl
  | callback hc hs ha hn => exact hl.keep rfl rfl rfl (silent_unit (by simp) (by simp)) rfl
  | callbackReturn hc he => exact hl.keep rfl rfl rfl (silent_unit (by simp) (by simp)) rfl
  | clearUnlock hp hc => exact hl.keep rfl rfl rfl (silent_unit (by simp) (by simp)) rfl
  | _ => exact hl.keep rfl rfl (List.append_nil _).symm silent_nil rfl

/-- In every run the log is what the run has delivered and accepted. -/
theorem logged {s : Proxy} (h : Reachable s) : Logged s :=
  h.invariant ⟨rfl, rfl, by simp [init]⟩
    fun _ _ _ hr hl _ hs => (step_cases hs).logged (ackInv hr) hl

end Proxy
end RocketmqProxy
