import RocketmqProxy.Proxy.Requests

/-!
# What is handed out

Every message of a batch goes to one request, in batch order, and every request gets
at most one message, which is the one its reply carries.
-/

namespace RocketmqProxy
namespace Proxy

open Std UnitObs

structure HandedOut (s : Proxy) : Prop where
  /-- The messages of a registered batch are those delivered from it, and then those
  still in its queue. -/
  batch : ∀ c unit a l, s.consumerUnits[c]? = some unit → unit.lockers[a]? = some l →
    ∃ k₁ msgs k₂, history c s.trace = k₁ ++ .registered a msgs :: k₂ ∧ Open a k₂ ∧
      msgs.map (ConsumerUnitLocker.ptr unit.consumer.groupName) =
        fetches a k₂ ++ l.fetchedArr
  /-- A delivered message is the next one of a batch registered at that time, and no
  earlier delivery had it. -/
  popped : ∀ c unit k₁ u a msg k₂, s.consumerUnits[c]? = some unit →
    history c s.trace = k₁ ++ .fetched u a msg :: k₂ →
    ∃ j₁ msgs j₂ rest, k₁ = j₁ ++ .registered a msgs :: j₂ ∧ Open a j₂ ∧
      msgs.map (ConsumerUnitLocker.ptr unit.consumer.groupName) =
        fetches a j₂ ++ msg :: rest ∧
      msg.addr ∉ (fetches a j₂).map MsgPtr.addr
  request : ∀ u, (deliveries u s.trace).length ≤ 1
  /-- A success reply carries the message popped for its request. -/
  reply : ∀ k call r, s.consumeCalls[k]? = some call → r ∈ call.finished →
    r.code = responseSuccess →
    ∃ u unit c a msg, s.consumeMsgUnits[u]? = some unit ∧ unit.callData = k ∧
      deliveries u s.trace = [(c, a, msg)] ∧ r.msgId = msg.unit.msgId ∧ r.body = msg.unit.body

/-- The addresses of a batch are distinct, so a message that is still to come has not
been delivered. -/
theorem addr_not_mem_fetches {group : String} {msgs : List (Addr × MQMessageExt)}
    {ds rest : List MsgPtr} {msg : MsgPtr} (hn : (msgs.map Prod.fst).Nodup)
    (he : msgs.map (ConsumerUnitLocker.ptr group) = ds ++ msg :: rest) :
    msg.addr ∉ ds.map MsgPtr.addr := by
  have haddr : (ds.map MsgPtr.addr ++ msg.addr :: rest.map MsgPtr.addr).Nodup := by
    rw [← List.map_cons, ← List.map_append, ← he, List.map_map]
    exact hn
  intro hm
  exact (List.nodup_append.mp haddr).2.2 msg.addr hm msg.addr List.mem_cons_self rfl

theorem handedOut {s : Proxy} (h : Reachable s) : HandedOut s where
  batch c unit a l hc hl := by
    obtain ⟨k₁, msgs, k₂, hh, hr, -⟩ := (unitHistory h hc).registered a l hl
    exact ⟨k₁, msgs, k₂, hh, hr.isOpen, hr.queue⟩
  popped c unit k₁ u a msg k₂ hc hh := by
    obtain ⟨topic, group, now, hrun⟩ := (histories h).run c unit hc
    rw [hh] at hrun
    obtain ⟨j₁, msgs, j₂, rest, rfl, hopen, hn, hq⟩ := hrun.fetched rfl
    rw [← hrun.groupName] at hq
    exact ⟨j₁, msgs, j₂, rest, rfl, hopen, hq, addr_not_mem_fetches hn hq⟩
  request u := by
    have hr := (requestsInv h).requests
    by_cases hu : u < s.consumeMsgUnits.length
    · obtain ⟨-, call, -, -, -, hl⟩ := hr.life u _ (List.getElem?_eq_getElem hu)
      generalize deliveries u s.trace = ds at hl
      cases hl <;> simp
    · rw [hr.fresh u (Nat.le_of_not_lt hu)]
      simp
  reply k call r hk hr hcode := by
    have hi := (requestsInv h).requests
    have hlt : k < s.consumeMsgUnits.length := by
      rw [← hi.length]
      exact (List.getElem?_eq_some_iff.mp hk).1
    obtain ⟨hcall, call', hk', -, -, hl⟩ := hi.life k _ (List.getElem?_eq_getElem hlt)
    obtain rfl := Option.some.inj (hk.symm.trans hk')
    refine ⟨k, s.consumeMsgUnits[k], ?_⟩
    generalize deliveries k s.trace = ds at hl
    cases hl with
    | waiting _ _ hnew =>
      rw [hnew] at hr
      exact absurd hr (by simp [ConsumeCallData.new])
    | timedOut _ _ hf =>
      rw [hf, List.mem_singleton] at hr
      rw [hr] at hcode
      exact absurd hcode (by decide)
    | @delivered c a msg _ _ hf =>
      rw [hf, List.mem_singleton] at hr
      subst hr
      exact ⟨c, a, msg, List.getElem?_eq_getElem hlt, hcall, rfl, rfl, rfl⟩

/-- Two requests share a batch of two messages. -/
theorem handedOut_two : ∃ s,
    (history 0 s.trace = [.registered 1 [(10, ⟨"A", "t", "a", 0⟩), (11, ⟨"B", "t", "b", 0⟩)],
      .fetched 0 1 ⟨10, ⟨1, "A", "t", "g", "a", 0⟩⟩,
      .fetched 1 1 ⟨11, ⟨1, "B", "t", "g", "b", 0⟩⟩]) ∧ HandedOut s := by
  have hrun : (run [.consume "t" "g" 0, .consume "t" "g" 0, .matcher 0 0 true,
      .matcher 0 0 true, .matcher 0 0 true, .matcher 0 0 true,
      .callback 0 1 [(10, ⟨"A", "t", "a", 0⟩), (11, ⟨"B", "t", "b", 0⟩)], .matcher 0 0 true,
      .matcher 0 0 true, .matcher 0 0 true, .matcher 0 0 true]).map
        (fun s => history 0 s.trace) =
      some [.registered 1 [(10, ⟨"A", "t", "a", 0⟩), (11, ⟨"B", "t", "b", 0⟩)],
        .fetched 0 1 ⟨10, ⟨1, "A", "t", "g", "a", 0⟩⟩,
        .fetched 1 1 ⟨11, ⟨1, "B", "t", "g", "b", 0⟩⟩] := by
    decide
  obtain ⟨s, hs, hh⟩ := Option.map_eq_some_iff.mp hrun
  exact ⟨s, hh, handedOut (reachable_run hs)⟩

end Proxy
end RocketmqProxy
