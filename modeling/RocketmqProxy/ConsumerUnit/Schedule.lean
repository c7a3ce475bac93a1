import RocketmqProxy.ConsumerUnit.History

/-!
# One ack per message

A batch whose messages are each delivered and then acked once is released by the
last of these acks and by no earlier one, and its callback returns the statuses of
the acks.  Other batches of the same consumer may be registered, fetched, acked and
returned in between, and nothing depends on the order of the schedule or on the
addresses that the pointer-keyed maps are ordered by.
-/

namespace RocketmqProxy

open Std UnitObs

/-- A schedule of the batch `msgs` under `a`, finished or not: the message at
position `i` is acked at most once, with status `ss[i]`, and after its delivery. -/
structure Schedule (a : Addr) (msgs : List (Addr × MQMessageExt))
    (ss : List ConsumeStatus) (h : List UnitObs) : Prop where
  statuses : ∀ s ∈ ss, s = .consumeSuccess ∨ s = .reconsumeLater
  length : ss.length = msgs.length
  noUnlock : .unlocked ∉ h
  notReturned : ∀ st vec, .reported a st vec ∉ h
  once : ∀ (i : Nat) (hi : i < msgs.length),
    acks msgs[i].2.msgId h = [] ∨ acks msgs[i].2.msgId h = [ss[i]]
  afterDelivery : ∀ p ∈ msgs, ∀ h₁ source s ret h₂,
    h = h₁ ++ .acked source p.2.msgId s ret :: h₂ →
      ∃ unit msg, .fetched unit a msg ∈ h₁ ∧ msg.addr = p.1

/-- Every message of the batch has been acked. -/
def Complete (msgs : List (Addr × MQMessageExt)) (h : List UnitObs) : Prop :=
  ∀ p ∈ msgs, acks p.2.msgId h ≠ []

instance (msgs : List (Addr × MQMessageExt)) (h : List UnitObs) :
    Decidable (Complete msgs h) :=
  inferInstanceAs (Decidable (∀ p ∈ msgs, acks p.2.msgId h ≠ []))

/-- What the listener callback of the batch under `a` returns if it runs on now. -/
def returns (u : ConsumerUnit) (a : Addr) : Option (ConsumeStatus × List ConsumeStatus) :=
  (u.callbackEnd a).map fun r => (r.1, r.2.1)

/-- What it has to return when the messages were acked with `ss`. -/
def verdictOf (ss : List ConsumeStatus) : ConsumeStatus × List ConsumeStatus :=
  if ∀ s ∈ ss, s = .consumeSuccess then (.consumeSuccess, []) else (.reconsumeLater, ss)

namespace UnitObs

theorem acked_of_acks_ne_nil {msgId : String} {h : List UnitObs} (hne : acks msgId h ≠ []) :
    ∃ h₁ source s ret h₂, h = h₁ ++ .acked source msgId s ret :: h₂ := by
  obtain ⟨s, hs⟩ := List.exists_mem_of_ne_nil _ hne
  obtain ⟨source, ret, hmem⟩ := mem_of_mem_acks hs
  obtain ⟨h₁, h₂, rfl⟩ := List.append_of_mem hmem
  exact ⟨h₁, source, s, ret, h₂, rfl⟩

theorem addr_mem_fetches {a : Addr} {h : List UnitObs} {unit : UnitRef} {msg : MsgPtr}
    (hm : .fetched unit a msg ∈ h) : msg ∈ fetches a h := by
  refine List.mem_filterMap.mpr ⟨_, hm, ?_⟩
  simp [toFetch]

end UnitObs

theorem Schedule.of_concat {a : Addr} {msgs : List (Addr × MQMessageExt)}
    {ss : List ConsumeStatus} {h : List UnitObs} {o : UnitObs}
    (hs : Schedule a msgs ss (h ++ [o])) : Schedule a msgs ss h where
  statuses := hs.statuses
  length := hs.length
  noUnlock hm := hs.noUnlock (List.mem_append_left _ hm)
  notReturned st vec hm := hs.notReturned st vec (List.mem_append_left _ hm)
  once i hi := by
    have := hs.once i hi
    rw [acks_append] at this
    rcases this with h' | h'
    · exact .inl (List.append_eq_nil_iff.mp h').1
    · rcases List.append_eq_singleton_iff.mp h' with h'' | h''
      · exact .inl h''.1
      · exact .inr h''.1
  afterDelivery p hp h₁ source s ret h₂ he :=
    hs.afterDelivery p hp h₁ source s ret (h₂ ++ [o]) (by rw [he]; simp)

section Batch

variable {a : Addr} {msgs : List (Addr × MQMessageExt)} {ss : List ConsumeStatus}
  {group : String}

/-- Once every message has been delivered, the queue is empty. -/
theorem Registered.queue_nil {h : List UnitObs} {l : ConsumerUnitLocker}
    (hr : Registered group h a msgs l)
    (hd : ∀ p ∈ msgs, ∃ unit msg, .fetched unit a msg ∈ h ∧ msg.addr = p.1) :
    l.fetchedArr = [] := by
  have hnodup : ((fetches a h ++ l.fetchedArr).map MsgPtr.addr).Nodup := by
    rw [← hr.queue, List.map_map]
    exact hr.nodup
  rw [List.map_append, List.nodup_append] at hnodup
  refine List.eq_nil_iff_forall_not_mem.mpr fun m hm => ?_
  have hmem : m ∈ msgs.map (ConsumerUnitLocker.ptr group) := by
    rw [hr.queue]
    exact List.mem_append_right _ hm
  obtain ⟨p, hp, rfl⟩ := List.mem_map.mp hmem
  obtain ⟨unit, msg, hf, haddr⟩ := hd p hp
  exact hnodup.2.2 msg.addr (List.mem_map_of_mem (addr_mem_fetches hf)) p.1
    (List.mem_map_of_mem hm) haddr

/-- The ack that completes the schedule releases the batch: everything was
delivered before it, and everything is settled by it. -/
theorem Registered.released_by_last {h : List UnitObs} {o : UnitObs}
    {l l' : ConsumerUnitLocker} (hr : Registered group h a msgs l)
    (hr' : Registered group (h ++ [o]) a msgs l')
    (hsched : Schedule a msgs ss (h ++ [o])) (hc : Complete msgs (h ++ [o]))
    (hnot : ¬ Complete msgs h) : l'.clientStatus = .msgConsumeAck := by
  obtain ⟨p, hp, hnil⟩ : ∃ p ∈ msgs, acks p.2.msgId h = [] := by
    simpa [Complete] using hnot
  have hone : acks p.2.msgId [o] ≠ [] := by
    have := hc p hp
    rwa [acks_append, hnil, List.nil_append] at this
  obtain ⟨h₁, source, s, ret, h₂, ho⟩ := acked_of_acks_ne_nil hone
  obtain ⟨rfl, rfl⟩ : h₁ = [] ∧ h₂ = [] := by
    cases h₁ with
    | nil => exact ⟨rfl, (List.cons.inj ho).2.symm⟩
    | cons x xs => simp at ho
  obtain rfl : o = .acked source p.2.msgId s ret := by simpa using ho
  have hdelivered : ∀ q ∈ msgs, ∃ unit msg, .fetched unit a msg ∈ h ∧ msg.addr = q.1 := by
    intro q hq
    obtain ⟨k₁, source', s', ret', k₂, hk⟩ := acked_of_acks_ne_nil (hc q hq)
    obtain ⟨unit, msg, hf, haddr⟩ := hsched.afterDelivery q hq k₁ source' s' ret' k₂ hk
    refine ⟨unit, msg, ?_, haddr⟩
    rcases History.concat_eq_append_cons hk with ⟨k₂', -, rfl⟩ | ⟨-, rfl, -⟩
    · exact List.mem_append_left _ hf
    · exact hf
  have hq : l.fetchedArr = [] := hr.queue_nil hdelivered
  have hops : ops a (h ++ [.acked source p.2.msgId s ret]) =
      ops a h ++ [.setMsgAck p.2.msgId s] := by
    rw [ops_append, ops_singleton]
    rfl
  have hsettled : ∀ q ∈ msgs,
      LockerOp.Settled q.2.msgId (ops a h ++ [.setMsgAck p.2.msgId s]) := by
    intro q hq
    left
    rw [← hops, acks_ops]
    exact hc q hq
  rw [hr'.record, hops]
  rcases @ConsumerUnitLocker.after_setMsgAck msgs group hr.nodup (ops a h)
    p.2.msgId s with h' | h'
  · exact h'.2.2.1
  · exact absurd ⟨hr.record ▸ hq, hsettled⟩ h'.1

/-- A batch stays registered until its callback returns, and it is released as soon
as its schedule is complete. -/
theorem UnitSteps.schedule {u₁ u : ConsumerUnit} {h : List UnitObs}
    (hs : UnitSteps u₁ h u) (hne : msgs ≠ [])
    (hn : (msgs.map Prod.fst).Nodup)
    (hl : u₁.lockers[a]? = some (.new msgs group))
    (hcb : u₁.callbacks[a]? = some (msgs.map Prod.snd))
    (hsched : Schedule a msgs ss h) :
    ∃ l, u.lockers[a]? = some l ∧ u.callbacks[a]? = some (msgs.map Prod.snd) ∧
      Registered group h a msgs l ∧ (Complete msgs h → l.clientStatus = .msgConsumeAck) := by
  induction hs with
  | refl =>
    refine ⟨_, hl, hcb, .start hn, fun hc => ?_⟩
    obtain ⟨p, hp⟩ := List.exists_mem_of_ne_nil _ hne
    exact absurd rfl (hc p hp)
  | silent _ hlock hcall _ ih =>
    obtain ⟨l, hl', hcb', hrest⟩ := ih hsched
    exact ⟨l, by rw [hlock, hl'], by rw [hcall, hcb'], hrest⟩
  | @step h u u' o hs hstep ih =>
    obtain ⟨l, hl', hcb', hr, hrel⟩ := ih hsched.of_concat
    have hp : ∀ st vec, o ≠ .reported a st vec := by
      rintro st vec rfl
      exact hsched.notReturned st vec (List.mem_append_right h List.mem_cons_self)
    obtain ⟨l', hlock, hr'⟩ := hstep.keeps_registered hl' hr hp
    refine ⟨l', hlock, (hstep.callbacks hl' hp).trans hcb', hr', fun hc => ?_⟩
    by_cases hold : Complete msgs h
    · have hreleased := hrel hold
      rw [hr.record] at hreleased
      rw [hr'.record, ops_append, ops_singleton]
      cases toOp a o with
      | none => simpa using hreleased
      | some op =>
        rw [Option.toList_some, ConsumerUnitLocker.after_concat]
        exact ConsumerUnitLocker.apply_released op hreleased
    · exact hr.released_by_last hr' hsched hc hold

/-- The verdict of a released batch whose schedule is complete. -/
theorem Registered.verdict_eq {h : List UnitObs} {l : ConsumerUnitLocker}
    (hr : Registered group h a msgs l) (hsched : Schedule a msgs ss h)
    (hc : Complete msgs h) (hrel : l.clientStatus = .msgConsumeAck) :
    l.verdict (msgs.map Prod.snd) = verdictOf ss := by
  have hlen := hsched.length
  have hacks : ∀ (i : Nat) (hi : i < msgs.length) (hi' : i < ss.length),
      LockerOp.acks msgs[i].2.msgId (ops a h) = [ss[i]] := by
    intro i hi hi'
    rw [acks_ops]
    rcases hsched.once i hi with h' | h'
    · exact absurd h' (hc _ (List.getElem_mem hi))
    · exact h'
  have hlast : ∀ (i : Nat) (hi : i < msgs.length) (hi' : i < ss.length),
      LockerOp.lastAck msgs[i].2.msgId (ops a h) = ss[i] := by
    intro i hi hi'
    rw [LockerOp.lastAck, hacks i hi hi']
    rfl
  have hu : LockerOp.unlock ∉ ops a h := by
    rw [unlock_mem_ops]
    exact hsched.noUnlock
  have hstatus : l.status = ConsumerUnitLocker.aggregate msgs (ops a h) := by
    rw [hr.record] at hrel ⊢
    exact (ConsumerUnitLocker.quiet_of_released hr.nodup _ hu hrel).2
  by_cases hall : ∀ s ∈ ss, s = .consumeSuccess
  · have hno : ¬ ∃ p ∈ msgs,
        LockerOp.lastAck p.2.msgId (ops a h) = .reconsumeLater := by
      rintro ⟨p, hp, hl⟩
      obtain ⟨i, hi, rfl⟩ := List.mem_iff_getElem.mp hp
      rw [hlast i hi (by omega), hall _ (List.getElem_mem _)] at hl
      exact absurd hl (by simp)
    rw [ConsumerUnitLocker.aggregate, if_neg hno] at hstatus
    rw [verdictOf, if_pos hall]
    simp [ConsumerUnitLocker.verdict, hstatus]
  · have hyes : ∃ p ∈ msgs, LockerOp.lastAck p.2.msgId (ops a h) = .reconsumeLater := by
      push Not at hall
      obtain ⟨s, hs, hne⟩ := hall
      obtain ⟨i, hi, rfl⟩ := List.mem_iff_getElem.mp hs
      refine ⟨msgs[i], List.getElem_mem (by omega), ?_⟩
      rw [hlast i (by omega) hi]
      exact (hsched.statuses _ hs).resolve_left hne
    rw [ConsumerUnitLocker.aggregate, if_pos hyes] at hstatus
    rw [ConsumerUnitLocker.verdict, if_pos hstatus, hstatus, verdictOf, if_neg hall]
    congr 1
    refine List.ext_getElem (by simp [hlen]) fun i hi hi' => ?_
    have him : i < msgs.length := by omega
    -- `reconsumeMap` holds the id exactly when its one ack was RECONSUME_LATER
    have hmem : msgs[i].2.msgId ∈ l.reconsumeMap ↔ ss[i] = .reconsumeLater := by
      rw [hr.record, (ConsumerUnitLocker.tracks_after hr.nodup _).reconsume, hacks i him hi']
      simp only [List.mem_singleton, eq_comm, and_iff_left_iff_imp]
      exact fun _ => ⟨msgs[i], List.getElem_mem him, rfl⟩
    simp only [List.getElem_map, TreeMap.contains_iff_mem, hmem]
    rcases hsched.statuses _ (List.getElem_mem hi') with h' | h' <;> simp [h']

end Batch

/-- A history whose first operation registers the batch. -/
theorem UnitSteps.after_registered {u₀ u : ConsumerUnit} {a : Addr}
    {msgs : List (Addr × MQMessageExt)} {h : List UnitObs}
    (hs : UnitSteps u₀ (.registered a msgs :: h) u) :
    ∃ u₁, (msgs.map Prod.fst).Nodup ∧
      u₁.lockers[a]? = some (.new msgs u₀.consumer.groupName) ∧
      u₁.callbacks[a]? = some (msgs.map Prod.snd) ∧ UnitSteps u₁ h u := by
  generalize hk : UnitObs.registered a msgs :: h = k at hs
  induction hs generalizing h with
  | refl => exact absurd hk (by simp)
  | silent _ hlock hcb hg ih =>
    obtain ⟨u₁, hn, hl, hm, hrest⟩ := ih hk
    exact ⟨u₁, hn, hl, hm, .silent hrest hlock hcb hg⟩
  | @step k u u' o hs hstep ih =>
    cases k with
    | nil =>
      obtain ⟨rfl, rfl⟩ : UnitObs.registered a msgs = o ∧ h = [] := by simpa using hk
      cases hstep with
      | registered hfresh hn =>
        refine ⟨_, hn, ?_, ?_, .refl⟩
        · have hnone : u.lockers[a]? = none := by
            rw [← Option.not_isSome_iff_eq_none, ← TreeMap.mem_iff_isSome_getElem?]
            exact hfresh
          simp only [ConsumerUnit.callbackBegin, ConsumerUnit.waitLock]
          rw [TreeMapLoop.getElem?_insertIfNew, if_pos rfl, hnone, hs.groupName]
          rfl
        · simp only [ConsumerUnit.callbackBegin]
          rw [TreeMap.getElem?_insert_self]
    | cons x k =>
      rw [List.cons_append] at hk
      obtain ⟨rfl, rfl⟩ := List.cons.inj hk
      obtain ⟨u₁, hn, hl, hm, hrest⟩ := ih rfl
      exact ⟨u₁, hn, hl, hm, .step hrest hstep⟩

theorem returns_eq {u : ConsumerUnit} {a : Addr} {l : ConsumerUnitLocker}
    {msgs : List MQMessageExt} (hl : u.lockers[a]? = some l)
    (hm : u.callbacks[a]? = some msgs) :
    returns u a = if l.clientStatus = .msgConsumeAck then some (l.verdict msgs) else none := by
  simp only [returns, ConsumerUnit.callbackEnd, hl, hm, Option.bind_eq_bind, Option.bind_some]
  split <;> rfl

/-- A batch of at least one message that follows a schedule is released exactly when
the schedule is complete, and then its callback returns what the acks say.  The
callback of any other batch of the same messages, acked with the same statuses in
another order and with its objects at other addresses, returns the same. -/
theorem batch_protocol {u₀ u : ConsumerUnit} {a : Addr}
    {msgs : List (Addr × MQMessageExt)} {ss : List ConsumeStatus} {h : List UnitObs}
    (hs : UnitSteps u₀ (.registered a msgs :: h) u) (hne : msgs ≠ [])
    (hsched : Schedule a msgs ss h) :
    (∃ l, u.lockers[a]? = some l ∧
        (l.clientStatus = .msgConsumeAck ↔ Complete msgs h)) ∧
      (Complete msgs h → returns u a = some (verdictOf ss)) ∧
      (¬ Complete msgs h → returns u a = none) ∧
      ∀ (u₀' u' : ConsumerUnit) (a' : Addr) (msgs' : List (Addr × MQMessageExt))
        (h' : List UnitObs), UnitSteps u₀' (.registered a' msgs' :: h') u' →
        msgs'.map Prod.snd = msgs.map Prod.snd → Schedule a' msgs' ss h' →
        Complete msgs h → Complete msgs' h' → returns u' a' = returns u a := by
  -- the release and the verdict of one scheduled batch
  have key : ∀ {u₀ u : ConsumerUnit} {a : Addr} {msgs : List (Addr × MQMessageExt)}
      {h : List UnitObs}, UnitSteps u₀ (.registered a msgs :: h) u → msgs ≠ [] →
      Schedule a msgs ss h →
      ∃ l, u.lockers[a]? = some l ∧ u.callbacks[a]? = some (msgs.map Prod.snd) ∧
        (l.clientStatus = .msgConsumeAck ↔ Complete msgs h) ∧
        (Complete msgs h → returns u a = some (verdictOf ss)) := by
    intro u₀ u a msgs h hs hne hsched
    obtain ⟨u₁, hn, hl₁, hm₁, hs₁⟩ := hs.after_registered
    obtain ⟨l, hl, hm, hr, hrel⟩ := hs₁.schedule hne hn hl₁ hm₁ hsched
    refine ⟨l, hl, hm, ⟨fun hreleased p hp => ?_, hrel⟩, fun hc => ?_⟩
    · rw [hr.record] at hreleased
      rcases ConsumerUnitLocker.settled_of_released hn _ hreleased p hp with hset | hset
      · rwa [acks_ops] at hset
      · exact absurd ((unlock_mem_ops a h).mp hset) hsched.noUnlock
    · rw [returns_eq hl hm, if_pos (hrel hc), hr.verdict_eq hsched hc (hrel hc)]
  obtain ⟨l, hl, hm, hiff, hret⟩ := key hs hne hsched
  refine ⟨⟨l, hl, hiff⟩, hret, fun hc => ?_, ?_⟩
  · rw [returns_eq hl hm, if_neg (mt hiff.mp hc)]
  · intro u₀' u' a' msgs' h' hs' hmsgs hsched' hc hc'
    have hne' : msgs' ≠ [] := by
      rintro rfl
      exact hne (List.map_eq_nil_iff.mp hmsgs.symm)
    obtain ⟨-, -, -, -, hret'⟩ := key hs' hne' hsched'
    rw [hret' hc', hret hc]

/-! ## A batch of two messages

The second message is acked first and the first one times out. -/

def twoMsgs : List (Addr × MQMessageExt) :=
  [(10, ⟨"A", "t", "a", 0⟩), (11, ⟨"B", "t", "b", 0⟩)]

def twoHistory : List UnitObs :=
  [.fetched 0 1 (ConsumerUnitLocker.ptr "g" (10, ⟨"A", "t", "a", 0⟩)),
    .fetched 1 1 (ConsumerUnitLocker.ptr "g" (11, ⟨"B", "t", "b", 0⟩)),
    .acked (.consumeAck 0) "B" .consumeSuccess true,
    .acked (.ackTimeout 0) "A" .reconsumeLater true]

theorem twoSchedule : Schedule 1 twoMsgs [.reconsumeLater, .consumeSuccess] twoHistory where
  statuses := by decide
  length := rfl
  noUnlock := by decide
  notReturned st vec := by simp [twoHistory]
  once i hi := by
    match i, hi with
    | 0, _ => exact .inr rfl
    | 1, _ => exact .inr rfl
  afterDelivery p hp h₁ source s ret h₂ he := by
    rcases h₁ with _ | ⟨o₁, _ | ⟨o₂, _ | ⟨o₃, _ | ⟨o₄, h₁⟩⟩⟩⟩ <;>
      simp only [twoHistory, List.nil_append, List.cons_append, List.cons.injEq, reduceCtorEq,
        false_and, and_false, List.nil_eq, List.append_eq_nil_iff] at he
    · simp only [twoMsgs, List.mem_cons, List.not_mem_nil, or_false] at hp
      obtain ⟨rfl, rfl, he, -⟩ := he
      rcases hp with rfl | rfl
      · simp at he
      · exact ⟨1, ConsumerUnitLocker.ptr "g" (11, ⟨"B", "t", "b", 0⟩), by simp, rfl⟩
    · simp only [twoMsgs, List.mem_cons, List.not_mem_nil, or_false] at hp
      obtain ⟨rfl, rfl, rfl, he, -⟩ := he
      rcases hp with rfl | rfl
      · exact ⟨0, ConsumerUnitLocker.ptr "g" (10, ⟨"A", "t", "a", 0⟩), by simp, rfl⟩
      · simp at he

theorem batch_protocol_two :
    ∃ u, UnitSteps (.new "t" "g" 0) (.registered 1 twoMsgs :: twoHistory) u ∧
      returns u 1 = some (.reconsumeLater, [.reconsumeLater, .consumeSuccess]) := by
  let u₁ := (ConsumerUnit.new "t" "g" 0).callbackBegin 1 twoMsgs
  let u₂ := u₁.fetchAndConsume.2
  let u₃ := u₂.fetchAndConsume.2
  let u₄ := (u₃.setMsgAck "B" .consumeSuccess).2
  have s₁ : UnitStep (.new "t" "g" 0) (.registered 1 twoMsgs) u₁ :=
    .registered (by decide) (by decide)
  have s₂ : UnitStep u₁
      (.fetched 0 1 (ConsumerUnitLocker.ptr "g" (10, ⟨"A", "t", "a", 0⟩))) u₂ :=
    .fetch (by decide)
  have s₃ : UnitStep u₂
      (.fetched 1 1 (ConsumerUnitLocker.ptr "g" (11, ⟨"B", "t", "b", 0⟩))) u₃ :=
    .fetch (by decide)
  have s₄ : UnitStep u₃ (.acked (.consumeAck 0) "B" .consumeSuccess true) u₄ :=
    .ack (by decide) (.inl ⟨0, rfl⟩)
  have s₅ : UnitStep u₄ (.acked (.ackTimeout 0) "A" .reconsumeLater true)
      (u₄.setMsgAck "A" .reconsumeLater).2 := .ack (by decide) (.inr rfl)
  have hs := ((((UnitSteps.refl.step s₁).step s₂).step s₃).step s₄).step s₅
  exact ⟨_, hs, (batch_protocol hs (by decide) twoSchedule).2.1 (by decide)⟩

end RocketmqProxy
