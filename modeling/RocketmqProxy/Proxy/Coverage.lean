import RocketmqProxy.Proxy.OneConsumer
import RocketmqProxy.Proxy.Progress

/-!
# Every outstanding delivery has a timer

A message that a client has got and not answered settles its batch late: its unit is in
the pool, and when the wait for the ack is over the matcher settles every message of that
id.  The unit leaves the pool, or loses its status to an ack, only together with what it
guards, as long as one message id is in flight under one topic and group.
-/

namespace RocketmqProxy

open Std

/-- A message of the batch that has been handed out and is not settled. -/
structure ConsumerUnitLocker.Outstanding (l : ConsumerUnitLocker) (msgId : String)
    (p : Addr) : Prop where
  filed : l.Filed msgId p
  delivered : p ∉ l.fetchedArr.map MsgPtr.addr
  pending : l.clientStatusMap[p]? ≠ some .msgConsumeAck

namespace ConsumerUnitLocker.Outstanding

variable {l : ConsumerUnitLocker} {msgId x : String} {s : ConsumeStatus} {p : Addr}

/-- An ack settles what has its id, and nothing becomes outstanding. -/
theorem of_ack (h : (l.ack x s).Outstanding msgId p) : l.Outstanding msgId p ∧ msgId ≠ x := by
  classical
  obtain ⟨hf, hd, hp⟩ := h
  have hf' : l.Filed msgId p := by
    simpa only [ConsumerUnitLocker.ack, ConsumerUnitLocker.Filed, triggerCheck_idMsgMap,
      setMsgStatus_idMsgMap] using hf
  rw [ConsumerUnitLocker.ack, triggerCheck_fetchedArr, setMsgStatus_fetchedArr] at hd
  rw [ConsumerUnitLocker.ack, triggerCheck_clientStatusMap, setMsgStatus_clientStatusMap] at hp
  by_cases hx : l.Filed x p
  · exact absurd (if_pos hx) hp
  · rw [if_neg hx] at hp
    refine ⟨⟨hf', hd, hp⟩, ?_⟩
    rintro rfl
    exact hx hf'

theorem of_unlock (h : l.unlock.Outstanding msgId p) : l.Outstanding msgId p := by
  obtain ⟨hf, hd, hp⟩ := h
  rw [unlock_clientStatusMap] at hp
  refine ⟨?_, unlock_fetchedArr l ▸ hd, ?_⟩
  · simpa only [ConsumerUnitLocker.Filed, unlock_idMsgMap] using hf
  · split at hp
    · exact absurd rfl hp
    · exact hp

/-- What is outstanding after a message has left the queue was outstanding, or is that
message. -/
theorem of_getMsg {msg : MsgPtr} {rest : List MsgPtr} (hq : l.fetchedArr = msg :: rest)
    (h : ({ l with fetchedArr := rest } : ConsumerUnitLocker).Outstanding msgId p) :
    l.Outstanding msgId p ∨ msg.addr = p := by
  by_cases hp : msg.addr = p
  · exact .inr hp
  · refine .inl ⟨h.filed, ?_, h.pending⟩
    rw [hq, List.map_cons, List.mem_cons, not_or]
    exact ⟨Ne.symm hp, h.delivered⟩

theorem not_new {msgs : List (Addr × MQMessageExt)} {group : String} :
    ¬ (ConsumerUnitLocker.new msgs group).Outstanding msgId p := by
  rintro ⟨hf, hd, -⟩
  obtain ⟨q, hq, rfl, -⟩ := (filed_new msgs group msgId p).mp hf
  rw [new_fetchedArr, List.map_map] at hd
  exact hd (List.mem_map_of_mem hq)

end ConsumerUnitLocker.Outstanding

/-- No operation files a message anew. -/
theorem ConsumerUnitLocker.Filed.foldl_apply {l : ConsumerUnitLocker} {msgId : String}
    {p : Addr} (h : l.Filed msgId p) (ops : List LockerOp) :
    (ops.foldl ConsumerUnitLocker.apply l).Filed msgId p := by
  induction ops generalizing l with
  | nil => exact h
  | cons op ops ih =>
    refine ih ?_
    cases op with
    | getMsg =>
      rw [ConsumerUnitLocker.apply_getMsg]
      exact h
    | setMsgAck x s =>
      simpa only [ConsumerUnitLocker.apply, ConsumerUnitLocker.ack, ConsumerUnitLocker.Filed,
        ConsumerUnitLocker.triggerCheck_idMsgMap,
        ConsumerUnitLocker.setMsgStatus_idMsgMap] using h
    | unlock =>
      simpa only [ConsumerUnitLocker.apply, ConsumerUnitLocker.Filed,
        ConsumerUnitLocker.unlock_idMsgMap] using h

/-- A message in the queue of a registered batch is filed under its own id. -/
theorem Registered.filed_queue {group : String} {h : List UnitObs} {a : Addr}
    {msgs : List (Addr × MQMessageExt)} {l : ConsumerUnitLocker}
    (hr : Registered group h a msgs l) {msg : MsgPtr} (hm : msg ∈ l.fetchedArr)
    {msgId : String} (hf : l.Filed msgId msg.addr) : msgId = msg.unit.msgId := by
  have htracks := @ConsumerUnitLocker.tracks_after msgs group hr.nodup (UnitObs.ops a h)
  rw [← hr.record] at htracks
  obtain ⟨q, hq, ha, rfl⟩ := (htracks.filed msgId msg.addr).mp hf
  have hmem : msg ∈ msgs.map (ConsumerUnitLocker.ptr group) := by
    rw [hr.queue]
    exact List.mem_append_right _ hm
  obtain ⟨q', hq', rfl⟩ := List.mem_map.mp hmem
  obtain rfl : q = q' := List.inj_on_of_nodup_map hr.nodup hq hq' ha
  rfl

/-- What is outstanding after an operation on the batches was outstanding, and no ack of
the operation named it, or the operation has handed it out. -/
theorem UnitStep.outstanding {u u' : ConsumerUnit} {o : UnitObs} (h : UnitStep u o u')
    {a : Addr} {l' : ConsumerUnitLocker} {msgId : String} {p : Addr}
    (hl' : u'.lockers[a]? = some l') (ho : l'.Outstanding msgId p) :
    (∃ l, u.lockers[a]? = some l ∧ l.Outstanding msgId p ∧
        ∀ source x st ret, o = .acked source x st ret → msgId ≠ x) ∨
      ∃ v msg l rest, o = .fetched v a msg ∧ u.lockers[a]? = some l ∧
        l.fetchedArr = msg :: rest ∧ l.Filed msgId msg.addr := by
  rcases h.locker_back hl' with ⟨msgs, -, -, rfl, -⟩ | ⟨hp, l, hl⟩
  · exact absurd ho ConsumerUnitLocker.Outstanding.not_new
  · have hkept := h.locker hl hp
    rw [hl'] at hkept
    obtain rfl := Option.some.inj hkept
    cases h with
    | registered | reported => exact .inl ⟨l, hl, ho, by simp⟩
    | unlocked => exact .inl ⟨l, hl, ho.of_unlock, by simp⟩
    | @acked source x st hs =>
      obtain ⟨ho', hne⟩ := ho.of_ack
      refine .inl ⟨l, hl, ho', fun _ _ _ _ he => ?_⟩
      obtain ⟨-, rfl, -, -⟩ := UnitObs.acked.inj he
      exact hne
    | @fetched _ v b msg hf =>
      obtain ⟨l₀, rest, hl₀, hq, -⟩ := ConsumerUnit.fetchAndConsume_some hf
      by_cases hba : b = a
      · subst hba
        obtain rfl := Option.some.inj (hl₀.symm.trans hl)
        rw [UnitObs.ops_singleton, UnitObs.toOp, if_pos rfl] at ho
        simp only [Option.toList, List.foldl_cons, List.foldl_nil,
          ConsumerUnitLocker.apply_getMsg, hq, List.drop_one, List.tail_cons] at ho
        rcases ho.of_getMsg hq with ho' | rfl
        · exact .inl ⟨l₀, hl, ho', by simp⟩
        · exact .inr ⟨v, msg, l₀, rest, rfl, hl, hq, ho.filed⟩
      · rw [UnitObs.ops_singleton, UnitObs.toOp, if_neg hba] at ho
        exact .inl ⟨l, hl, ho, by simp⟩

namespace Proxy

/-- Each iteration of the matcher and each handling of the gRPC thread goes on to its end
before another thread moves. -/
structure Uninterrupted (s : Proxy) (e : Event) : Prop where
  matcher : s.matcher ≠ .pop → turn e = some .matcher
  grpc : s.grpc ≠ .next → turn e = some .grpc

/-- A batch registered for the topic and the group holds a message of the id. -/
def InFlight (s : Proxy) (msgId topic group : String) : Prop :=
  ∃ (c : ConsumerRef) (consumer : ConsumerUnit) (a : Addr) (l : ConsumerUnitLocker) (p : Addr),
    s.consumerUnits[c]? = some consumer ∧ consumer.consumer.topic = topic ∧
      consumer.consumer.groupName = group ∧ consumer.lockers[a]? = some l ∧ l.Filed msgId p

/-- No message id is in flight under two topics and groups. -/
def OneFlight (s : Proxy) : Prop :=
  ∀ msgId topic group topic' group', InFlight s msgId topic group →
    InFlight s msgId topic' group' → topic = topic' ∧ group = group'

/-- A step of a run in which handlings are not interrupted, nothing is shut down, and each
message id is in flight under one topic and group. -/
structure Orderly (s : Proxy) (e : Event) : Prop where
  uninterrupted : Uninterrupted s e
  noShutdown : NoShutdown s e
  oneFlight : OneFlight s

/-- The unit `u` waits in the pool for an ack of the message that it has from `c`. -/
structure Guards (s : Proxy) (c : ConsumerRef) (msgId : String) (u : UnitRef)
    (unit : ConsumeMsgUnit) : Prop where
  queued : u ∈ s.queue
  found : s.consumeMsgUnits[u]? = some unit
  consumer : s.consumers[unit.topic ++ unit.group]? = some c
  status : unit.status = .clientReceive
  id : unit.msgId = msgId

/-- Some message of that id is outstanding in the batch `a` of the consumer `c`. -/
def OutstandingAt (s : Proxy) (c : ConsumerRef) (a : Addr) (msgId : String) : Prop :=
  ∃ (consumer : ConsumerUnit) (l : ConsumerUnitLocker) (p : Addr),
    s.consumerUnits[c]? = some consumer ∧ consumer.lockers[a]? = some l ∧ l.Outstanding msgId p

theorem Uninterrupted.raceFree {s : Proxy} {e : Event} (h : Uninterrupted s e) :
    RaceFree s e := by
  intro t key ht hc hn get hc'
  -- the other thread is in a call, so it would be its turn
  cases t with
  | matcher =>
    have hg : s.grpc ≠ .next := by
      intro hg
      simp [Caller.other, Proxy.call, hg] at hc'
    exact absurd (ht.symm.trans (h.grpc hg)) (by simp)
  | grpc =>
    have hm : s.matcher ≠ .pop := by
      intro hm
      simp [Caller.other, Proxy.call, hm] at hc'
    exact absurd (ht.symm.trans (h.matcher hm)) (by simp)

theorem Orderly.oneByOne {s : Proxy} {e : Event} (h : Orderly s e) : OneByOne s e :=
  ⟨h.noShutdown, h.uninterrupted.raceFree⟩

/-! ## What a step leaves outstanding -/

theorem OutstandingAt.of_same {s s' : Proxy} {c : ConsumerRef} {a : Addr} {msgId : String}
    (h : OutstandingAt s' c a msgId) (hsame : SameUnits s.consumerUnits s'.consumerUnits) :
    OutstandingAt s c a msgId := by
  obtain ⟨consumer', l, p, hc, hl, ho⟩ := h
  obtain ⟨consumer, hc₀, hb⟩ := hsame.get hc
  exact ⟨consumer, l, p, hc₀, hb.lockers ▸ hl, ho⟩

theorem OutstandingAt.of_append {s s' : Proxy} {c : ConsumerRef} {a : Addr} {msgId : String}
    (h : OutstandingAt s' c a msgId) {topic group : String} {now : Int}
    (hnew : s'.consumerUnits = s.consumerUnits ++ [.new topic group now]) :
    OutstandingAt s c a msgId := by
  obtain ⟨consumer', l, p, hc, hl, ho⟩ := h
  rw [hnew, List.getElem?_append] at hc
  split at hc
  · exact ⟨consumer', l, p, hc, hl, ho⟩
  · rw [List.getElem?_singleton, Option.ite_none_right_eq_some] at hc
    obtain rfl := Option.some.inj hc.2
    exact absurd hl (by simp [ConsumerUnit.new])

/-- An operation on the batches of one consumer that hands nothing out. -/
theorem OutstandingAt.of_set {s s' : Proxy} {c d : ConsumerRef} {a : Addr} {msgId : String}
    {unit unit' : ConsumerUnit} {o : UnitObs} (h : OutstandingAt s' c a msgId)
    (hd : s.consumerUnits[d]? = some unit) (hstep : UnitStep unit o unit')
    (ho : ∀ v b msg, o ≠ .fetched v b msg)
    (hset : s'.consumerUnits = s.consumerUnits.set d unit') :
    OutstandingAt s c a msgId ∧
      ∀ source x st ret, c = d → o = .acked source x st ret → msgId ≠ x := by
  obtain ⟨consumer', l', p, hc, hl, hout⟩ := h
  rw [hset] at hc
  by_cases hcd : d = c
  · subst hcd
    rw [Heap.set_self hd] at hc
    obtain rfl := Option.some.inj hc
    rcases hstep.outstanding hl hout with ⟨l, hl₀, hout₀, hne⟩ | ⟨v, msg, l, rest, he, -⟩
    · exact ⟨⟨unit, l, p, hd, hl₀, hout₀⟩, fun source x st ret _ => hne source x st ret⟩
    · exact absurd he (ho v a msg)
  · rw [List.getElem?_set_ne hcd] at hc
    exact ⟨⟨consumer', l', p, hc, hl, hout⟩, fun _ _ _ _ he => absurd he.symm hcd⟩

theorem OutstandingAt.of_acked {s s' : Proxy} {c d : ConsumerRef} {a : Addr}
    {msgId x : String} {st : ConsumeStatus} {unit : ConsumerUnit}
    (h : OutstandingAt s' c a msgId) (hd : s.consumerUnits[d]? = some unit)
    (hset : s'.consumerUnits = s.consumerUnits.set d (unit.setMsgAck x st).2) :
    OutstandingAt s c a msgId ∧ (c = d → msgId ≠ x) := by
  have hstep := @UnitStep.acked unit (.consumeAck 0) x st (.inl ⟨0, rfl⟩)
  obtain ⟨ho, hne⟩ := h.of_set hd hstep (by simp) hset
  exact ⟨ho, fun hcd => hne _ x st _ hcd rfl⟩

theorem GetStep.outstandingAt {s s' : Proxy} {topic group : String} {now : Int}
    {get get' : GetConsumer} {consumers : TreeMap String ConsumerRef}
    {msgPool : TreeMap String (List MsgUnit)} {units : List ConsumerUnit}
    (h : GetStep s topic group now get consumers msgPool units get')
    (hu : s'.consumerUnits = units) {c : ConsumerRef} {a : Addr} {msgId : String}
    (ho : OutstandingAt s' c a msgId) : OutstandingAt s c a msgId := by
  cases h with
  | found | failed | inserted => exact ho.of_same (hu ▸ .refl _)
  | created => exact ho.of_append hu
  | started d => exact ho.of_same (hu ▸ .modify (SameBatches.setState _) _ d)

/-- A step makes nothing outstanding unless it delivers a message. -/
theorem Step.outstandingAt {s s' : Proxy} {e : Event} (h : Step s e s') {c : ConsumerRef}
    {a : Addr} {msgId : String} (ho : OutstandingAt s' c a msgId) :
    OutstandingAt s c a msgId ∨
      ∃ u unit consumer l msg rest, s.matcher = .getConsumer u (.done (some c)) ∧
        s.consumeMsgUnits[u]? = some unit ∧ s.consumerUnits[c]? = some consumer ∧
        consumer.lockers[a]? = some l ∧ l.fetchedArr = msg :: rest ∧
        l.Filed msgId msg.addr ∧ u ∈ s'.queue ∧ s'.consumers = s.consumers ∧
        s'.consumeMsgUnits[u]? =
          some { unit with msgId := msg.unit.msgId, status := .clientReceive } := by
  cases h with
  | cancelGet _ _ hget | ackGet _ _ hget | matcherGet _ _ hget =>
    exact .inl (hget.outstandingAt rfl ho)
  | cancelSet _ _ hc | ackAccepted _ _ hc | ackRejected _ _ hc | ackTimeout _ _ hc =>
    exact .inl (ho.of_acked hc rfl).1
  | callback hc _ ha hn => exact .inl (ho.of_set hc (.registered ha hn) (by simp) rfl).1
  | callbackReturn hc he => exact .inl (ho.of_set hc (.reported he) (by simp) rfl).1
  | clearUnlock _ hc => exact .inl (ho.of_set hc .unlocked (by simp) rfl).1
  | consumeAck | fetchTimeout => exact .inl (ho.of_same (.resetConsumerActive s _ _ _ _))
  | shutdownBegin | shutdownEnd =>
    exact .inl (ho.of_same (.modify (SameBatches.setState _) _ _))
  | @deliver u unit d consumer consumer' b msg call now now' _ hm hu hc hs hk hf =>
    obtain ⟨consumer₂, l', p, hc₂, hl, hout⟩ := ho
    obtain ⟨consumer₁, hc₁, hb⟩ := (SameUnits.resetConsumerActive s
      (s.consumerUnits.set d consumer') unit.topic unit.group now).get hc₂
    rw [hb.lockers] at hl
    by_cases hdc : d = c
    · subst hdc
      rw [Heap.set_self hc] at hc₁
      obtain rfl := Option.some.inj hc₁
      rcases (@UnitStep.fetched _ _ u _ _ hf).outstanding hl hout with
        ⟨l, hl₀, hout₀, -⟩ | ⟨v, m, l, rest, he, hl₀, hq, hfiled⟩
      · exact .inl ⟨consumer, l, p, hc, hl₀, hout₀⟩
      · obtain ⟨-, rfl, rfl⟩ := UnitObs.fetched.inj he
        refine .inr ⟨u, unit, consumer, l, msg, rest, hm, hu, hc, hl₀, hq, hfiled, ?_, rfl,
          Heap.set_self hu _⟩
        exact List.mem_append_right _ (List.mem_append_right _ (List.mem_singleton_self u))
    · rw [List.getElem?_set_ne hdc] at hc₁
      exact .inl ⟨consumer₁, l', p, hc₁, hl, hout⟩
  | _ => exact .inl (ho.of_same (.refl _))

/-! ## What a step leaves guarded -/

theorem queue_of_held {s : Proxy} {u v : UnitRef} {get : GetConsumer}
    (hm : s.matcher = .getConsumer v get) (hq : u ∈ s.queue) (hne : v ≠ u) :
    u ∈ s.consumeMsgPool := by
  rw [queue_held hm, List.mem_cons] at hq
  exact hq.resolve_left (Ne.symm hne)

/-- A unit goes on guarding its delivery unless its ack timeout settles the message, or
the ack handler is about to mark it. -/
theorem Step.guards {s s' : Proxy} {e : Event} (h : Step s e s') {c : ConsumerRef}
    {msgId : String} {u : UnitRef} {unit : ConsumeMsgUnit} (hg : Guards s c msgId u unit)
    (hkept : s'.consumers[unit.topic ++ unit.group]? = some c) :
    Guards s' c msgId u unit ∨
      (∃ d consumer, s.matcher = .getConsumer u (.done (some d)) ∧
        s.consumerUnits[d]? = some consumer ∧
        s'.consumerUnits = s.consumerUnits.set d (consumer.setMsgReconsume msgId).2) ∨
      ∃ k, s.grpc = .ackStore k (some u) := by
  have hmove : u ∈ s'.queue → s'.consumeMsgUnits[u]? = some unit → Guards s' c msgId u unit :=
    fun hq hu => ⟨hq, hu, hkept, hg.status, hg.id⟩
  -- a unit of another status is another unit
  have hne : ∀ {v unit'}, s.consumeMsgUnits[v]? = some unit' →
      unit'.status ≠ .clientReceive → v ≠ u := by
    rintro v unit' hv hs rfl
    obtain rfl := Option.some.inj (hv.symm.trans hg.found)
    exact hs hg.status
  cases h with
  | consume =>
    refine .inl (hmove ?_ (Heap.append_old hg.found _))
    have hq := hg.queued
    rw [queue, List.mem_append] at hq ⊢
    exact hq.imp_right fun hq => List.mem_append_left _ hq
  | pop hm hp =>
    refine .inl (hmove ?_ hg.found)
    have hq := hg.queued
    rw [queue, hm, hp] at hq
    exact hq
  | matcherGet hm hu hget =>
    refine .inl (hmove ?_ hg.found)
    have hq := hg.queued
    rw [queue_held hm] at hq
    exact hq
  | @ackStore k call v _ _ hk =>
    cases v with
    | none => exact .inl (hmove hg.queued hg.found)
    | some v =>
      by_cases hvu : v = u
      · subst hvu
        exact .inr (.inr ⟨k, hk⟩)
      · exact .inl (hmove hg.queued ((List.getElem?_modify_ne _ _ hvu).trans hg.found))
  | deliver hm hu hc hs hk hf =>
    have hvu := hne hu (by simp [hs])
    refine .inl (hmove ?_ ((List.getElem?_set_ne hvu).trans hg.found))
    exact List.mem_append_right _ (List.mem_append_left _ (queue_of_held hm hg.queued hvu))
  | fetchTimeout hm hu _ hs | drop hm hu hs =>
    have hpool := queue_of_held hm hg.queued (hne hu (by simp [hs]))
    exact .inl (hmove (List.mem_append_right _ hpool) hg.found)
  | requeue hm hu hs =>
    have hq := hg.queued
    rw [queue_held hm] at hq
    exact .inl (hmove ((List.perm_append_singleton _ _).mem_iff.mpr hq) hg.found)
  | @ackTimeout v unit' d consumer _ _ _ hm hu hc hs ht =>
    by_cases hvu : v = u
    · subst hvu
      obtain rfl := Option.some.inj (hu.symm.trans hg.found)
      exact .inr (.inl ⟨d, consumer, hm, hc, by rw [← hg.id]; rfl⟩)
    · have hpool := queue_of_held hm hg.queued hvu
      exact .inl (hmove (List.mem_append_right _ hpool) hg.found)
  | _ => exact .inl (hmove hg.queued hg.found)

/-! ## Every run -/

/-- A consumer with a registered batch has been started. -/
def BatchesStarted (s : Proxy) : Prop :=
  ∀ (c : ConsumerRef) (consumer : ConsumerUnit) (a : Addr) (l : ConsumerUnitLocker),
    s.consumerUnits[c]? = some consumer → consumer.lockers[a]? = some l →
      consumer.consumer.state ≠ .created

/-- Every outstanding delivery has a unit that guards it; and once an ack has been
accepted, no delivery of its id is outstanding until the handler has answered. -/
structure Guarded (s : Proxy) : Prop where
  covered : ∀ c a msgId, OutstandingAt s c a msgId → ∃ u unit, Guards s c msgId u unit
  marked : ∀ k call, s.grpc = .ackLookup k ∨ (∃ v, s.grpc = .ackStore k v) →
    s.ackCalls[k]? = some call → ∀ c a, ¬ OutstandingAt s c a call.msgId

theorem Step.started_kept {s s' : Proxy} {e : Event} (h : Step s e s') (hi : RegistryInv s)
    {c : ConsumerRef} (hc : Started s.sdk c) : Started s'.sdk c := by
  have hmoved : ∀ {d state}, state ≠ SdkState.created →
      Started ((s.consumerUnits.modify d (ConsumerUnit.setState state)).map
        ConsumerUnit.consumer) c := by
    intro d state hs
    rw [sdk_setState]
    obtain ⟨con, hcon, hs'⟩ := hc
    by_cases hdc : d = c
    · subst hdc
      exact ⟨_, Heap.modify_self hcon _, hs⟩
    · exact ⟨con, (List.getElem?_modify_ne _ _ hdc).trans hcon, hs'⟩
  cases h.callStep hi with
  | kept _ hsdk _ => rwa [hsdk]
  | got _ _ hok hget _ _ => exact hc.later (hget.registry hi.keyed hok).1
  | shutting he hex hsw =>
    subst he
    cases h with
    | sweep hp => exact absurd hp hsw
    | sweepEnd hp | skip hp | select hp => exact absurd hp (hex _)
    | shutdownBegin | shutdownEnd => exact hmoved (by simp)
    | erase => exact hc

theorem batchesStarted {P : Proxy → Event → Prop} {s : Proxy} (h : ReachableBy P s) :
    BatchesStarted s := by
  refine h.invariant (I := BatchesStarted) (fun c _ _ _ hc => absurd hc (by simp [init])) ?_
  intro s e s' hr hb _ hs c consumer' a l' hc' hl'
  have hstep := step_cases hs
  have hlater : ∀ consumer, s.consumerUnits[c]? = some consumer →
      consumer.consumer.state ≠ .created → consumer'.consumer.state ≠ .created := by
    intro consumer hc hst
    obtain ⟨con, hcon, hst'⟩ := hstep.started_kept (registryInv hr)
      ⟨consumer.consumer, by rw [sdk, List.getElem?_map, hc]; rfl, hst⟩
    rw [sdk, List.getElem?_map, hc'] at hcon
    obtain rfl := Option.some.inj hcon
    exact hst'
  cases hstep.unitsStep with
  | kept units =>
    obtain ⟨consumer, hc, hsame⟩ := units.get hc'
    exact hlater consumer hc (hb c consumer a l' hc (hsame.lockers ▸ hl'))
  | created topic group now _ units =>
    rw [units, List.getElem?_append] at hc'
    split at hc'
    · exact hlater consumer' hc' (hb c consumer' a l' hc' hl')
    · rw [List.getElem?_singleton, Option.ite_none_right_eq_some] at hc'
      obtain rfl := Option.some.inj hc'.2
      exact absurd hl' (by simp [ConsumerUnit.new])
  | @stepped d o unit unit' hd hunit cause units =>
    obtain ⟨consumer, hc, hsame⟩ := units.get hc'
    rw [hsame.lockers] at hl'
    by_cases hdc : d = c
    · subst hdc
      rw [Heap.set_self hd] at hc
      obtain rfl := Option.some.inj hc
      refine hlater unit hd ?_
      rcases hunit.locker_back hl' with ⟨msgs, rfl, -⟩ | ⟨-, l, hl⟩
      · cases cause with
        | callback he =>
          subst he
          cases hstep with
          | callback hd' hst =>
            obtain rfl := Option.some.inj (hd.symm.trans hd')
            rcases hst with hst | hst <;> simp [hst]
      · exact hb d unit a l hd hl
    · rw [List.getElem?_set_ne hdc] at hc
      exact hlater consumer hc (hb c consumer a l' hc hl')

/-- A batch that holds the id is one of the consumer that has just accepted it. -/
theorem accepted_consumer {s : Proxy} (ho : CallsAgree s) (hb : BatchesStarted s)
    (hflight : OneFlight s) (hm : s.matcher = .pop) {k : CallRef} {c d : ConsumerRef}
    (hg : s.grpc = .ack k (.done (some d))) {unit : ConsumerUnit}
    (hd : s.consumerUnits[d]? = some unit) {a : Addr} {msgId : String} {st : ConsumeStatus}
    (hret : (unit.setMsgAck msgId st).1 = true) (hout : OutstandingAt s c a msgId) : c = d := by
  obtain ⟨a', l', p', hl', hf'⟩ := (unit.setMsgAck_accepted msgId st).mp hret
  obtain ⟨consumer, l, p, hc, hl, hout⟩ := hout
  obtain ⟨htopic, hgroup⟩ := hflight msgId _ _ _ _
    ⟨c, consumer, a, l, p, hc, rfl, rfl, hl, hout.filed⟩
    ⟨d, unit, a', l', p', hd, rfl, rfl, hl', hf'⟩
  have hreg : ∀ (c : ConsumerRef) (consumer : ConsumerUnit), s.consumerUnits[c]? = some consumer →
      consumer.consumer.state ≠ .created →
      s.consumers[consumer.consumer.topic ++ consumer.consumer.groupName]? = some c := by
    intro c consumer hc hs
    have hcon : s.sdk[c]? = some consumer.consumer := by
      rw [sdk, List.getElem?_map, hc]
      rfl
    refine (ho.started c _ hcon hs).resolve_right ?_
    -- neither thread is inserting
    rintro ⟨t, ht⟩
    cases t with
    | matcher => simp [Proxy.call, hm] at ht
    | grpc => simp [Proxy.call, hg] at ht
  have h₁ := hreg c consumer hc (hb c consumer a l hc hl)
  have h₂ := hreg d unit hd (hb d unit a' l' hd hl')
  rw [htopic, hgroup] at h₁
  exact Option.some.inj (h₁.symm.trans h₂)

theorem matcherAlone_oneByOne {s : Proxy} {e : Event} (h : MatcherAlone s e) :
    OneByOne s e := by
  obtain ⟨hg, now, now', started, rfl⟩ := h
  refine ⟨fun _ _ _ _ he => absurd he (by simp), fun t key ht hc hn get hc' => ?_⟩
  obtain rfl : Caller.matcher = t := Option.some.inj ht
  exact absurd hc' (by simp [Caller.other, Proxy.call, hg])

theorem matcher_returned {s : Proxy} (ho : CallsAgree s) {u : UnitRef} {c : ConsumerRef}
    {unit : ConsumeMsgUnit} (hm : s.matcher = .getConsumer u (.done (some c)))
    (hu : s.consumeMsgUnits[u]? = some unit) :
    s.consumers[unit.topic ++ unit.group]? = some c :=
  ho.returned .matcher _ c (by simp [Proxy.call, Proxy.unitNames, hm, hu])

theorem Step.covered {s s' : Proxy} {e : Event} (h : Step s e s') (hr : Reachable s)
    (hP : Orderly s e) (ho : CallsAgree s) (hu : Unshut s) (hg : Guarded s) (c : ConsumerRef)
    (a : Addr) (msgId : String) (hout : OutstandingAt s' c a msgId) :
    ∃ u unit, Guards s' c msgId u unit := by
  rcases h.outstandingAt hout with hold |
    ⟨u, unit, consumer, l, msg, rest, hm, hunit, hc, hl, hq, hfiled, hqueue, hcons, hnew⟩
  · obtain ⟨u, unit, hguard⟩ := hg.covered c a msgId hold
    have hkept := (h.callsAgree (Proxy.registryInv hr) hu hP.oneByOne ho).2 _ _ hguard.consumer
    rcases h.guards hguard hkept with hguard' | ⟨d, consumer, hm, hd, hset⟩ | ⟨k, hk⟩
    · exact ⟨u, unit, hguard'⟩
    · -- the timeout has settled what the unit guarded
      have hdc := matcher_returned ho hm hguard.found
      obtain rfl := Option.some.inj (hdc.symm.trans hguard.consumer)
      exact absurd rfl ((hout.of_acked hd hset).2 rfl)
    · obtain ⟨unit', call, hunit', hcall, hid, -⟩ :=
        (Proxy.requestsInv hr).indexed.store k u hk
      obtain rfl := Option.some.inj (hguard.found.symm.trans hunit')
      obtain rfl : msgId = call.msgId := hguard.id.symm.trans hid
      exact absurd hold (hg.marked k call (.inr ⟨_, hk⟩) hcall c a)
  · obtain ⟨-, msgs, h₂, -, hreg, -⟩ := (unitHistory hr hc).registered a l hl
    have hmem : msg ∈ l.fetchedArr := by
      rw [hq]
      exact List.mem_cons_self
    refine ⟨u, _, hqueue, hnew, ?_, rfl, (hreg.filed_queue hmem hfiled).symm⟩
    rw [hcons]
    exact (matcher_returned ho hm hunit :)

theorem Step.acceptedSettled {s s' : Proxy} {e : Event} (h : Step s e s') (hr : Reachable s)
    (hP : Orderly s e) (ho : CallsAgree s) (hg : Guarded s) (k : CallRef)
    (call : ConsumeAckCallData)
    (hk : s'.grpc = .ackLookup k ∨ ∃ v, s'.grpc = .ackStore k v)
    (hcall : s'.ackCalls[k]? = some call) (c : ConsumerRef) (a : Addr) :
    ¬ OutstandingAt s' c a call.msgId := by
  intro hout
  cases h with
  | cancelBegin | cancelGet | cancelSet | cancelErase | consumeAck | ackGet | ackRejected
  | ackStore => simp at hk
  | @ackAccepted j call' d unit now started hj hjcall hd hret =>
    obtain ⟨rfl, -⟩ : j = k ∧ True := by simpa using hk
    obtain rfl := Option.some.inj (hjcall.symm.trans hcall)
    have hm : s.matcher = .pop := by
      by_contra hm
      exact absurd (hP.uninterrupted.matcher hm) (by simp [turn])
    obtain ⟨hold, hne⟩ := hout.of_acked hd rfl
    exact hne (accepted_consumer ho (batchesStarted hr) hP.oneFlight hm hj hd hret hold) rfl
  | @ackLookup j call' now started hj hjcall =>
    obtain ⟨rfl, -⟩ : j = k ∧ True := by simpa using hk
    exact hg.marked j call (.inl hj) hcall c a (hout.of_same (.refl _))
  | _ =>
    -- a step of another thread does not come between
    have hne : s.grpc ≠ .next := by
      intro hn
      rcases hk with hk | ⟨v, hk⟩ <;> exact absurd (hn.symm.trans hk) (by simp)
    exact absurd (hP.uninterrupted.grpc hne) (by simp [turn])

theorem guarded_of_orderly {s : Proxy} (h : ReachableBy Orderly s) : Guarded s := by
  have hone : ∀ s e, Orderly s e → OneByOne s e := fun _ _ hP => hP.oneByOne
  refine h.invariant (I := Guarded) ⟨?_, by simp [init]⟩ fun s e s' hr hg hP hs => ?_
  · rintro c a msgId ⟨consumer, l, p, hc, -⟩
    exact absurd hc (by simp [init])
  · have hr' : Reachable s := hr.mono fun _ _ _ => trivial
    have ho := callsAgree_of_oneByOne hone hr
    have hu := unshut (fun _ _ hP => hP.noShutdown) hr
    exact ⟨(step_cases hs).covered hr' hP ho hu hg,
      (step_cases hs).acceptedSettled hr' hP ho hg⟩

/-! ## The timeout settles what the unit guards -/

/-- The batch `a` of the consumer `c` holds the message at `p` under the id. -/
def FiledAt (s : Proxy) (c : ConsumerRef) (a : Addr) (msgId : String) (p : Addr) : Prop :=
  ∃ (consumer : ConsumerUnit) (l : ConsumerUnitLocker),
    s.consumerUnits[c]? = some consumer ∧ consumer.lockers[a]? = some l ∧ l.Filed msgId p

theorem FiledAt.step {s s' : Proxy} {e : Event} {c : ConsumerRef} {a : Addr}
    {msgId : String} {p : Addr} (h : Step s e s') (he : turn e = some .matcher)
    (hf : FiledAt s c a msgId p) : FiledAt s' c a msgId p := by
  obtain ⟨consumer, l, hc, hl, hfiled⟩ := hf
  cases h.unitsStep with
  | kept units =>
    obtain ⟨consumer', hc', hsame⟩ := units.get' hc
    exact ⟨consumer', l, hc', hsame.lockers ▸ hl, hfiled⟩
  | created topic group now _ units =>
    exact ⟨consumer, l, by rw [units]; exact Heap.append_old hc _, hl, hfiled⟩
  | @stepped d o unit unit' hd hunit cause units =>
    have hp : ∀ st vec, o ≠ .reported a st vec := by
      rintro st vec rfl
      cases cause with
      | callbackReturn he' => exact absurd he (by simp [he', turn])
    rcases Heap.set_cases hd hc with ⟨rfl, rfl, hset⟩ | hset
    · obtain ⟨consumer', hc', hsame⟩ := units.get' hset
      have hl' := hunit.locker hl hp
      rw [← hsame.lockers] at hl'
      exact ⟨consumer', _, hc', hl', hfiled.foldl_apply _⟩
    · obtain ⟨consumer', hc', hsame⟩ := units.get' hset
      exact ⟨consumer', l, hc', hsame.lockers ▸ hl, hfiled⟩

/-- The ack timeout of a unit settles the messages of its id in every batch. -/
theorem ackTimeout_settles {s s' : Proxy} {now now' : Int} {started : Bool} {u : UnitRef}
    {unit : ConsumeMsgUnit} {c : ConsumerRef} {a : Addr} {p : Addr}
    (hm : s.matcher = .getConsumer u (.done (some c))) (hu : s.consumeMsgUnits[u]? = some unit)
    (ht : unit.getIsAckTimeout now = true) (hf : FiledAt s c a unit.msgId p)
    (hs : s.step (.matcher now now' started) = some s') :
    ∃ consumer' l', s'.consumerUnits[c]? = some consumer' ∧ consumer'.lockers[a]? = some l' ∧
      l'.clientStatusMap[p]? = some .msgConsumeAck := by
  classical
  obtain ⟨consumer, hc, rfl⟩ := ackTimeout_next hm hu ht hs
  obtain ⟨consumer₁, l, hc₁, hl, hfiled⟩ := hf
  obtain rfl := Option.some.inj (hc.symm.trans hc₁)
  refine ⟨_, l.ack unit.msgId .reconsumeLater, Heap.set_self hc _, ?_, ?_⟩
  · rw [ConsumerUnit.setMsgReconsume, ConsumerUnit.setMsgAck_lockers, hl]
    rfl
  · rw [ConsumerUnitLocker.ack, ConsumerUnitLocker.triggerCheck_clientStatusMap,
      ConsumerUnitLocker.setMsgStatus_clientStatusMap, if_pos hfiled]

/-- In a run in which handlings are not interrupted, nothing is shut down and each message
id is in flight under one topic and group, every outstanding delivery has a unit in the
pool that waits for its ack; and once that wait is over the matcher settles the message
without anybody's help. -/
theorem outstanding_guarded {s : Proxy} (h : ReachableBy Orderly s) (hm : s.matcher = .pop)
    (hg : s.grpc = .next) {c : ConsumerRef} {consumer : ConsumerUnit} {a : Addr}
    {l : ConsumerUnitLocker} {msgId : String} {p : Addr}
    (hc : s.consumerUnits[c]? = some consumer) (hl : consumer.lockers[a]? = some l)
    (ho : l.Outstanding msgId p) :
    ∃ u ∈ s.consumeMsgPool, ∃ unit, s.consumeMsgUnits[u]? = some unit ∧
      s.consumers[unit.topic ++ unit.group]? = some c ∧ unit.status = .clientReceive ∧
      unit.msgId = msgId ∧
      ∀ now, unit.getIsAckTimeout now = true →
        ∃ s' consumer' l', Runs.Reach step s (MatcherAt now) s' ∧
          s'.consumerUnits[c]? = some consumer' ∧ consumer'.lockers[a]? = some l' ∧
          l'.clientStatusMap[p]? = some .msgConsumeAck := by
  obtain ⟨u, unit, hguard⟩ :=
    (guarded_of_orderly h).covered c a msgId ⟨consumer, l, p, hc, hl, ho⟩
  have hr : Reachable s := h.mono fun _ _ _ => trivial
  have hone : ReachableBy OneByOne s := h.mono fun _ _ hP => hP.oneByOne
  have hpool : u ∈ s.consumeMsgPool := by
    have hq := hguard.queued
    rwa [queue, hm] at hq
  refine ⟨u, hpool, unit, hguard.found, hguard.consumer, hguard.status, hguard.id,
    fun now ht => ?_⟩
  obtain ⟨s₁, d, hrun, hm₁⟩ := matcher_reaches_at now hr (fun v => by simp [hm]) hguard.queued
  -- the matcher has the consumer that holds the message
  obtain rfl : c = d := by
    have hrun₁ : Runs.Reach step s OneByOne s₁ := by
      refine (hrun.run.strengthen (I := fun s => s.grpc = .next) hg ?_).1.mono ?_
      · rintro s e s' hg rfl hs
        exact (matcher_grpc hs).trans hg
      · rintro s e ⟨hg, rfl⟩
        exact matcherAlone_oneByOne ⟨hg, now, now, true, rfl⟩
    have hc₁ := matcher_returned (callsAgree_of_oneByOne (fun _ _ hP => hP) (hone.trans hrun₁)) hm₁
      (hrun.unit.trans hguard.found)
    have hc₀ := registered_later (fun _ _ hP => hP) hone hrun₁ hguard.consumer
    exact Option.some.inj (hc₀.symm.trans hc₁)
  have hfiled : FiledAt s₁ c a unit.msgId p := by
    rw [hguard.id]
    refine hrun.run.invariant (I := fun s => FiledAt s c a msgId p)
      ⟨consumer, l, hc, hl, ho.filed⟩ ?_
    rintro s e s' - hf rfl hs
    exact hf.step (step_cases hs) rfl
  obtain ⟨s₂, hs₂⟩ := matchUnit_enabled (hrun.reachable hr) hm₁ now
  obtain ⟨consumer', l', hc', hl', hsettled⟩ :=
    ackTimeout_settles hm₁ (hrun.unit.trans hguard.found) ht hfiled hs₂
  exact ⟨s₂, consumer', l', .step hrun.run rfl hs₂, hc', hl', hsettled⟩

/-- A step of a run with one consumer and no interruption. -/
def Simple (s : Proxy) : Event → Prop
  | .shutdown _ => False
  | e => (s.matcher ≠ .pop → turn e = some .matcher) ∧ (s.grpc ≠ .next → turn e = some .grpc) ∧
      s.consumerUnits.length ≤ 1

instance (s : Proxy) : (e : Event) → Decidable (Simple s e)
  | .shutdown _ => inferInstanceAs (Decidable False)
  | .consume _ _ _ | .consumeDone _ _ | .consumeAck _ _ _ _ _ | .ackDone _ _ | .callback _ _ _
  | .callbackReturn _ _ | .matcher _ _ _ | .grpc _ _ | .clear =>
    inferInstanceAs (Decidable (_ ∧ _ ∧ _))

theorem Simple.orderly {s : Proxy} {e : Event} (h : Simple s e) : Orderly s e := by
  have hparts : (∀ now, e ≠ .shutdown now) ∧ (s.matcher ≠ .pop → turn e = some .matcher) ∧
      (s.grpc ≠ .next → turn e = some .grpc) ∧ s.consumerUnits.length ≤ 1 := by
    cases e with
    | shutdown now => exact absurd h id
    | _ => exact ⟨by simp, h⟩
  obtain ⟨hshut, hm, hg, hlen⟩ := hparts
  refine ⟨⟨hm, hg⟩, fun now _ _ _ he => absurd he (hshut now), ?_⟩
  rintro msgId _ _ _ _ ⟨c, consumer, _, _, _, hc, rfl, rfl, -⟩
    ⟨d, consumer', _, _, _, hd, rfl, rfl, -⟩
  have hc₀ := (List.getElem?_eq_some_iff.mp hc).1
  have hd₀ := (List.getElem?_eq_some_iff.mp hd).1
  obtain rfl : c = d := Nat.le_antisymm (by omega) (by omega)
  obtain rfl := Option.some.inj (hc.symm.trans hd)
  exact ⟨rfl, rfl⟩

/-- The unit of a request waits for the ack of the message it has got. -/
theorem outstanding_guarded_one : ∃ s consumer l, s.consumerUnits[0]? = some consumer ∧
    consumer.lockers[1]? = some l ∧ l.Outstanding "m" 10 ∧
    ∃ u ∈ s.consumeMsgPool, ∃ unit, s.consumeMsgUnits[u]? = some unit ∧
      s.consumers[unit.topic ++ unit.group]? = some 0 ∧ unit.status = .clientReceive ∧
      unit.msgId = "m" ∧
      ∀ now, unit.getIsAckTimeout now = true →
        ∃ s' consumer' l', Runs.Reach step s (MatcherAt now) s' ∧
          s'.consumerUnits[0]? = some consumer' ∧ consumer'.lockers[1]? = some l' ∧
          l'.clientStatusMap[10]? = some .msgConsumeAck := by
  have hrun : ((Runs.exec (Runs.restrict step Simple) init [.consume "t" "g" 0,
      .matcher 0 0 true, .matcher 0 0 true, .matcher 0 0 true, .matcher 0 0 true,
      .matcher 0 0 true, .callback 0 1 [(10, ⟨"m", "t", "b", 0⟩)], .matcher 0 0 true,
      .matcher 0 0 true, .matcher 0 0 true]).bind fun s =>
        s.consumerUnits[0]?.bind fun consumer => consumer.lockers[1]?.map fun l =>
          ((s.matcher, s.grpc), l.idMsgMap["m"]?.map fun m => m.contains 10,
            l.fetchedArr, l.clientStatusMap[10]?)) =
      some ((.pop, .next), some true, [], some .msgFetchFromBroker) := by
    decide
  obtain ⟨s, hs, hrun⟩ := Option.bind_eq_some_iff.mp hrun
  obtain ⟨consumer, hc, hrun⟩ := Option.bind_eq_some_iff.mp hrun
  obtain ⟨l, hl, hfacts⟩ := Option.map_eq_some_iff.mp hrun
  simp only [Prod.mk.injEq] at hfacts
  obtain ⟨⟨hm, hg⟩, hfiled, hq, hst⟩ := hfacts
  obtain ⟨m, hidm, hmem⟩ := Option.map_eq_some_iff.mp hfiled
  have ho : l.Outstanding "m" 10 :=
    ⟨⟨m, hidm, TreeMap.contains_iff_mem.mp hmem⟩, by simp [hq], by simp [hst]⟩
  have hr : ReachableBy Orderly s :=
    (Runs.Reach.of_exec_restrict .init hs).mono fun _ _ h => h.orderly
  exact ⟨s, consumer, l, hc, hl, ho, outstanding_guarded hr hm hg hc hl ho⟩

end Proxy
end RocketmqProxy
