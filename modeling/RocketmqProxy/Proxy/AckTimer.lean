import RocketmqProxy.Proxy.Progress

/-!
# Acks and the timer of their delivery

A ConsumeAck is recorded in the batch first, and then in the status of the unit that the
index has for the message id.  The timer of a delivery looks at the status of its own
unit.  It undoes an accepted ack if it runs out between the two writes, or if the index
has another unit, or none, when the handler looks the id up.
-/

namespace RocketmqProxy
namespace Proxy

open Std UnitObs

/-- `setMsgAck` has accepted the CONSUME_SUCCESS of the call `k` for a message that was
delivered through the unit `u`, from a batch that was registered all the while. -/
def AckOf (k : CallRef) (u : UnitRef) (t : List Obs) : Prop :=
  ∃ t₁ c a msg t₂ t₃, t = t₁ ++ .unit c (.fetched u a msg) ::
      (t₂ ++ .unit c (.acked (.consumeAck k) msg.unit.msgId .consumeSuccess true) :: t₃) ∧
    Open a (history c t₂)

/-- After an accepted ack, the timer of its delivery does not run out. -/
def AcksKept (s : Proxy) : Prop :=
  ∀ t t' k u, s.trace = t ++ t' → AckOf k u t →
    ∀ c msgId st ret, .unit c (.acked (.ackTimeout u) msgId st ret) ∉ t'

/-- The call that has been accepted and whose unit has not been marked. -/
def handling : GrpcPc → Option CallRef
  | .ackLookup k => some k
  | .ackStore k _ => some k
  | _ => none

/-- The step runs out no timer of a delivery whose ack is being handled. -/
def TimerWaits (s : Proxy) (e : Event) : Prop :=
  ∀ now now' started u c unit, e = .matcher now now' started →
    s.matcher = .getConsumer u (.done (some c)) → s.consumeMsgUnits[u]? = some unit →
      unit.getIsAckTimeout now = true → ∀ k ∈ handling s.grpc, ¬ AckOf k u s.trace

/-- When the step looks an id up, the index has the unit that waits for the ack. -/
def IndexFinds (s : Proxy) (e : Event) : Prop :=
  ∀ now started k call u unit, e = .grpc now started → s.grpc = .ackLookup k →
    s.ackCalls[k]? = some call → u ∈ s.queue → s.consumeMsgUnits[u]? = some unit →
      unit.status = .clientReceive → AckOf k u s.trace → s.idUnitMap[call.msgId]? = some u

/-- The step keeps the timer away from the acks that are being handled. -/
def AckHandled (s : Proxy) (e : Event) : Prop := TimerWaits s e ∧ IndexFinds s e

/-! ## Acks in the trace -/

theorem AckOf.append {k : CallRef} {u : UnitRef} {t : List Obs} (h : AckOf k u t)
    (t' : List Obs) : AckOf k u (t ++ t') := by
  obtain ⟨t₁, c, a, msg, t₂, t₃, rfl, hopen⟩ := h
  exact ⟨t₁, c, a, msg, t₂, t₃ ++ t', by simp, hopen⟩

/-- What is no accepted ack of the call adds nothing. -/
theorem AckOf.of_append {k : CallRef} {u : UnitRef} {t t' : List Obs} (h : AckOf k u (t ++ t'))
    (hno : ∀ c msgId, .unit c (.acked (.consumeAck k) msgId .consumeSuccess true) ∉ t') :
    AckOf k u t := by
  obtain ⟨t₁, c, a, msg, t₂, t₃, he, hopen⟩ := h
  rw [← List.cons_append, ← List.append_assoc] at he
  rcases List.append_eq_append_iff.mp he with ⟨b, -, ht'⟩ | ⟨b, ht, hb⟩
  · exact absurd (ht' ▸ List.mem_append_right b List.mem_cons_self) (hno c msg.unit.msgId)
  · cases b with
    | nil =>
      obtain rfl : t' = _ :: t₃ := hb.symm
      exact absurd List.mem_cons_self (hno c msg.unit.msgId)
    | cons x b =>
      obtain ⟨rfl, -⟩ := List.cons.inj hb
      exact ⟨t₁, c, a, msg, t₂, b, by simp [ht], hopen⟩

theorem AckOf.delivered {k : CallRef} {u : UnitRef} {t : List Obs} (h : AckOf k u t) :
    deliveries u t ≠ [] := by
  obtain ⟨t₁, c, a, msg, t₂, t₃, rfl, -⟩ := h
  exact List.ne_nil_of_mem (mem_deliveries.mpr
    (List.mem_append_right _ List.mem_cons_self) : (c, a, msg) ∈ _)

theorem Step.ackOf {s s' : Proxy} {e : Event} (h : Step s e s') {k : CallRef} {u : UnitRef}
    (hk : AckOf k u s'.trace) : AckOf k u s.trace ∨ s'.grpc = .ackLookup k := by
  cases h with
  | @ackAccepted j =>
    by_cases hjk : j = k
    · exact .inr (hjk ▸ rfl)
    · exact .inl (hk.of_append (by simp [Ne.symm hjk]))
  | cancelSet | ackRejected | ackTimeout | callback | callbackReturn | clearUnlock =>
    exact .inl (hk.of_append (by simp))
  | @consumeAck topic group =>
    refine .inl (hk.of_append ?_)
    cases s.consumers[topic ++ group]? <;> simp
  | @deliver u unit =>
    refine .inl (AckOf.of_append (AckOf.of_append hk ?_) (by simp))
    cases s.consumers[unit.topic ++ unit.group]? <;> simp
  | @fetchTimeout u unit =>
    refine .inl (hk.of_append ?_)
    cases s.consumers[unit.topic ++ unit.group]? <;> simp
  | _ => exact .inl hk

/-! ## Every run -/

/-- The ack of the call `k` is safe from the timer of `u`: the unit is out of the pool or
marked, or the handler is on its way to mark it. -/
inductive Safe (s : Proxy) (k : CallRef) (u : UnitRef) : Prop
  | gone (hq : u ∉ s.queue)
  | marked {unit : ConsumeMsgUnit} (hu : s.consumeMsgUnits[u]? = some unit)
      (hs : unit.status = .consumeAck)
  | accepted (hg : s.grpc = .ackLookup k)
  | found (hg : s.grpc = .ackStore k (some u))

theorem Step.marked {s s' : Proxy} {e : Event} (h : Step s e s') {u : UnitRef}
    {unit : ConsumeMsgUnit} (hu : s.consumeMsgUnits[u]? = some unit)
    (hs : unit.status = .consumeAck) :
    ∃ unit', s'.consumeMsgUnits[u]? = some unit' ∧ unit'.status = .consumeAck := by
  cases h with
  | consume => exact ⟨unit, Heap.append_old hu _, hs⟩
  | @ackStore k call v =>
    cases v with
    | none => exact ⟨unit, hu, hs⟩
    | some v =>
      by_cases hvu : v = u
      · subst hvu
        exact ⟨_, Heap.modify_self hu _, rfl⟩
      · exact ⟨unit, (List.getElem?_modify_ne _ _ hvu).trans hu, hs⟩
  | deliver hm hv hc hs' =>
    rcases Heap.set_cases hv hu with ⟨-, rfl, -⟩ | hset
    · exact absurd (hs'.symm.trans hs) (by simp)
    · exact ⟨unit, hset, hs⟩
  | _ => exact ⟨unit, hu, hs⟩

theorem RequestsInv.received {s : Proxy} (hr : RequestsInv s) {u : UnitRef}
    (hd : deliveries u s.trace ≠ []) :
    ∃ unit, s.consumeMsgUnits[u]? = some unit ∧
      (unit.status = .clientReceive ∨ unit.status = .consumeAck) := by
  have hlt : u < s.consumeMsgUnits.length := by
    by_contra hge
    exact hd (hr.requests.fresh u (Nat.le_of_not_lt hge))
  refine ⟨s.consumeMsgUnits[u], List.getElem?_eq_getElem hlt, ?_⟩
  obtain ⟨-, call, -, -, -, hlife⟩ := hr.requests.life u _ (List.getElem?_eq_getElem hlt)
  generalize deliveries u s.trace = ds at hd hlife
  cases hlife with
  | waiting | timedOut => exact absurd rfl hd
  | delivered hs _ _ =>
    cases hst : s.consumeMsgUnits[u].status with
    | proxyConsumeInit => exact absurd hst hs
    | clientReceive => exact .inl rfl
    | consumeAck => exact .inr rfl

theorem Step.safe {s s' : Proxy} {e : Event} (h : Step s e s') (hr : RequestsInv s)
    (hP : IndexFinds s e) {k : CallRef} {u : UnitRef} (hk : AckOf k u s.trace)
    (hs : Safe s k u) : Safe s' k u := by
  obtain ⟨unit, hu, hst⟩ := hr.received hk.delivered
  have hgone := h.gone u (List.getElem?_eq_some_iff.mp hu).1
  have hmarked := fun hs => @Step.marked s s' e h u unit hu hs
  cases hs with
  | gone hq => exact .gone (hgone hq)
  | marked hu' hs' =>
    obtain rfl := Option.some.inj (hu.symm.trans hu')
    obtain ⟨unit', hunit', hs''⟩ := hmarked hs'
    exact .marked hunit' hs''
  | accepted hg =>
    cases h with
    | @ackLookup j call now started hg' hj =>
      obtain rfl := GrpcPc.ackLookup.inj (hg'.symm.trans hg)
      by_cases hq : u ∈ s.queue
      · rcases hst with hst | hst
        · have hfind := hP now started j call u unit rfl hg hj hq hu hst hk
          exact .found (congrArg (GrpcPc.ackStore j) hfind)
        · exact .marked hu hst
      · exact .gone hq
    | consume hg' | consumeDel hg' | cancelBegin hg' | cancelGet hg' | cancelSet hg'
    | cancelErase hg' | consumeAck hg' | ackGet hg' | ackAccepted hg' | ackRejected hg'
    | ackStore hg' | ackDel hg' => exact absurd (hg'.symm.trans hg) (by simp)
    | _ => exact .accepted hg
  | found hg =>
    cases h with
    | ackStore hg' hj =>
      obtain ⟨rfl, rfl⟩ := GrpcPc.ackStore.inj (hg'.symm.trans hg)
      exact .marked (Heap.modify_self hu _) rfl
    | consume hg' | consumeDel hg' | cancelBegin hg' | cancelGet hg' | cancelSet hg'
    | cancelErase hg' | consumeAck hg' | ackGet hg' | ackAccepted hg' | ackRejected hg'
    | ackLookup hg' | ackDel hg' => exact absurd (hg'.symm.trans hg) (by simp)
    | _ => exact .found hg

theorem safe_of_ackOf {s : Proxy} (h : ReachableBy AckHandled s) :
    ∀ k u, AckOf k u s.trace → Safe s k u := by
  refine h.invariant (I := fun s => ∀ k u, AckOf k u s.trace → Safe s k u) ?_ ?_
  · rintro k u ⟨t₁, c, a, msg, t₂, t₃, he, -⟩
    exact absurd he (by simp [init])
  · intro s e s' hr hi hP hs k u hk
    rcases (step_cases hs).ackOf hk with hk' | hg
    · exact (step_cases hs).safe (requestsInv hr) hP.2 hk' (hi k u hk')
    · exact .accepted hg

section Explained

variable {s : Proxy} {e : Event} {c : ConsumerRef} {k : CallRef} {u : UnitRef} {msgId : String}
  {st : ConsumeStatus} {ret : Bool}

theorem Explained.of_consumeAck
    (h : Explained s e (.unit c (.acked (.consumeAck k) msgId st ret))) :
    ∃ now started, e = .grpc now started := by
  cases h with
  | unit _ _ cause =>
    cases cause with
    | consumeAck he => exact ⟨_, _, he⟩

theorem Explained.of_ackTimeout
    (h : Explained s e (.unit c (.acked (.ackTimeout u) msgId st ret))) :
    ∃ now now' started unit, e = .matcher now now' started ∧
      s.matcher = .getConsumer u (.done (some c)) ∧ s.consumeMsgUnits[u]? = some unit ∧
      unit.status = .clientReceive ∧ unit.getIsAckTimeout now = true := by
  cases h with
  | unit _ _ cause =>
    cases cause with
    | ackTimeout he hm hu hs ht => exact ⟨_, _, _, _, he, hm, hu, hs, ht⟩

/-- The timer of a safe ack does not run out. -/
theorem Safe.no_timeOut (hs : Safe s k u) (hk : AckOf k u s.trace) (hP : TimerWaits s e) :
    ¬ Explained s e (.unit c (.acked (.ackTimeout u) msgId st ret)) := by
  intro h
  obtain ⟨now, now', started, unit, he, hm, hu, hst, ht⟩ := h.of_ackTimeout
  cases hs with
  | gone hq => exact hq (by rw [queue_held hm]; exact List.mem_cons_self)
  | marked hu' hs' =>
    obtain rfl := Option.some.inj (hu.symm.trans hu')
    exact absurd (hst.symm.trans hs') (by simp)
  | accepted hg | found hg =>
    exact hP now now' started u c unit he hm hu ht k (by rw [hg]; rfl) hk

end Explained

theorem acksKept_of_ackHandled {s : Proxy} (h : ReachableBy AckHandled s) : AcksKept s := by
  refine h.invariant (I := AcksKept) ?_ ?_
  · rintro t t' k u he ⟨t₁, c, a, msg, t₂, t₃, rfl, -⟩
    exact absurd he (by simp [init])
  · intro s e s' hr hi hP hs t t' k u he hk c msgId st ret hmem
    obtain ⟨new, hnew, hexp⟩ := (step_cases hs).explained
    rw [hnew] at he
    have hsafe : AckOf k u s.trace → .unit c (.acked (.ackTimeout u) msgId st ret) ∉ new :=
      fun hk hin => (safe_of_ackOf hr k u hk).no_timeOut hk hP.1 (hexp _ hin)
    rcases List.append_eq_append_iff.mp he with ⟨b, rfl, rfl⟩ | ⟨b, htrace, rfl⟩
    · -- the ack comes with the step, which is then no step of the matcher
      refine hsafe (hk.of_append fun d m hd => ?_) (List.mem_append_right b hmem)
      obtain ⟨_, _, hgrpc⟩ := (hexp _ (List.mem_append_left t' hd)).of_consumeAck
      obtain ⟨_, _, _, _, hmatcher, -⟩ := (hexp _ (List.mem_append_right b hmem)).of_ackTimeout
      exact absurd (hgrpc.symm.trans hmatcher) (by simp)
    · rcases List.mem_append.mp hmem with hold | hin
      · exact hi t b k u htrace hk c msgId st ret hold
      · exact hsafe (htrace ▸ hk.append b) hin

/-! ## An ack that is undone -/

theorem undone_of_timeOut {s s' : Proxy} {now now' : Int} {started : Bool} {k : CallRef}
    {u : UnitRef} {c : ConsumerRef} {unit : ConsumeMsgUnit}
    (hm : s.matcher = .getConsumer u (.done (some c))) (hu : s.consumeMsgUnits[u]? = some unit)
    (ht : unit.getIsAckTimeout now = true) (hk : AckOf k u s.trace)
    (hs : s.step (.matcher now now' started) = some s') : ¬ AcksKept s' := by
  obtain ⟨consumer, -, rfl⟩ := ackTimeout_next hm hu ht hs
  exact fun h => h s.trace _ k u rfl hk _ _ _ _ List.mem_cons_self

theorem MatcherAlone.ackHandled {s : Proxy} {e : Event} (h : MatcherAlone s e) :
    AckHandled s e := by
  obtain ⟨hg, now, now', started, rfl⟩ := h
  refine ⟨fun _ _ _ _ _ _ _ _ _ _ k hk => ?_, fun _ _ _ _ _ _ he => absurd he (by simp)⟩
  rw [hg] at hk
  exact absurd hk (by simp [handling])

theorem ackStore_next {s : Proxy} {k : CallRef} {call : ConsumeAckCallData}
    {v : Option UnitRef} (hg : s.grpc = .ackStore k v) (hk : s.ackCalls[k]? = some call) :
    AckHandled s (.grpc 0 true) ∧ s.step (.grpc 0 true) = some (s.ackStore k call v) := by
  refine ⟨⟨fun _ _ _ _ _ _ he => absurd he (by simp), fun _ _ _ _ _ _ _ hg' => ?_⟩, ?_⟩
  · exact absurd (hg.symm.trans hg') (by simp)
  · simp only [step, grpcStep, hg, hk, Option.bind_eq_bind, Option.bind_some]

theorem ackStore_other {s : Proxy} (k : CallRef) (call : ConsumeAckCallData)
    {v : Option UnitRef} {u : UnitRef} (hne : v ≠ some u) :
    (s.ackStore k call v).consumeMsgUnits[u]? = s.consumeMsgUnits[u]? := by
  cases v with
  | none => rfl
  | some v => exact List.getElem?_modify_ne _ _ fun he => hne (congrArg some he)

/-- A unit that no handler marks is left to its timer. -/
theorem undone_of_unmarked {s : Proxy} (hr : Reachable s) (halive : MatcherAlive s)
    (hg : s.grpc = .next) {k : CallRef} {u : UnitRef} {unit : ConsumeMsgUnit}
    (hq : u ∈ s.queue) (hu : s.consumeMsgUnits[u]? = some unit)
    (hst : unit.status = .clientReceive) (hk : AckOf k u s.trace) :
    ∃ t, Runs.Reach step s AckHandled t ∧ ¬ AcksKept t := by
  let late := unit.lastActiveAt + maxMsgWaitConsumeAckTime
  obtain ⟨s', c, hrun, hm⟩ := matcher_reaches hr hg halive hq
  obtain ⟨t, ht⟩ := matchUnit_enabled (hrun.reachable hr) hm late
  have hlate : unit.getIsAckTimeout late = true := by
    simp [ConsumeMsgUnit.getIsAckTimeout, hst, late]
  have hk' : AckOf k u s'.trace := by
    obtain ⟨new, hnew⟩ := hrun.trace
    rw [hnew]
    exact hk.append new
  have hlast : MatcherAlone s' (.matcher late late true) :=
    ⟨hrun.grpc.trans hg, late, late, true, rfl⟩
  refine ⟨t, .step ?_ hlast.ackHandled ht,
    undone_of_timeOut hm (hrun.unit.trans hu) hlate hk' ht⟩
  exact hrun.run.mono fun _ _ h => h.ackHandled

/-- An ack whose lookup misses the unit that waits for it is undone: the handler answers,
and the matcher comes to the unit when its timer has run out. -/
theorem undone_of_missed {s s' : Proxy} {e : Event} (hr : Reachable s)
    (halive : MatcherAlive s) (hI : ¬ IndexFinds s e) (hs : s.step e = some s') :
    ∃ t, Runs.Reach step s' AckHandled t ∧ ¬ AcksKept t := by
  have hr' : Reachable s' := .step hr trivial hs
  simp only [IndexFinds, Classical.not_imp, not_forall] at hI
  obtain ⟨now, started, k, call, u, unit, rfl, hg, hk, hq, hu, hst, hack, hne⟩ := hI
  simp only [step, grpcStep, hg, hk, Option.bind_eq_bind, Option.bind_some,
    Option.some.injEq] at hs
  subst hs
  obtain ⟨hP, hs₁⟩ := ackStore_next (s := { s with
    grpc := .ackStore k s.idUnitMap[call.msgId]? }) rfl hk
  obtain ⟨t, hrun, hlost⟩ := undone_of_unmarked (.step hr' trivial hs₁) halive rfl hq
    ((ackStore_other k call hne).trans hu) hst hack
  exact ⟨t, (Runs.Reach.step .init hP hs₁).trans hrun, hlost⟩

/-- No accepted ack is undone by the timer of its delivery in a run in which no timer runs
out while the ack of its delivery is being handled, and each lookup finds the unit that
waits for the ack; and after a step that breaks this, a run that keeps to it undoes an
ack. -/
theorem acksKept_of_handled (s : Proxy) :
    (ReachableBy AckHandled s → AcksKept s) ∧
      ∀ e s', Reachable s → MatcherAlive s → ¬ AckHandled s e → s.step e = some s' →
        ∃ t, Runs.Reach step s' AckHandled t ∧ ¬ AcksKept t := by
  refine ⟨acksKept_of_ackHandled, fun e s' hr halive hP hs => ?_⟩
  by_cases hT : TimerWaits s e
  · exact undone_of_missed hr halive (fun hI => hP ⟨hT, hI⟩) hs
  · simp only [TimerWaits, Classical.not_imp, not_forall, not_not] at hT
    obtain ⟨now, now', started, u, c, unit, rfl, hm, hu, ht, k, -, hack⟩ := hT
    exact ⟨s', .init, undone_of_timeOut hm hu ht hack hs⟩

/-- The matcher rests while an ack is being handled, and the index has the one unit that
waits. -/
def Undisturbed (s : Proxy) : Event → Prop
  | .matcher _ _ _ => handling s.grpc = none
  | .grpc _ _ => ∀ k ∈ handling s.grpc, ∀ call ∈ s.ackCalls[k]?, ∀ u ∈ s.queue,
      s.idUnitMap[call.msgId]? = some u
  | _ => True

instance (s : Proxy) : (e : Event) → Decidable (Undisturbed s e)
  | .matcher _ _ _ => inferInstanceAs (Decidable (handling s.grpc = none))
  | .grpc _ _ => inferInstanceAs (Decidable (∀ k ∈ handling s.grpc, ∀ call ∈ s.ackCalls[k]?,
      ∀ u ∈ s.queue, s.idUnitMap[call.msgId]? = some u))
  | .consume _ _ _ | .consumeDone _ _ | .consumeAck _ _ _ _ _ | .ackDone _ _ | .callback _ _ _
  | .callbackReturn _ _ | .shutdown _ | .clear => inferInstanceAs (Decidable True)

theorem Undisturbed.handled {s : Proxy} {e : Event} (h : Undisturbed s e) :
    AckHandled s e := by
  refine ⟨fun now now' started u c unit he _ _ _ k hk => ?_,
    fun now started k call u unit he hg hk hq _ _ _ => ?_⟩
  · subst he
    exact absurd (h.symm.trans hk) (by simp)
  · subst he
    exact h k (by rw [hg]; rfl) call hk u hq

/-- The client acks in time, and the matcher drops the unit. -/
theorem acksKept_of_handled_one : ∃ s,
    s.trace = [.unit 0 (.registered 1 [(10, ⟨"m", "t", "b", 0⟩)]),
      .unit 0 (.fetched 0 1 ⟨10, ⟨1, "m", "t", "g", "b", 0⟩⟩), .reset "t" "g" 0,
      .reset "t" "g" 0, .unit 0 (.acked (.consumeAck 0) "m" .consumeSuccess true)] ∧
    s.queue = [] ∧ AcksKept s := by
  have hrun : (Runs.exec (Runs.restrict step Undisturbed) init (deliveredOnce ++
      [.consumeAck "t" "g" "m" 0 1, .grpc 1 true, .grpc 1 true, .grpc 1 true, .grpc 1 true,
        .matcher 20 20 true, .matcher 20 20 true, .matcher 20 20 true])).map
        (fun s => (s.trace, s.queue)) =
      some ([.unit 0 (.registered 1 [(10, ⟨"m", "t", "b", 0⟩)]),
        .unit 0 (.fetched 0 1 ⟨10, ⟨1, "m", "t", "g", "b", 0⟩⟩), .reset "t" "g" 0,
        .reset "t" "g" 0, .unit 0 (.acked (.consumeAck 0) "m" .consumeSuccess true)], []) := by
    decide
  obtain ⟨s, hs, hpair⟩ := Option.map_eq_some_iff.mp hrun
  obtain ⟨htrace, hqueue⟩ := Prod.mk.inj hpair
  exact ⟨s, htrace, hqueue, (acksKept_of_handled s).1
    ((Runs.Reach.of_exec_restrict .init hs).mono fun _ _ h => h.handled)⟩

/-- The timer runs out between the two writes of the handler. -/
theorem timer_undoes_ack : ¬ ∀ s, Reachable s → AcksKept s := by
  have hrun : (run (deliveredOnce ++ [.consumeAck "t" "g" "m" 0 9, .grpc 9 true, .grpc 9 true,
      .matcher 10 10 true, .matcher 10 10 true, .matcher 10 10 true])).map trace =
      some [.unit 0 (.registered 1 [(10, ⟨"m", "t", "b", 0⟩)]),
        .unit 0 (.fetched 0 1 ⟨10, ⟨1, "m", "t", "g", "b", 0⟩⟩), .reset "t" "g" 0,
        .reset "t" "g" 0, .unit 0 (.acked (.consumeAck 0) "m" .consumeSuccess true),
        .unit 0 (.acked (.ackTimeout 0) "m" .reconsumeLater true)] := by
    decide
  obtain ⟨s, hs, htrace⟩ := Option.map_eq_some_iff.mp hrun
  intro hall
  refine hall s (reachable_run hs)
    [.unit 0 (.registered 1 [(10, ⟨"m", "t", "b", 0⟩)]),
      .unit 0 (.fetched 0 1 ⟨10, ⟨1, "m", "t", "g", "b", 0⟩⟩), .reset "t" "g" 0,
      .reset "t" "g" 0, .unit 0 (.acked (.consumeAck 0) "m" .consumeSuccess true)]
    [.unit 0 (.acked (.ackTimeout 0) "m" .reconsumeLater true)] 0 0 htrace ?_ 0 "m"
    .reconsumeLater true List.mem_cons_self
  exact ⟨[.unit 0 (.registered 1 [(10, ⟨"m", "t", "b", 0⟩)])], 0, 1,
    ⟨10, ⟨1, "m", "t", "g", "b", 0⟩⟩, [.reset "t" "g" 0, .reset "t" "g" 0], [], rfl,
    fun o ho => absurd ho List.not_mem_nil⟩

end Proxy
end RocketmqProxy
