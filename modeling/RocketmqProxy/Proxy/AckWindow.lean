import RocketmqProxy.Proxy.Progress
import RocketmqProxy.Proxy.Timed

/-!
# The time a client has for its ack

The timer of an ack counts from the arrival of the request: the delivery renews the time
stamp of the consumer and leaves that of the unit.
-/

namespace RocketmqProxy
namespace Proxy

open Std

/-- The next step of the matcher hands a message to the client of `u`. -/
def Delivers (s : Proxy) (u : UnitRef) (unit : ConsumeMsgUnit) : Prop :=
  ∃ c consumer, s.matcher = .getConsumer u (.done (some c)) ∧
    s.consumeMsgUnits[u]? = some unit ∧ unit.status = .proxyConsumeInit ∧
    s.consumerUnits[c]? = some consumer ∧ consumer.fetchAndConsume.1.isSome

/-- The next step of the matcher, if it reads `now`, finds the ack of `u` overdue. -/
def AckTimesOut (s : Proxy) (u : UnitRef) (now : Int) : Prop :=
  ∃ c unit, s.matcher = .getConsumer u (.done (some c)) ∧
    s.consumeMsgUnits[u]? = some unit ∧ unit.getIsAckTimeout now = true

/-- From `p` on, no ack of `u` is found overdue before it has been waited for from `since`
as long as it should. -/
def FullWindow (u : UnitRef) (since : Int) (p : Proxy × Int) : Prop :=
  ∀ q q' now now' started, Runs.Reach timedStep p Runs.always q → q.1.AckTimesOut u now →
    timedStep q (.matcher now now' started) = some q' →
    now - since ≥ maxMsgWaitConsumeAckTime

/-! ## The time stamp of a unit -/

theorem getIsAckTimeout_iff {unit : ConsumeMsgUnit} {now : Int} :
    unit.getIsAckTimeout now = true ↔
      unit.status = .clientReceive ∧ now - unit.lastActiveAt ≥ maxMsgWaitConsumeAckTime := by
  rw [ConsumeMsgUnit.getIsAckTimeout, Bool.and_eq_true, decide_eq_true_iff, decide_eq_true_iff]

theorem arrival_kept {P : Proxy × Int → Event → Prop} {p q : Proxy × Int}
    (h : Runs.Reach timedStep p P q) {u : UnitRef} {unit : ConsumeMsgUnit}
    (hu : p.1.consumeMsgUnits[u]? = some unit) :
    ∃ unit', q.1.consumeMsgUnits[u]? = some unit' ∧ unit'.lastActiveAt = unit.lastActiveAt := by
  induction h with
  | init => exact ⟨unit, hu, rfl⟩
  | step _ _ hs ih =>
    obtain ⟨unit₁, hu₁, ht₁⟩ := ih
    obtain ⟨unit₂, hu₂, -, ht₂⟩ :=
      (step_cases (Clock.step_eq_some.mp hs).2.1).unit_kept hu₁
    exact ⟨unit₂, hu₂, ht₂.trans ht₁⟩

/-! ## The window of a delivery -/

/-- What a delivery leaves of its unit. -/
theorem delivered_next {s s' : Proxy} {u : UnitRef} {unit : ConsumeMsgUnit} {now now' : Int}
    {started : Bool} (hd : s.Delivers u unit)
    (hs : s.step (.matcher now now' started) = some s') :
    s'.matcher = .pop ∧ u ∈ s'.queue ∧ ∃ unit', s'.consumeMsgUnits[u]? = some unit' ∧
      unit'.status = .clientReceive ∧ unit'.lastActiveAt = unit.lastActiveAt := by
  obtain ⟨c, consumer, hm, hu, hst, hc, hf⟩ := hd
  obtain ⟨r, hr⟩ := Option.isSome_iff_exists.mp hf
  simp only [step, matcherStep, hm, matchUnit, hu, hst, hc, Option.bind_eq_bind,
    Option.bind_some, Option.bind_eq_some_iff] at hs
  obtain ⟨call, -, hs⟩ := hs
  split at hs
  · obtain rfl := Option.some.inj hs
    refine ⟨rfl, ?_, _, Heap.set_self hu _, rfl, rfl⟩
    exact List.mem_append_right (held .pop) (List.mem_append_right _ (List.mem_singleton_self u))
  · rename_i hnone
    exact absurd (hr.symm.trans (congrArg Prod.fst hnone)) (by simp)

theorem Delivers.readings {s : Proxy} {u : UnitRef} {unit : ConsumeMsgUnit} {now now' : Int}
    {started : Bool} (hd : s.Delivers u unit) :
    readings s (.matcher now now' started) = [now] := by
  obtain ⟨c, consumer, hm, hu, -, hc, hf⟩ := hd
  refine readings_matcher ?_
  simp only [fetchTimesOut, hm, hu, hc, Option.isNone_eq_false_iff.mpr hf, Bool.and_false]

section Window

variable {t₀ : Int} {p p' : Proxy × Int} {now now' : Int} {started : Bool} {u : UnitRef}
  {unit : ConsumeMsgUnit}

/-- A timer that has begun with the delivery leaves the client its time. -/
theorem fullWindow_of_arrival (hd : p.1.Delivers u unit)
    (hs : timedStep p (.matcher now now' started) = some p') (hat : unit.lastActiveAt = now) :
    FullWindow u now p' := by
  obtain ⟨-, -, unit', hu', -, ht'⟩ := delivered_next hd (Clock.step_eq_some.mp hs).2.1
  rintro q q' now₁ now₁' started₁ hrun ⟨c, unit₁, -, hu₁, hover⟩ -
  obtain ⟨unit₂, hu₂, ht₂⟩ := arrival_kept hrun hu'
  obtain rfl := Option.some.inj (hu₁.symm.trans hu₂)
  rw [← hat, ← ht', ← ht₂]
  exact (getIsAckTimeout_iff.mp hover).2

/-- The matcher comes to the unit as soon as its time stamp is old enough. -/
theorem arrival_of_fullWindow (h : TimedReachable t₀ p) (hd : p.1.Delivers u unit)
    (hs : timedStep p (.matcher now now' started) = some p') (hfull : FullWindow u now p') :
    unit.lastActiveAt = now := by
  obtain ⟨hnow, hle⟩ := timedStep_single hs hd.readings
  have hstep := (Clock.step_eq_some.mp hs).2.1
  obtain ⟨hm', hq', unit', hu', hst', ht'⟩ := delivered_next hd hstep
  obtain ⟨-, -, -, hu, -⟩ := hd
  have harrived : unit.lastActiveAt ≤ now := (arrived_before h u unit hu).trans hle
  have hr' : Reachable p'.1 := .step (reachable_of_timed h) trivial hstep
  have halive : MatcherAlive p'.1 := fun v hv => absurd (hm'.symm.trans hv) (by simp)
  let late := max now (unit.lastActiveAt + maxMsgWaitConsumeAckTime)
  obtain ⟨s, c, hrun, hm⟩ := matcher_reaches_at late hr' halive hq'
  obtain ⟨s₂, hs₂⟩ := matchUnit_enabled (hrun.reachable hr') hm late
  have hat : ∀ s e, MatcherAt late s e → ∀ r ∈ readings s e, r = late := by
    rintro s e rfl r hr
    exact readings_matcher_same hr
  obtain ⟨t, ht, htimed⟩ := Clock.reach_of_forall hrun.run
    (hnow.trans_le (le_max_left now _)) hat
  obtain ⟨t₂, -, hlast⟩ := Clock.step_of_forall hs₂ ht (hat s _ rfl)
  have hover : unit'.getIsAckTimeout late = true := by
    refine getIsAckTimeout_iff.mpr ⟨hst', ?_⟩
    rw [ht']
    omega
  have hwindow : late - now ≥ maxMsgWaitConsumeAckTime :=
    hfull _ _ _ _ _ htimed ⟨c, unit', hm, hrun.unit.trans hu', hover⟩ hlast
  simp only [late, maxMsgWaitConsumeAckTime] at hwindow
  omega

/-- The ack of a delivery is waited for as long as it should in every run that follows,
with a clock that never goes back, exactly when the message was delivered in the second in
which the request had arrived. -/
theorem fullWindow_iff (h : TimedReachable t₀ p) (hd : p.1.Delivers u unit)
    (hs : timedStep p (.matcher now now' started) = some p') :
    FullWindow u now p' ↔ unit.lastActiveAt = now :=
  ⟨arrival_of_fullWindow h hd hs, fullWindow_of_arrival hd hs⟩

end Window

/-- The request and then the message have come. -/
def messageWaits : List Event :=
  [.consume "t" "g" 0, .matcher 0 0 true, .matcher 0 0 true, .matcher 0 0 true,
    .matcher 0 0 true, .callback 0 1 [(10, ⟨"m", "t", "b", 0⟩)]]

theorem delivers_after_messageWaits {p : Proxy × Int}
    (hp : Runs.exec timedStep (init, 0) messageWaits = some p) :
    p.1.Delivers 0 ⟨0, "t", "g", "", 0, .proxyConsumeInit⟩ := by
  have hrun : ((Runs.exec timedStep (init, 0) messageWaits).bind fun p =>
      p.1.consumerUnits[0]?.map fun consumer =>
        (p.1.matcher, p.1.consumeMsgUnits, consumer.fetchAndConsume.1.isSome)) =
      some (.getConsumer 0 (.done (some 0)), [⟨0, "t", "g", "", 0, .proxyConsumeInit⟩], true) := by
    decide
  rw [hp, Option.bind_some, Option.map_eq_some_iff] at hrun
  obtain ⟨consumer, hc, hfacts⟩ := hrun
  obtain ⟨hm, hunits, hf⟩ : _ ∧ _ ∧ _ := by simpa using hfacts
  exact ⟨0, consumer, hm, by rw [hunits]; rfl, rfl, hc, hf⟩

/-- The message is delivered in the second in which the request has arrived. -/
theorem fullWindow_at_once : ∃ p p', TimedReachable 0 p ∧
    timedStep p (.matcher 0 0 true) = some p' ∧ FullWindow 0 0 p' := by
  have hrun : ((Runs.exec timedStep (init, 0) messageWaits).bind fun p =>
      timedStep p (.matcher 0 0 true)).isSome := by
    decide
  obtain ⟨p', hrun⟩ := Option.isSome_iff_exists.mp hrun
  obtain ⟨p, hp, hp'⟩ := Option.bind_eq_some_iff.mp hrun
  have hr : TimedReachable 0 p := .of_exec .init hp
  exact ⟨p, p', hr, hp', (fullWindow_iff hr (delivers_after_messageWaits hp) hp').mpr rfl⟩

/-- A request waits nine seconds for its message, and its client has one for the ack. -/
theorem ack_window_cut : ¬ ∀ t₀ p p' now now' started u unit, TimedReachable t₀ p →
    p.1.Delivers u unit → timedStep p (.matcher now now' started) = some p' →
    FullWindow u now p' := by
  have hrun : ((Runs.exec timedStep (init, 0) messageWaits).bind fun p =>
      timedStep p (.matcher 9 9 true)).isSome := by
    decide
  obtain ⟨p', hrun⟩ := Option.isSome_iff_exists.mp hrun
  obtain ⟨p, hp, hp'⟩ := Option.bind_eq_some_iff.mp hrun
  have hr : TimedReachable 0 p := .of_exec .init hp
  have hd := delivers_after_messageWaits hp
  intro hall
  have hat := arrival_of_fullWindow hr hd hp' (hall 0 p p' 9 9 true 0 _ hr hd hp')
  exact absurd hat (by decide)

end Proxy
end RocketmqProxy
