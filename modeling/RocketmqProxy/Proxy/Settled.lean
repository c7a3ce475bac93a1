import RocketmqProxy.Proxy.Response

/-!
# No request stays in the pool

Once the matcher's clock has passed the deadline of a request, its unit leaves the pool within
two turns: the first one answers it, and the second one finds the ack or gives the message back.
-/

namespace RocketmqProxy
namespace Proxy

/-- The timer of `u` has given back the message of that id. -/
def GivenBack (u : UnitRef) (msgId : String) (trace : List Obs) : Prop :=
  ∃ c ret, .unit c (.acked (.ackTimeout u) msgId .reconsumeLater ret) ∈ trace

/-- A unit that has left the pool without an ack has given its message back. -/
def GivesBack (s : Proxy) : Prop :=
  ∀ (u : UnitRef) (unit : ConsumeMsgUnit), s.consumeMsgUnits[u]? = some unit → u ∉ s.queue →
    unit.status = .clientReceive → GivenBack u unit.msgId s.trace

variable {s s' : Proxy} {e : Event} {u : UnitRef} {unit : ConsumeMsgUnit}
  {turns : List UnitRef}

theorem GivenBack.append {msgId : String} {t : List Obs} (h : GivenBack u msgId t)
    (t' : List Obs) : GivenBack u msgId (t ++ t') := by
  obtain ⟨c, ret, ho⟩ := h
  exact ⟨c, ret, List.mem_append_left t' ho⟩

/-! ## How a unit leaves the pool -/

/-- The units are as they were, and none has left the pool. -/
theorem GivesBack.keep (h : GivesBack s) (hu : s'.consumeMsgUnits = s.consumeMsgUnits)
    (hq : s'.queue = s.queue) (ht : ∃ t, s'.trace = s.trace ++ t) : GivesBack s' := by
  obtain ⟨t, ht⟩ := ht
  intro u unit hunit hnot hs
  rw [ht]
  exact (h u unit (hu ▸ hunit) (hq ▸ hnot) hs).append t

/-- The unit in hand leaves the pool. -/
theorem GivesBack.leave (h : GivesBack s) {get : GetConsumer} (hm : s.matcher = .getConsumer u get)
    (hm' : s'.matcher = .pop) (hp : s'.consumeMsgPool = s.consumeMsgPool)
    (hu : s'.consumeMsgUnits = s.consumeMsgUnits) {t : List Obs} (ht : s'.trace = s.trace ++ t)
    (hown : ∀ unit, s.consumeMsgUnits[u]? = some unit → unit.status = .clientReceive →
      GivenBack u unit.msgId t) : GivesBack s' := by
  intro v unit hunit hnot hs
  rw [queue, hm', held, List.nil_append, hp] at hnot
  rw [hu] at hunit
  rw [ht]
  by_cases hvu : v = u
  · subst hvu
    obtain ⟨c, ret, ho⟩ := hown unit hunit hs
    exact ⟨c, ret, List.mem_append_right _ ho⟩
  · refine (h v unit hunit ?_ hs).append t
    rw [queue_held hm, List.mem_cons, not_or]
    exact ⟨hvu, hnot⟩

/-- The matcher has the unit in hand. -/
def InHand (s : Proxy) (u : UnitRef) : Prop := ∃ get, s.matcher = .getConsumer u get

/-- The second turn of an overdue unit is its last. -/
theorem Step.last (h : Step s e s') (hi : RequestsInv s) (hh : s.InHand u) (ha : s.Answered u)
    (hu : s.consumeMsgUnits[u]? = some unit) (he : Overdue unit.lastActiveAt e) :
    s.takes e = [] ∧ (s'.InHand u ∨ u ∉ s'.queue) := by
  obtain ⟨get, hm⟩ := hh
  have hnot : u ∉ s.consumeMsgPool := by
    have hnodup := hi.requests.nodup
    rw [queue_held hm, List.nodup_cons] at hnodup
    exact hnodup.1
  have hstatus : unit.status ≠ .proxyConsumeInit := by
    intro hs
    obtain ⟨unit', call, hu', hc, hone⟩ := ha
    obtain rfl := Option.some.inj (hu.symm.trans hu')
    obtain ⟨hcall, call', hc', -, -, hl⟩ := hi.requests.life u unit hu
    rw [hcall] at hc
    obtain rfl := Option.some.inj (hc.symm.trans hc')
    generalize deliveries u s.trace = ds at hl
    cases hl with
    | waiting _ _ hnew =>
      rw [hnew] at hone
      exact absurd hone (by simp [ConsumeCallData.new])
    | timedOut hq _ _ => exact hq (by rw [queue_held hm]; exact List.mem_cons_self)
    | delivered hs' _ _ => exact hs' hs
  cases h with
  | pop hm' => exact absurd (hm.symm.trans hm') (by simp)
  | matcherGet hm' =>
    obtain ⟨rfl, -⟩ := MatcherPc.getConsumer.inj (hm.symm.trans hm')
    exact ⟨takes_held hm, .inl ⟨_, rfl⟩⟩
  | deliver hm' hu' _ hs | fetchTimeout hm' hu' _ hs =>
    obtain ⟨rfl, -⟩ := MatcherPc.getConsumer.inj (hm.symm.trans hm')
    obtain rfl := Option.some.inj (hu.symm.trans hu')
    exact absurd hs hstatus
  | requeue hm' hu' hs =>
    obtain ⟨rfl, -⟩ := MatcherPc.getConsumer.inj (hm.symm.trans hm')
    obtain rfl := Option.some.inj (hu.symm.trans hu')
    rcases hs with ⟨hs, -⟩ | ⟨hs, ht⟩
    · exact absurd hs hstatus
    · -- the ack timer has run out
      rw [ConsumeMsgUnit.getIsAckTimeout, decide_eq_true hs, Bool.true_and,
        decide_eq_false_iff_not] at ht
      exact absurd he ht
  | ackTimeout hm' hu' | drop hm' hu' =>
    obtain ⟨rfl, -⟩ := MatcherPc.getConsumer.inj (hm.symm.trans hm')
    exact ⟨takes_held hm, .inr hnot⟩
  | _ => exact ⟨rfl, .inl ⟨get, hm⟩⟩

end Proxy
end RocketmqProxy
