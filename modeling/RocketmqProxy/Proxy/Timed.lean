import RocketmqProxy.Lib.Clock
import RocketmqProxy.Proxy.Answers

/-!
# The proxy and its clock

Runs of the proxy in which the readings of the clock never go back.
-/

namespace RocketmqProxy
namespace Proxy

open Std

/-- The matcher gives up the unit in its hand, which it tells by the reading `now`. -/
def fetchTimesOut (s : Proxy) (now : Int) : Bool :=
  match s.matcher with
  | .getConsumer u (.done (some c)) =>
    match s.consumeMsgUnits[u]?, s.consumerUnits[c]? with
    | some unit, some consumer =>
      unit.getIsFetchMsgTimeout now && consumer.fetchAndConsume.1.isNone
    | _, _ => false
  | _ => false

/-- The readings of the clock in a step.  An event has one also where the code would not
look at it, but the matcher has a second one only for the reply of a fetch timeout. -/
def readings (s : Proxy) : Event → List Int
  | .consume _ _ now | .consumeAck _ _ _ _ now | .grpc now _ | .shutdown now => [now]
  | .matcher now now' _ => if s.fetchTimesOut now then [now, now'] else [now]
  | .consumeDone _ _ | .ackDone _ _ | .callback _ _ _ | .callbackReturn _ _ | .clear => []

/-- A step of the proxy, with the last reading of the clock before it and after it. -/
abbrev timedStep : Proxy × Int → Event → Option (Proxy × Int) := Clock.step readings step

/-- What a proxy started at `t₀` reaches by steps that all meet `P`. -/
abbrev TimedReachableBy (P : Proxy × Int → Event → Prop) (t₀ : Int) : Proxy × Int → Prop :=
  Runs.Reach timedStep (init, t₀) P

abbrev TimedReachable : Int → Proxy × Int → Prop := TimedReachableBy Runs.always

variable {P : Proxy × Int → Event → Prop} {t₀ : Int} {p : Proxy × Int}

theorem reachable_of_timed (h : TimedReachableBy P t₀ p) : Reachable p.1 := Clock.reach_fst h

/-- The readings of a step of the matcher that does not give up its unit. -/
theorem readings_matcher {s : Proxy} {now now' : Int} {started : Bool}
    (h : s.fetchTimesOut now = false) : readings s (.matcher now now' started) = [now] := by
  simp [readings, h]

theorem readings_matcher_same {s : Proxy} {now : Int} {started : Bool} {r : Int}
    (hr : r ∈ readings s (.matcher now now started)) : r = now := by
  rw [readings] at hr
  split at hr <;> simpa using hr

/-- The reading of a step that looks at the clock once. -/
theorem timedStep_single {q : Proxy × Int} {e : Event} {now : Int}
    (hs : timedStep p e = some q) (hr : readings p.1 e = [now]) : q.2 = now ∧ p.2 ≤ now := by
  obtain ⟨hle, -, ht⟩ := Clock.step_eq_some.mp hs
  rw [hr] at hle ht
  exact ⟨ht.symm, List.rel_of_pairwise_cons hle List.mem_cons_self⟩

/-! ## The time stamp of a unit -/

theorem Step.unit_origin {s s' : Proxy} {e : Event} (h : Step s e s') {u : UnitRef}
    {unit' : ConsumeMsgUnit} (hu : s'.consumeMsgUnits[u]? = some unit') :
    (∃ unit, s.consumeMsgUnits[u]? = some unit) ∨
      e = .consume unit'.topic unit'.group unit'.lastActiveAt := by
  cases hold : s.consumeMsgUnits[u]? with
  | some unit => exact .inl ⟨unit, rfl⟩
  | none =>
    have hge := List.getElem?_eq_none_iff.mp hold
    cases h with
    | @consume topic group now hg =>
      rw [consumeProcess, List.getElem?_append_right hge] at hu
      obtain rfl := List.mem_singleton.mp (List.mem_of_getElem? hu)
      exact .inr rfl
    | @ackStore _ _ v =>
      cases v with
      | none => exact absurd (hold.symm.trans hu) (by simp)
      | some v =>
        refine absurd hu ?_
        rw [Proxy.ackStore, List.getElem?_modify, hold]
        simp
    | deliver =>
      obtain ⟨hlt, -⟩ := List.getElem?_eq_some_iff.mp hu
      exact absurd (hlt.trans_eq List.length_set) (Nat.not_lt_of_le hge)
    | _ => exact absurd (hold.symm.trans hu) (by simp)

theorem arrived_before (h : TimedReachableBy P t₀ p) :
    ∀ (u : UnitRef) (unit : ConsumeMsgUnit), p.1.consumeMsgUnits[u]? = some unit →
      unit.lastActiveAt ≤ p.2 := by
  refine h.invariant (I := fun p => ∀ (u : UnitRef) (unit : ConsumeMsgUnit),
    p.1.consumeMsgUnits[u]? = some unit → unit.lastActiveAt ≤ p.2) ?_ ?_
  · intro u unit hu
    exact absurd hu (by simp [init])
  · intro p e q _ hi _ hs u unit hu
    obtain ⟨hmono, hreadings⟩ := Clock.step_le hs
    have hstep := step_cases (Clock.step_eq_some.mp hs).2.1
    rcases hstep.unit_origin hu with ⟨unit₀, hu₀⟩ | rfl
    · obtain ⟨unit₁, hu₁, -, ht⟩ := hstep.unit_kept hu₀
      obtain rfl := Option.some.inj (hu.symm.trans hu₁)
      exact ht ▸ (hi u unit₀ hu₀).trans hmono
    · exact (hreadings _ List.mem_cons_self).2

end Proxy
end RocketmqProxy
