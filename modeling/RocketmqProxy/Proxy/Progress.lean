import RocketmqProxy.Proxy.Registry

/-!
# The matcher gets round to every unit

As long as `getConsumer` finds a consumer or can start one, the matcher comes to every
unit of the pool without the help of another thread: it drops the units in front or puts
them back behind.
-/

namespace RocketmqProxy
namespace Proxy

open Std

/-- The matcher has not got a null pointer from `getConsumer`. -/
def MatcherAlive (s : Proxy) : Prop := ∀ u, s.matcher ≠ .getConsumer u (.done none)

/-- The matcher moves while the gRPC thread handles nothing. -/
def MatcherAlone (s : Proxy) (e : Event) : Prop :=
  s.grpc = .next ∧ ∃ now now' started, e = .matcher now now' started

/-- The matcher has gone from `s` to `s'` alone and has left the unit `u` as it was. -/
structure MatcherRun (u : UnitRef) (s s' : Proxy) : Prop where
  run : Runs.Reach step s MatcherAlone s'
  unit : s'.consumeMsgUnits[u]? = s.consumeMsgUnits[u]?
  grpc : s'.grpc = s.grpc
  trace : ∃ t, s'.trace = s.trace ++ t

/-- The matcher moves, and the clock reads `now`. -/
def MatcherAt (now : Int) (_ : Proxy) (e : Event) : Prop := e = .matcher now now true

/-- The same while the clock stands at `now`, whatever the gRPC thread has in hand. -/
structure MatcherRunAt (now : Int) (u : UnitRef) (s s' : Proxy) : Prop where
  run : Runs.Reach step s (MatcherAt now) s'
  unit : s'.consumeMsgUnits[u]? = s.consumeMsgUnits[u]?
  grpc : s'.grpc = s.grpc
  trace : ∃ t, s'.trace = s.trace ++ t

namespace MatcherRunAt

variable {now : Int} {u : UnitRef} {s s' s'' : Proxy}

theorem refl (now : Int) (u : UnitRef) (s : Proxy) : MatcherRunAt now u s s :=
  ⟨.init, rfl, rfl, [], (List.append_nil _).symm⟩

theorem trans (h : MatcherRunAt now u s s') (h' : MatcherRunAt now u s' s'') :
    MatcherRunAt now u s s'' := by
  obtain ⟨t, ht⟩ := h.trace
  obtain ⟨t', ht'⟩ := h'.trace
  exact ⟨h.run.trans h'.run, h'.unit.trans h.unit, h'.grpc.trans h.grpc, t ++ t',
    by rw [ht', ht, List.append_assoc]⟩

theorem one (hs : s.step (.matcher now now true) = some s')
    (hu : s'.consumeMsgUnits[u]? = s.consumeMsgUnits[u]?) : MatcherRunAt now u s s' := by
  refine ⟨.step .init rfl hs, hu, matcher_grpc hs, ?_⟩
  obtain ⟨t, ht, -⟩ := (step_cases hs).explained
  exact ⟨t, ht⟩

theorem reachable (h : MatcherRunAt now u s s') (hr : Reachable s) : Reachable s' :=
  hr.trans (h.run.mono fun _ _ _ => trivial)

theorem alone (h : MatcherRunAt now u s s') (hg : s.grpc = .next) : MatcherRun u s s' := by
  refine ⟨?_, h.unit, h.grpc, h.trace⟩
  refine (h.run.strengthen (I := fun s => s.grpc = .next) hg ?_).1.mono ?_
  · rintro s e s' hg rfl hs
    exact (matcher_grpc hs).trans hg
  · rintro s e ⟨hg, rfl⟩
    exact ⟨hg, now, now, true, rfl⟩

end MatcherRunAt

theorem MatcherRun.reachable {u : UnitRef} {s s' : Proxy} (h : MatcherRun u s s')
    (hr : Reachable s) : Reachable s' :=
  hr.trans (h.run.mono fun _ _ _ => trivial)

/-! ## A call of `getConsumer` -/

/-- How many steps a call has to go at most. -/
def stepsLeft : GetConsumer → Nat
  | .lookup => 3
  | .start _ => 2
  | .insert _ => 1
  | .done _ => 0

theorem getConsumer_next (s : Proxy) (topic group : String) (now : Int) {get : GetConsumer}
    (hget : ∀ c, get ≠ .done c) :
    stepsLeft (s.getConsumer topic group now true get).2 < stepsLeft get ∧
      (s.getConsumer topic group now true get).2 ≠ .done none := by
  cases get with
  | lookup =>
    simp only [getConsumer]
    split <;> simp [stepsLeft]
  | start c => simp [getConsumer, stepsLeft]
  | insert c => simp [getConsumer, stepsLeft]
  | done c => exact absurd rfl (hget c)

theorem matcherGet_next (now : Int) {s : Proxy} {v : UnitRef} {unit : ConsumeMsgUnit}
    {get : GetConsumer} (hm : s.matcher = .getConsumer v get)
    (hu : s.consumeMsgUnits[v]? = some unit) (hget : ∀ c, get ≠ .done c) :
    ∃ s' get', s.step (.matcher now now true) = some s' ∧ s'.matcher = .getConsumer v get' ∧
      s'.consumeMsgPool = s.consumeMsgPool ∧ s'.consumeMsgUnits = s.consumeMsgUnits ∧
      stepsLeft get' < stepsLeft get ∧ get' ≠ .done none := by
  obtain ⟨consumers, msgPool, units, he, -⟩ :=
    s.getConsumer_cases unit.topic unit.group now true hget
  obtain ⟨hlt, hne⟩ := s.getConsumer_next unit.topic unit.group now hget
  have hstep := step_matcherGet hm hu hget now now true
  rw [he] at hstep
  exact ⟨_, _, hstep, rfl, rfl, rfl, hlt, hne⟩

theorem matcherGet_run (now : Int) (u : UnitRef) {s : Proxy} (hr : Reachable s)
    {v : UnitRef} {get : GetConsumer} (hm : s.matcher = .getConsumer v get)
    (halive : get ≠ .done none) :
    ∃ s' c, MatcherRunAt now u s s' ∧ s'.matcher = .getConsumer v (.done (some c)) ∧
      s'.consumeMsgPool = s.consumeMsgPool := by
  induction hn : stepsLeft get using Nat.strongRecOn generalizing s get with
  | ind n ih =>
    by_cases hdone : ∃ c, get = .done c
    · obtain ⟨c, rfl⟩ := hdone
      cases c with
      | none => exact absurd rfl halive
      | some c => exact ⟨s, c, .refl now u s, hm, rfl⟩
    · obtain ⟨unit, hu, -⟩ := (registryInv hr).matching v get hm
      obtain ⟨s₁, get', hs, hm', hpool, hunits, hlt, hne⟩ :=
        matcherGet_next now hm hu (not_exists.mp hdone)
      have hone : MatcherRunAt now u s s₁ := .one hs (by rw [hunits])
      obtain ⟨s', c, hrun, hdone', hpool'⟩ :=
        ih _ (hn ▸ hlt) (hone.reachable hr) hm' hne rfl
      exact ⟨s', c, hone.trans hrun, hdone', hpool'.trans hpool⟩

/-! ## One turn of the loop -/

/-- Nothing keeps the matcher from handling the unit it has in hand. -/
theorem matchUnit_enabled {s : Proxy} (hr : Reachable s) {v : UnitRef} {c : ConsumerRef}
    (hm : s.matcher = .getConsumer v (.done (some c))) (now : Int) :
    ∃ s', s.step (.matcher now now true) = some s' := by
  obtain ⟨unit, hu, hok⟩ := (registryInv hr).matching v _ hm
  obtain ⟨consumer, hc⟩ : ∃ consumer, s.consumerUnits[c]? = some consumer := by
    cases hok with
    | done hcon =>
      rw [sdk, List.getElem?_map] at hcon
      obtain ⟨consumer, hc, -⟩ := Option.map_eq_some_iff.mp hcon
      exact ⟨consumer, hc⟩
  obtain ⟨hcall, call, hk, -⟩ := (requestsInv hr).requests.life v unit hu
  rw [← hcall] at hk
  simp only [step, matcherStep, hm, matchUnit, hu, hc, hk, Option.bind_eq_bind, Option.bind_some]
  split
  · split
    · exact ⟨_, rfl⟩
    · split <;> exact ⟨_, rfl⟩
  · split <;> exact ⟨_, rfl⟩
  · exact ⟨_, rfl⟩

theorem status_of_ackTimeout {unit : ConsumeMsgUnit} {now : Int}
    (h : unit.getIsAckTimeout now = true) : unit.status = .clientReceive := by
  rw [ConsumeMsgUnit.getIsAckTimeout, Bool.and_eq_true] at h
  exact of_decide_eq_true h.1

theorem ackTimeout_next {s s' : Proxy} {now now' : Int} {started : Bool} {u : UnitRef}
    {unit : ConsumeMsgUnit} {c : ConsumerRef} (hm : s.matcher = .getConsumer u (.done (some c)))
    (hu : s.consumeMsgUnits[u]? = some unit) (ht : unit.getIsAckTimeout now = true)
    (hs : s.step (.matcher now now' started) = some s') :
    ∃ consumer, s.consumerUnits[c]? = some consumer ∧
      s' = { s.onConsumer c (consumer.setMsgReconsume unit.msgId).2
        (.acked (.ackTimeout u) unit.msgId .reconsumeLater
          (consumer.setMsgReconsume unit.msgId).1) with matcher := .pop } := by
  have hst := status_of_ackTimeout ht
  simp only [step, matcherStep, hm, matchUnit, hu, hst, ht, if_true, Option.bind_eq_bind,
    Option.bind_some, Option.bind_eq_some_iff] at hs
  obtain ⟨consumer, hc, hs⟩ := hs
  exact ⟨consumer, hc, (Option.some.inj hs).symm⟩

/-- The matcher handles a unit in front of `u`, which is dropped or put back at the end. -/
theorem matcher_turn (now : Int) {s : Proxy} (hr : Reachable s) {u v : UnitRef}
    {c : ConsumerRef} (hm : s.matcher = .getConsumer v (.done (some c))) (hne : v ≠ u) :
    ∃ s', MatcherRunAt now u s s' ∧ s'.matcher = .pop ∧
      (s'.consumeMsgPool = s.consumeMsgPool ∨ s'.consumeMsgPool = s.consumeMsgPool ++ [v]) := by
  obtain ⟨s', hs⟩ := matchUnit_enabled hr hm now
  refine ⟨s', ?_⟩
  have hstep := step_cases hs
  have hone : s'.consumeMsgUnits[u]? = s.consumeMsgUnits[u]? → MatcherRunAt now u s s' :=
    .one hs
  cases hstep with
  | pop hm' => exact absurd (hm.symm.trans hm') (by simp)
  | matcherGet hm' _ hget =>
    obtain ⟨-, rfl⟩ := MatcherPc.getConsumer.inj (hm.symm.trans hm')
    cases hget
  | deliver hm' =>
    obtain ⟨rfl, -⟩ := MatcherPc.getConsumer.inj (hm.symm.trans hm')
    exact ⟨hone (List.getElem?_set_ne hne), rfl, .inr rfl⟩
  | requeue hm' =>
    obtain ⟨rfl, -⟩ := MatcherPc.getConsumer.inj (hm.symm.trans hm')
    exact ⟨hone rfl, rfl, .inr rfl⟩
  | fetchTimeout | ackTimeout | drop => exact ⟨hone rfl, rfl, .inl rfl⟩

/-- The matcher is done with the unit it has in hand, and `u` is still where it was. -/
theorem matcher_passes (now : Int) {s : Proxy} (hr : Reachable s) {u v : UnitRef}
    {get : GetConsumer} (hm : s.matcher = .getConsumer v get) (halive : get ≠ .done none)
    (hne : v ≠ u) {front back : List UnitRef} (hp : s.consumeMsgPool = front ++ u :: back) :
    ∃ s' back', MatcherRunAt now u s s' ∧ s'.matcher = .pop ∧
      s'.consumeMsgPool = front ++ u :: back' := by
  obtain ⟨s₁, c, hget, hm₁, hp₁⟩ := matcherGet_run now u hr hm halive
  obtain ⟨s₂, hturn, hm₂, hp₂⟩ :=
    matcher_turn now (hget.reachable hr) hm₁ hne
  rcases hp₂ with hp₂ | hp₂
  · exact ⟨s₂, back, hget.trans hturn, hm₂, by rw [hp₂, hp₁, hp]⟩
  · exact ⟨s₂, back ++ [v], hget.trans hturn, hm₂, by rw [hp₂, hp₁, hp]; simp⟩

theorem matcher_pop (now : Int) {s : Proxy} {v : UnitRef} {rest : List UnitRef}
    (hm : s.matcher = .pop) (hp : s.consumeMsgPool = v :: rest) :
    s.step (.matcher now now true) =
      some { s with consumeMsgPool := rest, matcher := .getConsumer v .lookup } := by
  simp only [step, matcherStep, hm, hp]

/-! ## Every unit of the pool -/

/-- The matcher comes to a unit of the pool, after the units in front of it. -/
theorem matcher_reaches_pool (now : Int) {s : Proxy} (hr : Reachable s)
    (hm : s.matcher = .pop) {u : UnitRef} {front back : List UnitRef}
    (hp : s.consumeMsgPool = front ++ u :: back) :
    ∃ s' c, MatcherRunAt now u s s' ∧ s'.matcher = .getConsumer u (.done (some c)) := by
  induction front generalizing s back with
  | nil =>
    have hone : MatcherRunAt now u s _ := .one (matcher_pop now hm hp) rfl
    obtain ⟨s', c, hrun, hm', -⟩ :=
      matcherGet_run now u (hone.reachable hr) rfl (by simp)
    exact ⟨s', c, hone.trans hrun, hm'⟩
  | cons v front ih =>
    have hvu : v ≠ u := by
      have hn := (requestsInv hr).requests.nodup
      rw [queue, hm, hp] at hn
      rintro rfl
      exact (List.nodup_cons.mp hn).1 (List.mem_append_right front List.mem_cons_self)
    have hone : MatcherRunAt now u s _ := .one (matcher_pop now hm hp) rfl
    obtain ⟨s₁, back', hpass, hm₁, hp₁⟩ :=
      matcher_passes now (hone.reachable hr) rfl (by simp) hvu rfl
    have hrun₁ := hone.trans hpass
    obtain ⟨s', c, hrun, hm'⟩ := ih (hrun₁.reachable hr) hm₁ hp₁
    exact ⟨s', c, hrun₁.trans hrun, hm'⟩

/-- The matcher comes to each unit that is in the pool or that it has in hand, while the
clock stands still. -/
theorem matcher_reaches_at (now : Int) {s : Proxy} (hr : Reachable s) (halive : MatcherAlive s)
    {u : UnitRef} (hq : u ∈ s.queue) :
    ∃ s' c, MatcherRunAt now u s s' ∧ s'.matcher = .getConsumer u (.done (some c)) := by
  cases hm : s.matcher with
  | pop =>
    rw [queue, hm] at hq
    obtain ⟨front, back, hp⟩ := List.append_of_mem hq
    exact matcher_reaches_pool now hr hm hp
  | getConsumer v get =>
    have hget : get ≠ .done none := by
      rintro rfl
      exact halive v hm
    by_cases hvu : v = u
    · subst hvu
      obtain ⟨s', c, hrun, hm', -⟩ := matcherGet_run now v hr hm hget
      exact ⟨s', c, hrun, hm'⟩
    · rw [queue_held hm] at hq
      obtain ⟨front, back, hp⟩ :=
        List.append_of_mem ((List.mem_cons.mp hq).resolve_left (Ne.symm hvu))
      obtain ⟨s₁, back', hpass, hm₁, hp₁⟩ := matcher_passes now hr hm hget hvu hp
      obtain ⟨s', c, hrun, hm'⟩ := matcher_reaches_pool now (hpass.reachable hr) hm₁ hp₁
      exact ⟨s', c, hpass.trans hrun, hm'⟩

theorem matcher_reaches {s : Proxy} (hr : Reachable s) (hg : s.grpc = .next)
    (halive : MatcherAlive s) {u : UnitRef} (hq : u ∈ s.queue) :
    ∃ s' c, MatcherRun u s s' ∧ s'.matcher = .getConsumer u (.done (some c)) := by
  obtain ⟨s', c, hrun, hm⟩ := matcher_reaches_at 0 hr halive hq
  exact ⟨s', c, hrun.alone hg, hm⟩

end Proxy
end RocketmqProxy
