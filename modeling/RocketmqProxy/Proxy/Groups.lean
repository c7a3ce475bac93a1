import RocketmqProxy.Proxy.Requests

/-!
# Acks and other groups

`idUnitMap` has one entry for a message id, whichever group the message went to, and
a ConsumeAck marks and removes the entry of its id without a look at the topic and
group of the unit.  The units of other groups are left alone exactly when the entry
is not one of theirs.
-/

namespace RocketmqProxy
namespace Proxy

open Std

/-- The step belongs to the handling of a ConsumeAck request of these fields. -/
inductive HandlesAck (s : Proxy) : Event → String → String → String → Prop
  | request (topic group msgId : String) (status now : Int) :
      HandlesAck s (.consumeAck topic group msgId status now) topic group msgId
  | process {k : CallRef} {call : ConsumeAckCallData} {now : Int} {started : Bool}
      (hg : (∃ get, s.grpc = .ack k get) ∨ s.grpc = .ackLookup k ∨
        ∃ unit, s.grpc = .ackStore k unit)
      (hk : s.ackCalls[k]? = some call) :
      HandlesAck s (.grpc now started) call.topic call.group call.msgId
  | done {k : CallRef} {call : ConsumeAckCallData} {ok : Bool}
      (hk : s.ackCalls[k]? = some call) :
      HandlesAck s (.ackDone k ok) call.topic call.group call.msgId

/-- Every unit of another topic or group keeps its status, and its message id leads to
it exactly if it did before. -/
def ForeignKept (topic group : String) (s s' : Proxy) : Prop :=
  ∀ (u : UnitRef) (unit : ConsumeMsgUnit), s.consumeMsgUnits[u]? = some unit →
    (unit.topic, unit.group) ≠ (topic, group) →
    (∃ unit', s'.consumeMsgUnits[u]? = some unit' ∧ unit'.status = unit.status) ∧
      (s'.idUnitMap[unit.msgId]? = some u ↔ s.idUnitMap[unit.msgId]? = some u)

/-- The unit `u`, if there is one, is of this topic and group. -/
def OwnUnit (s : Proxy) (topic group : String) (u : Option UnitRef) : Prop :=
  ∀ (v : UnitRef) (unit : ConsumeMsgUnit), u = some v → s.consumeMsgUnits[v]? = some unit →
    (unit.topic, unit.group) = (topic, group)

/-- The handler marks a unit only if it is of the request's topic and group or marked
already, and removes an entry of the index only if it is of that topic and group. -/
def TouchesOwn (s : Proxy) (e : Event) (topic group msgId : String) : Prop :=
  (∀ now started k v unit, e = .grpc now started → s.grpc = .ackStore k (some v) →
    s.consumeMsgUnits[v]? = some unit →
      (unit.topic, unit.group) = (topic, group) ∨ unit.status = .consumeAck) ∧
  (∀ k ok, e = .ackDone k ok → OwnUnit s topic group s.idUnitMap[msgId]?)

namespace ForeignKept

variable {topic group : String} {s s' s'' : Proxy}

theorem of_eq (hu : s'.consumeMsgUnits = s.consumeMsgUnits) (hm : s'.idUnitMap = s.idUnitMap) :
    ForeignKept topic group s s' := by
  intro u unit h _
  rw [hu, hm]
  exact ⟨⟨unit, h, rfl⟩, Iff.rfl⟩

/-- The entry of `msgId` is removed, and the unit it led to may have been marked. -/
theorem erase_iff (hi : RequestsInv s) {msgId : String}
    (hu : s'.consumeMsgUnits = s.consumeMsgUnits ∨
      ∃ v, s.idUnitMap[msgId]? = some v ∧ s'.consumeMsgUnits =
        s.consumeMsgUnits.modify v fun unit => { unit with status := .consumeAck })
    (hm : s'.idUnitMap = s.idUnitMap.erase msgId) :
    ForeignKept topic group s s' ↔ OwnUnit s topic group s.idUnitMap[msgId]? := by
  constructor
  · intro h v unit hv hunit
    by_contra hforeign
    -- the entry leads to `v`, so it is the entry of the id of `v`, which is gone
    obtain ⟨unit', hunit', hid, -⟩ := hi.indexed.entry msgId v hv
    obtain rfl := Option.some.inj (hunit.symm.trans hunit')
    have hkept := (h v unit hunit hforeign).2.mpr (hid ▸ hv)
    rw [hm, hid, TreeMap.getElem?_erase_self] at hkept
    exact absurd hkept (by simp)
  · intro h u unit hunit hforeign
    constructor
    · rcases hu with hu | ⟨v, hv, hu⟩
      · exact ⟨unit, hu ▸ hunit, rfl⟩
      · have hvu : v ≠ u := by
          rintro rfl
          exact hforeign (h v unit hv hunit)
        exact ⟨unit, by rw [hu, List.getElem?_modify_ne _ _ hvu, hunit], rfl⟩
    · rw [hm, TreeMap.getElem?_erase]
      split
      · rename_i heq
        have hid : msgId = unit.msgId := Std.compare_eq_iff_eq.mp heq
        refine ⟨fun hn => absurd hn (by simp), fun hs => ?_⟩
        exact absurd (h u unit (hid ▸ hs) hunit) hforeign
      · exact Iff.rfl

theorem mark_iff {u : Option UnitRef}
    (hu : s'.consumeMsgUnits = match u with
      | some v => s.consumeMsgUnits.modify v fun unit => { unit with status := .consumeAck }
      | none => s.consumeMsgUnits)
    (hm : s'.idUnitMap = s.idUnitMap) :
    ForeignKept topic group s s' ↔ ∀ (v : UnitRef) (unit : ConsumeMsgUnit), u = some v →
      s.consumeMsgUnits[v]? = some unit →
        (unit.topic, unit.group) = (topic, group) ∨ unit.status = .consumeAck := by
  cases u with
  | none => exact ⟨fun _ v unit hv => absurd hv (by simp), fun _ => of_eq hu hm⟩
  | some v =>
    constructor
    · rintro h v' unit hv hunit
      obtain rfl := Option.some.inj hv
      by_contra hne
      rw [not_or] at hne
      obtain ⟨⟨unit', hunit', hs⟩, -⟩ := h v unit hunit hne.1
      simp only [hu, List.getElem?_modify_eq, hunit] at hunit'
      obtain rfl := Option.some.inj hunit'
      exact hne.2 hs.symm
    · intro h u unit hunit hforeign
      rw [hm]
      refine ⟨?_, Iff.rfl⟩
      by_cases hvu : v = u
      · subst hvu
        refine ⟨{ unit with status := .consumeAck }, ?_, ?_⟩
        · simp only [hu, List.getElem?_modify_eq, hunit]
          rfl
        · exact ((h v unit rfl hunit).resolve_left hforeign).symm
      · exact ⟨unit, by simp only [hu, List.getElem?_modify_ne _ _ hvu, hunit], rfl⟩

end ForeignKept

/-- One step of an ack handler, whatever the other threads have done in between. -/
theorem foreignKept_step_iff {s s' : Proxy} {e : Event} {topic group msgId : String}
    (hi : RequestsInv s) (hh : HandlesAck s e topic group msgId) (h : Step s e s') :
    ForeignKept topic group s s' ↔ TouchesOwn s e topic group msgId := by
  have hkept : s'.consumeMsgUnits = s.consumeMsgUnits → s'.idUnitMap = s.idUnitMap →
      (∀ k u, s.grpc ≠ .ackStore k u) → (∀ k ok, e ≠ .ackDone k ok) →
      (ForeignKept topic group s s' ↔ TouchesOwn s e topic group msgId) := by
    intro hu hm hg he
    refine ⟨fun _ => ⟨?_, fun k ok he' => absurd he' (he k ok)⟩, fun _ => .of_eq hu hm⟩
    exact fun now started k v unit _ hg' => absurd hg' (hg k _)
  cases hh with
  | request =>
    cases h with
    | consumeAck hg => exact hkept rfl rfl (by simp [hg]) (by simp)
  | @process k call now started hg hk =>
    cases h with
    | cancelGet hg' | cancelSet hg' | cancelErase hg' => simp [hg'] at hg
    | ackGet hg' | ackAccepted hg' | ackRejected hg' | ackLookup hg' =>
      exact hkept rfl rfl (by simp [hg']) (by simp)
    | @ackStore j call' u _ _ hg' hj =>
      refine Iff.trans (ForeignKept.mark_iff rfl rfl) ?_
      refine ⟨fun h => ⟨?_, by simp⟩, fun h v unit hv hunit => ?_⟩
      · intro now started k' v unit _ hg'' hunit
        obtain ⟨-, rfl⟩ := GrpcPc.ackStore.inj (hg'.symm.trans hg'')
        exact h v unit rfl hunit
      · subst hv
        exact h.1 now started j v unit rfl hg' hunit
  | @done k call ok hk =>
    cases h with
    | @ackDel _ call' _ hg hk' hf hd =>
      obtain rfl := Option.some.inj (hk.symm.trans hk')
      refine Iff.trans (ForeignKept.erase_iff hi (.inl rfl) rfl) ?_
      refine ⟨fun h => ⟨?_, fun _ _ _ => h⟩, fun h => h.2 k ok rfl⟩
      exact fun now started k' v unit he => absurd he (by simp)

/-! ## A request handled without a pause -/

/-- Some steps of the handling of the ack call `k` have led from `s₀` to `s`. -/
inductive Handling (s₀ : Proxy) (k : CallRef) (msgId : String) (s : Proxy) : Prop
  | pending {call : ConsumeAckCallData} (hk : s.ackCalls[k]? = some call)
      (hid : call.msgId = msgId) (hm : s.idUnitMap = s₀.idUnitMap)
      (hu : s.consumeMsgUnits = s₀.consumeMsgUnits)
      (hg : (∃ get, s.grpc = .ack k get) ∨ s.grpc = .ackLookup k ∨
        s.grpc = .ackStore k s₀.idUnitMap[msgId]?)
  | answered {call : ConsumeAckCallData} (hk : s.ackCalls[k]? = some call)
      (hid : call.msgId = msgId) (hm : s.idUnitMap = s₀.idUnitMap)
      (hu : s.consumeMsgUnits = s₀.consumeMsgUnits ∨
        ∃ v, s₀.idUnitMap[msgId]? = some v ∧ s.consumeMsgUnits =
          s₀.consumeMsgUnits.modify v fun unit => { unit with status := .consumeAck })
      (hg : s.grpc = .next)

theorem Handling.step {s₀ s s' : Proxy} {k : CallRef} {msgId : String} {now : Int}
    {started : Bool} (hh : Handling s₀ k msgId s) (h : Step s (.grpc now started) s') :
    Handling s₀ k msgId s' := by
  cases hh with
  | answered _ _ _ _ hg => exact absurd hg h.grpc_ne_next
  | @pending call hk hid hm hu hg =>
    cases h with
    | cancelGet hg' | cancelSet hg' | cancelErase hg' => simp [hg'] at hg
    | @ackGet j call' get get' _ _ _ _ _ hg' hj hget =>
      obtain ⟨rfl, -⟩ : j = k ∧ True := by simpa [hg'] using hg
      exact .pending hk hid hm hu (.inl ⟨get', rfl⟩)
    | @ackAccepted j call' c unit _ _ hg' hj hc hret =>
      obtain ⟨rfl, -⟩ : j = k ∧ True := by simpa [hg'] using hg
      exact .pending hk hid hm hu (.inr (.inl rfl))
    | @ackRejected j call' c unit _ _ hg' hj hc hret =>
      obtain ⟨rfl, -⟩ : j = k ∧ True := by simpa [hg'] using hg
      obtain rfl := Option.some.inj (hk.symm.trans hj)
      exact .answered (List.getElem?_set_self (List.getElem?_eq_some_iff.mp hk).1) hid hm
        (.inl hu) rfl
    | @ackLookup j call' _ _ hg' hj =>
      obtain ⟨rfl, -⟩ : j = k ∧ True := by simpa [hg'] using hg
      obtain rfl := Option.some.inj (hk.symm.trans hj)
      exact .pending hk hid hm hu (.inr (.inr (by rw [hid, hm])))
    | @ackStore j call' u _ _ hg' hj =>
      obtain ⟨rfl, rfl⟩ : j = k ∧ u = s₀.idUnitMap[msgId]? := by simpa [hg'] using hg
      obtain rfl := Option.some.inj (hk.symm.trans hj)
      refine .answered (List.getElem?_set_self (List.getElem?_eq_some_iff.mp hk).1) hid hm ?_ rfl
      cases he : s₀.idUnitMap[msgId]? with
      | none => exact .inl (by simp [Proxy.ackStore, hu])
      | some v => exact .inr ⟨v, rfl, by simp [Proxy.ackStore, hu]⟩

/-- A request handled from `process` to `del` while no other thread moves. -/
theorem foreignKept_handled_iff {s s' : Proxy} {topic group msgId : String}
    {status now : Int} {es : List Event} {ok : Bool} (hi : RequestsInv s)
    (hes : ∀ e ∈ es, ∃ now started, e = .grpc now started)
    (h : Runs.exec step s (.consumeAck topic group msgId status now ::
      (es ++ [.ackDone s.ackCalls.length ok])) = some s') :
    ForeignKept topic group s s' ↔ OwnUnit s topic group s.idUnitMap[msgId]? := by
  obtain ⟨s₁, s₂, hs₁, hs₂, hs₃⟩ := Runs.exec_between h
  have hstart : Handling s s.ackCalls.length msgId s₁ := by
    cases step_cases hs₁ with
    | consumeAck hg =>
      exact .pending List.getElem?_concat_length rfl rfl rfl (.inl ⟨_, rfl⟩)
  have hend : Handling s s.ackCalls.length msgId s₂ := by
    refine Runs.exec_invariant (fun _ _ _ hh he hs => ?_) hes hstart hs₂
    obtain ⟨_, _, rfl⟩ := he
    exact hh.step (step_cases hs)
  cases step_cases hs₃ with
  | @ackDel _ call _ hg hk hf hd =>
    cases hend with
    | pending _ _ _ _ hg' => simp [hg] at hg'
    | answered hk' hid hm hu _ =>
      obtain rfl := Option.some.inj (hk.symm.trans hk')
      exact ForeignKept.erase_iff hi hu (by simp [hm, hid])

/-- In every reachable state, a step of an ack handler leaves the units of other groups
alone exactly when it touches a unit of its own group or none, and so does a request
that is handled without a pause. -/
theorem foreignKept_iff {s : Proxy} (h : Reachable s) :
    (∀ e s' topic group msgId, HandlesAck s e topic group msgId → s.step e = some s' →
      (ForeignKept topic group s s' ↔ TouchesOwn s e topic group msgId)) ∧
    ∀ topic group msgId status now es ok s',
      (∀ e ∈ es, ∃ now started, e = .grpc now started) →
      Runs.exec step s (.consumeAck topic group msgId status now ::
        (es ++ [.ackDone s.ackCalls.length ok])) = some s' →
      (ForeignKept topic group s s' ↔ OwnUnit s topic group s.idUnitMap[msgId]?) := by
  have hi := requestsInv h
  constructor
  · intro e s' topic group msgId hh hs
    exact foreignKept_step_iff hi hh (step_cases hs)
  · intro topic group msgId status now es ok s' hes hs
    exact foreignKept_handled_iff hi hes hs

/-- Two groups get one message each: `m` the first one, and the second one this. -/
def twoGroups (msgId : String) : List Event :=
  [.consume "t" "g" 0, .consume "t" "h" 0, .matcher 0 0 true, .matcher 0 0 true,
    .matcher 0 0 true, .matcher 0 0 true, .callback 0 1 [(10, ⟨"m", "t", "b", 0⟩)],
    .matcher 0 0 true, .matcher 0 0 true, .matcher 0 0 true, .matcher 0 0 true,
    .matcher 0 0 true, .callback 1 2 [(20, ⟨msgId, "t", "b", 0⟩)], .matcher 0 0 true]

/-- The only group that has the message acks it, and another group has another one. -/
theorem foreignKept_own : ∃ s s', run (twoGroups "n") = some s ∧
    Runs.exec step s [.consumeAck "t" "g" "m" 0 1, .grpc 1 true, .grpc 1 true, .grpc 1 true,
      .grpc 1 true, .ackDone s.ackCalls.length true] = some s' ∧
    s.consumeMsgUnits[1]? = some ⟨1, "t", "h", "n", 0, .clientReceive⟩ ∧
    ForeignKept "t" "g" s s' := by
  have hrun : ((run (twoGroups "n")).bind fun s =>
      (Runs.exec step s [.consumeAck "t" "g" "m" 0 1, .grpc 1 true, .grpc 1 true,
        .grpc 1 true, .grpc 1 true, .ackDone s.ackCalls.length true]).map fun _ =>
          (s.idUnitMap["m"]?, s.consumeMsgUnits)) =
      some (some 0, [⟨0, "t", "g", "m", 0, .clientReceive⟩,
        ⟨1, "t", "h", "n", 0, .clientReceive⟩]) := by
    decide
  obtain ⟨s, hs, hrun⟩ := Option.bind_eq_some_iff.mp hrun
  obtain ⟨s', hs', hfacts⟩ := Option.map_eq_some_iff.mp hrun
  obtain ⟨hindex, hunits⟩ := Prod.mk.inj hfacts
  have hother : s.consumeMsgUnits[1]? = some ⟨1, "t", "h", "n", 0, .clientReceive⟩ := by
    rw [hunits]
    rfl
  refine ⟨s, s', hs, hs', hother, ((foreignKept_iff (reachable_run hs)).2 "t" "g" "m" 0 1
    [.grpc 1 true, .grpc 1 true, .grpc 1 true, .grpc 1 true] true s' (by simp) hs').mpr ?_⟩
  intro v unit hv hunit
  obtain rfl := Option.some.inj (hindex.symm.trans hv)
  rw [hunits] at hunit
  obtain rfl := Option.some.inj hunit
  rfl

/-- Two groups have the message, and the ack of the first marks the unit of the
second. -/
theorem ack_marks_foreign : ¬ ∀ s topic group msgId status now es ok s', Reachable s →
    (∀ e ∈ es, ∃ now started, e = .grpc now started) →
    Runs.exec step s (.consumeAck topic group msgId status now ::
      (es ++ [.ackDone s.ackCalls.length ok])) = some s' →
    ForeignKept topic group s s' := by
  have hrun : ((run (twoGroups "m")).bind fun s =>
      (Runs.exec step s [.consumeAck "t" "g" "m" 0 1, .grpc 1 true, .grpc 1 true,
        .grpc 1 true, .grpc 1 true, .ackDone s.ackCalls.length true]).map fun s' =>
          (s.consumeMsgUnits[1]?, s'.consumeMsgUnits[1]?)) =
      some (some ⟨1, "t", "h", "m", 0, .clientReceive⟩,
        some ⟨1, "t", "h", "m", 0, .consumeAck⟩) := by
    decide
  obtain ⟨s, hs, hrun⟩ := Option.bind_eq_some_iff.mp hrun
  obtain ⟨s', hs', hfacts⟩ := Option.map_eq_some_iff.mp hrun
  obtain ⟨hunit, hunit'⟩ := Prod.mk.inj hfacts
  intro hall
  obtain ⟨⟨unit', hu, hstatus⟩, -⟩ := hall s "t" "g" "m" 0 1
    [.grpc 1 true, .grpc 1 true, .grpc 1 true, .grpc 1 true] true s' (reachable_run hs)
    (by simp) hs' 1 _ hunit (by decide)
  obtain rfl := Option.some.inj (hunit'.symm.trans hu)
  exact absurd hstatus (by decide)

end Proxy
end RocketmqProxy
