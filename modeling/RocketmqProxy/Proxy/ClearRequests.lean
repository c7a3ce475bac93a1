import RocketmqProxy.Proxy.Clearing

/-!
# Requests to clear a consumer

`shutdown()` of a consumer returns once its callbacks have, and these wait until the
clear thread has resolved their batches.  The one slot serves all consumers: the clear
thread empties it without looking, and what it wipes may be a request written after it
read the slot, or the request of a consumer that has got another batch meanwhile.
-/

namespace RocketmqProxy

open Std

/-- No registered batch is waiting. -/
def ConsumerUnit.Resolved (u : ConsumerUnit) : Prop :=
  ∀ p ∈ u.lockers.toList, p.2.clientStatus = .msgConsumeAck

instance (u : ConsumerUnit) : Decidable u.Resolved :=
  inferInstanceAs (Decidable (∀ p ∈ u.lockers.toList, _))

theorem ConsumerUnit.resolved_iff {u : ConsumerUnit} :
    u.Resolved ↔ ∀ (a : Addr) (l : ConsumerUnitLocker), u.lockers[a]? = some l →
      l.clientStatus = .msgConsumeAck := by
  constructor
  · exact fun h a l hl => h (a, l) (TreeMap.mem_toList_iff_getElem?_eq_some.mpr hl)
  · exact fun h p hp => h p.1 p.2 (TreeMap.mem_toList_iff_getElem?_eq_some.mp hp)

theorem ConsumerUnit.unlockAll_resolved (u : ConsumerUnit) : u.unlockAll.Resolved := by
  rw [resolved_iff]
  intro a l hl
  rw [unlockAll_lockers] at hl
  obtain ⟨l₀, -, rfl⟩ := Option.map_eq_some_iff.mp hl
  classical exact (ConsumerUnitLocker.unlock_releases l₀).1

/-- A batch once resolved stays so; only a new batch waits. -/
theorem UnitStep.resolved {u u' : ConsumerUnit} {o : UnitObs} (h : UnitStep u o u')
    (hr : u.Resolved) (ho : ∀ a msgs, o ≠ .registered a msgs) : u'.Resolved := by
  rw [ConsumerUnit.resolved_iff] at hr ⊢
  intro a l' hl'
  rcases h.locker_back hl' with ⟨msgs, he, -⟩ | ⟨hp, l, hl⟩
  · exact absurd he (ho a msgs)
  · obtain rfl := Option.some.inj (hl'.symm.trans (h.locker hl hp))
    rw [UnitObs.ops_singleton]
    cases UnitObs.toOp a o with
    | none => exact hr a l hl
    | some op => exact ConsumerUnitLocker.apply_released op (hr a l hl)

theorem ConsumerUnit.callbackBegin_waits {u : ConsumerUnit} {a : Addr}
    (ha : a ∉ u.lockers) (msgs : List (Addr × MQMessageExt)) :
    ¬ (u.callbackBegin a msgs).Resolved := by
  rw [resolved_iff]
  intro h
  have hnone : u.lockers[a]? = none := by
    rw [TreeMap.mem_iff_isSome_getElem?] at ha
    exact Option.not_isSome_iff_eq_none.mp ha
  have hnew := h a (.new msgs u.consumer.groupName) (by
    rw [callbackBegin, waitLock, TreeMapLoop.getElem?_insertIfNew, if_pos rfl, hnone]
    rfl)
  exact absurd hnew (by simp)

namespace Proxy

def Resolved (s : Proxy) (c : ConsumerRef) : Prop :=
  ∀ unit ∈ s.consumerUnits[c]?, unit.Resolved

instance (s : Proxy) (c : ConsumerRef) : Decidable (s.Resolved c) :=
  inferInstanceAs (Decidable (∀ unit ∈ s.consumerUnits[c]?, _))

/-- The slot asks for the consumer registered under `key`.  The empty string asks for
none. -/
def Asks (s : Proxy) (key : String) : Prop :=
  s.clearConsumerKey = key ∧ key ≠ ""

/-- While `shutdown()` of a consumer is blocked on a batch, the slot asks for it. -/
def NoRequestLost (s : Proxy) : Prop :=
  ∀ i key c, s.shutdown = .shutdown i key c → ¬ s.Resolved c → s.Asks key

/-- The clear thread will empty the slot, or leave it alone, without having looked up
`c` under `key`. -/
def passesBy (s : Proxy) (key : String) (c : ConsumerRef) : Bool :=
  match s.clear with
  | .idle | .lookup => key = ""
  | .unlock d => key = "" || d ≠ c
  | .reset => true

def selectedNow : ShutdownPc → Option (String × ConsumerRef)
  | .select _ key c => some (key, c)
  | _ => none

def shuttingDown : ShutdownPc → Option (String × ConsumerRef)
  | .shutdown _ key c => some (key, c)
  | _ => none

/-- When the step begins to shut a consumer down or registers a batch on one that is
being shut down, the clear thread is still going to look it up. -/
def RequestKept (s : Proxy) : Event → Prop
  | .shutdown _ => ∀ r ∈ selectedNow s.shutdown, s.passesBy r.1 r.2 = true → s.Resolved r.2
  | .callback c _ _ => ∀ r ∈ shuttingDown s.shutdown, r.2 = c →
      s.clearConsumerKey = r.1 ∧ s.passesBy r.1 c = false
  | _ => True

instance (s : Proxy) : (e : Event) → Decidable (RequestKept s e)
  | .shutdown _ => inferInstanceAs (Decidable (∀ r ∈ selectedNow s.shutdown, _))
  | .callback _ _ _ => inferInstanceAs (Decidable (∀ r ∈ shuttingDown s.shutdown, _))
  | .consume _ _ _ | .consumeDone _ _ | .consumeAck _ _ _ _ _ | .ackDone _ _ | .grpc _ _
  | .matcher _ _ _ | .callbackReturn _ _ | .clear => inferInstanceAs (Decidable True)

/-! ## Every run -/

theorem Step.resolved {s s' : Proxy} {e : Event} (h : Step s e s') {c : ConsumerRef}
    (hr : s.Resolved c) (he : ∀ a msgs, e ≠ .callback c a msgs) : s'.Resolved c := by
  intro unit' hu'
  cases h.unitsStep with
  | kept units =>
    obtain ⟨unit, hu, hsame⟩ := units.get hu'
    rw [ConsumerUnit.Resolved, hsame.lockers]
    exact hr unit hu
  | created topic group now _ units =>
    rw [units] at hu'
    by_cases hlt : c < s.consumerUnits.length
    · rw [List.getElem?_append_left hlt] at hu'
      exact hr unit' hu'
    · rw [List.getElem?_append_right (Nat.le_of_not_lt hlt)] at hu'
      obtain rfl := List.mem_singleton.mp (List.mem_of_getElem? hu')
      exact ConsumerUnit.resolved_iff.mpr fun a l hl => absurd hl (by simp [ConsumerUnit.new])
  | @stepped d o unit unit₁ hd hstep cause units =>
    obtain ⟨unit₂, hu₂, hsame⟩ := units.get hu'
    rw [ConsumerUnit.Resolved, hsame.lockers]
    by_cases hdc : d = c
    · subst hdc
      rw [Heap.set_self hd] at hu₂
      obtain rfl := Option.some.inj hu₂
      refine hstep.resolved (hr unit hd) fun a msgs ho => ?_
      subst ho
      cases cause with
      | callback he' => exact he a msgs he'
    · rw [List.getElem?_set_ne hdc] at hu₂
      exact hr unit₂ hu₂

/-- The request of a consumer that is being shut down is in the slot, and the clear
thread is going to see it unless nothing is left to resolve. -/
structure Served (s : Proxy) (key : String) (c : ConsumerRef) : Prop where
  slot : s.clearConsumerKey = key ∨
    (s.clear = .idle ∧ s.clearConsumerKey = "" ∧ s.Resolved c)
  passed : s.passesBy key c = true → s.Resolved c

def RequestsServed (s : Proxy) : Prop :=
  ∀ i key c, s.shutdown = .shutdown i key c → Served s key c

theorem Step.requestsServed {s s' : Proxy} {e : Event} (h : Step s e s') (hi : RegistryInv s)
    (hsel : Selected s) (hP : RequestKept s e) (hs : RequestsServed s) : RequestsServed s' := by
  have hwork := h.work hi
  have hres := fun c => @Step.resolved s s' e h c
  cases h with
  | sweep | sweepEnd | skip | select | shutdownEnd | erase =>
    exact fun _ _ _ h => absurd h (by simp)
  | @shutdownBegin i key c now hp =>
    intro j key' c' h
    obtain ⟨rfl, rfl, rfl⟩ : i = j ∧ key = key' ∧ c = c' := by simpa using h
    refine ⟨.inl rfl, fun hpass => hres c ?_ (by simp)⟩
    exact hP (key, c) (by rw [hp]; rfl) hpass
  | clearBegin hp hk =>
    intro i key c h
    obtain ⟨hslot, hpassed⟩ := hs i key c h
    refine ⟨.inl (hslot.resolve_right fun hidle => hk hidle.2.1), fun hpass => ?_⟩
    exact hpassed (by rw [passesBy, hp]; exact hpass)
  | @clearFound d hp hk =>
    intro i key c h
    obtain ⟨hslot, hpassed⟩ := hs i key c h
    replace hslot := hslot.resolve_right fun hidle => absurd (hp.symm.trans hidle.1) (by simp)
    -- the key leads to the consumer itself
    obtain rfl : d = c := Option.some.inj (hk.symm.trans (hslot ▸ hsel i key c (.inr h)))
    refine ⟨.inl hslot, fun hpass => hpassed ?_⟩
    rw [passesBy, hp]
    simpa [passesBy] using hpass
  | clearMissed hp hk =>
    intro i key c h
    obtain ⟨hslot, hpassed⟩ := hs i key c h
    replace hslot := hslot.resolve_right fun hidle => absurd (hp.symm.trans hidle.1) (by simp)
    exact absurd (hk.symm.trans (hslot ▸ hsel i key c (.inr h))) (by simp)
  | @clearUnlock d unit hp hc =>
    intro i key c h
    obtain ⟨hslot, hpassed⟩ := hs i key c h
    replace hslot := hslot.resolve_right fun hidle => absurd (hp.symm.trans hidle.1) (by simp)
    refine ⟨.inl hslot, fun _ => ?_⟩
    by_cases hdc : d = c
    · subst hdc
      intro unit' hu'
      obtain rfl := Option.some.inj ((Heap.set_self hc unit.unlockAll).symm.trans hu')
      exact unit.unlockAll_resolved
    · exact hres c (hpassed (by simp [passesBy, hp, hdc])) (by simp)
  | clearReset hp =>
    intro i key c h
    obtain ⟨-, hpassed⟩ := hs i key c h
    have hr := hpassed (by rw [passesBy, hp])
    exact ⟨.inr ⟨rfl, rfl, hr⟩, fun _ => hr⟩
  | @callback d a msgs unit hc hst ha hn =>
    intro i key c h
    obtain ⟨hslot, hpassed⟩ := hs i key c h
    by_cases hdc : d = c
    · subst hdc
      obtain ⟨hkey, hpass⟩ := hP (key, d) (by rw [show s.shutdown = _ from h]; rfl) rfl
      exact ⟨.inl hkey, fun hpass' => absurd (hpass.symm.trans hpass') (by simp)⟩
    · have hkeep := fun hr => hres c hr (by simp [hdc])
      exact ⟨hslot.imp_right fun hidle => ⟨hidle.1, hidle.2.1, hkeep hidle.2.2⟩,
        fun hpass => hkeep (hpassed hpass)⟩
  | _ =>
    have hw := hwork (by simp) (by simp)
    intro i key c h
    obtain ⟨hslot, hpassed⟩ := hs i key c (hw.shutdown ▸ h)
    have hkeep := fun hr => hres c hr (by simp)
    refine ⟨?_, fun hpass => hkeep (hpassed ?_)⟩
    · rw [hw.slot, hw.clear]
      exact hslot.imp_right fun hidle => ⟨hidle.1, hidle.2.1, hkeep hidle.2.2⟩
    · rwa [passesBy, ← hw.clear]

theorem requestsServed {s : Proxy} (h : ReachableBy RequestKept s) : RequestsServed s :=
  h.invariant (fun _ _ _ h => absurd h (by simp [init])) fun _ _ _ hr hi hP hs =>
    (step_cases hs).requestsServed (registryInv hr) (selected hr) hP hi

theorem RequestsServed.noRequestLost {s : Proxy} (h : RequestsServed s) : NoRequestLost s := by
  intro i key c hp hblocked
  obtain ⟨hslot, hpassed⟩ := h i key c hp
  refine ⟨hslot.resolve_right fun hidle => hblocked hidle.2.2, fun hkey => ?_⟩
  refine hblocked (hpassed ?_)
  unfold passesBy
  split <;> simp [hkey]

/-! ## A request that is lost -/

theorem Step.live {s s' : Proxy} {e : Event} (h : Step s e s') {c : ConsumerRef}
    (hc : ∃ unit, s.consumerUnits[c]? = some unit) : ∃ unit, s'.consumerUnits[c]? = some unit := by
  obtain ⟨unit, hc⟩ := hc
  cases h.unitsStep with
  | kept units =>
    obtain ⟨unit', hc', -⟩ := units.get' hc
    exact ⟨unit', hc'⟩
  | created topic group now _ units => exact ⟨unit, by rw [units]; exact Heap.append_old hc _⟩
  | stepped hd _ _ units =>
    rcases Heap.set_cases hd hc with ⟨-, -, hset⟩ | hset
    all_goals
      obtain ⟨unit', hc', -⟩ := units.get' hset
      exact ⟨unit', hc'⟩

theorem live_of_unlock {s : Proxy} (h : Reachable s) :
    ∀ c, s.clear = .unlock c → ∃ unit, s.consumerUnits[c]? = some unit := by
  refine h.invariant (I := fun s => ∀ c, s.clear = .unlock c →
    ∃ unit, s.consumerUnits[c]? = some unit) (fun _ h => absurd h (by simp [init])) ?_
  intro s e s' hr hi _ hs c hc
  have h := step_cases hs
  have hlive := @Step.live s s' e h c
  have hwork := h.work (registryInv hr)
  cases h with
  | sweep | sweepEnd | skip | select | shutdownBegin | shutdownEnd | erase => exact hlive (hi c hc)
  | clearFound hp hk =>
    obtain rfl := ClearPc.unlock.inj hc
    obtain ⟨con, hcon, -⟩ := (registryInv hr).keyed _ _ hk
    rw [sdk, List.getElem?_map] at hcon
    obtain ⟨unit, hunit, -⟩ := Option.map_eq_some_iff.mp hcon
    exact ⟨unit, hunit⟩
  | clearBegin | clearMissed | clearUnlock | clearReset => exact absurd hc (by simp)
  | _ => exact hlive (hi c ((hwork (by simp) (by simp)).clear ▸ hc))

theorem lost_of_reset {s : Proxy} {i : Nat} {key : String} {c : ConsumerRef}
    (hp : s.shutdown = .shutdown i key c) (hwait : ¬ s.Resolved c) (hclear : s.clear = .reset) :
    ∃ n t, Runs.exec step s (List.replicate n .clear) = some t ∧ ¬ NoRequestLost t := by
  refine ⟨1, { s with clearConsumerKey := "", clear := .idle },
    by simp [List.replicate, Runs.exec, step, clearStep, hclear], fun h => ?_⟩
  obtain ⟨hslot, hkey⟩ := h i key c hp hwait
  exact hkey hslot.symm

/-- A consumer is being shut down and waits for a batch, and the clear thread passes it
by: the request is lost once the clear thread has come to the end of its loop. -/
theorem lost_of_passesBy {s : Proxy} (hr : Reachable s) {i : Nat} {key : String}
    {c : ConsumerRef} (hp : s.shutdown = .shutdown i key c) (hwait : ¬ s.Resolved c)
    (h : s.clearConsumerKey ≠ key ∨ s.passesBy key c = true) :
    ∃ n t, Runs.exec step s (List.replicate n .clear) = some t ∧ ¬ NoRequestLost t := by
  by_cases hask : s.Asks key
  · have hpass := h.resolve_left fun hne => hne hask.1
    cases hclear : s.clear with
    | idle | lookup => exact absurd (by simpa [passesBy, hclear] using hpass) hask.2
    | reset => exact lost_of_reset hp hwait hclear
    | unlock d =>
      have hdc : d ≠ c := by simpa [passesBy, hclear, hask.2] using hpass
      obtain ⟨unit, hd⟩ := live_of_unlock hr d hclear
      have hwait' : ∃ unit' ∈ (s.consumerUnits.set d unit.unlockAll)[c]?, ¬ unit'.Resolved := by
        simpa [Resolved, List.getElem?_set_ne hdc] using hwait
      obtain ⟨n, t, ht, hlost⟩ := lost_of_reset
        (s := { s.onConsumer d unit.unlockAll .unlocked with clear := .reset }) hp
        (fun hres => by obtain ⟨unit', hu', hne⟩ := hwait'; exact hne (hres unit' hu')) rfl
      refine ⟨n + 1, t, ?_, hlost⟩
      rw [List.replicate_succ, Runs.exec]
      simpa [step, clearStep, hclear, hd] using ht
  · exact ⟨0, s, rfl, fun h => hask (h i key c hp hwait)⟩

/-- No request is lost in a run in which the clear thread is still going to look up each
consumer that is selected with unresolved batches or gets a batch while it is shut down;
and where it is not, the clear thread alone goes on to lose the request. -/
theorem noRequestLost_of_requestKept (s : Proxy) :
    (ReachableBy RequestKept s → NoRequestLost s) ∧
      ∀ e s', Reachable s → ¬ RequestKept s e → s.step e = some s' →
        ∃ n t, Runs.exec step s' (List.replicate n .clear) = some t ∧ ¬ NoRequestLost t := by
  refine ⟨fun h => (requestsServed h).noRequestLost, fun e s' hr hP hs => ?_⟩
  have hr' : Reachable s' := .step hr trivial hs
  have h := step_cases hs
  cases h with
  | @shutdownBegin i key c now hp =>
    simp only [RequestKept, hp, selectedNow, Option.mem_some_iff, forall_eq',
      Classical.not_imp] at hP
    refine lost_of_passesBy hr' rfl (fun hres => hP.2 fun unit hu => ?_) (.inr hP.1)
    exact hres (unit.setState .shutdown) (Heap.modify_self hu _)
  | @callback d a msgs unit hc hst ha hn =>
    simp only [RequestKept, Option.mem_def, not_forall] at hP
    obtain ⟨⟨key, c⟩, hsh, rfl, hne⟩ := hP
    cases hp : s.shutdown with
    | shutdown i key' c' =>
      rw [hp] at hsh
      obtain ⟨rfl, rfl⟩ := Prod.mk.inj (Option.some.inj hsh)
      refine lost_of_passesBy hr' hp (fun hres => ?_) ?_
      · exact ConsumerUnit.callbackBegin_waits ha msgs (hres _ (Heap.set_self hc _))
      · rwa [not_and_or, Bool.not_eq_false] at hne
    | _ => exact absurd hsh (by simp [hp, shuttingDown])
  | sweep hp | sweepEnd hp | skip hp | select hp | shutdownEnd hp | erase hp =>
    exact absurd (by simp [RequestKept, hp, selectedNow]) hP
  | _ => exact absurd trivial hP

/-- A consumer is being shut down, and the clear thread is about to unlock its batch. -/
theorem noRequestLost_of_requestKept_one : ∃ s, s.shutdown = .shutdown 0 "tg" 0 ∧
    ¬ s.Resolved 0 ∧ NoRequestLost s := by
  have hrun : (Runs.exec (Runs.restrict step RequestKept) init
      (deliveredOnce ++ [.shutdown 100, .shutdown 100, .shutdown 100, .clear, .clear])).map
        (fun s => (s.shutdown, decide (s.Resolved 0))) = some (.shutdown 0 "tg" 0, false) := by
    decide
  obtain ⟨s, hs, hpair⟩ := Option.map_eq_some_iff.mp hrun
  obtain ⟨hp, hres⟩ := Prod.mk.inj hpair
  exact ⟨s, hp, of_decide_eq_false hres,
    (noRequestLost_of_requestKept s).1 (.of_exec_restrict .init hs)⟩

/-- The consumer gets another batch after the unlock pass, and the slot is emptied. -/
theorem late_batch_loses : ¬ ∀ s, Reachable s → NoRequestLost s := by
  have hrun : (run (deliveredOnce ++ [.shutdown 100, .shutdown 100, .shutdown 100, .clear,
      .clear, .clear, .callback 0 2 [(20, ⟨"n", "t", "b", 0⟩)], .clear])).map
        (fun s => (s.shutdown, s.clearConsumerKey, decide (s.Resolved 0))) =
      some (.shutdown 0 "tg" 0, "", false) := by
    decide
  obtain ⟨s, hs, htriple⟩ := Option.map_eq_some_iff.mp hrun
  obtain ⟨hp, hslot, hres⟩ : s.shutdown = .shutdown 0 "tg" 0 ∧ s.clearConsumerKey = "" ∧
      decide (s.Resolved 0) = false := by
    simpa using htriple
  intro hall
  obtain ⟨hkey, -⟩ := hall s (reachable_run hs) 0 "tg" 0 hp (of_decide_eq_false hres)
  exact absurd (hslot.symm.trans hkey) (by decide)

end Proxy
end RocketmqProxy
