import RocketmqProxy.Lib.Heap
import RocketmqProxy.Proxy.Histories

/-!
# Messages reported as consumed

What a listener callback returns decides which messages of its batch the broker
drops.  A forced unlock marks the messages it settles in `statusMap` and not in
`reconsumeMap`, and the callback looks the messages up in `reconsumeMap`: a message
that nobody acked is then reported as consumed.  As long as the clear thread unlocks
no batch with an unsettled message, every message reported as consumed was acked.
-/

namespace RocketmqProxy

open Std UnitObs

/-- The broker takes the message at position `i` of the batch for consumed. -/
def ReportsSuccess (st : ConsumeStatus) (vec : List ConsumeStatus) (i : Nat) : Prop :=
  st = .consumeSuccess ∨ (st = .reconsumeLater ∧ vec[i]? = some .consumeSuccess)

/-- A message that the verdict of its batch reports as consumed was acked with
something other than RECONSUME_LATER, provided the batch was settled whenever it was
unlocked. -/
theorem Registered.acked_of_reportsSuccess {group : String} {h : List UnitObs} {a : Addr}
    {msgs : List (Addr × MQMessageExt)} {l : ConsumerUnitLocker}
    (hr : Registered group h a msgs l) (hrel : l.clientStatus = .msgConsumeAck)
    (hu : .unlocked ∈ h → ∀ p ∈ msgs, acks p.2.msgId h ≠ [])
    {i : Nat} (hi : i < msgs.length)
    (hsucc : ReportsSuccess (l.verdict (msgs.map Prod.snd)).1
      (l.verdict (msgs.map Prod.snd)).2 i) :
    ∃ s ∈ acks msgs[i].2.msgId h, s ≠ .reconsumeLater := by
  have hmem : msgs[i] ∈ msgs := List.getElem_mem hi
  rcases hsucc with hst | ⟨hst, hvec⟩
  · have hstatus : (ConsumerUnitLocker.after msgs group (ops a h)).status = .consumeSuccess := by
      rw [← hr.record]
      exact hst
    have := ConsumerUnitLocker.acked_of_success hr.nodup _ hstatus msgs[i] hmem
    rwa [acks_ops] at this
  · have hacks : acks msgs[i].2.msgId h ≠ [] := by
      rw [hr.record] at hrel
      rcases ConsumerUnitLocker.settled_of_released hr.nodup _ hrel msgs[i] hmem with h' | h'
      · rwa [acks_ops] at h'
      · exact hu ((unlock_mem_ops a h).mp h') msgs[i] hmem
    -- the vector says CONSUME_SUCCESS, so `reconsumeMap` does not hold the id
    have hnot : msgs[i].2.msgId ∉ l.reconsumeMap := by
      intro hin
      have hstatus : l.status = .reconsumeLater := hst
      simp [ConsumerUnitLocker.verdict, hstatus, hi, hin] at hvec
    have hnever : .reconsumeLater ∉ acks msgs[i].2.msgId h := by
      intro hin
      refine hnot ?_
      rw [hr.record, (ConsumerUnitLocker.tracks_after hr.nodup _).reconsume, acks_ops]
      exact ⟨hin, msgs[i], hmem, rfl⟩
    obtain ⟨s, hs⟩ := List.exists_mem_of_ne_nil _ hacks
    exact ⟨s, hs, fun he => hnever (he ▸ hs)⟩

/-- A message that a forced unlock settles without an ack is reported as consumed. -/
theorem Registered.reportsSuccess_of_unlock {group : String} {h : List UnitObs} {a : Addr}
    {msgs : List (Addr × MQMessageExt)} {l : ConsumerUnitLocker}
    (hr : Registered group h a msgs l) {i : Nat} (hi : i < msgs.length)
    (hno : acks msgs[i].2.msgId h = []) :
    ReportsSuccess (l.unlock.verdict (msgs.map Prod.snd)).1
      (l.unlock.verdict (msgs.map Prod.snd)).2 i := by
  have hafter : l.unlock = .after msgs group (ops a h ++ [.unlock]) := by
    rw [ConsumerUnitLocker.after_concat, ← hr.record]
    rfl
  have hacks : LockerOp.acks msgs[i].2.msgId (ops a h ++ [.unlock]) = [] := by
    rw [LockerOp.acks_append, acks_ops, hno]
    rfl
  have hstatus : l.unlock.status = .reconsumeLater := by
    rw [hafter, (ConsumerUnitLocker.after_unlock hr.nodup _).2, ConsumerUnitLocker.aggregate]
    refine if_pos ⟨msgs[i], List.getElem_mem hi, ?_⟩
    rw [LockerOp.lastAck, hacks]
    rfl
  have hnot : msgs[i].2.msgId ∉ l.unlock.reconsumeMap := by
    rw [hafter, (ConsumerUnitLocker.tracks_after hr.nodup _).reconsume, hacks]
    simp
  refine .inr ⟨hstatus, ?_⟩
  simp only [ConsumerUnitLocker.verdict, hstatus, if_true, List.getElem?_map,
    List.getElem?_eq_getElem hi, Option.map_some]
  rw [if_neg]
  simpa using hnot

/-- Each forced unlock of the history found every registered batch settled. -/
def UnlockedSettled (h : List UnitObs) : Prop :=
  ∀ h₁ h₂, h = h₁ ++ .unlocked :: h₂ →
    ∃ topic group now u, UnitSteps (.new topic group now) h₁ u ∧
      ∀ (a : Addr) (l : ConsumerUnitLocker), u.lockers[a]? = some l → l.AllAcked

theorem UnlockedSettled.acked {k₁ k₂ k₃ : List UnitObs} {a : Addr}
    {msgs : List (Addr × MQMessageExt)}
    (h : UnlockedSettled (k₁ ++ .registered a msgs :: k₂ ++ k₃)) (hopen : Open a k₂)
    (hu : .unlocked ∈ k₂) : ∀ p ∈ msgs, acks p.2.msgId k₂ ≠ [] := by
  intro p hp
  -- at the first unlock after the registration, only an ack can have settled `p`
  obtain ⟨j₁, j₂, rfl, hfirst⟩ := List.eq_append_cons_of_mem hu
  obtain ⟨topic, group, now, u, hs, hall⟩ :=
    h (k₁ ++ .registered a msgs :: j₁) (j₂ ++ k₃) (by simp)
  obtain ⟨l, hl, hr⟩ := hs.registered_open fun o ho => hopen o (List.mem_append_left _ ho)
  have hset := hall a l hl
  rw [hr.record, (ConsumerUnitLocker.tracks_after hr.nodup _).allAcked_iff] at hset
  rcases hset p hp with h' | h'
  · rw [acks_ops] at h'
    rw [acks_append]
    exact fun he => h' (List.append_eq_nil_iff.mp he).1
  · exact absurd ((unlock_mem_ops a j₁).mp h') hfirst

namespace Proxy

/-- Whatever a callback has reported as consumed was acked by a client while the
batch was registered. -/
def NothingLost (s : Proxy) : Prop :=
  ∀ c h₁ a st vec h₂, history c s.trace = h₁ ++ .reported a st vec :: h₂ →
    ∃ k₁ msgs k₂, h₁ = k₁ ++ .registered a msgs :: k₂ ∧ Open a k₂ ∧
      ∀ (i : Nat) (hi : i < msgs.length), ReportsSuccess st vec i →
        ∃ call status, status ≠ .reconsumeLater ∧
          .acked (.consumeAck call) msgs[i].2.msgId status true ∈ k₂

/-- The clear thread calls `unlockAll` only on a consumer whose registered batches
have every message settled. -/
def UnlocksSettled (s : Proxy) (e : Event) : Prop :=
  e = .clear → ∀ (c : ConsumerRef) (unit : ConsumerUnit) (a : Addr) (l : ConsumerUnitLocker),
    s.clear = .unlock c → s.consumerUnits[c]? = some unit → unit.lockers[a]? = some l →
      l.AllAcked

instance (l : ConsumerUnitLocker) : Decidable l.AllAcked :=
  decidable_of_iff _ l.forall_mem_toList_iff

theorem unlocksSettled_iff {s : Proxy} {e : Event} : UnlocksSettled s e ↔
    (e = .clear → ∀ c ∈ List.range s.consumerUnits.length, s.clear = .unlock c →
      ∀ unit ∈ s.consumerUnits[c]?, ∀ q ∈ unit.lockers.toList, q.2.AllAcked) := by
  constructor
  · intro h he c _ hclear unit hc q hq
    exact h he c unit q.1 q.2 hclear hc (TreeMap.mem_toList_iff_getElem?_eq_some.mp hq)
  · intro h he c unit a l hclear hc hl
    have hlt : c < s.consumerUnits.length := (List.getElem?_eq_some_iff.mp hc).1
    exact h he c (List.mem_range.mpr hlt) hclear unit hc (a, l)
      (TreeMap.mem_toList_iff_getElem?_eq_some.mpr hl)

instance (s : Proxy) (e : Event) : Decidable (UnlocksSettled s e) :=
  decidable_of_iff _ unlocksSettled_iff.symm

theorem unlockedSettled {s : Proxy} (h : ReachableBy UnlocksSettled s) (c : ConsumerRef) :
    UnlockedSettled (history c s.trace) := by
  refine h.invariant (I := fun s => UnlockedSettled (history c s.trace)) ?_ ?_
  · exact fun h₁ h₂ he => absurd he (by simp [init])
  · intro s e s' hr ih hP hstep
    cases (step_cases hstep).unitsStep with
    | kept _ trace => rwa [trace]
    | created _ _ _ _ _ trace => rwa [trace]
    | @stepped d o unit unit' hd _ cause _ trace =>
      rw [trace, history_append]
      by_cases hdc : d = c
      · subst hdc
        rw [history_unit_self]
        intro h₁ h₂ he
        rcases History.concat_eq_append_cons he with ⟨h₂', -, he'⟩ | ⟨-, rfl, rfl⟩
        · exact ih h₁ h₂' he'
        · cases cause with
          | clear hclear hp =>
            obtain ⟨topic, group, now, hrun⟩ := (histories hr).run d unit hd
            exact ⟨topic, group, now, unit, hrun, fun a l => hP hclear d unit a l hp hd⟩
      · rwa [history_unit_ne hdc, List.append_nil]

theorem nothingLost_of_unlockedSettled {s : Proxy} (h : ReachableBy UnlocksSettled s) :
    NothingLost s := by
  intro c h₁ a st vec h₂ hh
  have hlive : ∃ unit, s.consumerUnits[c]? = some unit := by
    rw [← Option.ne_none_iff_exists']
    intro hnone
    rw [(histories h).fresh c hnone] at hh
    exact absurd hh (by simp)
  obtain ⟨unit, hc⟩ := hlive
  obtain ⟨topic, group, now, hrun⟩ := (histories h).run c unit hc
  rw [hh] at hrun
  obtain ⟨k₁, msgs, k₂, l, rfl, hr, hrel, hv⟩ := (hrun.history rfl).reported h₁ a st vec h₂ rfl
  obtain ⟨u₁, -, hrun₁, -⟩ := hrun.step_at
  refine ⟨k₁, msgs, k₂, rfl, hr.isOpen, fun i hi hsucc => ?_⟩
  have hsettled : .unlocked ∈ k₂ → ∀ p ∈ msgs, acks p.2.msgId k₂ ≠ [] := by
    have hall := unlockedSettled h c
    rw [hh] at hall
    exact hall.acked hr.isOpen
  obtain ⟨status, hstatus, hne⟩ := hr.acked_of_reportsSuccess hrel hsettled hi (by rwa [← hv])
  obtain ⟨source, ret, hmem⟩ := mem_of_mem_acks hstatus
  obtain ⟨j₁, j₂, rfl⟩ := List.append_of_mem hmem
  obtain ⟨rfl, hsource⟩ := hrun₁.acked (fun o ho => hr.isOpen o (List.mem_append_left _ ho))
    ⟨msgs[i], List.getElem_mem hi, rfl⟩
  obtain ⟨call, rfl⟩ := hsource.resolve_right hne
  exact ⟨call, status, hne, hmem⟩

/-- A forced unlock that settles a message itself loses it when the callback returns. -/
theorem lost_of_unlock {s s' : Proxy} {e : Event} (h : Reachable s)
    (hP : ¬ UnlocksSettled s e) (hs : s.step e = some s') :
    ∃ c a t, s'.step (.callbackReturn c a) = some t ∧ ¬ NothingLost t := by
  simp only [UnlocksSettled, Classical.not_imp, not_forall] at hP
  obtain ⟨rfl, c, unit, a, l, hclear, hc, hl, hnot⟩ := hP
  simp only [step, clearStep, hclear, hc, Option.bind_eq_bind, Option.bind_some,
    Option.some.injEq] at hs
  subst hs
  obtain ⟨k₁, msgs, k₂, hk, hr, hcb⟩ := (unitHistory h hc).registered a l hl
  rw [hr.record, (ConsumerUnitLocker.tracks_after hr.nodup _).allAcked_iff] at hnot
  simp only [LockerOp.Settled, not_forall, not_or] at hnot
  obtain ⟨p, hp, hno, -⟩ := hnot
  obtain ⟨i, hi, rfl⟩ := List.mem_iff_getElem.mp hp
  rw [acks_ops, not_not] at hno
  have hl' : unit.unlockAll.lockers[a]? = some l.unlock := by
    rw [ConsumerUnit.unlockAll_lockers, hl]
    rfl
  have hcb' : unit.unlockAll.callbacks[a]? = some (msgs.map Prod.snd) := hcb
  have hend := ConsumerUnit.callbackEnd_of_released hl' hcb'
    (by classical exact (ConsumerUnitLocker.unlock_releases l).1)
  refine ⟨c, a, _, by simp only [step, callbackReturn, onConsumer, Heap.set_self hc, hend,
    Option.bind_eq_bind, Option.bind_some]; rfl, fun hlost => ?_⟩
  obtain ⟨j₁, msgs', j₂, he, hopen, hacked⟩ := hlost c (history c s.trace ++ [.unlocked]) a _ _ []
    (by rw [history_append, history_append, history_unit_self, history_unit_self])
  -- the registration that `NothingLost` found is the one that the locker records
  have hopen' : Open a (k₂ ++ [.unlocked]) := hr.isOpen.concat (by simp) (by simp)
  rw [hk, List.append_assoc, List.cons_append] at he
  obtain ⟨rfl, rfl⟩ := Open.last_registered hopen' hopen he
  obtain ⟨call, status, -, hmem⟩ := hacked i hi (hr.reportsSuccess_of_unlock hi hno)
  have hack : status ∈ acks msgs[i].2.msgId (k₂ ++ [.unlocked]) := mem_acks_of_mem hmem
  rw [acks_append, hno] at hack
  exact List.not_mem_nil hack

/-- Nothing is lost in a run in which the clear thread unlocks settled batches only; and
where it unlocks another, the return of a callback loses a message. -/
theorem nothingLost_of_unlocksSettled (s : Proxy) :
    (ReachableBy UnlocksSettled s → NothingLost s) ∧
      ∀ e s', Reachable s → ¬ UnlocksSettled s e → s.step e = some s' →
        ∃ c a t, s'.step (.callbackReturn c a) = some t ∧ ¬ NothingLost t :=
  ⟨nothingLost_of_unlockedSettled, fun _ _ => lost_of_unlock⟩

/-- The client acks the message it got, the clear thread unlocks the batch that is settled
so, and the callback returns. -/
theorem nothingLost_of_ack : ∃ s,
    history 0 s.trace =
      [.registered 1 [(10, ⟨"m", "t", "b", 0⟩)], .fetched 0 1 ⟨10, ⟨1, "m", "t", "g", "b", 0⟩⟩,
        .acked (.consumeAck 0) "m" .consumeSuccess true, .unlocked,
        .reported 1 .consumeSuccess []] ∧
      NothingLost s := by
  have hrun : (Runs.exec (Runs.restrict step UnlocksSettled) init (deliveredOnce ++
      [.consumeAck "t" "g" "m" 0 1, .grpc 1 true, .grpc 1 true, .shutdown 100, .shutdown 100,
        .shutdown 100, .clear, .clear, .clear, .callbackReturn 0 1])).map
        (fun s => history 0 s.trace) =
      some [.registered 1 [(10, ⟨"m", "t", "b", 0⟩)],
        .fetched 0 1 ⟨10, ⟨1, "m", "t", "g", "b", 0⟩⟩,
        .acked (.consumeAck 0) "m" .consumeSuccess true, .unlocked,
        .reported 1 .consumeSuccess []] := by
    decide
  obtain ⟨s, hs, hh⟩ := Option.map_eq_some_iff.mp hrun
  exact ⟨s, hh, (nothingLost_of_unlocksSettled s).1 (.of_exec_restrict .init hs)⟩

/-- The client got the message and has said nothing when its consumer is shut down:
the forced unlock reports the message as consumed. -/
theorem forced_unlock_loses : ¬ ∀ s, Reachable s → NothingLost s := by
  have hrun : (run (deliveredOnce ++ [.shutdown 100, .shutdown 100, .shutdown 100,
      .clear, .clear, .clear, .callbackReturn 0 1])).map (fun s => history 0 s.trace) =
      some [.registered 1 [(10, ⟨"m", "t", "b", 0⟩)],
        .fetched 0 1 ⟨10, ⟨1, "m", "t", "g", "b", 0⟩⟩, .unlocked,
        .reported 1 .reconsumeLater [.consumeSuccess]] := by
    decide
  obtain ⟨s, hs, hh⟩ := Option.map_eq_some_iff.mp hrun
  intro hall
  obtain ⟨k₁, msgs, k₂, he, -, hacked⟩ := hall s (reachable_run hs) 0
    [.registered 1 [(10, ⟨"m", "t", "b", 0⟩)],
      .fetched 0 1 ⟨10, ⟨1, "m", "t", "g", "b", 0⟩⟩, .unlocked]
    1 .reconsumeLater [.consumeSuccess] [] hh
  obtain ⟨rfl, hmsgs, hk₂⟩ : k₁ = [] ∧ msgs = [(10, ⟨"m", "t", "b", 0⟩)] ∧
      k₂ = [.fetched 0 1 ⟨10, ⟨1, "m", "t", "g", "b", 0⟩⟩, .unlocked] := by
    rcases k₁ with _ | ⟨o₁, _ | ⟨o₂, _ | ⟨o₃, k₁⟩⟩⟩ <;> simp at he
    exact ⟨rfl, he.1.symm, he.2.symm⟩
  subst hmsgs hk₂
  obtain ⟨call, status, -, hmem⟩ := hacked 0 (by decide) (.inr ⟨rfl, rfl⟩)
  simp at hmem

end Proxy
end RocketmqProxy
