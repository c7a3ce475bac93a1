import RocketmqProxy.Proxy.Clearing

/-!
# Forced unlocks

A request in `clearConsumerKey` names a key.  The clear thread looks the key up later, and
once more where it has found nothing, and by then a client may have come back and registered
a new consumer under it.  As long as none does, a forced unlock hits only consumers that are
being shut down.
-/

namespace RocketmqProxy
namespace Proxy

open Std

/-- Whatever the clear thread is about to call `unlockAll` on has been selected by the
shutdown thread, and its `shutdown()` has been called. -/
def UnlocksShutDown (s : Proxy) : Prop :=
  ∀ c, s.clear = .unlock c → ShutDown s.sdk c

/-- `clearConsumerKey` holds a request that is pending: no lookup of it has found a consumer
yet, and one that misses leaves it there. -/
def Requested (s : Proxy) : Prop :=
  s.clear = .idle ∧ s.clearConsumerKey ≠ "" ∨ s.clear = .lookup

instance (s : Proxy) : Decidable (Requested s) :=
  inferInstanceAs (Decidable (_ ∨ _))

/-- The step registers no running consumer under the key of a pending request. -/
def NotRecreated (s : Proxy) (e : Event) : Prop :=
  Requested s → ∀ r ∈ registering s e, r.1 = s.clearConsumerKey →
    s.consumers[r.1]? = none → ShutDown s.sdk r.2

instance (s : Proxy) (e : Event) : Decidable (NotRecreated s e) :=
  inferInstanceAs (Decidable (_ → _))

/-- A request leads to a consumer that is being shut down, and what it has led to is
one. -/
structure RequestsShutDown (s : Proxy) : Prop where
  requested : Requested s → ∀ c : ConsumerRef, s.consumers[s.clearConsumerKey]? = some c →
    ShutDown s.sdk c
  unlocking : UnlocksShutDown s

theorem Step.requestsShutDown {s s' : Proxy} {e : Event} (h : Step s e s')
    (hi : RegistryInv s) (hsel : Selected s) (hP : NotRecreated s e)
    (hr : RequestsShutDown s) : RequestsShutDown s' := by
  have hwork := h.work hi
  cases h with
  | sweep | sweepEnd | skip | select => exact ⟨hr.requested, hr.unlocking⟩
  | @shutdownBegin i key c now hp =>
    refine ⟨fun _ d hd => ?_, fun d hd => (hr.unlocking d hd).setState (.inl rfl) c⟩
    -- the key still leads to the consumer that was selected
    have hkey : s.consumers[key]? = some d := hd
    obtain rfl := Option.some.inj ((hsel i key c (.inl hp)).symm.trans hkey)
    exact .of_started (hi.selected i key c (.inl hp))
  | @shutdownEnd i key c unit now hp hc he =>
    exact ⟨fun hreq d hd => (hr.requested hreq d hd).setState (.inr rfl) c,
      fun d hd => (hr.unlocking d hd).setState (.inr rfl) c⟩
  | @erase i key now hp =>
    refine ⟨fun hreq c hc => hr.requested hreq c ?_, hr.unlocking⟩
    rw [TreeMap.getElem?_erase] at hc
    split at hc
    · exact absurd hc (by simp)
    · exact hc
  | clearBegin hp hk =>
    exact ⟨fun _ => hr.requested (.inl ⟨hp, hk⟩), fun _ hd => absurd hd (by simp)⟩
  | clearFound hp hk =>
    refine ⟨fun hreq => absurd hreq (by simp [Requested]), fun d hd => ?_⟩
    obtain rfl := ClearPc.unlock.inj hd
    exact hr.requested (.inr hp) _ hk
  | clearMissed hp hk =>
    exact ⟨fun _ c hc => absurd (hk.symm.trans hc) (by simp), fun _ hd => absurd hd (by simp)⟩
  | clearUnlock | clearReset =>
    exact ⟨fun hreq => absurd hreq (by simp [Requested]), fun _ hd => absurd hd (by simp)⟩
  | _ =>
    have hw := hwork (by simp) (by simp)
    refine ⟨fun hreq c hc => hw.down c ?_, fun d hd => hw.down d (hr.unlocking d (hw.clear ▸ hd))⟩
    rw [Requested, hw.clear, hw.slot] at hreq
    rw [hw.slot] at hc
    rcases hw.registered _ c hc with hold | ⟨hnone, hreg⟩
    · exact hr.requested hreq c hold
    · exact hP hreq _ hreg rfl hnone

theorem requestsShutDown {s : Proxy} (h : ReachableBy NotRecreated s) : RequestsShutDown s := by
  refine h.invariant ⟨fun hreq => absurd hreq (by simp [Requested, init]), fun _ hd =>
    absurd hd (by simp [init])⟩
    fun _ _ _ hr hi hP hs => (step_cases hs).requestsShutDown (registryInv hr) (selected hr) hP hi

/-- What an insertion by `getConsumer` leaves. -/
theorem step_of_registering {s s' : Proxy} {e : Event} {key : String} {c : ConsumerRef}
    (h : registering s e = some (key, c)) (hs : s.step e = some s') :
    s'.consumers = s.consumers.insertIfNew key c ∧ s'.sdk = s.sdk ∧
      s'.clearConsumerKey = s.clearConsumerKey ∧ s'.clear = s.clear := by
  unfold registering at h
  split at h
  · split at h
    · rename_i u d hm
      obtain ⟨unit, hu, he⟩ := Option.map_eq_some_iff.mp h
      obtain ⟨rfl, rfl⟩ := Prod.mk.inj he
      rw [step_matcherGet hm hu (by simp)] at hs
      obtain rfl := Option.some.inj hs
      exact ⟨rfl, rfl, rfl, rfl⟩
    · exact absurd h (by simp)
  · split at h
    · rename_i k d hg
      obtain ⟨call, hk, he⟩ := Option.map_eq_some_iff.mp h
      obtain ⟨rfl, rfl⟩ := Prod.mk.inj he
      rw [step_ackGet hg hk (by simp)] at hs
      obtain rfl := Option.some.inj hs
      exact ⟨rfl, rfl, rfl, rfl⟩
    · rename_i k d hg
      obtain ⟨call, hk, he⟩ := Option.map_eq_some_iff.mp h
      obtain ⟨rfl, rfl⟩ := Prod.mk.inj he
      rw [step_cancelGet hg hk (by simp)] at hs
      obtain rfl := Option.some.inj hs
      exact ⟨rfl, rfl, rfl, rfl⟩
    · exact absurd h (by simp)
  · exact absurd h (by simp)

/-- The clear thread goes on from a request to the consumer that its key leads to. -/
theorem exec_clear_of_requested {s : Proxy} {c : ConsumerRef} (hreq : Requested s)
    (hc : s.consumers[s.clearConsumerKey]? = some c) :
    ∃ n t, Runs.exec step s (List.replicate n .clear) = some t ∧ t.clear = .unlock c ∧
      t.sdk = s.sdk := by
  rcases hreq with ⟨hp, hk⟩ | hp
  · exact ⟨2, { s with clear := .unlock c },
      by simp [List.replicate, Runs.exec, step, clearStep, hp, hk, hc], rfl, rfl⟩
  · exact ⟨1, { s with clear := .unlock c },
      by simp [List.replicate, Runs.exec, step, clearStep, hp, hc], rfl, rfl⟩

/-- In a run in which no running consumer is registered under the key of a request that is
pending, a forced unlock only hits a consumer that is being shut down; and once one is
registered there, the clear thread alone goes on to unlock it. -/
theorem forcedUnlock_shutDown (s : Proxy) :
    (ReachableBy NotRecreated s → UnlocksShutDown s) ∧
      ∀ e s', ¬ NotRecreated s e → s.step e = some s' →
        ∃ n t, Runs.exec step s' (List.replicate n .clear) = some t ∧ ¬ UnlocksShutDown t := by
  refine ⟨fun h => (requestsShutDown h).unlocking, fun e s' hP hs => ?_⟩
  simp only [NotRecreated, Classical.not_imp, not_forall] at hP
  obtain ⟨hreq, ⟨key, c⟩, hreg, hkey, hnone, hdown⟩ := hP
  obtain ⟨hcons, hsdk, hslot, hclear⟩ := step_of_registering hreg hs
  have hkey : key = s.clearConsumerKey := hkey
  subst hkey
  have hreq' : Requested s' := by rwa [Requested, hclear, hslot]
  have hfound : s'.consumers[s'.clearConsumerKey]? = some c := by
    rw [hslot, hcons, TreeMapLoop.getElem?_insertIfNew, if_pos rfl, hnone]
    rfl
  obtain ⟨n, t, ht, hunlock, hsdk'⟩ := exec_clear_of_requested hreq' hfound
  refine ⟨n, t, ht, fun h => hdown ?_⟩
  have := h c hunlock
  rwa [hsdk', hsdk] at this

/-- A consumer that has been inactive is shut down, and unlocked by force. -/
def unlockedInactive : List Event :=
  deliveredOnce ++ [.shutdown 100, .shutdown 100, .shutdown 100, .clear, .clear]

/-- A forced unlock of a consumer that is being shut down. -/
theorem forcedUnlock_shutDown_inactive : ∃ s, s.clear = .unlock 0 ∧ UnlocksShutDown s := by
  have hrun : (Runs.exec (Runs.restrict step NotRecreated) init unlockedInactive).map clear =
      some (.unlock 0) := by
    decide
  obtain ⟨s, hs, hc⟩ := Option.map_eq_some_iff.mp hrun
  exact ⟨s, hc, (forcedUnlock_shutDown s).1 (.of_exec_restrict .init hs)⟩

/-- The consumer of the request is shut down and erased, and the client comes back
before the clear thread has looked the key up: the new consumer is unlocked. -/
theorem forcedUnlock_recreated : ¬ ∀ s, Reachable s → UnlocksShutDown s := by
  have hrun : (run [.consume "t" "g" 0, .matcher 0 0 true, .matcher 0 0 true, .matcher 0 0 true,
      .matcher 0 0 true, .matcher 10 10 true, .shutdown 30, .shutdown 30, .shutdown 30,
      .shutdown 30, .shutdown 30, .consume "t" "g" 30, .matcher 30 30 true, .matcher 30 30 true,
      .matcher 30 30 true, .matcher 30 30 true, .callback 1 1 [(10, ⟨"m", "t", "b", 0⟩)],
      .clear, .clear]).map (fun s => (s.clear, decide (ShutDown s.sdk 1))) =
      some (.unlock 1, false) := by
    decide
  obtain ⟨s, hs, hpair⟩ := Option.map_eq_some_iff.mp hrun
  obtain ⟨hc, hdown⟩ := Prod.mk.inj hpair
  exact fun hall => of_decide_eq_false hdown (hall s (reachable_run hs) 1 hc)

end Proxy
end RocketmqProxy
