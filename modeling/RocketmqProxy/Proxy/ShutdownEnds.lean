import RocketmqProxy.Proxy.ClearRequests
import RocketmqProxy.Proxy.Lifecycle

/-!
# When a shutdown can end

`shutdown()` of a consumer waits for its callbacks, and these wait for the clients or for the
clear thread.  Without the clients it ends if the batches are resolved or the clear thread is
still going to unlock them, and then it can go on to the end; otherwise the shutdown thread,
the clear thread and the callbacks have nothing left to do about it.
-/

namespace RocketmqProxy
namespace Proxy

open Std

/-- The clear thread is going to unlock the batches of `c`. -/
def ComesFor (s : Proxy) (c : ConsumerRef) : Prop :=
  match s.clear with
  | .idle => s.clearConsumerKey ≠ "" ∧ s.consumers[s.clearConsumerKey]? = some c
  | .lookup => s.consumers[s.clearConsumerKey]? = some c
  | .unlock d => d = c
  | .reset => False

/-- The threads that shut a consumer down, with its callbacks and without the clients. -/
inductive Internal (_ : Proxy) : Event → Prop
  | clear : Internal _ .clear
  | callbackReturn (c : ConsumerRef) (a : Addr) : Internal _ (.callbackReturn c a)
  | shutdown (now : Int) : Internal _ (.shutdown now)

/-! ## The batches are unlocked -/

/-- The clear thread alone unlocks the batches of the consumer it comes for. -/
theorem ComesFor.resolves {s : Proxy} {c : ConsumerRef} (h : ComesFor s c)
    (hc : ∃ unit, s.consumerUnits[c]? = some unit) :
    ∃ s', Runs.Reach step s Internal s' ∧ s'.shutdown = s.shutdown ∧ s'.Resolved c := by
  obtain ⟨unit, hc⟩ := hc
  have hunlock : ∀ {t : Proxy}, t.consumerUnits = s.consumerUnits → t.shutdown = s.shutdown →
      t.clear = .unlock c → Runs.Reach step s Internal t →
      ∃ s', Runs.Reach step s Internal s' ∧ s'.shutdown = s.shutdown ∧ s'.Resolved c := by
    intro t hunits hsh hclear hreach
    rw [← hunits] at hc
    refine ⟨{ t.onConsumer c unit.unlockAll .unlocked with clear := .reset },
      .step hreach .clear (by simp [step, clearStep, hclear, hc]), hsh, fun unit' hu' => ?_⟩
    obtain rfl := Option.some.inj ((Heap.set_self hc unit.unlockAll).symm.trans hu')
    exact unit.unlockAll_resolved
  have hlookup : ∀ {t : Proxy}, t.consumerUnits = s.consumerUnits → t.shutdown = s.shutdown →
      t.clear = .lookup → t.consumers[t.clearConsumerKey]? = some c →
      Runs.Reach step s Internal t →
      ∃ s', Runs.Reach step s Internal s' ∧ s'.shutdown = s.shutdown ∧ s'.Resolved c := by
    intro t hunits hsh hclear hk hreach
    refine @hunlock { t with clear := .unlock c } hunits hsh rfl ?_
    exact .step hreach .clear (by simp [step, clearStep, hclear, hk])
  rw [ComesFor] at h
  cases hclear : s.clear with
  | idle =>
    rw [hclear] at h
    refine @hlookup { s with clear := .lookup } rfl rfl rfl h.2 ?_
    exact .step .init .clear (by simp [step, clearStep, hclear, h.1])
  | lookup =>
    rw [hclear] at h
    exact hlookup rfl rfl hclear h .init
  | unlock d =>
    rw [hclear] at h
    exact hunlock rfl rfl (h ▸ hclear) .init
  | reset =>
    rw [hclear] at h
    exact absurd h id

/-! ## The callbacks return -/

/-- The callback of a resolved batch returns. -/
theorem callbackReturn_next {s : Proxy} {c : ConsumerRef} {unit : ConsumerUnit} {a : Addr}
    (hc : s.consumerUnits[c]? = some unit) (hb : Batched unit) (hr : unit.Resolved)
    (ha : a ∈ unit.callbacks) : ∃ s', s.step (.callbackReturn c a) = some s' ∧
      s'.shutdown = s.shutdown ∧ s'.consumerUnits[c]? = some { unit with
        lockers := unit.lockers.erase a, callbacks := unit.callbacks.erase a } := by
  obtain ⟨l, hl⟩ := Option.isSome_iff_exists.mp
    (TreeMap.mem_iff_isSome_getElem?.mp ((hb.lockers a).mpr ha))
  obtain ⟨msgs, hm⟩ := Option.isSome_iff_exists.mp (TreeMap.mem_iff_isSome_getElem?.mp ha)
  have hend := ConsumerUnit.callbackEnd_of_released hl hm
    (ConsumerUnit.resolved_iff.mp hr a l hl)
  have hstep : s.step (.callbackReturn c a) = some (s.onConsumer c { unit with
      lockers := unit.lockers.erase a, callbacks := unit.callbacks.erase a }
      (.reported a (l.verdict msgs).1 (l.verdict msgs).2)) := by
    simp only [step, callbackReturn, hc, hend, Option.bind_eq_bind, Option.bind_some]
  exact ⟨_, hstep, rfl, Heap.set_self hc _⟩

theorem callbacks_return {s : Proxy} (hr : Reachable s) {c : ConsumerRef} {unit : ConsumerUnit}
    (hc : s.consumerUnits[c]? = some unit) (hres : unit.Resolved) :
    ∃ s' unit', Runs.Reach step s Internal s' ∧ s'.shutdown = s.shutdown ∧
      s'.consumerUnits[c]? = some unit' ∧ unit'.callbacks.isEmpty = true := by
  induction hn : unit.callbacks.size using Nat.strongRecOn generalizing s unit with
  | ind n ih =>
    by_cases hempty : unit.callbacks.isEmpty = true
    · exact ⟨s, unit, .init, rfl, hc, hempty⟩
    · obtain ⟨a, ha⟩ := TreeMap.isEmpty_eq_false_iff_exists_mem.mp (Bool.not_eq_true _ ▸ hempty)
      have hb := batched hr c unit hc
      obtain ⟨s₁, hs₁, hsh₁, hc₁⟩ := callbackReturn_next hc hb hres ha
      have hr₁ : Reachable s₁ := .step hr trivial hs₁
      have hlt : (unit.callbacks.erase a).size < n := by
        rw [← hn, TreeMap.size_erase, if_pos (TreeMap.contains_iff_mem.mpr ha)]
        have hne : unit.callbacks.size ≠ 0 := fun h0 =>
          hempty (by rw [TreeMap.isEmpty_eq_size_eq_zero, h0]; rfl)
        omega
      have hres₁ : ({ unit with lockers := unit.lockers.erase a,
                                callbacks := unit.callbacks.erase a } : ConsumerUnit).Resolved := by
        rw [ConsumerUnit.resolved_iff] at hres ⊢
        intro b l hl
        rw [TreeMap.getElem?_erase] at hl
        split at hl
        · exact absurd hl (by simp)
        · exact hres b l hl
      obtain ⟨s', unit', hreach, hsh, hc', hempty'⟩ := ih _ hlt hr₁ hc₁ hres₁ rfl
      refine ⟨s', unit', ?_, hsh.trans hsh₁, hc', hempty'⟩
      exact Runs.Reach.trans (.step .init (.callbackReturn c a) hs₁) hreach

/-- The rest of the shutdown, once nothing keeps `shutdown()` from returning. -/
theorem shutdown_goes_on {s : Proxy} {i : Nat} {key : String} {c : ConsumerRef}
    {unit : ConsumerUnit} (hp : s.shutdown = .shutdown i key c)
    (hc : s.consumerUnits[c]? = some unit) (hidle : unit.callbacks.isEmpty = true) :
    ∃ s', Runs.Reach step s Internal s' ∧ s'.shutdown = .examine (i + 1) ∧
      s'.consumers[key]? = none ∧
      ∃ con, s'.sdk[c]? = some con ∧ con.state = .stopped := by
  have hend : s.step (.shutdown 0) = some { s with
      consumerUnits := s.consumerUnits.modify c (ConsumerUnit.setState .stopped)
      shutdown := .erase i key } := by
    simp [step, shutdownStep, hp, hc, hidle]
  refine ⟨_, .step (.step .init (.shutdown 0) hend) (.shutdown 0) rfl, rfl,
    TreeMap.getElem?_erase_self, (unit.setState .stopped).consumer, ?_, rfl⟩
  rw [sdk, List.getElem?_map]
  exact congrArg _ (Heap.modify_self hc _)

/-! ## Nobody comes -/

/-- The shutdown thread waits for a batch that the clear thread is not going to unlock. -/
structure Blocked (s : Proxy) (i : Nat) (key : String) (c : ConsumerRef) : Prop where
  shutdown : s.shutdown = .shutdown i key c
  waits : ¬ s.Resolved c
  passed : ¬ ComesFor s c

/-- A batch that waits stays when the callback of another one returns. -/
theorem unresolved_callbackEnd {unit unit' : ConsumerUnit} {a : Addr} {st : ConsumeStatus}
    {vec : List ConsumeStatus} (he : unit.callbackEnd a = some (st, vec, unit'))
    (h : ¬ unit.Resolved) : ¬ unit'.Resolved := by
  obtain ⟨l₀, msgs, hl₀, -, hrel, -, rfl⟩ := ConsumerUnit.callbackEnd_some he
  intro hres
  rw [ConsumerUnit.resolved_iff] at h hres
  refine h fun b l hl => ?_
  by_cases hab : a = b
  · subst hab
    obtain rfl := Option.some.inj (hl₀.symm.trans hl)
    exact hrel
  · refine hres b l ?_
    rw [TreeMap.getElem?_erase]
    simpa [hab] using hl

theorem Blocked.step {s s' : Proxy} {e : Event} {i : Nat} {key : String} {c : ConsumerRef}
    (h : Blocked s i key c) (hr : Reachable s) (he : Internal s e) (hs : Step s e s') :
    Blocked s' i key c := by
  obtain ⟨hp, hwait, hpass⟩ := h
  cases he with
  | callbackReturn d a =>
    cases hs with
    | callbackReturn hd hend =>
      refine ⟨hp, fun hres => hwait fun unit hu => ?_, hpass⟩
      by_cases hdc : d = c
      · subst hdc
        obtain rfl := Option.some.inj (hd.symm.trans hu)
        by_contra hwait'
        exact unresolved_callbackEnd hend hwait' (hres _ (Heap.set_self hd _))
      · exact hres unit ((List.getElem?_set_ne hdc).trans hu)
  | shutdown now =>
    cases hs with
    | sweep hp' | sweepEnd hp' | skip hp' | select hp' | shutdownBegin hp' | erase hp' =>
      exact absurd (hp'.symm.trans hp) (by simp)
    | shutdownEnd hp' hu hidle =>
      obtain ⟨rfl, rfl, rfl⟩ : _ = i ∧ _ = key ∧ _ = c := by simpa using hp'.symm.trans hp
      refine absurd (fun unit' hu' => ?_) hwait
      obtain rfl := Option.some.inj (hu.symm.trans hu')
      rw [ConsumerUnit.resolved_iff]
      intro a l hl
      -- without a callback there is no batch
      have hmem := TreeMap.mem_iff_isSome_getElem?.mpr (Option.isSome_iff_exists.mpr ⟨l, hl⟩)
      exact absurd (((batched hr _ _ hu).lockers a).mp hmem)
        (TreeMap.isEmpty_iff_forall_not_mem.mp hidle a)
  | clear =>
    cases hs with
    | clearBegin hclear hkey =>
      rw [ComesFor, hclear] at hpass
      exact ⟨hp, hwait, fun hc => hpass ⟨hkey, hc⟩⟩
    | clearFound hclear hk =>
      rw [ComesFor, hclear] at hpass
      refine ⟨hp, hwait, fun hc => hpass ?_⟩
      rw [hk]
      exact congrArg some hc
    | clearMissed hclear hk =>
      rw [ComesFor, hclear] at hpass
      exact ⟨hp, hwait, fun hc => hpass hc.2⟩
    | @clearUnlock d unit hclear hu =>
      rw [ComesFor, hclear] at hpass
      refine ⟨hp, fun hres => hwait fun unit' hu' => hres unit' ?_, id⟩
      exact (List.getElem?_set_ne hpass).trans hu'
    | clearReset => exact ⟨hp, hwait, fun hc => absurd rfl hc.1⟩

/-! ## Exactly when it can end -/

/-- Without the clients a `shutdown()` can end exactly if the batches of its consumer are
resolved or the clear thread is still to unlock them.  Then the key can be erased and the
consumer be gone; otherwise the shutdown thread stays where it is in every run. -/
theorem shutdown_ends_iff {s : Proxy} (h : Reachable s) {i : Nat} {key : String}
    {c : ConsumerRef} (hp : s.shutdown = .shutdown i key c) :
    ((s.Resolved c ∨ ComesFor s c) ↔
      ∃ s', Runs.Reach step s Internal s' ∧ s'.shutdown = .examine (i + 1) ∧
        s'.consumers[key]? = none ∧ ∃ con, s'.sdk[c]? = some con ∧ con.state = .stopped) ∧
    (¬ (s.Resolved c ∨ ComesFor s c) →
      ∀ s', Runs.Reach step s Internal s' → s'.shutdown = .shutdown i key c) := by
  have hstays : ¬ (s.Resolved c ∨ ComesFor s c) →
      ∀ s', Runs.Reach step s Internal s' → s'.shutdown = .shutdown i key c := by
    intro hno s' h'
    rw [not_or] at hno
    have hblocked : Blocked s' i key c := by
      refine h'.invariant (I := fun s' => Blocked s' i key c) ⟨hp, hno.1, hno.2⟩ ?_
      intro s₁ e s₂ hr₁ hb he hs
      exact hb.step (h.trans (hr₁.mono fun _ _ _ => trivial)) he (step_cases hs)
    exact hblocked.shutdown
  refine ⟨⟨fun hor => ?_, fun hends => ?_⟩, hstays⟩
  · obtain ⟨con, hcon, -⟩ := (livesInv h).registered key c (selected h i key c (.inr hp))
    rw [sdk, List.getElem?_map] at hcon
    obtain ⟨unit, hu, -⟩ := Option.map_eq_some_iff.mp hcon
    obtain ⟨s₁, h₁, hp₁, hres⟩ : ∃ s₁, Runs.Reach step s Internal s₁ ∧
        s₁.shutdown = s.shutdown ∧ s₁.Resolved c := by
      rcases hor with hres | hcomes
      · exact ⟨s, .init, rfl, hres⟩
      · exact hcomes.resolves ⟨unit, hu⟩
    have hr₁ : Reachable s₁ := h.trans (h₁.mono fun _ _ _ => trivial)
    obtain ⟨con₁, hcon₁, -⟩ :=
      (livesInv hr₁).registered key c (selected hr₁ i key c (.inr (hp₁.trans hp)))
    rw [sdk, List.getElem?_map] at hcon₁
    obtain ⟨unit₁, hu₁, -⟩ := Option.map_eq_some_iff.mp hcon₁
    obtain ⟨s₂, unit₂, h₂, hp₂, hu₂, hidle⟩ := callbacks_return hr₁ hu₁ (hres unit₁ hu₁)
    obtain ⟨s', h', hend⟩ := shutdown_goes_on (hp₂.trans (hp₁.trans hp)) hu₂ hidle
    exact ⟨s', (h₁.trans h₂).trans h', hend⟩
  · obtain ⟨s', h', hend, -⟩ := hends
    by_contra hno
    exact absurd (hend.symm.trans (hstays hno s' h')) (by simp)

/-- A consumer is shut down while its client has a message, and nobody acks it. -/
theorem shutdown_ends_iff_unacked : ∃ s,
    run (deliveredOnce ++ [.shutdown 100, .shutdown 100, .shutdown 100]) = some s ∧
    ¬ s.Resolved 0 ∧ ∃ s', Runs.Reach step s Internal s' ∧ s'.shutdown = .examine 1 ∧
      s'.consumers["tg"]? = none ∧ ∃ con, s'.sdk[0]? = some con ∧ con.state = .stopped := by
  have hrun : (run (deliveredOnce ++ [.shutdown 100, .shutdown 100, .shutdown 100])).map
      (fun s => (s.shutdown, s.clear, s.clearConsumerKey, s.consumers["tg"]?,
        decide (s.Resolved 0))) = some (.shutdown 0 "tg" 0, .idle, "tg", some 0, false) := by
    decide
  obtain ⟨s, hs, hfacts⟩ := Option.map_eq_some_iff.mp hrun
  obtain ⟨hp, hclear, hslot, hk, hres⟩ : s.shutdown = .shutdown 0 "tg" 0 ∧ s.clear = .idle ∧
      s.clearConsumerKey = "tg" ∧ s.consumers["tg"]? = some 0 ∧
      decide (s.Resolved 0) = false := by
    simpa using hfacts
  have hcomes : ComesFor s 0 := by
    rw [ComesFor, hclear, hslot]
    exact ⟨by decide, hk⟩
  exact ⟨s, hs, of_decide_eq_false hres,
    (shutdown_ends_iff (reachable_run hs) hp).1.mp (.inr hcomes)⟩

end Proxy
end RocketmqProxy
