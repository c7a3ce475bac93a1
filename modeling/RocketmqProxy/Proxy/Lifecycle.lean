import RocketmqProxy.Proxy.OneConsumer

/-!
# The life of a consumer

A consumer is created and started by a call of `getConsumer` and registered by it.  The
shutdown thread takes it away: it looks the key up, shuts the consumer it has found down and
then erases the key.  These are three accesses to the registry, with those of the other
threads in between, and yet what is erased is what has been shut down.
-/

namespace RocketmqProxy

/-- How far the life of an SDK consumer has gone. -/
def SdkState.age : SdkState → Nat
  | .created => 0
  | .started => 1
  | .shutdown => 2
  | .stopped => 3

open Std

/-- A batch is there as long as its callback. -/
theorem UnitStep.lockers_iff {u u' : ConsumerUnit} {o : UnitObs} (h : UnitStep u o u')
    (hu : ∀ a, a ∈ u.lockers ↔ a ∈ u.callbacks) (a : Addr) :
    a ∈ u'.lockers ↔ a ∈ u'.callbacks := by
  cases h with
  | @registered b msgs hfresh _ =>
    simp [ConsumerUnit.callbackBegin, ConsumerUnit.waitLock, hu a]
  | @fetched u' unit b msg hf =>
    obtain ⟨l, rest, hl, -, rfl⟩ := ConsumerUnit.fetchAndConsume_some hf
    have hmem : b ∈ u.lockers := TreeMap.mem_iff_isSome_getElem?.mpr (by rw [hl]; rfl)
    rw [← hu a, TreeMap.mem_insert]
    refine ⟨fun hor => hor.elim (fun he => ?_) id, .inr⟩
    exact Std.compare_eq_iff_eq.mp he ▸ hmem
  | acked | unlocked => exact TreeMap.mem_map.trans (hu a)
  | @reported u' b st vec he =>
    obtain ⟨-, -, -, -, -, -, rfl⟩ := ConsumerUnit.callbackEnd_some he
    simp [hu a]

/-- Only a registration adds a callback. -/
theorem UnitStep.callbacks_back {u u' : ConsumerUnit} {o : UnitObs} (h : UnitStep u o u')
    (ho : ∀ a msgs, o ≠ .registered a msgs) {a : Addr} (ha : a ∈ u'.callbacks) :
    a ∈ u.callbacks := by
  cases h with
  | registered => exact absurd rfl (ho _ _)
  | fetched hf =>
    obtain ⟨l, rest, -, -, rfl⟩ := ConsumerUnit.fetchAndConsume_some hf
    exact ha
  | acked | unlocked => exact ha
  | reported he =>
    obtain ⟨-, -, -, -, -, -, rfl⟩ := ConsumerUnit.callbackEnd_some he
    exact (TreeMap.mem_erase.mp ha).2

namespace Proxy

/-- The key that the shutdown thread is at once it has called `shutdown()`, and the consumer
while the call has not returned. -/
def taking : ShutdownPc → Option (String × Option ConsumerRef)
  | .shutdown _ key c => some (key, some c)
  | .erase _ key => some (key, none)
  | _ => none

/-- A registered consumer is running, or the shutdown thread is taking it away. -/
inductive Registered (took : Option (String × Option ConsumerRef)) (key : String)
    (c : ConsumerRef) : SdkState → Prop
  | started (h : ∀ r, took ≠ some (key, r)) : Registered took key c .started
  | shutdown (h : took = some (key, some c)) : Registered took key c .shutdown
  | stopped (h : took = some (key, none)) : Registered took key c .stopped

/-- The registry, the consumers, the shutdown thread and the calls of `getConsumer` agree on
how far each consumer has gone. -/
structure Lives (consumers : TreeMap String ConsumerRef) (cons : List DefaultMQPushConsumer)
    (took : Option (String × Option ConsumerRef)) (call : Caller → Option (String × GetConsumer)) :
    Prop where
  registered : ∀ (key : String) (c : ConsumerRef), consumers[key]? = some c →
    ∃ con, cons[c]? = some con ∧ con.topic ++ con.groupName = key ∧
      Registered took key c con.state
  /-- No consumer is in `shutdown()` but the one of the shutdown thread. -/
  down : ∀ (c : ConsumerRef) (con : DefaultMQPushConsumer), cons[c]? = some con →
    con.state = .shutdown → ∃ key, took = some (key, some c)
  /-- The key of the shutdown thread is still registered. -/
  held : ∀ key r, took = some (key, r) →
    ∃ c, consumers[key]? = some c ∧ ∀ c', r = some c' → c = c'
  /-- A consumer about to be inserted is running, and under no key yet. -/
  inserting : ∀ t key c, call t = some (key, .insert c) →
    (∃ con, cons[c]? = some con ∧ con.state = .started) ∧
      ∀ key' : String, consumers[key']? ≠ some c
  apart : ∀ t key key' c, call t = some (key, .insert c) →
    call t.other ≠ some (key', .insert c)

namespace Lives

variable {consumers : TreeMap String ConsumerRef} {cons : List DefaultMQPushConsumer}
  {took : Option (String × Option ConsumerRef)}
  {call call' : Caller → Option (String × GetConsumer)}

/-- A consumer has one key. -/
theorem one_key (h : Lives consumers cons took call) {key key' : String} {c : ConsumerRef}
    (hk : consumers[key]? = some c) (hk' : consumers[key']? = some c) : key = key' := by
  obtain ⟨con, hc, rfl, -⟩ := h.registered key c hk
  obtain ⟨con', hc', rfl, -⟩ := h.registered key' c hk'
  obtain rfl := Option.some.inj (hc.symm.trans hc')
  rfl

theorem not_created (h : Lives consumers cons took call) {key : String} {c : ConsumerRef}
    (hk : consumers[key]? = some c) {con : DefaultMQPushConsumer} (hc : cons[c]? = some con) :
    con.state ≠ .created := by
  obtain ⟨con', hc', -, hs⟩ := h.registered key c hk
  obtain rfl := Option.some.inj (hc.symm.trans hc')
  rintro hcreated
  rw [hcreated] at hs
  cases hs

/-- No call comes to its insertion. -/
theorem calls (h : Lives consumers cons took call)
    (hcall : ∀ t key c, call' t = some (key, .insert c) → call t = some (key, .insert c)) :
    Lives consumers cons took call' := by
  refine ⟨h.registered, h.down, h.held, fun t key c hc => h.inserting t key c (hcall t key c hc),
    fun t key key' c hc hc' => ?_⟩
  exact h.apart t key key' c (hcall t key c hc) (hcall _ key' c hc')

/-- A consumer is created. -/
theorem created (h : Lives consumers cons took call) {con : DefaultMQPushConsumer}
    (hs : con.state = .created) : Lives consumers (cons ++ [con]) took call := by
  refine ⟨fun key c hk => ?_, fun c con' hc hs' => ?_, h.held, fun t key c hc => ?_, h.apart⟩
  · obtain ⟨con', hc, hkey, hr⟩ := h.registered key c hk
    exact ⟨con', Heap.append_old hc _, hkey, hr⟩
  · rcases Heap.of_append hc with ⟨-, rfl⟩ | hc
    · exact absurd (hs.symm.trans hs') (by simp)
    · exact h.down c con' hc hs'
  · obtain ⟨⟨con', hc', hs'⟩, hno⟩ := h.inserting t key c hc
    exact ⟨⟨con', Heap.append_old hc' _, hs'⟩, hno⟩

/-- One consumer moves on to `state`; the others are where they were. -/
theorem modify_cases {state : SdkState} {d c : ConsumerRef} {con : DefaultMQPushConsumer}
    (hc : (cons.modify d fun con => { con with state := state })[c]? = some con) :
    (c = d ∧ con.state = state) ∨ (c ≠ d ∧ cons[c]? = some con) := by
  rw [List.getElem?_modify] at hc
  obtain ⟨con₀, hcon₀, rfl⟩ := Option.map_eq_some_iff.mp hc
  by_cases hdc : d = c
  · exact .inl ⟨hdc.symm, by simp [hdc]⟩
  · exact .inr ⟨Ne.symm hdc, by simpa [hdc] using hcon₀⟩

/-- `start()` returns in a call: its consumer was under no key. -/
theorem started (h : Lives consumers cons took call) {t : Caller} {key : String}
    {d : ConsumerRef} {con : DefaultMQPushConsumer} (hd : cons[d]? = some con)
    (hs : con.state = .created) (hcall : call' t = some (key, .insert d))
    (hother : call' t.other = call t.other) :
    Lives consumers (cons.modify d fun con => { con with state := .started }) took call' := by
  have hne : ∀ {key : String} {c : ConsumerRef}, consumers[key]? = some c → d ≠ c := by
    rintro key c hk rfl
    exact h.not_created hk hd hs
  have hfresh : ∀ {t key c}, call t = some (key, .insert c) → d ≠ c := by
    rintro t key c hc rfl
    obtain ⟨⟨con', hc', hs'⟩, -⟩ := h.inserting t key d hc
    obtain rfl := Option.some.inj (hd.symm.trans hc')
    exact absurd (hs.symm.trans hs') (by simp)
  have hcalls : ∀ {t' key' c}, call' t' = some (key', .insert c) →
      (t' = t ∧ c = d) ∨ (t' = t.other ∧ call t' = some (key', .insert c)) := by
    intro t' key' c hc
    rcases Caller.eq_or_other t t' with rfl | rfl
    · rw [hcall] at hc
      obtain ⟨-, rfl⟩ : key = key' ∧ d = c := by simpa using hc
      exact .inl ⟨rfl, rfl⟩
    · exact .inr ⟨rfl, hother ▸ hc⟩
  refine ⟨fun key' c hk => ?_, fun c con' hc hs' => ?_, h.held, fun t' key' c hc => ?_,
    fun t' key' key'' c hc hc' => ?_⟩
  · obtain ⟨con', hc, hkey, hr⟩ := h.registered key' c hk
    exact ⟨con', by rwa [List.getElem?_modify_ne _ _ (hne hk)], hkey, hr⟩
  · rcases modify_cases hc with ⟨-, hst⟩ | ⟨-, hc⟩
    · exact absurd (hst.symm.trans hs') (by simp)
    · exact h.down c con' hc hs'
  · rcases hcalls hc with ⟨-, rfl⟩ | ⟨-, hc⟩
    · exact ⟨⟨_, Heap.modify_self hd _, rfl⟩, fun key' hk => hne hk rfl⟩
    · obtain ⟨⟨con', hc', hs'⟩, hno⟩ := h.inserting t' key' c hc
      exact ⟨⟨con', by rwa [List.getElem?_modify_ne _ _ (hfresh hc)], hs'⟩, hno⟩
  · rcases hcalls hc with ⟨rfl, rfl⟩ | ⟨rfl, hc⟩
    · rw [hother] at hc'
      exact hfresh hc' rfl
    · rw [Caller.other_other, hcall] at hc'
      obtain ⟨-, rfl⟩ : key = key'' ∧ d = c := by simpa using hc'
      exact hfresh hc rfl

/-- A call inserts its consumer, unless the key has one. -/
theorem inserted (h : Lives consumers cons took call) {t : Caller} {key : String}
    {d : ConsumerRef} {con : DefaultMQPushConsumer} (hd : cons[d]? = some con)
    (hkey : con.topic ++ con.groupName = key) (hcall : call t = some (key, .insert d))
    (hdone : ∀ key' c, call' t ≠ some (key', .insert c))
    (hother : call' t.other = call t.other) :
    Lives (consumers.insertIfNew key d) cons took call' := by
  obtain ⟨⟨con', hd', hs⟩, hno⟩ := h.inserting t key d hcall
  obtain rfl := Option.some.inj (hd.symm.trans hd')
  have hkept : ∀ {key' : String} {c : ConsumerRef}, consumers[key']? = some c →
      (consumers.insertIfNew key d)[key']? = some c := by
    intro key' c hk
    rw [TreeMapLoop.getElem?_insertIfNew, hk]
    split <;> rfl
  have hback : ∀ {key' : String} {c : ConsumerRef},
      (consumers.insertIfNew key d)[key']? = some c →
      (key' = key ∧ c = d ∧ consumers[key]? = none) ∨ consumers[key']? = some c := by
    intro key' c hk
    rw [TreeMapLoop.getElem?_insertIfNew] at hk
    split at hk
    · rename_i he
      subst he
      cases hold : consumers[key]? with
      | none =>
        rw [hold] at hk
        exact .inl ⟨rfl, (Option.some.inj hk).symm, rfl⟩
      | some c' =>
        rw [hold] at hk
        exact .inr hk
    · exact .inr hk
  have hcalls : ∀ {t' key' c}, call' t' = some (key', .insert c) →
      t' = t.other ∧ call t' = some (key', .insert c) := by
    intro t' key' c hc
    rcases Caller.eq_or_other t t' with rfl | rfl
    · exact absurd hc (hdone key' c)
    · exact ⟨rfl, hother ▸ hc⟩
  refine ⟨fun key' c hk => ?_, h.down, fun key' r hr => ?_, fun t' key' c hc => ?_,
    fun t' key' key'' c hc hc' => ?_⟩
  · rcases hback hk with ⟨rfl, rfl, hnone⟩ | hk
    · -- the shutdown thread is not at the key, which was free
      refine ⟨con, hd, hkey, ?_⟩
      rw [hs]
      refine .started fun r hr => ?_
      obtain ⟨c', hc', -⟩ := h.held key' r hr
      exact absurd (hnone.symm.trans hc') (by simp)
    · exact h.registered key' c hk
  · obtain ⟨c, hc, hr⟩ := h.held key' r hr
    exact ⟨c, hkept hc, hr⟩
  · obtain ⟨rfl, hc⟩ := hcalls hc
    obtain ⟨hstarted, hfree⟩ := h.inserting t.other key' c hc
    refine ⟨hstarted, fun key'' hk => ?_⟩
    rcases hback hk with ⟨-, rfl, -⟩ | hk
    · exact h.apart t key key' c hcall hc
    · exact hfree key'' hk
  · obtain ⟨rfl, -⟩ := hcalls hc
    obtain ⟨ht, -⟩ := hcalls hc'
    cases t <;> exact absurd ht (by simp [Caller.other])

/-- A registered consumer that is not being taken away is running. -/
theorem running (h : Lives consumers cons took call) {key : String} {c : ConsumerRef}
    (hk : consumers[key]? = some c) (hkey : ∀ r, took ≠ some (key, r)) :
    ∃ con, cons[c]? = some con ∧ con.topic ++ con.groupName = key ∧ con.state = .started := by
  obtain ⟨con, hc, hname, hr⟩ := h.registered key c hk
  generalize hs : con.state = state at hr
  cases hr with
  | started => exact ⟨con, hc, hname, hs⟩
  | shutdown he => exact absurd he (hkey _)
  | stopped he => exact absurd he (hkey _)

/-- The consumer under `key` moves on, with the shutdown thread. -/
theorem moved (h : Lives consumers cons took call) {key : String} {d : ConsumerRef}
    {state : SdkState} {r : Option ConsumerRef} (hk : consumers[key]? = some d)
    (htook : took = none ∨ ∃ r, took = some (key, r))
    (hdown : ∀ c key', took = some (key', some c) → c = d)
    (hstate : Registered (some (key, r)) key d state)
    (hr : ∀ c, r = some c → c = d) :
    Lives consumers (cons.modify d fun con => { con with state := state }) (some (key, r))
      call := by
  have hother : ∀ {key' : String}, key' ≠ key → ∀ r, took ≠ some (key', r) := by
    rintro key' hne r he
    rcases htook with hnone | ⟨r', hsome⟩
    · exact absurd (hnone.symm.trans he) (by simp)
    · obtain ⟨rfl, -⟩ : key = key' ∧ r' = r := by simpa using hsome.symm.trans he
      exact hne rfl
  refine ⟨fun key' c hk' => ?_, fun c con hc hs => ?_, fun key' r' he => ?_,
    fun t key' c hc => ?_, h.apart⟩
  · by_cases hcd : c = d
    · subst hcd
      obtain rfl := h.one_key hk hk'
      obtain ⟨con, hc, hname, -⟩ := h.registered key c hk
      exact ⟨_, Heap.modify_self hc _, hname, hstate⟩
    · have hne : key' ≠ key := by
        rintro rfl
        exact hcd (Option.some.inj (hk'.symm.trans hk))
      obtain ⟨con, hc, hname, hs⟩ := h.running hk' (hother hne)
      refine ⟨con, by rwa [List.getElem?_modify_ne _ _ (Ne.symm hcd)], hname, ?_⟩
      rw [hs]
      refine .started fun r' he => hne ?_
      rw [(Prod.mk.inj (Option.some.inj he)).1]
  · rcases modify_cases hc with ⟨rfl, hst⟩ | ⟨hcd, hc⟩
    · rw [hst] at hs
      subst hs
      cases hstate with
      | shutdown he => exact ⟨key, he⟩
    · obtain ⟨key', he⟩ := h.down c con hc hs
      exact absurd (hdown c key' he) hcd
  · obtain ⟨rfl, rfl⟩ : key = key' ∧ r = r' := by simpa using he
    exact ⟨d, hk, fun c hc => (hr c hc).symm⟩
  · obtain ⟨⟨con, hc', hs⟩, hno⟩ := h.inserting t key' c hc
    have hdc : d ≠ c := by
      rintro rfl
      exact hno key hk
    exact ⟨⟨con, by rwa [List.getElem?_modify_ne _ _ hdc], hs⟩, hno⟩

/-- The key of the consumer that has been shut down is erased. -/
theorem erased {key : String} (h : Lives consumers cons (some (key, none)) call) :
    Lives (consumers.erase key) cons none call := by
  have hback : ∀ {key' : String} {c : ConsumerRef}, (consumers.erase key)[key']? = some c →
      key' ≠ key ∧ consumers[key']? = some c := by
    intro key' c hk
    rw [TreeMap.getElem?_erase] at hk
    split at hk
    · exact absurd hk (by simp)
    · rename_i hne
      exact ⟨fun he => hne (he ▸ ReflCmp.compare_self), hk⟩
  refine ⟨fun key' c hk => ?_, fun c con hc hs => ?_, by simp, fun t key' c hc => ?_, h.apart⟩
  · obtain ⟨hne, hk⟩ := hback hk
    obtain ⟨con, hc, hname, hs⟩ := h.running hk fun r he =>
      hne (Prod.mk.inj (Option.some.inj he)).1.symm
    refine ⟨con, hc, hname, ?_⟩
    rw [hs]
    exact .started (by simp)
  · obtain ⟨key', he⟩ := h.down c con hc hs
    exact absurd he (by simp)
  · obtain ⟨hstarted, hno⟩ := h.inserting t key' c hc
    exact ⟨hstarted, fun key'' hk => hno key'' (hback hk).2⟩

end Lives

/-! ## Every run -/

/-- The fields of a state that `Lives` is about. -/
abbrev LivesInv (s : Proxy) : Prop := Lives s.consumers s.sdk (taking s.shutdown) s.call

theorem Step.shutdown_kept {s s' : Proxy} {e : Event} (h : Step s e s')
    (he : ∀ now, e ≠ .shutdown now) : s'.shutdown = s.shutdown := by
  cases h with
  | sweep | sweepEnd | skip | select | shutdownBegin | shutdownEnd | erase =>
    exact absurd rfl (he _)
  | _ => rfl

/-- A step of the shutdown thread. -/
theorem LivesInv.shutdown {s s' : Proxy} {now : Int} (hl : LivesInv s) (hsel : Selected s)
    (h : Step s (.shutdown now) s') : LivesInv s' := by
  cases h with
  | sweep hp | sweepEnd hp | skip hp | select hp =>
    rw [LivesInv, hp] at hl
    exact hl
  | @shutdownBegin i key c _ hp =>
    have hk := hsel i key c (.inl hp)
    rw [LivesInv, hp] at hl
    rw [LivesInv, sdk, sdk_setState]
    exact hl.moved hk (.inl rfl) (by simp [taking]) (.shutdown rfl) (by simp)
  | @shutdownEnd i key c _ _ hp =>
    have hk := hsel i key c (.inr hp)
    rw [LivesInv, hp] at hl
    rw [LivesInv, sdk, sdk_setState]
    refine hl.moved hk (.inr ⟨some c, rfl⟩) (fun c' key' he => ?_) (.stopped rfl) (by simp)
    exact (Option.some.inj (Prod.mk.inj (Option.some.inj he)).2).symm
  | erase hp =>
    rw [LivesInv, hp] at hl
    exact hl.erased

theorem Step.livesInv {s s' : Proxy} {e : Event} (h : Step s e s') (hi : RegistryInv s)
    (hsel : Selected s) (hl : LivesInv s) : LivesInv s' := by
  by_cases hshutdown : ∃ now, e = .shutdown now
  · obtain ⟨now, rfl⟩ := hshutdown
    exact hl.shutdown hsel h
  have hkept := h.shutdown_kept fun now he => hshutdown ⟨now, he⟩
  cases h.callStep hi with
  | shutting he => exact absurd ⟨_, he⟩ hshutdown
  | kept hconsumers hsdk hcalls =>
    rw [LivesInv, hconsumers, hsdk, hkept]
    refine hl.calls fun t key c hc => ?_
    rcases hcalls t with he | ⟨-, hnone | ⟨key', hlookup⟩⟩
    · exact he ▸ hc
    · exact absurd (hc.symm.trans hnone) (by simp)
    · exact absurd (hc.symm.trans hlookup) (by simp)
  | @got t topic group now get get' msgPool he before hok hget after other =>
    -- a call that does not come to its insertion
    have hsame : (∀ c, get' ≠ .insert c) → ∀ t' key c, s'.call t' = some (key, .insert c) →
        s.call t' = some (key, .insert c) := by
      intro hne t' key c hc
      rcases Caller.eq_or_other t t' with rfl | rfl
      · exact absurd (Prod.mk.inj (Option.some.inj (hc.symm.trans after))).2.symm (hne c)
      · exact other ▸ hc
    rw [LivesInv, hkept]
    generalize hcons : s'.consumers = consumers at hget
    generalize hunits : s'.consumerUnits = units at hget
    rw [sdk, hunits]
    cases hget with
    | found | failed => exact hl.calls (hsame (by simp))
    | created hnone =>
      rw [List.map_append]
      exact (hl.created rfl).calls (hsame (by simp))
    | started c =>
      rw [sdk_setState]
      cases hok with
      | start hc ht hg hs => exact hl.started hc hs after other
    | inserted c =>
      cases hok with
      | insert hc ht hg hs =>
        refine hl.inserted hc (by rw [ht, hg]) before (fun key' c' hc' => ?_) other
        exact absurd (hc'.symm.trans after) (by simp)

theorem livesInv {P : Proxy → Event → Prop} {s : Proxy} (h : ReachableBy P s) : LivesInv s := by
  refine h.invariant (I := LivesInv) ⟨?_, ?_, by simp [init, taking], ?_, ?_⟩
    fun _ _ _ hr hl _ hs => (step_cases hs).livesInv (registryInv hr) (selected hr) hl
  · exact fun key c hk => absurd hk (by simp [init])
  · exact fun c con hc => absurd hc (by simp [sdk, init])
  · intro t key c hc
    cases t <;> exact absurd hc (by simp [Proxy.call, init])
  · intro t key key' c hc
    cases t <;> exact absurd hc (by simp [Proxy.call, init])

/-! ## One step of a life -/

/-- How the consumer `c` has become `con'` in a step from `s`. -/
inductive SdkStep (s : Proxy) (c : ConsumerRef) (con' : DefaultMQPushConsumer) : Prop
  | same (hc : s.sdk[c]? = some con')
  | created (hc : s.sdk[c]? = none) (hs : con'.state = .created)
  | started {con : DefaultMQPushConsumer} (hc : s.sdk[c]? = some con) (hs : con.state = .created)
      (he : con' = { con with state := .started })
  | shutdown {con : DefaultMQPushConsumer} (hc : s.sdk[c]? = some con) (hs : con.state = .started)
      (he : con' = { con with state := .shutdown })
  /-- `shutdown()` waits until the callbacks have returned. -/
  | stopped {con : DefaultMQPushConsumer} {unit : ConsumerUnit} (hc : s.sdk[c]? = some con)
      (hs : con.state = .shutdown) (he : con' = { con with state := .stopped })
      (hu : s.consumerUnits[c]? = some unit) (hidle : unit.callbacks.isEmpty = true)

theorem Step.sdkStep {s s' : Proxy} {e : Event} (h : Step s e s') (hi : RegistryInv s)
    (hsel : Selected s) (hl : LivesInv s) {c : ConsumerRef} {con' : DefaultMQPushConsumer}
    (hc : s'.sdk[c]? = some con') : SdkStep s c con' := by
  -- of all consumers `d` alone has moved
  have hmodify : ∀ {d con state}, s.sdk[d]? = some con →
      (s.sdk.modify d fun con => { con with state := state })[c]? = some con' →
      (d = c ∧ con' = { con with state := state }) ∨ s.sdk[c]? = some con' := by
    intro d con state hd hmod
    by_cases hdc : d = c
    · subst hdc
      exact .inl ⟨rfl, (Option.some.inj ((Heap.modify_self hd _).symm.trans hmod)).symm⟩
    · exact .inr ((List.getElem?_modify_ne _ _ hdc).symm.trans hmod)
  cases h.callStep hi with
  | kept hconsumers hsdk hcalls => exact .same (hsdk ▸ hc)
  | @got t topic group now get get' msgPool he before hok hget after other =>
    generalize hcons : s'.consumers = consumers at hget
    generalize hunits : s'.consumerUnits = units at hget
    rw [sdk, hunits] at hc
    cases hget with
    | found | failed | inserted => exact .same hc
    | created hnone =>
      rw [List.map_append] at hc
      rcases Heap.of_append hc with ⟨rfl, rfl⟩ | hc
      · exact .created (List.getElem?_eq_none (Nat.le_refl _)) rfl
      · exact .same hc
    | started d =>
      rw [sdk_setState] at hc
      cases hok with
      | start hd ht hg hs =>
        rcases hmodify hd hc with ⟨rfl, he⟩ | hc
        · exact .started hd hs he
        · exact .same hc
  | shutting he hex hsw =>
    subst he
    cases h with
    | sweep hp => exact absurd hp hsw
    | sweepEnd hp | skip hp | select hp => exact absurd hp (hex _)
    | erase => exact .same hc
    | @shutdownBegin i key d _ hp =>
      obtain ⟨con, hd, -, hs⟩ := hl.running (hsel i key d (.inl hp)) (by simp [hp, taking])
      rw [sdk, sdk_setState] at hc
      rcases hmodify hd hc with ⟨rfl, he⟩ | hc
      · exact .shutdown hd hs he
      · exact .same hc
    | @shutdownEnd i key d unit _ hp hu hidle =>
      obtain ⟨con, hd, -, hr⟩ := hl.registered key d (hsel i key d (.inr hp))
      have hs : con.state = .shutdown := by
        rw [hp] at hr
        generalize con.state = state at hr
        cases hr with
        | started h => exact absurd rfl (h (some d))
        | shutdown => rfl
        | stopped h => exact absurd h (by simp [taking])
      rw [sdk, sdk_setState] at hc
      rcases hmodify hd hc with ⟨rfl, he⟩ | hc
      · exact .stopped hd hs he hu hidle
      · exact .same hc

/-- A consumer does not disappear. -/
theorem Step.sdk_later {s s' : Proxy} {e : Event} (h : Step s e s') {c : ConsumerRef}
    {con : DefaultMQPushConsumer} (hc : s.sdk[c]? = some con) : ∃ con', s'.sdk[c]? = some con' := by
  have hsome : ∀ {units : List ConsumerUnit} {unit : ConsumerUnit}, units[c]? = some unit →
      (units.map ConsumerUnit.consumer)[c]? = some unit.consumer := by
    intro units unit hu
    rw [List.getElem?_map, hu]
    rfl
  rw [sdk, List.getElem?_map] at hc
  obtain ⟨unit, hu, -⟩ := Option.map_eq_some_iff.mp hc
  cases h.unitsStep with
  | kept units =>
    obtain ⟨unit', hu', -⟩ := units.get' hu
    exact ⟨_, hsome hu'⟩
  | created topic group now _ units =>
    exact ⟨_, hsome (units ▸ Heap.append_old hu _)⟩
  | @stepped d o unit₀ unit₁ hd _ _ units =>
    rcases @Heap.set_cases _ _ _ _ _ _ unit₁ hd hu with ⟨-, -, hset⟩ | hset
    all_goals
      obtain ⟨unit', hu', -⟩ := units.get' hset
      exact ⟨_, hsome hu'⟩

theorem SdkStep.later {s : Proxy} {c : ConsumerRef} {con con' : DefaultMQPushConsumer}
    (h : SdkStep s c con') (hc : s.sdk[c]? = some con) :
    con'.topic = con.topic ∧ con'.groupName = con.groupName ∧
      con.state.age ≤ con'.state.age := by
  cases h with
  | same hc' =>
    obtain rfl := Option.some.inj (hc.symm.trans hc')
    exact ⟨rfl, rfl, Nat.le_refl _⟩
  | created hc' => exact absurd (hc.symm.trans hc') (by simp)
  | started hc' hs he | shutdown hc' hs he | stopped hc' hs he =>
    obtain rfl := Option.some.inj (hc.symm.trans hc')
    subst he
    exact ⟨rfl, rfl, by simp [hs, SdkState.age]⟩

/-! ## Batches -/

/-- Each batch of the consumer is that of a callback that has not returned, and the SDK calls
back between `start()` and the end of `shutdown()` only. -/
structure Batched (unit : ConsumerUnit) : Prop where
  lockers : ∀ a, a ∈ unit.lockers ↔ a ∈ unit.callbacks
  idle : unit.consumer.state = .created ∨ unit.consumer.state = .stopped →
    ∀ a, a ∉ unit.callbacks

/-- A consumer that comes to rest in a step has no callback before it. -/
theorem SdkStep.idle {s : Proxy} {c : ConsumerRef} {con' : DefaultMQPushConsumer}
    (h : SdkStep s c con') {unit : ConsumerUnit} (hu : s.consumerUnits[c]? = some unit)
    (hb : Batched unit) (hs : con'.state = .created ∨ con'.state = .stopped) :
    ∀ a, a ∉ unit.callbacks := by
  have hc : s.sdk[c]? = some unit.consumer := by
    rw [sdk, List.getElem?_map, hu]
    rfl
  cases h with
  | same hc' =>
    obtain rfl := Option.some.inj (hc.symm.trans hc')
    exact hb.idle hs
  | created hc' => exact absurd (hc.symm.trans hc') (by simp)
  | started _ _ he | shutdown _ _ he => exact absurd hs (by simp [he])
  | stopped _ _ _ hu' hidle =>
    obtain rfl := Option.some.inj (hu.symm.trans hu')
    exact TreeMap.isEmpty_iff_forall_not_mem.mp hidle

theorem Step.batched {s s' : Proxy} {e : Event} (h : Step s e s') (hi : RegistryInv s)
    (hsel : Selected s) (hl : LivesInv s)
    (hb : ∀ (c : ConsumerRef) (unit : ConsumerUnit), s.consumerUnits[c]? = some unit → Batched unit)
    (c : ConsumerRef) (unit' : ConsumerUnit) (hc' : s'.consumerUnits[c]? = some unit') :
    Batched unit' := by
  have hsdk : SdkStep s c unit'.consumer := h.sdkStep hi hsel hl (by
    rw [sdk, List.getElem?_map, hc']
    rfl)
  -- the consumer has kept its batches
  have hkept : ∀ {unit}, s.consumerUnits[c]? = some unit → unit'.lockers = unit.lockers →
      unit'.callbacks = unit.callbacks → Batched unit' := by
    intro unit hu hlock hcall
    have hold := hb c unit hu
    refine ⟨fun a => ?_, fun hs a => ?_⟩
    · rw [hlock, hcall]
      exact hold.lockers a
    · rw [hcall]
      exact hsdk.idle hu hold hs a
  cases h.unitsStep with
  | kept units =>
    obtain ⟨unit, hu, hsame⟩ := units.get hc'
    exact hkept hu hsame.lockers hsame.callbacks
  | created topic group now _ units =>
    rw [units] at hc'
    rcases Heap.of_append hc' with ⟨-, rfl⟩ | hu
    · exact ⟨fun a => by simp [ConsumerUnit.new], fun _ a => by simp [ConsumerUnit.new]⟩
    · exact hkept hu rfl rfl
  | @stepped d o unit₀ unit₁ hd hunit cause units =>
    obtain ⟨unit, hu, hsame⟩ := units.get hc'
    rcases Heap.of_set hu with ⟨rfl, rfl⟩ | hu
    · have hold := hb d unit₀ hd
      refine ⟨fun a => ?_, fun hs a ha => ?_⟩
      · rw [hsame.lockers, hsame.callbacks]
        exact hunit.lockers_iff hold.lockers a
      · rw [hsame.callbacks] at ha
        refine hsdk.idle hd hold hs a (hunit.callbacks_back (fun b msgs ho => ?_) ha)
        -- a callback starts, so the SDK consumer runs
        subst ho
        cases cause with
        | callback he =>
          subst he
          cases h with
          | callback hd' hst =>
            obtain rfl := Option.some.inj (hd.symm.trans hd')
            obtain rfl := Option.some.inj ((Heap.set_self hd _).symm.trans hc')
            rcases hst with hst | hst <;> exact absurd hs (by simp [ConsumerUnit.callbackBegin,
              ConsumerUnit.waitLock, hst])
    · exact hkept hu hsame.lockers hsame.callbacks

/-! ## Every run -/

theorem batched {P : Proxy → Event → Prop} {s : Proxy} (h : ReachableBy P s) (c : ConsumerRef)
    (unit : ConsumerUnit) (hc : s.consumerUnits[c]? = some unit) : Batched unit := by
  refine h.invariant (I := fun s => ∀ (c : ConsumerRef) (unit : ConsumerUnit),
    s.consumerUnits[c]? = some unit → Batched unit) (fun c unit hc => absurd hc (by simp [init]))
    (fun s e s' hr hb _ hs => ?_) c unit hc
  exact (step_cases hs).batched (registryInv hr) (selected hr) (livesInv hr) hb

/-- A consumer that is registered after a step was registered before it, or is the one of a
call that was about to insert it. -/
theorem Step.registered_back {s s' : Proxy} {e : Event} (h : Step s e s') (hi : RegistryInv s)
    {key : String} {c : ConsumerRef} (hk : s'.consumers[key]? = some c) :
    s.consumers[key]? = some c ∨ ∃ t, s.call t = some (key, .insert c) := by
  cases h.callStep hi with
  | kept hconsumers => exact .inl (hconsumers ▸ hk)
  | @got t topic group now get get' msgPool he before hok hget after other =>
    generalize hcons : s'.consumers = consumers at hget
    generalize hunits : s'.consumerUnits = units at hget
    rw [hcons] at hk
    cases hget with
    | found | failed | created | started => exact .inl hk
    | inserted d =>
      rw [TreeMapLoop.getElem?_insertIfNew] at hk
      split at hk
      · rename_i hkey
        subst hkey
        cases hold : s.consumers[topic ++ group]? with
        | none =>
          rw [hold] at hk
          obtain rfl := Option.some.inj hk
          exact .inr ⟨t, before⟩
        | some d' =>
          rw [hold] at hk
          exact .inl hk
      · exact .inl hk
  | shutting he hex hsw =>
    subst he
    cases h with
    | sweep hp => exact absurd hp hsw
    | sweepEnd hp | skip hp | select hp => exact absurd hp (hex _)
    | shutdownBegin | shutdownEnd => exact .inl hk
    | erase =>
      rw [TreeMap.getElem?_erase] at hk
      split at hk
      · exact absurd hk (by simp)
      · exact .inl hk

/-- How far the consumers of a state have gone. -/
structure Lived (s : Proxy) : Prop where
  registered : ∀ (key : String) (c : ConsumerRef), s.consumers[key]? = some c →
    ∃ con, s.sdk[c]? = some con ∧ con.topic ++ con.groupName = key ∧
      Registered (taking s.shutdown) key c con.state
  /-- One consumer at a time is in `shutdown()`, and still registered. -/
  alone : ∀ (c : ConsumerRef) (con : DefaultMQPushConsumer), s.sdk[c]? = some con →
    con.state = .shutdown →
      ∃ key, taking s.shutdown = some (key, some c) ∧ s.consumers[key]? = some c
  /-- What the shutdown thread is about to erase is what it has shut down. -/
  erasing : ∀ i key, s.shutdown = .erase i key →
    ∃ c con, s.consumers[key]? = some c ∧ s.sdk[c]? = some con ∧ con.state = .stopped
  batched : ∀ (c : ConsumerRef) (unit : ConsumerUnit), s.consumerUnits[c]? = some unit →
    Batched unit

theorem lived {s : Proxy} (h : Reachable s) : Lived s := by
  have hl := livesInv h
  refine ⟨hl.registered, fun c con hc hs => ?_, fun i key hp => ?_, batched h⟩
  · obtain ⟨key, hkey⟩ := hl.down c con hc hs
    obtain ⟨c', hc', he⟩ := hl.held key _ hkey
    obtain rfl := he c rfl
    exact ⟨key, hkey, hc'⟩
  · rw [LivesInv, hp] at hl
    obtain ⟨c, hk, -⟩ := hl.held key none rfl
    obtain ⟨con, hc, -, hr⟩ := hl.registered key c hk
    refine ⟨c, con, hk, hc, ?_⟩
    generalize con.state = state at hr
    cases hr with
    | started h => exact absurd rfl (h none)
    | shutdown h => exact absurd h (by simp [taking])
    | stopped => rfl

/-- What becomes of the consumer `c` by the time of `s'`. -/
structure Later (s s' : Proxy) (c : ConsumerRef) (con con' : DefaultMQPushConsumer) : Prop where
  topic : con'.topic = con.topic
  groupName : con'.groupName = con.groupName
  age : con.state.age ≤ con'.state.age
  /-- A consumer that has been taken away does not come back. -/
  gone : con.state = .stopped → (∀ key : String, s.consumers[key]? ≠ some c) →
    ∀ key : String, s'.consumers[key]? ≠ some c

theorem Step.later {s₀ s s' : Proxy} {e : Event} (h : Step s e s') (hr : Reachable s)
    {c : ConsumerRef} {con₀ con : DefaultMQPushConsumer} (hc : s.sdk[c]? = some con)
    (hlater : Later s₀ s c con₀ con) :
    ∃ con', s'.sdk[c]? = some con' ∧ Later s₀ s' c con₀ con' := by
  have hi := Proxy.registryInv hr
  have hl := Proxy.livesInv hr
  obtain ⟨con', hc'⟩ := h.sdk_later hc
  obtain ⟨ht, hg, hage⟩ := (h.sdkStep hi (Proxy.selected hr) hl hc').later hc
  refine ⟨con', hc', ht.trans hlater.topic, hg.trans hlater.groupName, hlater.age.trans hage,
    fun hs hfree key hk => ?_⟩
  rcases h.registered_back hi hk with hk | ⟨t, ht⟩
  · exact hlater.gone hs hfree key hk
  · -- what is about to be inserted is running
    obtain ⟨⟨con₁, hc₁, hs₁⟩, -⟩ := hl.inserting t key c ht
    obtain rfl := Option.some.inj (hc.symm.trans hc₁)
    have := hlater.age
    rw [hs, hs₁] at this
    exact absurd this (by decide)

/-- In every run the registry, the shutdown thread and the SDK agree on each consumer, and in
every later state the consumer has gone on from where it was. -/
theorem consumer_lives {s : Proxy} (h : Reachable s) :
    Lived s ∧ ∀ s', Runs.Reach step s Runs.always s' →
      ∀ (c : ConsumerRef) (con : DefaultMQPushConsumer), s.sdk[c]? = some con →
        ∃ con', s'.sdk[c]? = some con' ∧ Later s s' c con con' := by
  refine ⟨lived h, fun s' h' c con hc => ?_⟩
  refine h'.invariant (I := fun s' => ∃ con', s'.sdk[c]? = some con' ∧ Later s s' c con con')
    ⟨con, hc, rfl, rfl, Nat.le_refl _, fun _ hfree => hfree⟩ fun s₁ e s₂ hr hi _ hs => ?_
  obtain ⟨con₁, hc₁, hlater⟩ := hi
  exact (step_cases hs).later (h.trans hr) hc₁ hlater

/-- The events that register a consumer, and those up to its `shutdown()`. -/
def shutOnce : List Event :=
  [.consume "t" "g" 0, .matcher 0 0 true, .matcher 0 0 true, .matcher 0 0 true,
    .matcher 0 0 true, .shutdown 20, .shutdown 20, .shutdown 20]

/-- A consumer is in `shutdown()`, and two steps later it is gone. -/
theorem consumer_lives_shut : ∃ s s', run shutOnce = some s ∧
    Runs.exec step s [.shutdown 20, .shutdown 20] = some s' ∧
    s'.sdk.map DefaultMQPushConsumer.state = [.stopped] ∧ Lived s ∧
    ∃ con', s'.sdk[0]? = some con' ∧ Later s s' 0 ⟨"g", "t", .shutdown⟩ con' := by
  have hrun : ((run shutOnce).map fun s => s.sdk) = some [⟨"g", "t", .shutdown⟩] := by decide
  obtain ⟨s, hs, hsdk⟩ := Option.map_eq_some_iff.mp hrun
  have hrun' : (((run shutOnce).bind fun s =>
      Runs.exec step s [.shutdown 20, .shutdown 20]).map fun s =>
        s.sdk.map DefaultMQPushConsumer.state) = some [.stopped] := by decide
  rw [hs, Option.bind_some] at hrun'
  obtain ⟨s', hs', hstates⟩ := Option.map_eq_some_iff.mp hrun'
  have hlives := consumer_lives (reachable_run hs)
  exact ⟨s, s', hs, hs', hstates, hlives.1,
    hlives.2 s' (.of_exec .init hs') 0 ⟨"g", "t", .shutdown⟩ (by rw [hsdk]; rfl)⟩

end Proxy
end RocketmqProxy
