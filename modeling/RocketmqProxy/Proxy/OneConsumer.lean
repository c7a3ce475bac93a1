import RocketmqProxy.Proxy.Clearing
import RocketmqProxy.Proxy.Topics

/-!
# One consumer for a key

`getConsumer` looks its key up, creates and starts a consumer if there is none, and
inserts it.  The lookup and the insertion are two accesses to the registry, and the
matcher and the gRPC thread may both be between them.  `MapTS::insert` then keeps the
first of the two consumers, and the second is started all the same.
-/

namespace RocketmqProxy
namespace Proxy

open Std

/-- The two threads that call `getConsumer`. -/
inductive Caller
  | matcher
  | grpc
deriving DecidableEq, Repr

def Caller.other : Caller → Caller
  | .matcher => .grpc
  | .grpc => .matcher

/-- The key of the call of `getConsumer` that a thread is in, and how far it has come. -/
def call (s : Proxy) : Caller → Option (String × GetConsumer)
  | .matcher =>
    match s.matcher with
    | .pop => none
    | .getConsumer u get => s.unitNames[u]?.map fun p => (p.1 ++ p.2, get)
  | .grpc =>
    match s.grpc with
    | .ack k get => s.ackNames[k]?.map fun p => (p.1 ++ p.2, get)
    | .cancel k get => s.callNames[k]?.map fun p => (p.1 ++ p.2, get)
    | _ => none

/-- The thread that moves, if it is one of the two. -/
def turn : Event → Option Caller
  | .matcher _ _ _ => some .matcher
  | .grpc _ _ => some .grpc
  | _ => none

/-- The consumer of a call between its lookup and its insertion. -/
def creating : GetConsumer → Option ConsumerRef
  | .start c => some c
  | .insert c => some c
  | _ => none

/-- When the lookup of one thread misses, the other thread is not between its lookup and
its insertion for the same key. -/
def RaceFree (s : Proxy) (e : Event) : Prop :=
  ∀ t key, turn e = some t → s.call t = some (key, .lookup) → s.consumers[key]? = none →
    ∀ get, s.call t.other = some (key, get) → creating get = none

/-- The step does not call `shutdown()` of a consumer. -/
def NoShutdown (s : Proxy) (e : Event) : Prop :=
  ∀ now i key c, e = .shutdown now → s.shutdown ≠ .select i key c

instance (s : Proxy) (e : Event) : Decidable (RaceFree s e) :=
  decidable_of_iff (∀ t ∈ turn e, ∀ p ∈ s.call t, p.2 = .lookup → s.consumers[p.1]? = none →
      ∀ q ∈ s.call t.other, q.1 = p.1 → creating q.2 = none) (by
    constructor
    · exact fun h t key ht hc hn get hc' => h t ht _ hc rfl hn _ hc' rfl
    · rintro h t ht ⟨key, get⟩ hc rfl hn ⟨key', get'⟩ hc' rfl
      exact h t _ ht hc hn get' hc')

/-- The shutdown thread has found a consumer too inactive. -/
def selecting : ShutdownPc → Bool
  | .select _ _ _ => true
  | _ => false

instance (s : Proxy) : (e : Event) → Decidable (NoShutdown s e)
  | .shutdown now => decidable_of_iff (selecting s.shutdown = false) (by
      constructor
      · intro h now i key c _ hp
        rw [hp] at h
        exact absurd h (by simp [selecting])
      · intro h
        cases hp : s.shutdown with
        | select i key c => exact absurd hp (h now i key c rfl)
        | _ => rfl)
  | .consume _ _ _ | .consumeDone _ _ | .consumeAck _ _ _ _ _ | .ackDone _ _ | .callback _ _ _
  | .callbackReturn _ _ | .matcher _ _ _ | .grpc _ _ | .clear => .isTrue (by
      intro now i key c he
      exact absurd he (by simp))

/-- Each `start()` of the SDK returns. -/
def StartsReturn : Event → Prop
  | .matcher _ _ started => started = true
  | .grpc _ started => started = true
  | _ => True

instance : (e : Event) → Decidable (StartsReturn e)
  | .matcher _ _ started | .grpc _ started => inferInstanceAs (Decidable (started = true))
  | .consume _ _ _ | .consumeDone _ _ | .consumeAck _ _ _ _ _ | .ackDone _ _ | .callback _ _ _
  | .callbackReturn _ _ | .shutdown _ | .clear => inferInstanceAs (Decidable True)

/-- No consumer is shut down, and no two calls create a consumer for one key at once. -/
def OneByOne (s : Proxy) (e : Event) : Prop := NoShutdown s e ∧ RaceFree s e

/-- A call for `key` has returned `c`. -/
def Returns (s : Proxy) (key : String) (c : ConsumerRef) : Prop :=
  ∃ t, s.call t = some (key, .done (some c))

instance (s : Proxy) (e : Event) : Decidable (OneByOne s e) :=
  inferInstanceAs (Decidable (_ ∧ _))

/-- What the calls for a key return in `s` they return in `s'`. -/
def SameConsumer (s s' : Proxy) : Prop :=
  ∀ key c c', Returns s key c → Returns s' key c' → c = c'

/-- Every consumer that has been started is the one registered under its key, or is about
to be registered. -/
def NoOrphan (s : Proxy) : Prop :=
  ∀ (c : ConsumerRef) (con : DefaultMQPushConsumer), s.sdk[c]? = some con →
    con.state ≠ .created → s.consumers[con.topic ++ con.groupName]? = some c ∨
      ∃ t, s.call t = some (con.topic ++ con.groupName, .insert c)

/-- The shutdown thread has shut nothing down. -/
structure Unshut (s : Proxy) : Prop where
  shutdown : ∀ i key c, s.shutdown ≠ .shutdown i key c
  erase : ∀ i key, s.shutdown ≠ .erase i key
  slot : s.clearConsumerKey = ""
  clear : s.clear = .idle

/-! ## How the calls move on -/

/-- The thread is not between a lookup and an insertion. -/
def NotCreating (s : Proxy) (t : Caller) : Prop :=
  ∀ key get, s.call t = some (key, get) → creating get = none

/-- The call of a thread before and after a step that is not one of the call's own. -/
def CallKept (s s' : Proxy) (t : Caller) : Prop :=
  s'.call t = s.call t ∨
    (NotCreating s t ∧ (s'.call t = none ∨ ∃ key, s'.call t = some (key, .lookup)))

inductive CallStep (s : Proxy) (e : Event) (s' : Proxy) : Prop
  | kept (consumers : s'.consumers = s.consumers) (sdk : s'.sdk = s.sdk)
      (calls : ∀ t, CallKept s s' t)
  | got {t : Caller} {topic group : String} {now : Int} {get get' : GetConsumer}
      {msgPool : TreeMap String (List MsgUnit)} (he : turn e = some t)
      (before : s.call t = some (topic ++ group, get)) (hok : GetOk s.sdk topic group get)
      (hget : GetStep s topic group now get s'.consumers msgPool s'.consumerUnits get')
      (after : s'.call t = some (topic ++ group, get'))
      (other : s'.call t.other = s.call t.other)
  | shutting {now : Int} (he : e = .shutdown now)
      (h : ∀ i, s.shutdown ≠ .examine i) (h' : s.shutdown ≠ .sweep)

theorem Step.call_matcher {s s' : Proxy} {e : Event} (h : Step s e s') (hi : RegistryInv s)
    (hm : s'.matcher = s.matcher) : s'.call .matcher = s.call .matcher := by
  simp only [Proxy.call, hm]
  split
  · rfl
  · rename_i u get hu
    obtain ⟨unit, hunit, -⟩ := hi.matching u get hu
    have hname : s.unitNames[u]? = some (unit.topic, unit.group) := by
      rw [Proxy.unitNames, List.getElem?_map, hunit]
      rfl
    rw [h.unitNames.old hname, hname]

theorem Step.call_grpc {s s' : Proxy} {e : Event} (h : Step s e s') (hi : RegistryInv s)
    (hg : s'.grpc = s.grpc) : s'.call .grpc = s.call .grpc := by
  simp only [Proxy.call, hg]
  split
  · rename_i k get hk
    obtain ⟨call, hcall, -⟩ := hi.acking k get hk
    have hname : s.ackNames[k]? = some (call.topic, call.group) := by
      rw [Proxy.ackNames, List.getElem?_map, hcall]
      rfl
    rw [h.ackNames.old hname, hname]
  · rename_i k get hk
    obtain ⟨call, hcall, -⟩ := hi.cancelling k get hk
    have hname : s.callNames[k]? = some (call.topic, call.group) := by
      rw [Proxy.callNames, List.getElem?_map, hcall]
      rfl
    rw [h.callNames.old hname, hname]
  · rfl

theorem notCreating_done {s : Proxy} {t : Caller} {c : Option ConsumerRef}
    (h : (∃ u, t = .matcher ∧ s.matcher = .getConsumer u (.done c)) ∨
      ∃ k, t = .grpc ∧ (s.grpc = .ack k (.done c) ∨ s.grpc = .cancel k (.done c))) :
    NotCreating s t := by
  intro key get hcall
  rcases h with ⟨u, rfl, h⟩ | ⟨k, rfl, h | h⟩ <;>
  · simp only [Proxy.call, h, Option.map_eq_some_iff, Prod.mk.injEq] at hcall
    obtain ⟨_, -, -, rfl⟩ := hcall
    rfl

theorem Step.callStep {s s' : Proxy} {e : Event} (h : Step s e s') (hi : RegistryInv s) :
    CallStep s e s' := by
  have hmatcher := h.call_matcher hi
  have hgrpc := h.call_grpc hi
  -- a step of one of the two threads outside its call
  have hm : s'.grpc = s.grpc → CallKept s s' .matcher → ∀ t, CallKept s s' t
    | hg, hk, .matcher => hk
    | hg, _, .grpc => .inl (hgrpc hg)
  have hg : s'.matcher = s.matcher → CallKept s s' .grpc → ∀ t, CallKept s s' t
    | hm, _, .matcher => .inl (hmatcher hm)
    | hm, hk, .grpc => hk
  have hboth : s'.matcher = s.matcher → s'.grpc = s.grpc → ∀ t, CallKept s s' t :=
    fun he he' => hg he (.inl (hgrpc he'))
  cases h with
  | consume | consumeDel | ackDel => exact .kept rfl rfl (hboth rfl rfl)
  | @cancelBegin k call hn hk =>
    refine .kept rfl rfl (hg rfl (.inr ⟨?_, .inr ⟨call.topic ++ call.group, ?_⟩⟩))
    · simp [NotCreating, Proxy.call, hn]
    · simp [Proxy.call, Proxy.callNames, hk]
  | @consumeAck topic group msgId status now hn =>
    refine .kept rfl (sdk_resetConsumerActive s _ _ _ _)
      (hg rfl (.inr ⟨?_, .inr ⟨topic ++ group, ?_⟩⟩))
    · simp [NotCreating, Proxy.call, hn]
    · simp [Proxy.call, Proxy.ackNames, ackProcess, ConsumeAckCallData.new]
  | @cancelGet k call get get' _ _ _ _ _ hn hk hget =>
    obtain ⟨call', hk', hok⟩ := hi.cancelling k get hn
    obtain rfl := Option.some.inj (hk.symm.trans hk')
    refine @CallStep.got _ _ _ .grpc call.topic call.group _ get get' _ rfl ?_ hok hget ?_
      (hmatcher rfl) <;>
    simp [Proxy.call, Proxy.callNames, hn, hk]
  | @ackGet k call get get' _ _ _ _ _ hn hk hget =>
    obtain ⟨call', hk', hok⟩ := hi.acking k get hn
    obtain rfl := Option.some.inj (hk.symm.trans hk')
    refine @CallStep.got _ _ _ .grpc call.topic call.group _ get get' _ rfl ?_ hok hget ?_
      (hmatcher rfl) <;>
    simp [Proxy.call, Proxy.ackNames, hn, hk]
  | @matcherGet u unit get get' _ _ _ _ _ _ hp hu hget =>
    obtain ⟨unit', hu', hok⟩ := hi.matching u get hp
    obtain rfl := Option.some.inj (hu.symm.trans hu')
    refine @CallStep.got _ _ _ .matcher unit.topic unit.group _ get get' _ rfl ?_ hok hget ?_
      (hgrpc rfl) <;>
    simp [Proxy.call, Proxy.unitNames, hp, hu]
  | cancelSet hn hk hc =>
    exact .kept rfl (sdk_set hc rfl)
      (hg rfl (.inr ⟨notCreating_done (.inr ⟨_, rfl, .inr hn⟩), .inl rfl⟩))
  | ackAccepted hn hk hc | ackRejected hn hk hc =>
    exact .kept rfl (sdk_set hc rfl)
      (hg rfl (.inr ⟨notCreating_done (.inr ⟨_, rfl, .inl hn⟩), .inl rfl⟩))
  | cancelErase hn | ackLookup hn | ackStore hn =>
    exact .kept rfl rfl (hg rfl (.inr ⟨by simp [NotCreating, Proxy.call, hn], .inl rfl⟩))
  | @pop u rest _ _ _ hp hq =>
    refine .kept rfl rfl (hm rfl (.inr ⟨by simp [NotCreating, Proxy.call, hp], ?_⟩))
    cases hu : s.unitNames[u]? with
    | none => exact .inl (by simp [Proxy.call, Proxy.unitNames] at hu ⊢; exact hu)
    | some p =>
      refine .inr ⟨p.1 ++ p.2, ?_⟩
      simp only [Proxy.call]
      exact Option.map_eq_some_iff.mpr ⟨p, hu, rfl⟩
  | @deliver u unit c consumer consumer' a msg call now now' _ hp hu hc hs hk hf =>
    exact .kept rfl ((sdk_resetConsumerActive s _ unit.topic unit.group now).trans
      (sdk_set hc (@UnitStep.fetched _ _ u _ _ hf).consumer))
      (hm rfl (.inr ⟨notCreating_done (.inl ⟨_, rfl, hp⟩), .inl rfl⟩))
  | fetchTimeout hp =>
    exact .kept rfl (sdk_resetConsumerActive s _ _ _ _)
      (hm rfl (.inr ⟨notCreating_done (.inl ⟨_, rfl, hp⟩), .inl rfl⟩))
  | requeue hp | drop hp =>
    exact .kept rfl rfl (hm rfl (.inr ⟨notCreating_done (.inl ⟨_, rfl, hp⟩), .inl rfl⟩))
  | ackTimeout hp hu hc =>
    exact .kept rfl (sdk_set hc rfl)
      (hm rfl (.inr ⟨notCreating_done (.inl ⟨_, rfl, hp⟩), .inl rfl⟩))
  | callback hc => exact .kept rfl (sdk_set hc rfl) (hboth rfl rfl)
  | callbackReturn hc he =>
    exact .kept rfl (sdk_set hc (UnitStep.reported he).consumer) (hboth rfl rfl)
  | clearUnlock _ hc => exact .kept rfl (sdk_set hc rfl) (hboth rfl rfl)
  | shutdownBegin hp | shutdownEnd hp | erase hp =>
    exact .shutting rfl (by simp [hp]) (by simp [hp])
  | sweep | sweepEnd | skip | select => exact .kept rfl rfl (hboth rfl rfl)
  | clearBegin | clearFound | clearMissed | clearReset => exact .kept rfl rfl (hboth rfl rfl)

/-! ## Runs without a race -/

/-- The registry and the calls agree on which consumer a key has. -/
structure CallsAgree (s : Proxy) : Prop where
  missing : ∀ t key get c, s.call t = some (key, get) → creating get = some c →
    s.consumers[key]? = none
  apart : ∀ t key get get' c, s.call t = some (key, get) → creating get = some c →
    s.call t.other = some (key, get') → creating get' = none
  returned : ∀ t key c, s.call t = some (key, .done (some c)) → s.consumers[key]? = some c
  started : NoOrphan s

theorem Caller.eq_or_other (t t' : Caller) : t' = t ∨ t' = t.other := by
  cases t <;> cases t' <;> simp [Caller.other]

@[simp] theorem Caller.other_other (t : Caller) : t.other.other = t := by
  cases t <;> rfl

/-- A step outside the calls. -/
theorem CallsAgree.of_kept {s s' : Proxy} (h : CallsAgree s) (hcons : s'.consumers = s.consumers)
    (hsdk : s'.sdk = s.sdk) (hcalls : ∀ t, CallKept s s' t) : CallsAgree s' := by
  -- a call that is past its lookup was there before
  have hback : ∀ t key get, s'.call t = some (key, get) → get ≠ .lookup →
      s.call t = some (key, get) := by
    intro t key get hc hne
    rcases hcalls t with he | ⟨-, hn | ⟨key', hl⟩⟩
    · exact he ▸ hc
    · exact absurd (hc.symm.trans hn) (by simp)
    · exact absurd (congrArg Prod.snd (Option.some.inj (hc.symm.trans hl))) hne
  have hne : ∀ get c, creating get = some c → get ≠ .lookup := by
    rintro get c hc rfl
    exact absurd hc (by simp [creating])
  refine ⟨fun t key get c hc hg => ?_, fun t key get get' c hc hg hc' => ?_,
    fun t key c hc => ?_, fun c con hcon hs => ?_⟩
  · rw [hcons]
    exact h.missing t key get c (hback t key get hc (hne get c hg)) hg
  · by_cases hl : get' = .lookup
    · rw [hl]
      rfl
    · exact h.apart t key get get' c (hback t key get hc (hne get c hg)) hg
        (hback _ _ _ hc' hl)
  · rw [hcons]
    exact h.returned t key c (hback t key _ hc (by simp))
  · rw [hcons]
    refine (h.started c con (hsdk ▸ hcon) hs).imp_right fun ⟨t, ht⟩ => ⟨t, ?_⟩
    rcases hcalls t with he | ⟨hn, -⟩
    · exact he.trans ht
    · exact absurd (hn _ _ ht) (by simp [creating])

/-- What one step of the call for `key` does to the registry and the consumers, from `get`
to `get'`. -/
structure CallMoved (s s' : Proxy) (key : String) (get get' : GetConsumer) : Prop where
  grown : ∀ (k : String) (c : ConsumerRef), s.consumers[k]? = some c →
    s'.consumers[k]? = some c
  others : ∀ k : String, k ≠ key → s'.consumers[k]? = s.consumers[k]?
  same : creating get = none ∨ creating get' ≠ none → s'.consumers[key]? = s.consumers[key]?
  missing : creating get' ≠ none → s.consumers[key]? = none
  returned : ∀ c, get' = .done (some c) → s'.consumers[key]? = some c
  started : ∀ (c : ConsumerRef) (con : DefaultMQPushConsumer), s'.sdk[c]? = some con →
    con.state ≠ .created →
      (∃ con₀, s.sdk[c]? = some con₀ ∧ con₀.topic = con.topic ∧
        con₀.groupName = con.groupName ∧ con₀.state ≠ .created) ∨
      (con.topic ++ con.groupName = key ∧ get' = .insert c)
  inserted : ∀ c, get = .insert c → s'.consumers[key]? = some c

theorem GetStep.moved {s s' : Proxy} {topic group : String} {now : Int}
    {get get' : GetConsumer} {msgPool : TreeMap String (List MsgUnit)}
    (h : GetStep s topic group now get s'.consumers msgPool s'.consumerUnits get')
    (hok : GetOk s.sdk topic group get)
    (hmiss : creating get ≠ none → s.consumers[topic ++ group]? = none) :
    CallMoved s s' (topic ++ group) get get' := by
  have hsame : s'.consumers = s.consumers → s'.consumerUnits = s.consumerUnits →
      (∀ c, get' = .done (some c) → s.consumers[topic ++ group]? = some c) →
      creating get' = none → (∀ c, get ≠ .insert c) →
      CallMoved s s' (topic ++ group) get get' := by
    intro hc hu hd hn hi
    refine ⟨fun k c hk => by rwa [hc], fun k _ => by rw [hc], fun _ => by rw [hc],
      fun hne => absurd hn hne, fun c hdone => by rw [hc, hd c hdone], fun c con hcon hs => ?_,
      fun c hi' => absurd hi' (hi c)⟩
    rw [sdk, hu] at hcon
    exact .inl ⟨con, hcon, rfl, rfl, hs⟩
  generalize hcons : s'.consumers = consumers at h
  generalize hunits : s'.consumerUnits = units at h
  cases h with
  | found hfound =>
    refine hsame hcons hunits (fun c hd => ?_) rfl (by simp)
    obtain ⟨rfl⟩ : _ = c := by simpa using hd
    exact hfound
  | failed => exact hsame hcons hunits (by simp) rfl (by simp)
  | created hnone =>
    refine ⟨fun k c hk => by rwa [hcons], fun k _ => by rw [hcons], fun _ => by rw [hcons],
      fun _ => hnone, by simp, fun c con hcon hs => ?_, by simp⟩
    rw [sdk, hunits, List.map_append, List.getElem?_append] at hcon
    split at hcon
    · exact .inl ⟨con, hcon, rfl, rfl, hs⟩
    · rw [List.map_singleton, List.getElem?_singleton] at hcon
      split at hcon
      · obtain rfl := Option.some.inj hcon
        exact absurd rfl hs
      · exact absurd hcon (by simp)
  | started c =>
    refine ⟨fun k c hk => by rwa [hcons], fun k _ => by rw [hcons], fun _ => by rw [hcons],
      fun _ => hmiss (by simp [creating]), by simp, fun d con hcon hs => ?_, by simp⟩
    rw [sdk, hunits, sdk_setState, List.getElem?_modify] at hcon
    obtain ⟨con₀, hcon₀, rfl⟩ := Option.map_eq_some_iff.mp hcon
    by_cases hcd : c = d
    · subst hcd
      cases hok with
      | start hc ht hg _ =>
        obtain rfl := Option.some.inj (hc.symm.trans hcon₀)
        exact .inr ⟨by simp [ht, hg], rfl⟩
    · simp only [hcd, if_false] at hs ⊢
      exact .inl ⟨con₀, hcon₀, rfl, rfl, hs⟩
  | inserted c =>
    have hnone := hmiss (by simp [creating])
    refine ⟨fun k d hk => ?_, fun k hne => ?_, fun h => by simp [creating] at h,
      fun h => by simp [creating] at h, fun d hd => ?_, fun d con hcon hs => ?_, fun d hd => ?_⟩
    · rw [hcons, TreeMapLoop.getElem?_insertIfNew]
      split
      · rw [hk]
        rfl
      · exact hk
    · rw [hcons, TreeMapLoop.getElem?_insertIfNew, if_neg (Ne.symm hne)]
    · obtain ⟨rfl⟩ : c = d := by simpa using hd
      rw [hcons, TreeMapLoop.getElem?_insertIfNew, if_pos rfl, hnone]
      rfl
    · rw [sdk, hunits] at hcon
      exact .inl ⟨con, hcon, rfl, rfl, hs⟩
    · obtain ⟨rfl⟩ : c = d := by simpa using hd
      rw [hcons, TreeMapLoop.getElem?_insertIfNew, if_pos rfl, hnone]
      rfl

/-- A step of one of the calls. -/
theorem CallsAgree.of_moved {s s' : Proxy} {t : Caller} {key : String} {get get' : GetConsumer}
    (h : CallsAgree s) (before : s.call t = some (key, get)) (hm : CallMoved s s' key get get')
    (after : s'.call t = some (key, get')) (other : s'.call t.other = s.call t.other)
    (hrace : creating get' ≠ none → ∀ get₁, s.call t.other = some (key, get₁) →
      creating get₁ = none) : CallsAgree s' := by
  have hcall : ∀ t' key' get₁, s'.call t' = some (key', get₁) →
      (t' = t ∧ key' = key ∧ get₁ = get') ∨
        (t' = t.other ∧ s.call t.other = some (key', get₁)) := by
    intro t' key' get₁ hc
    rcases Caller.eq_or_other t t' with rfl | rfl
    · obtain ⟨rfl, rfl⟩ := Prod.mk.inj (Option.some.inj (hc.symm.trans after))
      exact .inl ⟨rfl, rfl, rfl⟩
    · exact .inr ⟨rfl, other ▸ hc⟩
  have hsome : ∀ {get₁ : GetConsumer} {c}, creating get₁ = some c → creating get₁ ≠ none := by
    intro get₁ c hc
    simp [hc]
  refine ⟨fun t' key' get₁ c hc hg => ?_, fun t' key' get₁ get₂ c hc hg hc' => ?_,
    fun t' key' c hc => ?_, fun c con hcon hs => ?_⟩
  · rcases hcall t' key' get₁ hc with ⟨rfl, rfl, rfl⟩ | ⟨rfl, hc₀⟩
    · rw [hm.same (.inr (hsome hg))]
      exact hm.missing (hsome hg)
    · by_cases hk : key' = key
      · subst hk
        cases hcr : creating get with
        | none =>
          rw [hm.same (.inl hcr)]
          exact h.missing _ key' get₁ c hc₀ hg
        | some d => exact absurd (h.apart t key' get get₁ d before hcr hc₀) (hsome hg)
      · rw [hm.others key' hk]
        exact h.missing _ key' get₁ c hc₀ hg
  · rcases hcall t' key' get₁ hc with ⟨rfl, rfl, rfl⟩ | ⟨rfl, hc₀⟩
    · exact hrace (hsome hg) get₂ (other ▸ hc')
    · rw [Caller.other_other, after] at hc'
      obtain ⟨rfl, rfl⟩ := Prod.mk.inj (Option.some.inj hc')
      by_contra hne
      exact hsome hg (hrace hne get₁ hc₀)
  · rcases hcall t' key' _ hc with ⟨rfl, rfl, hd⟩ | ⟨rfl, hc₀⟩
    · exact hm.returned c hd.symm
    · exact hm.grown key' c (h.returned _ key' c hc₀)
  · rcases hm.started c con hcon hs with ⟨con₀, hcon₀, ht, hg, hs₀⟩ | ⟨rfl, rfl⟩
    · rw [← ht, ← hg]
      rcases h.started c con₀ hcon₀ hs₀ with hreg | ⟨t', ht'⟩
      · exact .inl (hm.grown _ c hreg)
      · rcases Caller.eq_or_other t t' with rfl | rfl
        · obtain ⟨rfl, rfl⟩ := Prod.mk.inj (Option.some.inj (ht'.symm.trans before))
          exact .inl (hm.inserted c rfl)
        · exact .inr ⟨t.other, other.trans ht'⟩
    · exact .inr ⟨t, after⟩

theorem Step.unshut {s s' : Proxy} {e : Event} (h : Step s e s') (hP : NoShutdown s e)
    (hu : Unshut s) : Unshut s' := by
  cases h with
  | sweep | sweepEnd | skip | select => exact ⟨by simp, by simp, hu.slot, hu.clear⟩
  | shutdownBegin hp => exact absurd hp (hP _ _ _ _ rfl)
  | shutdownEnd hp => exact absurd hp (hu.shutdown _ _ _)
  | erase hp => exact absurd hp (hu.erase _ _)
  | clearBegin _ hk => exact absurd hu.slot hk
  | clearFound hp | clearMissed hp | clearUnlock hp | clearReset hp =>
    exact absurd (hu.clear.symm.trans hp) (by simp)
  | _ => exact ⟨hu.shutdown, hu.erase, hu.slot, hu.clear⟩

theorem unshut {P : Proxy → Event → Prop} (hP : ∀ s e, P s e → NoShutdown s e) {s : Proxy}
    (h : ReachableBy P s) : Unshut s :=
  h.invariant ⟨by simp [init], by simp [init], rfl, rfl⟩
    fun _ _ _ _ hu hp hs => (step_cases hs).unshut (hP _ _ hp) hu

/-- A step keeps the registry and the calls in agreement, and takes nothing out of the
registry. -/
theorem Step.callsAgree {s s' : Proxy} {e : Event} (h : Step s e s') (hi : RegistryInv s)
    (hu : Unshut s) (hP : OneByOne s e) (ho : CallsAgree s) :
    CallsAgree s' ∧ ∀ (k : String) (c : ConsumerRef), s.consumers[k]? = some c →
      s'.consumers[k]? = some c := by
  cases h.callStep hi with
  | kept consumers sdk calls =>
    exact ⟨ho.of_kept consumers sdk calls, fun k c hk => by rwa [consumers]⟩
  | @got t topic group now get get' _ he before hok hget after other =>
    have hmiss : creating get ≠ none → s.consumers[topic ++ group]? = none := by
      intro hne
      obtain ⟨c, hc⟩ := Option.ne_none_iff_exists'.mp hne
      exact ho.missing t _ get c before hc
    have hmoved := hget.moved hok hmiss
    refine ⟨ho.of_moved before hmoved after other fun hne get₁ hc => ?_, hmoved.grown⟩
    cases hcr : creating get with
    | some c => exact ho.apart t _ get get₁ c before hcr hc
    | none =>
      -- the call has just missed
      generalize s'.consumers = consumers, s'.consumerUnits = units at hget
      cases hget with
      | created hnone => exact hP.2 t _ he before hnone get₁ hc
      | found | failed | inserted => exact absurd rfl hne
      | started => exact absurd hcr (by simp [creating])
  | shutting he hex hsw =>
    cases hp : s.shutdown with
    | sweep => exact absurd hp hsw
    | examine i => exact absurd hp (hex i)
    | select i key c => exact absurd hp (hP.1 _ i key c he)
    | shutdown i key c => exact absurd hp (hu.shutdown i key c)
    | erase i key => exact absurd hp (hu.erase i key)

theorem callsAgree_of_oneByOne {P : Proxy → Event → Prop} (hP : ∀ s e, P s e → OneByOne s e)
    {s : Proxy} (h : ReachableBy P s) : CallsAgree s := by
  refine h.invariant ⟨?_, ?_, ?_, ?_⟩ fun s e s' hr ho hp hs =>
    ((step_cases hs).callsAgree (registryInv hr) (unshut (fun s e hp => (hP s e hp).1) hr)
      (hP s e hp) ho).1
  · intro t key get c hc
    cases t <;> exact absurd hc (by simp [Proxy.call, init])
  · intro t key get get' c hc
    cases t <;> exact absurd hc (by simp [Proxy.call, init])
  · intro t key c hc
    cases t <;> exact absurd hc (by simp [Proxy.call, init])
  · intro c con hc
    exact absurd hc (by simp [sdk, init])

theorem registered_later {P : Proxy → Event → Prop} (hP : ∀ s e, P s e → OneByOne s e)
    {s s' : Proxy} (h : ReachableBy P s) (h' : Runs.Reach step s P s') {k : String}
    {c : ConsumerRef} (hk : s.consumers[k]? = some c) : s'.consumers[k]? = some c := by
  refine h'.invariant (I := fun s => s.consumers[k]? = some c) hk fun s₁ e s₂ hr hk hp hs => ?_
  have hr₁ := h.trans hr
  exact ((step_cases hs).callsAgree (registryInv hr₁) (unshut (fun s e hp => (hP s e hp).1) hr₁)
    (hP s₁ e hp) (callsAgree_of_oneByOne hP hr₁)).2 k c hk

/-! ## Two calls that miss the same key -/

/-- The next step of the thread, which starts a consumer if it is to start one. -/
def go : Caller → Event
  | .matcher => .matcher 0 0 true
  | .grpc => .grpc 0 true

/-- Where a call is made, for a topic and a group. -/
inductive InCall (s : Proxy) (get : GetConsumer) : Caller → String → String → Prop
  | matching {u : UnitRef} {unit : ConsumeMsgUnit} (hm : s.matcher = .getConsumer u get)
      (hu : s.consumeMsgUnits[u]? = some unit) : InCall s get .matcher unit.topic unit.group
  | acking {k : CallRef} {call : ConsumeAckCallData} (hg : s.grpc = .ack k get)
      (hk : s.ackCalls[k]? = some call) : InCall s get .grpc call.topic call.group
  | cancelling {k : CallRef} {call : ConsumeCallData} (hg : s.grpc = .cancel k get)
      (hk : s.consumeCalls[k]? = some call) : InCall s get .grpc call.topic call.group

theorem inCall {s : Proxy} (hi : RegistryInv s) {t : Caller} {key : String}
    {get : GetConsumer} (h : s.call t = some (key, get)) :
    ∃ topic group, topic ++ group = key ∧ InCall s get t topic group ∧
      GetOk s.sdk topic group get := by
  cases t with
  | matcher =>
    simp only [Proxy.call] at h
    split at h
    · exact absurd h (by simp)
    · rename_i u get₁ hm
      obtain ⟨unit, hu, hok⟩ := hi.matching u get₁ hm
      obtain ⟨rfl, rfl⟩ : unit.topic ++ unit.group = key ∧ get₁ = get := by
        simpa [Proxy.unitNames, hu] using h
      exact ⟨unit.topic, unit.group, rfl, .matching hm hu, hok⟩
  | grpc =>
    simp only [Proxy.call] at h
    split at h
    · rename_i k get₁ hg
      obtain ⟨call, hk, hok⟩ := hi.acking k get₁ hg
      obtain ⟨rfl, rfl⟩ : call.topic ++ call.group = key ∧ get₁ = get := by
        simpa [Proxy.ackNames, hk] using h
      exact ⟨call.topic, call.group, rfl, .acking hg hk, hok⟩
    · rename_i k get₁ hg
      obtain ⟨call, hk, hok⟩ := hi.cancelling k get₁ hg
      obtain ⟨rfl, rfl⟩ : call.topic ++ call.group = key ∧ get₁ = get := by
        simpa [Proxy.callNames, hk] using h
      exact ⟨call.topic, call.group, rfl, .cancelling hg hk, hok⟩
    · exact absurd h (by simp)

/-- The thread `t` has gone from `s` to `s'` by the step of its call that leaves `r`. -/
structure CallStepped (s : Proxy) (t : Caller) (key : String) (r : Proxy × GetConsumer)
    (s' : Proxy) : Prop where
  call : s'.call t = some (key, r.2)
  other : s'.call t.other = s.call t.other
  consumers : s'.consumers = r.1.consumers
  msgPool : s'.msgPool = r.1.msgPool

/-- A thread that is in a call goes on with it, and the other one stays where it is. -/
theorem call_step {s : Proxy} {e : Event} (hi : RegistryInv s) {t : Caller} {key : String}
    {get : GetConsumer} (ht : turn e = some t) (h : s.call t = some (key, get))
    (hget : ∀ c, get ≠ .done c) : ∃ topic group now started s', topic ++ group = key ∧
      (started = true ↔ StartsReturn e) ∧ s.step e = some s' ∧
      CallStepped s t key (s.getConsumer topic group now started get) s' := by
  obtain ⟨topic, group, rfl, hin, -⟩ := inCall hi h
  cases hin with
  | @matching u unit hm hu =>
    cases e with
    | matcher now now' started =>
      obtain ⟨consumers, msgPool, units, he, -⟩ :=
        s.getConsumer_cases unit.topic unit.group now started hget
      have hs := step_matcherGet hm hu hget now now' started
      refine ⟨_, _, now, started, _, rfl, Iff.rfl, hs, ?_,
        (step_cases hs).call_grpc hi (matcher_grpc hs), rfl, rfl⟩
      simp [Proxy.call, Proxy.unitNames, he, hu]
    | _ => exact absurd ht (by simp [turn])
  | @acking k call hg hk =>
    cases e with
    | grpc now started =>
      obtain ⟨consumers, msgPool, units, he, -⟩ :=
        s.getConsumer_cases call.topic call.group now started hget
      have hs := step_ackGet hg hk hget now started
      refine ⟨_, _, now, started, _, rfl, Iff.rfl, hs, ?_,
        (step_cases hs).call_matcher hi (grpc_matcher hs), rfl, rfl⟩
      simp [Proxy.call, Proxy.ackNames, he, hk]
    | _ => exact absurd ht (by simp [turn])
  | @cancelling k call hg hk =>
    cases e with
    | grpc now started =>
      obtain ⟨consumers, msgPool, units, he, -⟩ :=
        s.getConsumer_cases call.topic call.group now started hget
      have hs := step_cancelGet hg hk hget now started
      refine ⟨_, _, now, started, _, rfl, Iff.rfl, hs, ?_,
        (step_cases hs).call_matcher hi (grpc_matcher hs), rfl, rfl⟩
      simp [Proxy.call, Proxy.callNames, he, hk]
    | _ => exact absurd ht (by simp [turn])

/-- The same for a step that starts the consumer if it is to start one. -/
theorem call_go {s : Proxy} (hi : RegistryInv s) {t : Caller} {key : String}
    {get : GetConsumer} (h : s.call t = some (key, get)) (hget : ∀ c, get ≠ .done c) :
    ∃ topic group now s', topic ++ group = key ∧ s.step (go t) = some s' ∧
      CallStepped s t key (s.getConsumer topic group now true get) s' := by
  have ht : turn (go t) = some t := by cases t <;> rfl
  have hret : StartsReturn (go t) := by cases t <;> rfl
  obtain ⟨topic, group, now, started, s', hkey, hst, hs, hstep⟩ := call_step hi ht h hget
  obtain rfl := hst.mpr hret
  exact ⟨topic, group, now, s', hkey, hs, hstep⟩

/-- A step of a call that is past its lookup races with nothing. -/
theorem go_oneByOne {s : Proxy} {t : Caller} {key : String} {get : GetConsumer}
    (h : s.call t = some (key, get)) (hget : get ≠ .lookup) :
    OneByOne s (go t) ∧ StartsReturn (go t) := by
  refine ⟨⟨?_, ?_⟩, by cases t <;> rfl⟩
  · intro now i key c he
    cases t <;> exact absurd he (by simp [go])
  · intro t' key' ht hc
    obtain rfl : t = t' := by cases t <;> exact Option.some.inj ht
    exact absurd (congrArg Prod.snd (Option.some.inj (h.symm.trans hc))) hget

/-- A call between its lookup and its insertion goes on to its end, and inserts its
consumer unless the key has one. -/
theorem call_ends {s : Proxy} (hr : Reachable s) {t : Caller} {key : String}
    {get : GetConsumer} {c : ConsumerRef} (h : s.call t = some (key, get))
    (hc : creating get = some c) :
    ∃ s', Runs.Reach step s (fun s e => OneByOne s e ∧ StartsReturn e) s' ∧
      s'.call t = some (key, .done (some c)) ∧
      s'.consumers = s.consumers.insertIfNew key c ∧ s'.call t.other = s.call t.other := by
  have hinsert : ∀ {s₁}, Reachable s₁ → s₁.call t = some (key, .insert c) →
      ∃ s', Runs.Reach step s₁ (fun s e => OneByOne s e ∧ StartsReturn e) s' ∧
        s'.call t = some (key, .done (some c)) ∧
        s'.consumers = s₁.consumers.insertIfNew key c ∧ s'.call t.other = s₁.call t.other := by
    intro s₁ hr₁ h₁
    obtain ⟨topic, group, now, s', rfl, hs, hstep⟩ := call_go (registryInv hr₁) h₁ (by simp)
    exact ⟨s', .step .init (go_oneByOne h₁ (by simp)) hs, hstep.call, hstep.consumers,
      hstep.other⟩
  cases get with
  | insert d =>
    obtain rfl : d = c := Option.some.inj hc
    exact hinsert hr h
  | start d =>
    obtain rfl : d = c := Option.some.inj hc
    obtain ⟨topic, group, now, s₁, rfl, hs, hstep⟩ := call_go (registryInv hr) h (by simp)
    obtain ⟨s', hrun, hdone, hreg', hother'⟩ := hinsert (.step hr trivial hs) hstep.call
    exact ⟨s', .trans (.step .init (go_oneByOne h (by simp)) hs) hrun, hdone,
      by rw [hreg', hstep.consumers]; rfl, hother'.trans hstep.other⟩
  | lookup => exact absurd hc (by simp [creating])
  | done d => exact absurd hc (by simp [creating])

theorem lookup_misses {s s' : Proxy} {e : Event} (hi : RegistryInv s) {t : Caller}
    {key : String} (ht : turn e = some t) (h : s.call t = some (key, .lookup))
    (hnone : s.consumers[key]? = none) (hs : s.step e = some s') :
    s'.call t = some (key, .start s.consumerUnits.length) ∧
      s'.call t.other = s.call t.other ∧ s'.consumers = s.consumers := by
  obtain ⟨topic, group, now, started, s₁, rfl, -, hs₁, hstep⟩ := call_step hi ht h (by simp)
  obtain rfl := Option.some.inj (hs₁.symm.trans hs)
  have hcall := hstep.call
  have hcons := hstep.consumers
  simp only [getConsumer, hnone] at hcall hcons
  exact ⟨hcall, hstep.other, hcons⟩

/-- After a lookup that misses while the other thread creates a consumer for the key, each
thread returns its own. -/
theorem two_consumers {s s' : Proxy} {e : Event} (hr : Reachable s) (hP : ¬ RaceFree s e)
    (hs : s.step e = some s') :
    ∃ s₁ s₂, Runs.Reach step s' (fun s e => OneByOne s e ∧ StartsReturn e) s₁ ∧
      Runs.Reach step s₁ (fun s e => OneByOne s e ∧ StartsReturn e) s₂ ∧
      ¬ SameConsumer s₁ s₂ ∧ ¬ NoOrphan s₂ := by
  simp only [RaceFree, Classical.not_imp, not_forall] at hP
  obtain ⟨t, key, ht, hlookup, hnone, get, hother, hcr⟩ := hP
  obtain ⟨c, hc⟩ := Option.ne_none_iff_exists'.mp hcr
  have hi := registryInv hr
  have hr' : Reachable s' := .step hr trivial hs
  -- the other thread has a consumer that was created before the step
  have hlt : c < s.consumerUnits.length := by
    obtain ⟨topic, group, -, -, hok⟩ := inCall hi hother
    have hlen : c < s.sdk.length := by
      cases hok with
      | start hcon | insert hcon =>
        obtain rfl := Option.some.inj hc
        exact (List.getElem?_eq_some_iff.mp hcon).1
      | lookup | failed | done => exact absurd hc (by simp [creating])
    simpa [sdk] using hlen
  obtain ⟨hstart, hother', hreg⟩ := lookup_misses hi ht hlookup hnone hs
  obtain ⟨s₁, hrun₁, hdone₁, hreg₁, hother₁⟩ := call_ends hr' hstart rfl
  have hr₁ : Reachable s₁ := hr'.trans (hrun₁.mono fun _ _ _ => trivial)
  obtain ⟨s₂, hrun₂, hdone₂, hreg₂, hother₂⟩ :=
    call_ends hr₁ ((hother₁.trans hother').trans hother) hc
  have hne : s.consumerUnits.length ≠ c := Nat.ne_of_gt hlt
  refine ⟨s₁, s₂, hrun₁, hrun₂, fun h => ?_, fun h => ?_⟩
  · exact hne (h key _ _ ⟨t, hdone₁⟩ ⟨t.other, hdone₂⟩)
  · have hi₂ := registryInv (hr₁.trans (hrun₂.mono fun _ _ _ => trivial))
    obtain ⟨topic, group, hkey, -, hok⟩ := inCall hi₂ hdone₂
    have hfirst : s₂.consumers[key]? = some s.consumerUnits.length := by
      rw [hreg₂, TreeMapLoop.getElem?_insertIfNew, if_pos rfl, hreg₁,
        TreeMapLoop.getElem?_insertIfNew, if_pos rfl, hreg, hnone]
      rfl
    cases hok with
    | @done _ con hcon hkey' hst =>
      -- the key of `c` leads to the consumer that was inserted first
      rcases h c con hcon hst with hc' | ⟨t', ht'⟩
      · rw [hkey', hkey, hfirst] at hc'
        exact hne (Option.some.inj hc')
      · rcases Caller.eq_or_other t t' with rfl | rfl
        · rw [Caller.other_other, hdone₁] at hother₂
          exact absurd (ht'.symm.trans hother₂) (by simp)
        · exact absurd (ht'.symm.trans hdone₂) (by simp)

/-- In a run in which no consumer is shut down and no lookup misses a key that the other
thread is creating a consumer for, the calls for a key return one consumer, and every
consumer that has been started is registered; and every other lookup leads, by the steps
of the two calls, to two consumers of one key. -/
theorem oneConsumer_of_oneByOne (s : Proxy) :
    (ReachableBy OneByOne s →
      NoOrphan s ∧ ∀ s', Runs.Reach step s OneByOne s' → SameConsumer s s') ∧
    ∀ e s', Reachable s → ¬ RaceFree s e → s.step e = some s' →
      ∃ s₁ s₂, Runs.Reach step s' (fun s e => OneByOne s e ∧ StartsReturn e) s₁ ∧
        Runs.Reach step s₁ (fun s e => OneByOne s e ∧ StartsReturn e) s₂ ∧
        ¬ SameConsumer s₁ s₂ ∧ ¬ NoOrphan s₂ := by
  refine ⟨fun h => ⟨(callsAgree_of_oneByOne (fun _ _ hP => hP) h).started, ?_⟩,
    fun e s' hr hP hs => two_consumers hr hP hs⟩
  rintro s' h' key c c' ⟨t, ht⟩ ⟨t', ht'⟩
  have hc := (callsAgree_of_oneByOne (fun _ _ hP => hP) h).returned t key c ht
  have hc' := (callsAgree_of_oneByOne (fun _ _ hP => hP) (h.trans h')).returned t' key c' ht'
  exact Option.some.inj ((registered_later (fun _ _ hP => hP) h h' hc).symm.trans hc')

/-- An ack is handled while the matcher creates a consumer, and finds it. -/
theorem oneConsumer_of_oneByOne_ack : ∃ s s',
    s.call .matcher = some ("tg", .done (some 0)) ∧ s.call .grpc = some ("tg", .lookup) ∧
    s'.call .grpc = some ("tg", .done (some 0)) ∧ NoOrphan s ∧ SameConsumer s s' := by
  have hrun : ((Runs.exec (Runs.restrict step OneByOne) init [.consume "t" "g" 0,
      .matcher 0 0 true, .matcher 0 0 true, .matcher 0 0 true,
      .consumeAck "t" "g" "m" 0 0, .matcher 0 0 true]).bind fun s =>
        (Runs.exec (Runs.restrict step OneByOne) s [.grpc 0 true]).map fun s' =>
          (s.call .matcher, s.call .grpc, s'.call .grpc)) =
      some (some ("tg", .done (some 0)), some ("tg", .lookup), some ("tg", .done (some 0))) := by
    decide
  obtain ⟨s, hs, hrun⟩ := Option.bind_eq_some_iff.mp hrun
  obtain ⟨s', hs', hcalls⟩ := Option.map_eq_some_iff.mp hrun
  obtain ⟨hm, hg, hg'⟩ : s.call .matcher = _ ∧ s.call .grpc = _ ∧ s'.call .grpc = _ := by
    simpa using hcalls
  have h := (oneConsumer_of_oneByOne s).1 (.of_exec_restrict .init hs)
  exact ⟨s, s', hm, hg, hg', h.1, h.2 s' (.of_exec_restrict .init hs')⟩

/-- An ack is handled between the lookup and the insertion of the matcher. -/
theorem racing_calls_orphan : ¬ ∀ s s',
    ReachableBy (fun s e => NoShutdown s e ∧ StartsReturn e) s →
    Runs.Reach step s (fun s e => NoShutdown s e ∧ StartsReturn e) s' →
    SameConsumer s s' ∧ NoOrphan s' := by
  have hrun : ((Runs.exec (Runs.restrict step fun s e => NoShutdown s e ∧ StartsReturn e) init
      [.consume "t" "g" 0, .matcher 0 0 true, .matcher 0 0 true, .consumeAck "t" "g" "m" 0 0,
        .grpc 0 true, .matcher 0 0 true, .matcher 0 0 true]).bind fun s =>
        (Runs.exec (Runs.restrict step fun s e => NoShutdown s e ∧ StartsReturn e) s
          [.grpc 0 true, .grpc 0 true]).map fun s' => (s.call .matcher, s'.call .grpc)) =
      some (some ("tg", .done (some 0)), some ("tg", .done (some 1))) := by
    decide
  obtain ⟨s, hs, hrun⟩ := Option.bind_eq_some_iff.mp hrun
  obtain ⟨s', hs', hcalls⟩ := Option.map_eq_some_iff.mp hrun
  obtain ⟨hm, hg⟩ : s.call .matcher = _ ∧ s'.call .grpc = _ := by
    simpa using hcalls
  intro h
  have hsame := (h s s' (.of_exec_restrict .init hs) (.of_exec_restrict .init hs')).1
  exact absurd (hsame "tg" 0 1 ⟨.matcher, hm⟩ ⟨.grpc, hg⟩) (by decide)

end Proxy
end RocketmqProxy
