import RocketmqProxy.Proxy.FailedStart
import RocketmqProxy.Server.Step

/-!
# Starts that throw, in any thread

`getProducer` and `getConsumer` catch what `start()` throws and return a null pointer.
`produce` and the gRPC thread dereference it, and so does the matcher for a request that
waits for a message.
-/

namespace RocketmqProxy

namespace ServerEvent

def inProxy : ServerEvent → Option Event
  | .proxy e => some e
  | _ => none

/-- Whether the `start()` that `getProducer` may call in this step returns. -/
def started : ServerEvent → Bool
  | .produce _ _ started | .sendEnd _ _ started => started
  | _ => true

end ServerEvent

/-- A request of one of the three services, by its call object. -/
inductive RequestRef
  | produce (call : CallRef)
  | consume (call : CallRef)
  | consumeAck (call : CallRef)
deriving DecidableEq, Repr

namespace Server

open Std

/-- The request that `process` passes on to `produce` in this step. -/
def producing (s : Server) : ServerEvent → Option ProduceRequest
  | .produce _ request _ => if request.Complete then some request else none
  | .sendEnd k (.onException _) _ => s.produceCalls[k]?.bind fun call =>
      if call.retryCount < produceMaxRetryCount ∧ call.request.Complete then some call.request
      else none
  | _ => none

/-- In this step a `start()` throws. -/
def FailsStart (s : Server) (e : ServerEvent) : Prop :=
  (∃ e', e.inProxy = some e' ∧ s.proxy.FailsStart e') ∨
    ∃ request, s.producing e = some request ∧ e.started = false ∧
      s.producers[request.topic ++ request.group]? = none

/-- In this step a null pointer is dereferenced that `getConsumer` or `getProducer` has
returned. -/
def Derefs (s : Server) (e : ServerEvent) : Prop :=
  (∃ e', e.inProxy = some e' ∧ s.proxy.Derefs e') ∨
    ∃ request, s.producing e = some request ∧
      (s.getProducer request.topic request.group e.started).2 = none

/-- The request that a thread is handling in this step. -/
def request (s : Server) : ServerEvent → Option RequestRef
  | .produce _ _ _ => some (.produce s.produceCalls.length)
  | .sendEnd k _ _ => some (.produce k)
  | .proxy (.matcher _ _ _) =>
    match s.proxy.matcher with
    | .getConsumer u _ => s.proxy.consumeMsgUnits[u]?.map fun unit => .consume unit.callData
    | .pop => none
  | .proxy (.grpc _ _) =>
    match s.proxy.grpc with
    | .ack k _ => some (.consumeAck k)
    | .cancel k _ => some (.consume k)
    | _ => none
  | _ => none

/-- The codes of the answers to a request. -/
def answers (s : Server) : RequestRef → List Int
  | .produce k => (s.produceCalls[k]?.map fun call => call.finished.map (·.code)).getD []
  | .consume k => (s.proxy.consumeCalls[k]?.map fun call => call.finished.map (·.code)).getD []
  | .consumeAck k => (s.proxy.ackCalls[k]?.map fun call => call.finished.map (·.code)).getD []

/-- The request at hand has had its answer before the step, or is answered by it with an
error or a timeout. -/
def Answered (s : Server) (e : ServerEvent) (s' : Server) : Prop :=
  ∀ r, s.request e = some r →
    s.answers r ≠ [] ∨ responseError ∈ s'.answers r ∨ responseTimeout ∈ s'.answers r

/-- The members that `getConsumer` writes to are as they were. -/
def RegistriesKept (s s' : Server) : Prop :=
  s'.proxy.consumers = s.proxy.consumers ∧
    ∀ key : String, s'.proxy.msgPool[key]? = s.proxy.msgPool[key]?

/-- No null pointer is dereferenced.  A `start()` that throws has its request answered,
and neither it nor the lookup before it writes to the registries. -/
structure Handled (s : Server) (e : ServerEvent) : Prop where
  spared : ¬ s.Derefs e
  answered : s.FailsStart e → ∀ s', s.step e = some s' → s.Answered e s'
  kept : s.FailsStart e → ∀ s', s.step e = some s' → s.RegistriesKept s'
  lookup : ∀ e', e.inProxy = some e' → s.proxy.LooksUp e' →
    ∀ s', s.step e = some s' → s.RegistriesKept s'

/-- A `start()` that throws does no harm: it is that of a consumer, and called by the
matcher for a request that has its message and whose ack is not overdue after it. -/
def Harmless (s : Server) (e : ServerEvent) : Prop :=
  (∀ e', e.inProxy = some e' → s.proxy.StartHarmless e') ∧
    ∀ request, s.producing e = some request →
      e.started = true ∨ s.producers[request.topic ++ request.group]? ≠ none

instance (s : Server) (e : ServerEvent) : Decidable (s.Harmless e) :=
  inferInstanceAs (Decidable ((∀ e' ∈ e.inProxy, s.proxy.StartHarmless e') ∧
    ∀ request ∈ s.producing e,
      e.started = true ∨ s.producers[request.topic ++ request.group]? ≠ none))

section Starts

variable {s s' : Server} {e : ServerEvent}

theorem getProducer_eq_none {topic group : String} {started : Bool} :
    (s.getProducer topic group started).2 = none ↔
      started = false ∧ s.producers[topic ++ group]? = none := by
  unfold getProducer
  split
  · next p hp => simp [hp]
  · next hp => cases started <;> simp [hp]

theorem spared (h : ReachableBy Harmless s) : s.proxy.Spared := by
  refine h.invariant (I := fun s => s.proxy.Spared) Proxy.spared_init fun s e s' _ hi hP hs => ?_
  cases step_cases hs with
  | produce => rwa [process_proxy]
  | consume _ hp => exact hi.step (e := .consume _ _ _) trivial hp
  | consumeAck _ hp => exact hi.step (e := .consumeAck _ _ _ _ _) trivial hp
  | proxy _ hp => exact hi.step (hP.1 _ rfl) hp
  | produceDone => exact hi
  | sendEnd => rwa [sendEnd_proxy]

theorem Harmless.producer_started (hP : s.Harmless e) {request : ProduceRequest}
    (hr : s.producing e = some request) :
    ¬ (e.started = false ∧ s.producers[request.topic ++ request.group]? = none) := by
  rintro ⟨hst, hnone⟩
  rcases hP.2 request hr with hst' | hne
  · exact absurd (hst.symm.trans hst') (by simp)
  · exact hne hnone

theorem inProxy_eq_some {e' : Event} (h : e.inProxy = some e') : e = .proxy e' := by
  cases e with
  | proxy e => exact congrArg _ (Option.some.inj h)
  | _ => exact absurd h (by simp [ServerEvent.inProxy])

theorem step_proxy {e' : Event} (hs : s.step (.proxy e') = some s') :
    s.proxy.step e' = some s'.proxy := by
  cases step_cases hs with
  | proxy _ hp => exact hp

theorem Harmless.handled (hP : s.Harmless e) (h : ReachableBy Harmless s) : s.Handled e := by
  have hr := reachable_proxy h
  have hfails (hf : s.FailsStart e) : ∃ e', e = .proxy e' ∧ s.proxy.FailsStart e' := by
    rcases hf with ⟨e', he, hf⟩ | ⟨request, hreq, hst, hnone⟩
    · exact ⟨e', inProxy_eq_some he, hf⟩
    · exact absurd ⟨hst, hnone⟩ (hP.producer_started hreq)
  refine ⟨?_, fun hf s' hs => ?_, fun hf s' hs => ?_, fun e' he hl s' hs => ?_⟩
  · rintro (⟨e', he, hd⟩ | ⟨request, hreq, hnone⟩)
    · exact (spared h).not_derefs (hP.1 e' he) hd
    · exact hP.producer_started hreq (getProducer_eq_none.mp hnone)
  · obtain ⟨e', rfl, hf'⟩ := hfails hf
    obtain ⟨-, u, unit, get, call, ht, hm, hu, hk, hfin⟩ :=
      (hP.1 e' rfl).failed hr hf' (step_proxy hs)
    intro r hreq
    cases e' with
    | matcher now now' started =>
      simp only [request, hm, hu, Option.map_some, Option.some.injEq] at hreq
      subst hreq
      exact .inl (by simpa [answers, hk] using hfin)
    | _ => exact absurd ht (by simp [Proxy.turn])
  · obtain ⟨e', rfl, hf'⟩ := hfails hf
    exact ((hP.1 e' rfl).failed hr hf' (step_proxy hs)).1
  · obtain rfl := inProxy_eq_some he
    obtain ⟨t, key, ht, hc⟩ := hl
    obtain ⟨hcons, hpool⟩ := Proxy.lookup_keeps (Proxy.registryInv hr) ht hc (step_proxy hs)
    exact ⟨hcons, fun key => by rw [hpool]⟩

theorem derefs_of_not_harmless (hP : ¬ s.Harmless e) :
    s.Derefs e ∨ ∀ s', s.step e = some s' → ∃ e', s'.Derefs e' := by
  rw [Harmless, not_and_or] at hP
  rcases hP with hP | hP
  · simp only [not_forall] at hP
    obtain ⟨e', he, hP⟩ := hP
    obtain rfl := inProxy_eq_some he
    refine (Proxy.derefs_of_not_harmless hP).imp (fun hd => .inl ⟨e', rfl, hd⟩) fun hnext s' hs => ?_
    obtain ⟨e'', hd⟩ := hnext s'.proxy (step_proxy hs)
    exact ⟨.proxy e'', .inl ⟨e'', rfl, hd⟩⟩
  · simp only [not_forall, not_or, not_not, Bool.not_eq_true] at hP
    obtain ⟨request, hreq, hst⟩ := hP
    exact .inl (.inr ⟨request, hreq, getProducer_eq_none.mpr hst⟩)

end Starts

/-- In a run in which every start that throws is harmless, each is handled; and any other
leads to the use of a null pointer, at once or in the next step of its thread. -/
theorem starts_handled (s : Server) :
    (ReachableBy Harmless s → ∀ e, s.Harmless e → s.Handled e) ∧
      ∀ e, ¬ s.Harmless e → s.Derefs e ∨ ∀ s', s.step e = some s' → ∃ e', s'.Derefs e' :=
  ⟨fun h _ hP => hP.handled h, fun _ => derefs_of_not_harmless⟩

/-- The consumer of an acked message is shut down before the matcher drops its unit. -/
def ackedThenShutDown : List ServerEvent :=
  [.consume 1 "t" "g" 0, .proxy (.matcher 0 0 true), .proxy (.matcher 0 0 true),
    .proxy (.matcher 0 0 true), .proxy (.matcher 0 0 true),
    .proxy (.callback 0 1 [(10, ⟨"m", "t", "b", 0⟩)]), .proxy (.matcher 0 0 true),
    .consumeAck 1 "t" "g" "m" 0 1, .proxy (.grpc 1 true), .proxy (.grpc 1 true),
    .proxy (.grpc 1 true), .proxy (.grpc 1 true), .proxy (.callbackReturn 0 1),
    .proxy (.shutdown 100), .proxy (.shutdown 100), .proxy (.shutdown 100),
    .proxy (.shutdown 100), .proxy (.shutdown 100), .proxy (.matcher 100 100 true),
    .proxy (.matcher 100 100 true)]

/-- The matcher cannot start another consumer for the unit, and does not need one. -/
theorem starts_handled_acked : ∃ s, ReachableBy Harmless s ∧
    s.FailsStart (.proxy (.matcher 100 100 false)) ∧
    s.Handled (.proxy (.matcher 100 100 false)) := by
  have hrun : (Runs.exec (Runs.restrict step Harmless) init ackedThenShutDown).map (fun s =>
      (s.proxy.call .matcher, decide (s.Harmless (.proxy (.matcher 100 100 false))))) =
      some (some ("tg", .start 1), true) := by
    decide
  obtain ⟨s, hs, hpair⟩ := Option.map_eq_some_iff.mp hrun
  obtain ⟨hcall, hP⟩ := Prod.mk.inj hpair
  have hreach : ReachableBy Harmless s := .of_exec_restrict .init hs
  exact ⟨s, hreach, .inl ⟨_, rfl, by simp [Proxy.StartsReturn], .matcher, "tg", 1, rfl, hcall⟩,
    (starts_handled s).1 hreach _ (of_decide_eq_true hP)⟩

/-- No consumer can be started for the first request. -/
theorem failed_start_derefs : ∃ s s', Runs.exec step init [.consume 1 "t" "g" 0,
      .proxy (.matcher 0 0 true), .proxy (.matcher 0 0 true)] = some s ∧
    s.FailsStart (.proxy (.matcher 0 0 false)) ∧
    s.step (.proxy (.matcher 0 0 false)) = some s' ∧
    ¬ s.Answered (.proxy (.matcher 0 0 false)) s' ∧ ¬ s.RegistriesKept s' ∧
    ¬ s'.Handled (.proxy (.matcher 0 0 true)) := by
  refine ⟨_, _, rfl, .inl ⟨_, rfl, by simp [Proxy.StartsReturn], .matcher, "tg", 0, rfl, rfl⟩,
    rfl, ?_, ?_, fun h => h.spared (.inl ⟨_, rfl, 0, _, rfl, rfl, .inl rfl⟩)⟩
  · intro h
    exact absurd (h (.consume 0) rfl) (by decide)
  · intro h
    exact absurd (h.2 "tg") (by decide)

end Server
end RocketmqProxy
