import RocketmqProxy.Server.Step

/-!
# The call objects that wait

`process` constructs the next call object of its service.  `failureFunc` goes through
`process` for a retry, so each retry leaves one Produce object more.
-/

namespace RocketmqProxy
namespace Server

open Std

/-- How many call objects of a service are registered with gRPC and wait for a call. -/
def armed (s : Server) (type : RequestType) : Nat :=
  s.listeners.countP fun call => call.type = type ∧ 0 < call.requests

/-- One call object of each service waits for a call. -/
def OneArmed (s : Server) : Prop := ∀ type, s.armed type = 1

/-- Whether `failureFunc` retries the send whose end the step is. -/
def retries (s : Server) : ServerEvent → Bool
  | .sendEnd k (.onException _) _ =>
    s.produceCalls[k]?.any fun call => call.retryCount < produceMaxRetryCount
  | _ => false

/-- The step retries no failed send. -/
def NoRetry (s : Server) (e : ServerEvent) : Prop := s.retries e = false

instance (s : Server) (e : ServerEvent) : Decidable (NoRetry s e) :=
  inferInstanceAs (Decidable (_ = _))

/-! ## One step -/

section Counts

variable (s : Server) (type : RequestType)

theorem armed_construct (t : RequestType) :
    (s.construct t).armed type = s.armed type + if t = type then 1 else 0 := by
  by_cases ht : t = type <;> simp [armed, construct, List.countP_append, ht]

/-- The object that gets its call was waiting. -/
theorem armed_takeCall {s : Server} {i : Nat} {t : RequestType} (hl : s.Listens i t) :
    (s.takeCall i).armed type + (if t = type then 1 else 0) = s.armed type := by
  obtain ⟨call, hi, rfl, hreq, -⟩ := hl
  obtain ⟨hlt, rfl⟩ := List.getElem?_eq_some_iff.mp hi
  have hperm := (List.getElem_cons_eraseIdx_perm hlt).countP_eq
    fun call => decide (call.type = type ∧ 0 < call.requests)
  simp only [armed, takeCall, ← hperm, List.countP_cons, hreq, and_true, decide_eq_true_eq]

theorem armed_process (k : CallRef) (call : ProduceCallData) (started : Bool) :
    (s.process k call started).armed type =
      s.armed type + if .produce = type then 1 else 0 := by
  obtain ⟨_, _, _, he, -⟩ := s.process_writes k call started
  rw [he]
  exact armed_construct s type .produce

theorem armed_failure (k : CallRef) (call : ProduceCallData) (msgResp : String)
    (started : Bool) :
    (s.failure k call msgResp started).armed type =
      s.armed type +
        if call.retryCount < produceMaxRetryCount ∧ .produce = type then 1 else 0 := by
  rcases Nat.lt_or_ge call.retryCount produceMaxRetryCount with hlt | hge
  · rw [failure_of_lt s k call started msgResp hlt, armed_process]
    simp [hlt]
  · rw [failure_of_le s k call started msgResp hge]
    simp [Nat.not_lt.mpr hge, armed, setCall]

end Counts

/-- A retry adds a Produce object, and nothing else changes a number. -/
theorem Step.armed {s s' : Server} {e : ServerEvent} (h : Step s e s') (type : RequestType) :
    s'.armed type = s.armed type + if s.retries e = true ∧ .produce = type then 1 else 0 := by
  cases h with
  | @produce i request started hg hl =>
    rw [armed_process]
    exact (armed_takeCall type hl).trans (by simp [retries])
  | consume hl | consumeAck hl =>
    exact (armed_construct _ type _).trans ((armed_takeCall type hl).trans (by simp [retries]))
  | produceDone | proxy => exact (Nat.add_zero _).symm
  | @sendEnd k call send e started hk =>
    cases e with
    | threw | onSuccess => exact (Nat.add_zero _).symm
    | onException what =>
      refine (armed_failure s type k _ what started).trans
        (congrArg (s.armed type + ·) (if_congr ?_ rfl rfl))
      simp [retries, hk, ProduceCallData.endSend]

/-! ## Runs -/

theorem oneArmed_init : OneArmed .init
  | .produce | .consume | .consumeAck => rfl

theorem oneArmed_of_noRetry {s : Server} (h : ReachableBy NoRetry s) : OneArmed s := by
  refine h.invariant (I := OneArmed) oneArmed_init fun s e s' _ hone hno hs type => ?_
  rw [(step_cases hs).armed type, hone type, if_neg]
  rintro ⟨hret, -⟩
  exact Bool.false_ne_true (Eq.trans (Eq.symm hno) hret)

/-- The numbers do not fall, so an object too many is there for good. -/
theorem noRetry_of_oneArmed {s : Server} (h : Reachable s) :
    1 ≤ s.armed .produce ∧ (OneArmed s → ReachableBy NoRetry s) := by
  induction h with
  | init => exact ⟨Nat.le_refl 1, fun _ => .init⟩
  | @step s s' e _ _ hs ih =>
    obtain ⟨hpos, ih⟩ := ih
    have harm := (step_cases hs).armed
    refine ⟨(harm .produce).symm ▸ Nat.le_add_right_of_le hpos, fun hone => ?_⟩
    have hno : s.retries e = false := by
      have hp := harm .produce
      rw [hone] at hp
      by_contra hret
      rw [if_pos ⟨Bool.eq_true_of_not_eq_false hret, rfl⟩] at hp
      omega
    have hone₀ : OneArmed s := fun type => by
      have ht := harm type
      rwa [hone, hno, if_neg (by simp), Nat.add_zero, eq_comm] at ht
    exact .step (ih hone₀) hno hs

/-- There is one object of each service as long as no failed send has been retried, and
never again after that. -/
theorem oneArmed_iff {s : Server} (h : Reachable s) : OneArmed s ↔ ReachableBy NoRetry s :=
  ⟨(noRetry_of_oneArmed h).2, oneArmed_of_noRetry⟩

/-- A message is sent, and its call answered. -/
def answeredProduce : List ServerEvent :=
  [.produce 0 orderRequest true, .sendEnd 0 (.onSuccess "m1") true, .produceDone 0 true]

/-- A message is sent and its call answered, with one object of each service after it. -/
theorem oneArmed_answeredProduce : ∃ s, Reachable s ∧
    (s.produceCalls.map fun call => call.finished.map (·.code)) = [[responseSuccess]] ∧
    OneArmed s := by
  have hrun : (Runs.exec (Runs.restrict step NoRetry) init answeredProduce).map (fun s =>
      s.produceCalls.map fun call => call.finished.map (·.code)) = some [[responseSuccess]] := by
    decide
  obtain ⟨s, hs, hcodes⟩ := Option.map_eq_some_iff.mp hrun
  have hno : ReachableBy NoRetry s := .of_exec_restrict .init hs
  have hreach : Reachable s := hno.mono fun _ _ _ => trivial
  exact ⟨s, hreach, hcodes, (oneArmed_iff hreach).mpr hno⟩

/-- A send fails, and the retry constructs an object beside the one that waits. -/
theorem retry_arms_another : ¬ ∀ s, Reachable s → OneArmed s := by
  have hrun : (Runs.exec step init [.produce 0 orderRequest true,
      .sendEnd 0 (.onException "busy") true]).map (fun s => s.armed .produce) = some 2 := by
    decide
  obtain ⟨s, hs, harm⟩ := Option.map_eq_some_iff.mp hrun
  intro hall
  have hone := hall s (Runs.Reach.init.of_exec hs) .produce
  omega

end Server
end RocketmqProxy
