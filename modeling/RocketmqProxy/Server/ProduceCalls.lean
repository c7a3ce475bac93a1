import RocketmqProxy.Lib.Heap
import RocketmqProxy.Server.Sends

/-!
# Each Produce call is answered once

Every step of the server starts one call, advances one, or leaves them all alone, so the
invariant of a call holds of all of them in every run.
-/

namespace RocketmqProxy
namespace Server

open ProduceCallData

/-- What a step does to the Produce calls and to their log. -/
inductive CallsStep (s s' : Server) : Prop
  | none (hc : s'.produceCalls = s.produceCalls) (hl : s'.produceLog = s.produceLog)
  | starts (request : ProduceRequest) (call : ProduceCallData) (h : Starts request call)
      (hc : s'.produceCalls = s.produceCalls ++ [call]) (hl : s'.produceLog = s.produceLog)
  | advance (k : CallRef) (call call' : ProduceCallData) (units : List LogUnit)
      (hk : s.produceCalls[k]? = some call) (h : Advance call call' units)
      (hc : s'.produceCalls = s.produceCalls.set k call')
      (hl : s'.produceLog = s.produceLog ++ units)

theorem Step.calls {s s' : Server} {e : ServerEvent} (h : Step s e s') : CallsStep s s' := by
  cases h with
  | @produce i request started hg hl =>
    obtain ⟨producers, units, call, he, hcall⟩ :=
      ((s.takeCall i).addCall request).process_writes s.produceCalls.length (.new request) started
    rw [he]
    exact .starts request call hcall (by simp [setCall, construct, addCall, takeCall]) rfl
  | consume | consumeAck | proxy => exact .none rfl rfl
  | produceDone _ hk hf => exact .advance _ _ _ [] hk (.del hf) rfl (List.append_nil _).symm
  | @sendEnd k call send e started hk hlast ho =>
    cases e with
    | threw what => exact .advance k call _ [] hk (.threw ho what) rfl (List.append_nil _).symm
    | onSuccess msgId => exact .advance k call _ _ hk (.onSuccess ho msgId) rfl rfl
    | onException what =>
      rw [Server.sendEnd]
      rcases Nat.lt_or_ge (call.endSend (.onException what)).retryCount produceMaxRetryCount
        with hlt | hge
      · obtain ⟨producers, units, call', he, hcall⟩ :=
          s.process_writes k (call.endSend (.onException what)).retry started
        rw [failure_of_lt _ _ _ _ _ hlt, he]
        refine .advance k call call' [] hk ?_ rfl (List.append_nil _).symm
        rcases hcall with ⟨hc, send, rfl⟩ | ⟨hc, rfl⟩
        · exact .resend ho what send hlt hc
        · exact .reject ho what hc
      · rw [failure_of_le _ _ _ _ _ hge]
        exact .advance k call _ [] hk (.giveUp ho what hge) rfl (List.append_nil _).symm

/-- Each call is where its sends say, and the log has the entries of the calls. -/
structure ProduceInv (s : Server) : Prop where
  kept : ∀ call ∈ s.produceCalls, call.Kept
  log : s.produceLog.Perm (s.produceCalls.flatMap logged)

theorem produceInv_init : ProduceInv .init := ⟨by simp [init], .refl _⟩

theorem CallsStep.produceInv {s s' : Server} (h : CallsStep s s') (hi : ProduceInv s) :
    ProduceInv s' := by
  cases h with
  | none hc hl => exact ⟨hc ▸ hi.kept, hl ▸ hc ▸ hi.log⟩
  | starts request call h hc hl =>
    refine ⟨fun c hmem => ?_, ?_⟩
    · rw [hc] at hmem
      rcases List.mem_append.mp hmem with hmem | hmem
      · exact hi.kept c hmem
      · obtain rfl := List.mem_singleton.mp hmem
        exact h.kept
    · rw [hl, hc, List.flatMap_append, List.flatMap_singleton, h.logged, List.append_nil]
      exact hi.log
  | advance k call call' units hk h hc hl =>
    have hkept := hi.kept call (List.mem_of_getElem? hk)
    refine ⟨fun c hmem => ?_, ?_⟩
    · rw [hc] at hmem
      rcases List.mem_or_eq_of_mem_set hmem with hmem | rfl
      · exact hi.kept c hmem
      · exact h.kept hkept
    · rw [hl, hc]
      exact (hi.log.append_right units).trans (Heap.flatMap_set_perm hk (h.logged hkept)).symm

theorem produceInv {s : Server} (h : Reachable s) : ProduceInv s :=
  h.invariant produceInv_init fun _ _ _ _ hi _ hs => (step_cases hs).calls.produceInv hi

/-! ## Answers -/

/-- A step leaves the sends and the replies of an answered call as they are. -/
theorem CallsStep.frozen {s s' : Server} (h : CallsStep s s') (hi : ProduceInv s)
    {k : CallRef} {call : ProduceCallData} (hk : s.produceCalls[k]? = some call)
    (hf : call.finished ≠ []) :
    ∃ call', s'.produceCalls[k]? = some call' ∧ call'.sends = call.sends ∧
      call'.finished = call.finished := by
  cases h with
  | none hc => exact ⟨call, hc ▸ hk, rfl, rfl⟩
  | starts _ _ _ hc => exact ⟨call, hc ▸ Heap.append_old hk _, rfl, rfl⟩
  | advance j old new _ hj h hc =>
    rw [hc]
    rcases Heap.set_cases hj hk with ⟨-, rfl, hset⟩ | hset
    · exact ⟨new, hset, h.of_finished (hi.kept old (List.mem_of_getElem? hj)) hf⟩
    · exact ⟨call, hset, rfl, rfl⟩

theorem answered_frozen {s s' : Server} (h : Reachable s) (h' : Runs.Reach step s Runs.always s')
    {k : CallRef} {call : ProduceCallData} (hk : s.produceCalls[k]? = some call)
    (hf : call.finished ≠ []) :
    ∃ call', s'.produceCalls[k]? = some call' ∧ call'.sends = call.sends ∧
      call'.finished = call.finished := by
  refine h'.invariant (I := fun s' => ∃ call', s'.produceCalls[k]? = some call' ∧
    call'.sends = call.sends ∧ call'.finished = call.finished) ⟨call, hk, rfl, rfl⟩ ?_
  rintro s₁ e s₂ hr ⟨call₁, hk₁, hsends₁, hfin₁⟩ - hs
  obtain ⟨call₂, hk₂, hsends₂, hfin₂⟩ :=
    (step_cases hs).calls.frozen (produceInv (h.trans hr)) hk₁ (hfin₁ ▸ hf)
  exact ⟨call₂, hk₂, hsends₂.trans hsends₁, hfin₂.trans hfin₁⟩

/-- Produce answers once, retries boundedly, and sends nothing after a success or a
reply; the log has one entry for each call whose last send has succeeded. -/
theorem produce_answers_once {s : Server} (h : Reachable s) :
    (∀ call ∈ s.produceCalls, call.request.Complete → call.AnswersOnce) ∧
    (∀ (s' : Server) (k : CallRef) (call : ProduceCallData), Runs.Reach step s Runs.always s' →
      s.produceCalls[k]? = some call → call.finished ≠ [] →
      ∃ call' : ProduceCallData, s'.produceCalls[k]? = some call' ∧
        call'.sends = call.sends ∧ call'.finished = call.finished) ∧
    s.produceLog.Perm (s.produceCalls.flatMap logged) :=
  ⟨fun call hmem hc => (((produceInv h).kept call hmem).tracks hc).answersOnce,
    fun _ _ _ h' hk hf => answered_frozen h h' hk hf, (produceInv h).log⟩

/-- The first of two messages is sent again before it succeeds; the second one is refused. -/
theorem two_produced : ∃ s, Runs.exec step init [.produce 0 orderRequest true,
    .produce 2 orderRequest true, .sendEnd 0 (.onException "busy") true,
    .sendEnd 1 (.threw "down") true, .sendEnd 0 (.onSuccess "m1") true] = some s ∧
    (s.produceCalls.map fun call => (call.sends.length, call.finished.map (·.msgId))) =
      [(2, ["m1"]), (1, [""])] ∧
    (∀ call ∈ s.produceCalls, call.request.Complete → call.AnswersOnce) := by
  have hrun : (Runs.exec step init [.produce 0 orderRequest true,
      .produce 2 orderRequest true, .sendEnd 0 (.onException "busy") true,
      .sendEnd 1 (.threw "down") true, .sendEnd 0 (.onSuccess "m1") true]).map (fun s =>
        s.produceCalls.map fun call => (call.sends.length, call.finished.map (·.msgId))) =
      some [(2, ["m1"]), (1, [""])] := by
    decide
  obtain ⟨s, hs, hcalls⟩ := Option.map_eq_some_iff.mp hrun
  exact ⟨s, hs, hcalls, (produce_answers_once (Runs.Reach.init.of_exec hs)).1⟩

end Server
end RocketmqProxy
