import RocketmqProxy.Proxy.Requests

/-!
# The life of a ConsumeAck call

The gRPC thread handles one call at a time.  A call is searched for, answered once, with
what `setMsgAck` has returned, and then left alone until its reply completes.
-/

namespace RocketmqProxy
namespace Proxy

/-- The ConsumeAck call that the gRPC thread is handling. -/
def ackCall : GrpcPc → Option CallRef
  | .ack k _ | .ackLookup k | .ackStore k _ => some k
  | .next | .cancel _ _ | .cancelErase _ => none

/-- A call of `setMsgAck`: the consumer, the arguments and what it has returned. -/
abbrev AckResult := ConsumerRef × String × ConsumeStatus × Bool

/-- The calls of `setMsgAck` that the ConsumeAck call `k` has made. -/
def ackResults (k : CallRef) (trace : List Obs) : List AckResult :=
  trace.filterMap fun o =>
    match o with
    | .unit c (.acked (.consumeAck j) msgId st ret) =>
      if j = k then some (c, msgId, st, ret) else none
    | _ => none

theorem ackResults_append (k : CallRef) (t t' : List Obs) :
    ackResults k (t ++ t') = ackResults k t ++ ackResults k t' :=
  List.filterMap_append

theorem ackResults_reset (k : CallRef) (topic group : String) (d : Option ConsumerRef) :
    ackResults k (d.map (.reset topic group)).toList = [] := by
  cases d <;> rfl

/-- The reply of `process`, when `setMsgAck` has returned `ret`. -/
def ackReply (msgId : String) (ret : Bool) : ConsumeAckReply :=
  if ret then { code := responseSuccess, errorMsg := "msg ack succ!" }
  else { code := responseError, errorMsg := "msg[" ++ msgId ++ "] cannot be found!" }

/-- The call of `setMsgAck` for `call`, on the consumer `c`. -/
def ackResult (call : ConsumeAckCallData) (c : ConsumerRef) (ret : Bool) : AckResult :=
  (c, call.msgId, .ofInt call.requestStatus, ret)

/-- How far the call `k` has come; the last argument lists its calls of `setMsgAck`. -/
inductive AckLife (grpc : GrpcPc) (k : CallRef) (call : ConsumeAckCallData) :
    List AckResult → Prop
  | searching {get : GetConsumer} (hg : grpc = .ack k get)
      (hc : call = .new call.topic call.group call.msgId call.requestStatus) :
      AckLife grpc k call []
  | found {c : ConsumerRef} (hg : grpc = .ackLookup k ∨ ∃ unit, grpc = .ackStore k unit)
      (hc : call = .new call.topic call.group call.msgId call.requestStatus) :
      AckLife grpc k call [ackResult call c true]
  | answered {c : ConsumerRef} {ret : Bool} (hg : ackCall grpc ≠ some k)
      (hf : call.finished = [ackReply call.msgId ret]) :
      AckLife grpc k call [ackResult call c ret]

namespace AckLife

variable {grpc grpc' : GrpcPc} {k : CallRef} {get : GetConsumer} {call : ConsumeAckCallData}
  {results : List AckResult}

/-- A call that the thread is not at has been answered. -/
theorem of_ne (h : AckLife grpc k call results) (hg : ackCall grpc ≠ some k)
    (hg' : ackCall grpc' ≠ some k) : AckLife grpc' k call results := by
  cases h with
  | searching h =>
    rw [h] at hg
    exact absurd rfl hg
  | found h =>
    rcases h with rfl | ⟨unit, rfl⟩ <;> exact absurd rfl hg
  | answered _ hf => exact .answered hg' hf

theorem search (h : AckLife (.ack k get) k call results) (get' : GetConsumer) :
    AckLife (.ack k get') k call results := by
  cases h with
  | searching _ hc => exact .searching rfl hc
  | found hg => simp at hg
  | answered hg => exact absurd rfl hg

theorem results_of_ack (h : AckLife (.ack k get) k call results) :
    results = [] ∧ call = .new call.topic call.group call.msgId call.requestStatus := by
  cases h with
  | searching _ hc => exact ⟨rfl, hc⟩
  | found hg => simp at hg
  | answered hg => exact absurd rfl hg

/-- What is left of a call once its message is found. -/
theorem results_of_found (h : AckLife grpc k call results)
    (hg : grpc = .ackLookup k ∨ ∃ unit, grpc = .ackStore k unit) :
    (∃ c, results = [ackResult call c true]) ∧
      call = .new call.topic call.group call.msgId call.requestStatus := by
  cases h with
  | searching h =>
    subst h
    simp at hg
  | found _ hc => exact ⟨⟨_, rfl⟩, hc⟩
  | answered hne =>
    rcases hg with rfl | ⟨unit, rfl⟩ <;> exact absurd rfl hne

theorem del (h : AckLife grpc k call results) (hg : ackCall grpc ≠ some k) :
    AckLife grpc k call.del results := by
  cases h with
  | searching h =>
    rw [h] at hg
    exact absurd rfl hg
  | found h =>
    rcases h with rfl | ⟨unit, rfl⟩ <;> exact absurd rfl hg
  | answered _ hf => exact .answered hg hf

end AckLife

/-- Every ConsumeAck call is at one point of its life. -/
structure AckCalls (grpc : GrpcPc) (calls : List ConsumeAckCallData) (trace : List Obs) :
    Prop where
  life : ∀ k call, calls[k]? = some call → AckLife grpc k call (ackResults k trace)
  fresh : ∀ k, calls.length ≤ k → ackResults k trace = []
  /-- The thread is at a call that has come. -/
  bound : ∀ k, ackCall grpc = some k → k < calls.length

namespace AckCalls

variable {grpc grpc' : GrpcPc} {calls : List ConsumeAckCallData} {trace : List Obs}

/-- The thread is at no call, before and after, and no call sees what has happened. -/
theorem keep (h : AckCalls grpc calls trace) (hg : grpc' = grpc ∨
      ackCall grpc = none ∧ ackCall grpc' = none) {t : List Obs}
    (ht : ∀ k, ackResults k t = []) : AckCalls grpc' calls (trace ++ t) := by
  have hsame : ∀ k, ackResults k (trace ++ t) = ackResults k trace := fun k => by
    rw [ackResults_append, ht, List.append_nil]
  refine ⟨fun k call hk => ?_, fun k hk => (hsame k).trans (h.fresh k hk), fun k hk => ?_⟩
  · rw [hsame]
    rcases hg with rfl | ⟨hg, hg'⟩
    · exact h.life k call hk
    · exact (h.life k call hk).of_ne (by simp [hg]) (by simp [hg'])
  · rcases hg with rfl | ⟨hg, hg'⟩
    · exact h.bound k hk
    · rw [hg'] at hk
      cases hk

/-- A call comes. -/
theorem arrive (h : AckCalls grpc calls trace) (hg : ackCall grpc = none)
    (topic group msgId : String) (status : Int) {t : List Obs} (ht : ∀ k, ackResults k t = []) :
    AckCalls (.ack calls.length .lookup) (calls ++ [.new topic group msgId status])
      (trace ++ t) := by
  have hsame : ∀ k, ackResults k (trace ++ t) = ackResults k trace := fun k => by
    rw [ackResults_append, ht, List.append_nil]
  refine ⟨fun k call hk => ?_, fun k hk => ?_, fun k hk => ?_⟩
  · rw [hsame]
    rcases Heap.of_append hk with ⟨rfl, rfl⟩ | hk
    · rw [h.fresh _ (le_refl _)]
      exact .searching rfl rfl
    · have hne : calls.length ≠ k := (List.getElem?_eq_some_iff.mp hk).1.ne'
      exact (h.life k call hk).of_ne (by simp [hg]) (by simpa [ackCall] using hne)
  · rw [List.length_append] at hk
    rw [hsame]
    exact h.fresh k (Nat.le_of_add_right_le hk)
  · obtain rfl : calls.length = k := by simpa [ackCall] using hk
    simp

/-- The thread goes on with the call `k`. -/
theorem goOn (h : AckCalls grpc calls trace) {k : CallRef} {calls' : List ConsumeAckCallData}
    {call' : ConsumeAckCallData} (hg : ackCall grpc = some k) (hk : calls'[k]? = some call')
    (hlen : calls'.length = calls.length) (hcalls : ∀ j, j ≠ k → calls'[j]? = calls[j]?)
    {t : List Obs} (ht : ∀ j, j ≠ k → ackResults j t = [])
    (hother : ∀ j, j ≠ k → ackCall grpc' ≠ some j)
    (hlife : AckLife grpc' k call' (ackResults k (trace ++ t))) :
    AckCalls grpc' calls' (trace ++ t) := by
  have hlt := (List.getElem?_eq_some_iff.mp hk).1
  have hsame : ∀ j, j ≠ k → ackResults j (trace ++ t) = ackResults j trace := fun j hj => by
    rw [ackResults_append, ht j hj, List.append_nil]
  refine ⟨fun j callj hj => ?_, fun j hj => ?_, fun j hj => ?_⟩
  · by_cases hjk : j = k
    · subst hjk
      obtain rfl := Option.some.inj (hk.symm.trans hj)
      exact hlife
    · rw [hcalls j hjk] at hj
      rw [hsame j hjk]
      exact (h.life j callj hj).of_ne (by simpa [hg] using Ne.symm hjk) (hother j hjk)
  · have hjk : j ≠ k := (Nat.lt_of_lt_of_le hlt hj).ne'
    rw [hsame j hjk]
    exact h.fresh j (hlen ▸ hj)
  · by_cases hjk : j = k
    · exact hjk ▸ hlt
    · exact absurd hj (hother j hjk)

/-- The thread goes on with the call `k`, and nothing is written to it. -/
theorem move (h : AckCalls grpc calls trace) {k : CallRef} {call : ConsumeAckCallData}
    (hg : ackCall grpc = some k) (hk : calls[k]? = some call) {t : List Obs}
    (ht : ∀ j, j ≠ k → ackResults j t = []) (hg' : ackCall grpc' = some k)
    (hlife : AckLife grpc' k call (ackResults k (trace ++ t))) :
    AckCalls grpc' calls (trace ++ t) :=
  h.goOn hg hk rfl (fun _ _ => rfl) ht (fun j hj => by simpa [hg'] using Ne.symm hj) hlife

/-- The call `k` is answered, and the thread is free again. -/
theorem answer (h : AckCalls grpc calls trace) {k : CallRef} {call call' : ConsumeAckCallData}
    (hg : ackCall grpc = some k) (hk : calls[k]? = some call) {t : List Obs}
    (ht : ∀ j, j ≠ k → ackResults j t = []) {c : ConsumerRef} {ret : Bool}
    (hret : ackResults k (trace ++ t) = [ackResult call' c ret])
    (hf : call'.finished = [ackReply call'.msgId ret]) :
    AckCalls .next (calls.set k call') (trace ++ t) := by
  refine h.goOn hg (Heap.set_self hk call') List.length_set
    (fun j hj => List.getElem?_set_ne (Ne.symm hj)) ht (fun _ _ => by simp [ackCall]) ?_
  rw [hret]
  exact .answered (by simp [ackCall]) hf

/-- The call `k` is deleted. -/
theorem delete (h : AckCalls grpc calls trace) {k : CallRef} {call : ConsumeAckCallData}
    (hg : ackCall grpc = none) (hk : calls[k]? = some call) :
    AckCalls grpc (calls.set k call.del) trace := by
  refine ⟨fun j callj hj => ?_, fun j hj => h.fresh j (by rwa [List.length_set] at hj),
    fun j hj => absurd (hg.symm.trans hj) (by simp)⟩
  rcases Heap.of_set hj with ⟨rfl, rfl⟩ | hj
  · exact (h.life _ call hk).del (by simp [hg])
  · exact h.life j callj hj

end AckCalls

/-! ## Every run -/

def AckInv (s : Proxy) : Prop := AckCalls s.grpc s.ackCalls s.trace

theorem Step.ackInv {s s' : Proxy} {e : Event} (h : Step s e s') (hi : AckInv s) :
    AckInv s' := by
  have hquiet : ∀ {c : ConsumerRef} {o : UnitObs}, (∀ j msgId st ret,
      o ≠ .acked (.consumeAck j) msgId st ret) → ∀ k, ackResults k [.unit c o] = [] := by
    intro c o ho k
    refine List.filterMap_eq_nil_iff.mpr fun x hx => ?_
    obtain rfl := List.mem_singleton.mp hx
    split
    · next he => exact absurd (Obs.unit.inj he).2 (ho _ _ _ _)
    · rfl
  have hmine : ∀ {c : ConsumerRef} {k : CallRef} {msgId : String} {st : ConsumeStatus}
      {ret : Bool}, ackResults k [.unit c (.acked (.consumeAck k) msgId st ret)] =
        [(c, msgId, st, ret)] := by
    simp [ackResults]
  have hothers : ∀ {c : ConsumerRef} {k : CallRef} {msgId : String} {st : ConsumeStatus}
      {ret : Bool}, ∀ j, j ≠ k →
      ackResults j [.unit c (.acked (.consumeAck k) msgId st ret)] = [] := by
    intro c k msgId st ret j hj
    simp [ackResults, Ne.symm hj]
  have hsame : ∀ {grpc : GrpcPc}, grpc = s.grpc ∨ ackCall s.grpc = none ∧ ackCall grpc = none →
      AckCalls grpc s.ackCalls s.trace := fun hg => by
    have hkeep := AckCalls.keep (t := []) hi hg fun _ => rfl
    rwa [List.append_nil] at hkeep
  cases h with
  | consumeAck hg =>
    exact hi.arrive (by rw [hg]; rfl) _ _ _ _ fun k => ackResults_reset k _ _ _
  | @ackGet k call get get' now started consumers msgPool units hg hk hget =>
    have hlife := hi.life k call hk
    rw [hg] at hlife
    have hmove : AckCalls (.ack k get') s.ackCalls (s.trace ++ []) :=
      hi.move (by rw [hg]; rfl) hk (fun _ _ => rfl) rfl
        (by rw [List.append_nil]; exact hlife.search get')
    rwa [List.append_nil] at hmove
  | @ackAccepted k call c unit now started hg hk hc hret =>
    have hlife := hi.life k call hk
    rw [hg] at hlife
    obtain ⟨hnone, hnew⟩ := hlife.results_of_ack
    refine hi.move (by rw [hg]; rfl) hk hothers rfl ?_
    rw [ackResults_append, hnone, hmine]
    exact .found (.inl rfl) hnew
  | @ackRejected k call c unit now started hg hk hc hret =>
    have hlife := hi.life k call hk
    rw [hg] at hlife
    obtain ⟨hnone, hnew⟩ := hlife.results_of_ack
    have hresults : ackResults k (s.trace ++ [.unit c (.acked (.consumeAck k) call.msgId
        (.ofInt call.requestStatus) false)]) = [ackResult call.reject c false] := by
      rw [ackResults_append, hnone, hmine]
      rfl
    exact hi.answer (by rw [hg]; rfl) hk hothers hresults (by rw [hnew]; rfl)
  | @ackLookup k call now started hg hk =>
    obtain ⟨⟨c, hfound⟩, hnew⟩ := (hi.life k call hk).results_of_found (.inl hg)
    have hmove : AckCalls (.ackStore k s.idUnitMap[call.msgId]?) s.ackCalls (s.trace ++ []) :=
      hi.move (by rw [hg]; rfl) hk (fun _ _ => rfl) rfl
        (by rw [List.append_nil, hfound]; exact .found (.inr ⟨_, rfl⟩) hnew)
    rwa [List.append_nil] at hmove
  | @ackStore k call unit now started hg hk =>
    obtain ⟨⟨c, hfound⟩, hnew⟩ := (hi.life k call hk).results_of_found (.inr ⟨unit, hg⟩)
    have hresults : ackResults k (s.trace ++ []) = [ackResult call.accept c true] := by
      rw [List.append_nil]
      exact hfound
    have hanswer := hi.answer (by rw [hg]; rfl) hk (fun _ _ => rfl) hresults (by rw [hnew]; rfl)
    rwa [List.append_nil] at hanswer
  | ackDel hg hk hf hd => exact hi.delete (by rw [hg]; rfl) hk
  | consume hg => exact hi
  | cancelBegin hg hk hf hd hid => exact hsame (.inr ⟨by rw [hg]; rfl, rfl⟩)
  | cancelGet hg hk hget => exact hsame (.inr ⟨by rw [hg]; rfl, rfl⟩)
  | cancelErase hg hk => exact hsame (.inr ⟨by rw [hg]; rfl, rfl⟩)
  | cancelSet hg hk hc =>
    exact hi.keep (.inr ⟨by rw [hg]; rfl, rfl⟩) (hquiet fun _ _ _ _ => by simp)
  | deliver hm hu hc hs hk hf =>
    refine (hi.keep (.inl rfl) (hquiet fun _ _ _ _ => by simp)).keep (.inl rfl)
      fun k => ackResults_reset k _ _ _
  | fetchTimeout hm hu hc hs hk hf ht =>
    exact hi.keep (.inl rfl) fun k => ackResults_reset k _ _ _
  | ackTimeout hm hu hc hs ht => exact hi.keep (.inl rfl) (hquiet fun _ _ _ _ => by simp)
  | callback hc hs ha hn => exact hi.keep (.inl rfl) (hquiet fun _ _ _ _ => by simp)
  | callbackReturn hc he => exact hi.keep (.inl rfl) (hquiet fun _ _ _ _ => by simp)
  | clearUnlock hp hc => exact hi.keep (.inl rfl) (hquiet fun _ _ _ _ => by simp)
  | _ => exact hi

theorem ackInv {s : Proxy} (h : Reachable s) : AckInv s :=
  h.invariant ⟨by simp [init], fun _ _ => rfl, by simp [init, ackCall]⟩
    fun _ _ _ _ hi _ hs => (step_cases hs).ackInv hi

/-- An answered call keeps its reply, and changes only once more, when it is deleted. -/
theorem Step.ack_frozen {s s' : Proxy} {e : Event} (h : Step s e s') {k : CallRef}
    {call : ConsumeAckCallData} (hk : s.ackCalls[k]? = some call) (hg : ackCall s.grpc ≠ some k) :
    s'.ackCalls[k]? = some call ∨ call.deleted = false ∧ s'.ackCalls[k]? = some call.del := by
  cases h with
  | consumeAck => exact .inl (Heap.append_old hk _)
  | ackRejected hg' hj =>
    refine .inl ((List.getElem?_set_ne ?_).trans hk)
    rintro rfl
    exact hg (by rw [hg']; rfl)
  | ackStore hg' hj =>
    refine .inl ((List.getElem?_set_ne ?_).trans hk)
    rintro rfl
    exact hg (by rw [hg']; rfl)
  | ackDel hg' hj hf hd =>
    rcases Heap.set_cases hj hk with ⟨-, rfl, hset⟩ | hset
    · exact .inr ⟨hd, hset⟩
    · exact .inl hset
  | _ => exact .inl hk

/-- What is known of a ConsumeAck call. -/
inductive AckAnswer (s : Proxy) (k : CallRef) (call : ConsumeAckCallData) : Prop
  /-- The thread is at the call, which has not been answered. -/
  | handled (hg : ackCall s.grpc = some k) (hf : call.finished = []) (hd : call.deleted = false)
  /-- The call has been answered with what its one call of `setMsgAck` has returned. -/
  | answered (c : ConsumerRef) (ret : Bool) (hg : ackCall s.grpc ≠ some k)
      (hr : ackResults k s.trace = [ackResult call c ret])
      (hf : call.finished = [ackReply call.msgId ret])

theorem AckLife.answer {s : Proxy} {k : CallRef} {call : ConsumeAckCallData}
    (h : AckLife s.grpc k call (ackResults k s.trace)) : AckAnswer s k call := by
  generalize hr : ackResults k s.trace = results at h
  cases h with
  | searching hg hc =>
    rw [hc]
    exact .handled (by rw [hg]; rfl) rfl rfl
  | found hg hc =>
    rw [hc]
    rcases hg with hg | ⟨unit, hg⟩ <;> exact .handled (by rw [hg]; rfl) rfl rfl
  | answered hg hf => exact .answered _ _ hg hr hf

/-- In every run each ConsumeAck call is searched for once and answered once with the result,
and no later step changes it but for its deletion. -/
theorem acks_answered_once {s : Proxy} (h : Reachable s) {k : CallRef}
    {call : ConsumeAckCallData} (hk : s.ackCalls[k]? = some call) :
    AckAnswer s k call ∧ ∀ s', Runs.Reach step s Runs.always s' → call.finished ≠ [] →
      s'.ackCalls[k]? = some call ∨ call.deleted = false ∧ s'.ackCalls[k]? = some call.del := by
  refine ⟨((ackInv h).life k call hk).answer, fun s' h' hf => ?_⟩
  refine h'.invariant (I := fun s' => s'.ackCalls[k]? = some call ∨
    call.deleted = false ∧ s'.ackCalls[k]? = some call.del) (.inl hk) fun s₁ e s₂ hr hi _ hs => ?_
  have hidle : ∀ call₁ : ConsumeAckCallData, s₁.ackCalls[k]? = some call₁ →
      call₁.finished = call.finished → ackCall s₁.grpc ≠ some k := by
    intro call₁ hk₁ hf₁
    cases ((ackInv (h.trans hr)).life k call₁ hk₁).answer with
    | handled _ hnone => exact absurd (hf₁.symm.trans hnone) hf
    | answered _ _ hg => exact hg
  rcases hi with hk₁ | ⟨hd, hk₁⟩
  · exact (step_cases hs).ack_frozen hk₁ (hidle _ hk₁ rfl)
  · rcases (step_cases hs).ack_frozen hk₁ (hidle _ hk₁ rfl) with hk₂ | ⟨hd', -⟩
    · exact .inr ⟨hd, hk₂⟩
    · exact absurd hd' (by simp [ConsumeAckCallData.del])

/-- A message is acked twice; the second ack comes when its batch has gone. -/
theorem acks_answered_once_twice : ∃ s, run (deliveredOnce ++ [.consumeAck "t" "g" "m" 0 0,
      .grpc 0 true, .grpc 0 true, .grpc 0 true, .grpc 0 true, .callbackReturn 0 1,
      .consumeAck "t" "g" "m" 0 0, .grpc 0 true, .grpc 0 true]) = some s ∧
    s.ackCalls.map ConsumeAckCallData.finished = [[ackReply "m" true], [ackReply "m" false]] ∧
    ∀ call, s.ackCalls[1]? = some call → AckAnswer s 1 call := by
  have hrun : (run (deliveredOnce ++ [.consumeAck "t" "g" "m" 0 0,
      .grpc 0 true, .grpc 0 true, .grpc 0 true, .grpc 0 true, .callbackReturn 0 1,
      .consumeAck "t" "g" "m" 0 0, .grpc 0 true, .grpc 0 true])).map
        (fun s => s.ackCalls.map ConsumeAckCallData.finished) =
      some [[ackReply "m" true], [ackReply "m" false]] := by
    decide
  obtain ⟨s, hs, hf⟩ := Option.map_eq_some_iff.mp hrun
  exact ⟨s, hs, hf, fun call hk => (acks_answered_once (reachable_run hs) hk).1⟩

end Proxy
end RocketmqProxy
