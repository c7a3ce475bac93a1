import RocketmqProxy.Server.Step

/-!
# The sends of a Produce call

`answer` reads off the ends of the sends what the caller is to be told.  The counter and
the replies of a call object are those that `answer` asks for, as long as its request
has all its fields.
-/

namespace RocketmqProxy

open Std

/-! ## What the caller is owed -/

/-- What the caller is told after these ends of sends, if there is no send to follow. -/
def answer (ends : List SendEnd) : Option ProduceReply :=
  match ends.getLast? with
  | none => none
  | some (.onSuccess msgId) => some { code := responseSuccess, msgId := msgId, errMsg := "" }
  | some (.threw what) => some { code := responseError, msgId := "", errMsg := what }
  | some (.onException what) =>
    if produceMaxRetryCount < ends.length then
      some { code := responseError, msgId := "", errMsg := what }
    else none

section Answer

variable (ends : List SendEnd) (text : String)

@[simp] theorem answer_nil : answer [] = none := rfl

@[simp] theorem answer_onSuccess : answer (ends ++ [.onSuccess text]) =
    some { code := responseSuccess, msgId := text, errMsg := "" } := by
  simp [answer]

@[simp] theorem answer_threw : answer (ends ++ [.threw text]) =
    some { code := responseError, msgId := "", errMsg := text } := by
  simp [answer]

theorem answer_onException : answer (ends ++ [.onException text]) =
    if produceMaxRetryCount ≤ ends.length then
      some { code := responseError, msgId := "", errMsg := text }
    else none := by
  simp [answer]

theorem answer_eq_some {ends : List SendEnd} {r : ProduceReply} (h : answer ends = some r) :
    (∀ msgId, (r.code = responseSuccess ∧ r.msgId = msgId) ↔
      ends.getLast? = some (.onSuccess msgId)) ∧
    ((∀ msgId, ends.getLast? ≠ some (.onSuccess msgId)) →
      r.code = responseError ∧ (ends.getLast? = some (.threw r.errMsg) ∨
        ends.getLast? = some (.onException r.errMsg))) := by
  unfold answer at h
  split at h
  · cases h
  · next id hlast =>
    obtain rfl := Option.some.inj h
    exact ⟨fun msgId => by simp [hlast], fun hno => absurd hlast (hno id)⟩
  · next what hlast =>
    obtain rfl := Option.some.inj h
    exact ⟨fun msgId => by simp [hlast, responseError, responseSuccess], fun _ => ⟨rfl, .inl hlast⟩⟩
  · next what hlast =>
    obtain ⟨-, h⟩ := Option.ite_none_right_eq_some.mp h
    obtain rfl := Option.some.inj h
    exact ⟨fun msgId => by simp [hlast, responseError, responseSuccess], fun _ => ⟨rfl, .inr hlast⟩⟩

end Answer

namespace ProduceCallData

/-! ## What a step does to a call -/

/-- The call that a request starts. -/
def Starts (request : ProduceRequest) (call : ProduceCallData) : Prop :=
  (request.Complete ∧ ∃ send, call = (new request).send send) ∨
    (¬ request.Complete ∧ call = (new request).fail "params error!")

/-- What a later step does to the call, with the entries it adds to the log. -/
inductive Advance (call : ProduceCallData) : ProduceCallData → List LogUnit → Prop
  | del (hf : call.finished ≠ []) : Advance call call.del []
  | threw (ho : call.Outstanding) (what : String) :
      Advance call ((call.endSend (.threw what)).fail what) []
  | onSuccess (ho : call.Outstanding) (msgId : String) :
      Advance call ((call.endSend (.onSuccess msgId)).succeed msgId) [call.logUnit msgId]
  | resend (ho : call.Outstanding) (what : String) (send : Send)
      (hlt : call.retryCount < produceMaxRetryCount) (hc : call.request.Complete) :
      Advance call ((call.endSend (.onException what)).retry.send send) []
  | reject (ho : call.Outstanding) (what : String) (hc : ¬ call.request.Complete) :
      Advance call ((call.endSend (.onException what)).retry.fail "params error!") []
  | giveUp (ho : call.Outstanding) (what : String)
      (hge : produceMaxRetryCount ≤ call.retryCount) :
      Advance call ((call.endSend (.onException what)).retry.fail what) []

/-! ## The invariant -/

/-- The call of a complete request is where the ends of its sends say. -/
structure Tracks (call : ProduceCallData) : Prop where
  finished : call.finished = (answer call.ends).toList
  sends : call.sends.length = call.ends.length + if (answer call.ends).isNone then 1 else 0
  retried : ∀ e ∈ call.ends.dropLast, ∃ what, e = .onException what
  bound : call.ends.length ≤ 1 + produceMaxRetryCount
  pending : answer call.ends = none → call.retryCount = call.ends.length ∧
    call.reply = { code := 0, msgId := "", errMsg := "" }

/-- Nothing is sent for a request that is not complete. -/
structure Kept (call : ProduceCallData) : Prop where
  tracks : call.request.Complete → call.Tracks
  silent : ¬ call.request.Complete → call.sends = [] ∧ call.ends = []

theorem Kept.complete {call : ProduceCallData} (h : call.Kept) (ho : call.Outstanding) :
    call.request.Complete := by
  by_contra hc
  obtain ⟨hs, he⟩ := h.silent hc
  simp [Outstanding, hs, he] at ho

theorem Tracks.answer_none {call : ProduceCallData} (h : call.Tracks) (ho : call.Outstanding) :
    answer call.ends = none := by
  have hs := h.sends
  cases ha : answer call.ends with
  | none => rfl
  | some r =>
    simp only [ha, Option.isNone_some, Bool.false_eq_true, if_false, Nat.add_zero] at hs
    exact absurd ho (by simp [Outstanding, hs])

/-- All sends of a pending call have failed, and it has retries left. -/
theorem Tracks.ends_of_none {call : ProduceCallData} (h : call.Tracks)
    (ha : answer call.ends = none) :
    (∀ e ∈ call.ends, ∃ what, e = .onException what) ∧
      call.ends.length ≤ produceMaxRetryCount := by
  rcases List.eq_nil_or_concat call.ends with hnil | ⟨ends, e, hends⟩
  · simp [hnil]
  · have hold := h.retried
    rw [hends, List.concat_eq_append] at ha ⊢
    rw [hends, List.concat_eq_append, List.dropLast_concat] at hold
    cases e with
    | threw | onSuccess => simp at ha
    | onException what =>
      rw [answer_onException, ite_eq_right_iff] at ha
      refine ⟨fun e he => ?_, ?_⟩
      · rcases List.mem_append.mp he with he | he
        · exact hold e he
        · exact ⟨what, List.mem_singleton.mp he⟩
      · by_contra hlen
        simp only [List.length_append, List.length_singleton, Nat.not_le,
          Nat.lt_succ_iff] at hlen
        exact absurd (ha hlen) (by simp)

theorem Starts.kept {request : ProduceRequest} {call : ProduceCallData}
    (h : Starts request call) : call.Kept := by
  rcases h with ⟨hc, send, rfl⟩ | ⟨hc, rfl⟩
  · exact ⟨fun _ => ⟨rfl, rfl, by simp [new, ProduceCallData.send], Nat.zero_le _,
      fun _ => ⟨rfl, rfl⟩⟩, fun h => absurd hc h⟩
  · exact ⟨fun h => absurd h hc, fun _ => ⟨rfl, rfl⟩⟩

/-- The last send ends, and the caller is told. -/
theorem Tracks.ended {call call' : ProduceCallData} {e : SendEnd} {r : ProduceReply}
    (h : call.Tracks) (ha : answer call.ends = none)
    (hr : answer (call.ends ++ [e]) = some r) (he : call'.ends = call.ends ++ [e])
    (hs : call'.sends = call.sends) (hf : call'.finished = call.finished ++ [r]) :
    call'.Tracks := by
  obtain ⟨hall, hlen⟩ := h.ends_of_none ha
  have hsends := h.sends
  rw [ha] at hsends
  refine ⟨?_, ?_, ?_, ?_, fun hn => ?_⟩
  · rw [hf, he, hr, h.finished, ha]
    rfl
  · rw [hs, he, hr, hsends]
    simp
  · rw [he, List.dropLast_concat]
    exact hall
  · rw [he, List.length_append, List.length_singleton]
    omega
  · rw [he, hr] at hn
    exact absurd hn (by simp)

theorem Tracks.resent {call : ProduceCallData} (h : call.Tracks) (ha : answer call.ends = none)
    (what : String) (send : Send) (hlt : call.retryCount < produceMaxRetryCount) :
    ((call.endSend (.onException what)).retry.send send).Tracks := by
  obtain ⟨hall, -⟩ := h.ends_of_none ha
  obtain ⟨hcount, hreply⟩ := h.pending ha
  have hsends := h.sends
  have hfinished := h.finished
  rw [ha] at hsends hfinished
  have hnone : answer (call.ends ++ [.onException what]) = none := by
    rw [answer_onException, if_neg (by omega)]
  refine ⟨?_, ?_, ?_, ?_, fun _ => ⟨?_, hreply⟩⟩
  · exact hfinished.trans (congrArg Option.toList hnone.symm)
  · simp [ProduceCallData.send, retry, endSend, hnone, hsends]
  · intro e he
    simp only [ProduceCallData.send, retry, endSend, List.dropLast_concat] at he
    exact hall e he
  · simp only [ProduceCallData.send, retry, endSend, List.length_append, List.length_singleton]
    omega
  · simp [ProduceCallData.send, retry, endSend, hcount]

theorem Advance.request {call call' : ProduceCallData} {units : List LogUnit}
    (h : Advance call call' units) : call'.request = call.request := by
  cases h <;> rfl

theorem Advance.kept {call call' : ProduceCallData} {units : List LogUnit}
    (h : Advance call call' units) (hk : call.Kept) : call'.Kept := by
  have hsilent : ¬ call'.request.Complete → call'.sends = [] ∧ call'.ends = [] := by
    intro hc
    rw [h.request] at hc
    cases h with
    | del => exact hk.silent hc
    | threw ho | onSuccess ho | resend ho | reject ho | giveUp ho =>
      exact absurd (hk.complete ho) hc
  refine ⟨fun hc => ?_, hsilent⟩
  rw [h.request] at hc
  have htracks := hk.tracks hc
  cases h with
  | del => exact ⟨htracks.1, htracks.2, htracks.3, htracks.4, htracks.5⟩
  | threw ho what =>
    have ha := htracks.answer_none ho
    refine htracks.ended ha (answer_threw _ what) rfl rfl ?_
    simp [fail, finish, endSend, (htracks.pending ha).2]
  | onSuccess ho msgId =>
    have ha := htracks.answer_none ho
    refine htracks.ended ha (answer_onSuccess _ msgId) rfl rfl ?_
    simp [succeed, finish, endSend, (htracks.pending ha).2]
  | resend ho what send hlt => exact htracks.resent (htracks.answer_none ho) what send hlt
  | reject _ _ hn => exact absurd hc hn
  | giveUp ho what hge =>
    have ha := htracks.answer_none ho
    obtain ⟨hcount, hreply⟩ := htracks.pending ha
    refine htracks.ended ha ((answer_onException _ what).trans (if_pos (hcount ▸ hge))) rfl rfl ?_
    simp [fail, finish, endSend, retry, hreply]

theorem Kept.not_outstanding {call : ProduceCallData} (h : call.Kept)
    (hf : call.finished ≠ []) : ¬ call.Outstanding := by
  intro ho
  have htracks := h.tracks (h.complete ho)
  rw [htracks.finished, htracks.answer_none ho] at hf
  exact hf rfl

/-- A call that has been answered sends no more, and is not answered again. -/
theorem Advance.of_finished {call call' : ProduceCallData} {units : List LogUnit}
    (h : Advance call call' units) (hk : call.Kept) (hf : call.finished ≠ []) :
    call'.sends = call.sends ∧ call'.finished = call.finished := by
  have hno := hk.not_outstanding hf
  cases h with
  | del => exact ⟨rfl, rfl⟩
  | threw ho | onSuccess ho | resend ho | reject ho | giveUp ho => exact absurd ho hno

/-! ## Answers -/

/-- The call has been answered at most once, and if no send of it is outstanding it has
been, in accordance with how its last send has ended. -/
structure AnswersOnce (call : ProduceCallData) : Prop where
  once : call.finished.length ≤ 1
  answered : ¬ call.Outstanding → call.finished.length = 1
  sends_le : call.sends.length ≤ 1 + produceMaxRetryCount
  /-- The sends are made one after the other. -/
  one_at_a_time : call.sends.length ≤ call.ends.length + 1
  last : call.finished ≠ [] → call.ends.length = call.sends.length
  no_send_after : ∀ i msgId, call.ends[i]? = some (.onSuccess msgId) →
    call.sends.length = i + 1
  success_iff : ∀ r ∈ call.finished, ∀ msgId,
    (r.code = responseSuccess ∧ r.msgId = msgId) ↔ call.ends.getLast? = some (.onSuccess msgId)
  error : ∀ r ∈ call.finished, (∀ msgId, call.ends.getLast? ≠ some (.onSuccess msgId)) →
    r.code = responseError ∧ (call.ends.getLast? = some (.threw r.errMsg) ∨
      call.ends.getLast? = some (.onException r.errMsg))

theorem Tracks.answersOnce {call : ProduceCallData} (h : call.Tracks) : call.AnswersOnce := by
  have hsends := h.sends
  have hfin := h.finished
  have hbound := h.bound
  cases ha : answer call.ends with
  | none =>
    obtain ⟨hall, hlen⟩ := h.ends_of_none ha
    rw [ha] at hsends hfin
    have hout : call.Outstanding := by
      rw [Outstanding, hsends]
      exact Nat.lt_succ_self _
    refine ⟨?_, fun hno => absurd hout hno, ?_, hsends.le, fun hf => absurd hfin hf, ?_, ?_, ?_⟩
    · simp [hfin]
    · simp only [Option.isNone_none, if_true] at hsends
      omega
    · intro i msgId hi
      obtain ⟨what, he⟩ := hall _ (List.mem_of_getElem? hi)
      cases he
    · simp [hfin]
    · simp [hfin]
  | some r =>
    obtain ⟨hsuccess, herror⟩ := answer_eq_some ha
    rw [ha] at hsends hfin
    replace hfin : call.finished = [r] := hfin
    replace hsends : call.sends.length = call.ends.length := hsends
    refine ⟨?_, ?_, ?_, ?_, fun _ => hsends.symm, ?_, ?_, ?_⟩
    · simp [hfin]
    · simp [hfin]
    · exact hsends ▸ hbound
    · omega
    · intro i msgId hi
      have hlt := (List.getElem?_eq_some_iff.mp hi).1
      by_contra hne
      have hmem : SendEnd.onSuccess msgId ∈ call.ends.dropLast := by
        refine List.mem_of_getElem? (i := i) ?_
        rw [List.getElem?_dropLast, if_pos (by omega), hi]
      obtain ⟨what, he⟩ := h.retried _ hmem
      cases he
    · simpa [hfin] using hsuccess
    · simpa [hfin] using herror

/-! ## The log -/

/-- The entry of the log for a call: one when its last send has succeeded. -/
def logged (call : ProduceCallData) : List LogUnit :=
  match call.ends.getLast? with
  | some (.onSuccess msgId) => [call.logUnit msgId]
  | _ => []

theorem logged_of_none {call : ProduceCallData} (ha : answer call.ends = none) :
    call.logged = [] := by
  unfold logged
  split
  · next h => simp [answer, h] at ha
  · rfl

theorem Starts.logged {request : ProduceRequest} {call : ProduceCallData}
    (h : Starts request call) : call.logged = [] := by
  rcases h with ⟨-, send, rfl⟩ | ⟨-, rfl⟩ <;> rfl

theorem Advance.logged {call call' : ProduceCallData} {units : List LogUnit}
    (h : Advance call call' units) (hk : call.Kept) :
    call'.logged = call.logged ++ units := by
  have hnone : call.Outstanding → call.logged = [] := fun ho =>
    logged_of_none ((hk.tracks (hk.complete ho)).answer_none ho)
  cases h with
  | del => exact (List.append_nil _).symm
  | threw ho | onSuccess ho | resend ho | reject ho | giveUp ho =>
    rw [hnone ho]
    simp [ProduceCallData.logged, fail, succeed, finish, endSend, retry, ProduceCallData.send,
      logUnit]

end ProduceCallData

end RocketmqProxy
