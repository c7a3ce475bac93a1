import RocketmqProxy.Server.ProduceCalls

/-!
# What is sent

A send carries the request of its call without the delay level, through the producer that
is registered under topic and group of the request written one after the other.  The log
is written from the request.
-/

namespace RocketmqProxy

def ServerEvent.produced : ServerEvent → Option ProduceRequest
  | .produce _ request _ => some request
  | _ => none

namespace Server

open Std ProduceCallData

/-- Requests of Produce calls are among `R`. -/
def RequestsFrom (R : Set ProduceRequest) (_ : Server) (e : ServerEvent) : Prop :=
  ∀ request, e.produced = some request → request ∈ R

/-! ## What is asked for -/

def producerGroup (s : Server) (p : ProducerRef) : Option String :=
  s.producerUnits[p]?.map ProducerUnit.groupName

/-- What is sent is what the request asks for. -/
structure Asked (s : Server) (request : ProduceRequest) (send : Send) : Prop where
  topic : send.msg.topic = request.topic
  tags : send.msg.tags = request.tag
  body : send.msg.body = request.body
  delayTimeLevel : send.msg.delayTimeLevel = request.delayLevel
  group : ∀ p, send.producer = some p → s.producerGroup p = some request.group

/-- The entry of the log is about what has been sent. -/
structure Records (s : Server) (unit : LogUnit) (send : Send) : Prop where
  topic : unit.topic = send.msg.topic
  body : unit.body = send.msg.body
  delayLevel : unit.delayLevel = send.msg.delayTimeLevel
  group : ∀ p, send.producer = some p → s.producerGroup p = some unit.group

/-- Request, message and log agree, at every send. -/
structure SentAsAsked (s : Server) : Prop where
  sends : ∀ call ∈ s.produceCalls, ∀ send ∈ call.sends, s.Asked call.request send
  log : ∀ unit ∈ s.produceLog, ∃ call ∈ s.produceCalls, unit ∈ call.logged ∧
    ∃ send, call.sends.getLast? = some send ∧ s.Records unit send

/-! ## The registry of producers -/

/-- The producer at `p` was created for a request of `R` that makes up this key. -/
def CreatedFor (R : Set ProduceRequest) (units : List ProducerUnit) (key : String)
    (p : ProducerRef) : Prop :=
  ∃ request ∈ R, request.Complete ∧ request.topic ++ request.group = key ∧
    units[p]? = some { topic := request.topic, groupName := request.group }

/-- The message of the request goes through a producer of its key. -/
structure SentFor (R : Set ProduceRequest) (units : List ProducerUnit)
    (request : ProduceRequest) (send : Send) : Prop where
  complete : request.Complete
  msg : send.msg = request.msg
  producer : ∀ p, send.producer = some p →
    CreatedFor R units (request.topic ++ request.group) p

/-- What the code keeps to, whatever the requests. -/
structure Produces (R : Set ProduceRequest) (s : Server) : Prop where
  producers : ∀ key p, s.producers[key]? = some p → CreatedFor R s.producerUnits key p
  requests : ∀ call ∈ s.produceCalls, call.request ∈ R
  sends : ∀ call ∈ s.produceCalls, ∀ send ∈ call.sends,
    SentFor R s.producerUnits call.request send

section Produces

variable {R : Set ProduceRequest} {s s' : Server} {k : CallRef} {call : ProduceCallData}
  {request : ProduceRequest} {send : Send} {e : ServerEvent} {started : Bool} {key : String}
  {p : ProducerRef} {units : List ProducerUnit}

/-- A producer stays what it is. -/
theorem CreatedFor.append (h : CreatedFor R units key p) (units' : List ProducerUnit) :
    CreatedFor R (units ++ units') key p := by
  obtain ⟨r, hr, hc, hkey, hp⟩ := h
  exact ⟨r, hr, hc, hkey, Heap.append_old hp units'⟩

theorem SentFor.append (h : SentFor R units request send) (units' : List ProducerUnit) :
    SentFor R (units ++ units') request send :=
  ⟨h.complete, h.msg, fun p hp => (h.producer p hp).append units'⟩

/-- `getProducer` returns a producer of the key. -/
theorem Produces.getProducer (h : Produces R s) (hr : request ∈ R) (hc : request.Complete) :
    Produces R (s.getProducer request.topic request.group started).1 ∧
    (∃ units, (s.getProducer request.topic request.group started).1.producerUnits =
      s.producerUnits ++ units) ∧
    ∀ p, (s.getProducer request.topic request.group started).2 = some p →
      CreatedFor R (s.getProducer request.topic request.group started).1.producerUnits
        (request.topic ++ request.group) p := by
  unfold Server.getProducer
  split
  · next p hp =>
    refine ⟨h, ⟨[], (List.append_nil _).symm⟩, fun p' hp' => ?_⟩
    obtain rfl := Option.some.inj hp'
    exact h.producers _ _ hp
  · next hnone =>
    cases started with
    | false => exact ⟨h, ⟨[], (List.append_nil _).symm⟩, fun p hp => by cases hp⟩
    | true =>
      have hnew : CreatedFor R (s.producerUnits ++
            [{ topic := request.topic, groupName := request.group }])
          (request.topic ++ request.group) s.producerUnits.length :=
        ⟨request, hr, hc, rfl, List.getElem?_concat_length⟩
      refine ⟨⟨fun key p hp => ?_, h.requests, fun call hmem send hs =>
        (h.sends call hmem send hs).append _⟩, ⟨_, rfl⟩, fun p hp => ?_⟩
      · rw [if_pos rfl, TreeMapLoop.getElem?_insertIfNew] at hp
        split at hp
        · next hkey =>
          subst hkey
          rw [hnone] at hp
          obtain rfl := Option.some.inj hp
          exact hnew
        · exact (h.producers key p hp).append _
      · obtain rfl := Option.some.inj hp
        exact hnew

theorem Produces.setCall (h : Produces R s) (hr : call.request ∈ R)
    (hs : ∀ send ∈ call.sends, SentFor R s.producerUnits call.request send) :
    Produces R (s.setCall k call) := by
  refine ⟨h.producers, fun c hmem => ?_, fun c hmem => ?_⟩
  · rcases List.mem_or_eq_of_mem_set hmem with hmem | rfl
    · exact h.requests c hmem
    · exact hr
  · rcases List.mem_or_eq_of_mem_set hmem with hmem | rfl
    · exact h.sends c hmem
    · exact hs

theorem Produces.process (h : Produces R s) (hr : call.request ∈ R)
    (hs : ∀ send ∈ call.sends, SentFor R s.producerUnits call.request send) :
    Produces R (s.process k call started) := by
  have hc : Produces R (s.construct .produce) := ⟨h.producers, h.requests, h.sends⟩
  unfold Server.process
  split
  · next hcomplete =>
    obtain ⟨hget, ⟨units, hunits⟩, hp⟩ :=
      @Produces.getProducer _ _ _ started hc hr hcomplete
    refine hget.setCall hr fun send hmem => ?_
    rcases List.mem_append.mp hmem with hmem | hmem
    · exact hunits.symm ▸ (hs send hmem).append units
    · obtain rfl := List.mem_singleton.mp hmem
      exact ⟨hcomplete, rfl, hp⟩
  · exact hc.setCall hr hs

theorem Step.produces (h : Step s e s') (hR : RequestsFrom R s e) (hp : Produces R s) :
    Produces R s' := by
  cases h with
  | @produce i request started =>
    have hr : request ∈ R := hR request rfl
    have hadd : Produces R ((s.takeCall i).addCall request) := by
      refine ⟨hp.producers, fun call hmem => ?_, fun call hmem => ?_⟩
      · rcases List.mem_append.mp hmem with hmem | hmem
        · exact hp.requests call hmem
        · obtain rfl := List.mem_singleton.mp hmem
          exact hr
      · rcases List.mem_append.mp hmem with hmem | hmem
        · exact hp.sends call hmem
        · obtain rfl := List.mem_singleton.mp hmem
          simp [new]
    exact hadd.process hr (by simp [new])
  | consume | consumeAck | proxy => exact ⟨hp.producers, hp.requests, hp.sends⟩
  | @produceDone k call ok _ hk =>
    have hmem := List.mem_of_getElem? hk
    exact hp.setCall (hp.requests call hmem) (hp.sends call hmem)
  | @sendEnd k call send e started hk =>
    have hmem := List.mem_of_getElem? hk
    have hr := hp.requests call hmem
    have hs := hp.sends call hmem
    cases e with
    | threw => exact hp.setCall hr hs
    | onSuccess msgId =>
      have hset : Produces R (s.setCall k ((call.endSend (.onSuccess msgId)).succeed msgId)) :=
        hp.setCall hr hs
      exact ⟨hset.producers, hset.requests, hset.sends⟩
    | onException what =>
      rw [Server.sendEnd, failure]
      split
      · exact hp.setCall hr hs
      · exact hp.process hr hs

theorem produces (h : ReachableBy (RequestsFrom R) s) : Produces R s :=
  h.invariant (I := Produces R) ⟨by simp [init], by simp [init], by simp [init]⟩
    fun _ _ _ _ hp hR hs => (step_cases hs).produces hR hp

end Produces

/-! ## Requests that are sent as asked -/

/-- The delay level of a request that is sent is the default one. -/
def NoDelay (R : Set ProduceRequest) : Prop :=
  ∀ request ∈ R, request.Complete → request.delayLevel = 0

/-- No key stands for two groups. -/
def GroupsDiffer (R : Set ProduceRequest) : Prop :=
  ∀ request ∈ R, ∀ request' ∈ R, request.Complete → request'.Complete →
    request.topic ++ request.group = request'.topic ++ request'.group →
      request.group = request'.group

section Sent

variable {R : Set ProduceRequest} {s : Server}

theorem SentFor.asked {request : ProduceRequest} {send : Send} (hd : NoDelay R)
    (hg : GroupsDiffer R) (hr : request ∈ R) (h : SentFor R s.producerUnits request send) :
    s.Asked request send := by
  refine ⟨by rw [h.msg]; rfl, by rw [h.msg]; rfl, by rw [h.msg]; rfl, ?_, fun p hp => ?_⟩
  · rw [h.msg, hd request hr h.complete]
    rfl
  · obtain ⟨r, hr', hc, hkey, hunit⟩ := h.producer p hp
    rw [producerGroup, hunit, Option.map_some, hg r hr' request hr hc h.complete hkey]

/-- A call that has an entry in the log has made a send. -/
theorem exists_last_send {call : ProduceCallData} (hk : call.Kept) {unit : LogUnit}
    (hu : unit ∈ call.logged) : ∃ send msgId, call.sends.getLast? = some send ∧
      unit = call.logUnit msgId := by
  unfold logged at hu
  split at hu
  · next msgId hlast =>
    have hends : call.ends ≠ [] := fun hnil => by simp [hnil] at hlast
    have hc : call.request.Complete := by
      by_contra hc
      exact hends (hk.silent hc).2
    have hlen : 0 < call.sends.length := by
      rw [(hk.tracks hc).sends]
      exact Nat.add_pos_left (List.length_pos_iff.mpr hends) _
    exact ⟨_, msgId, List.getLast?_eq_some_getLast (List.length_pos_iff.mp hlen),
      List.mem_singleton.mp hu⟩
  · cases hu

theorem Asked.records {call : ProduceCallData} {send : Send} (h : s.Asked call.request send)
    (msgId : String) : s.Records (call.logUnit msgId) send :=
  ⟨h.topic.symm, h.body.symm, h.delayTimeLevel.symm, h.group⟩

theorem sentAsAsked (hd : NoDelay R) (hg : GroupsDiffer R)
    (h : ReachableBy (RequestsFrom R) s) : SentAsAsked s := by
  have hp := produces h
  have hi := produceInv (h.mono fun _ _ _ => trivial)
  have hasked (call : ProduceCallData) (hmem : call ∈ s.produceCalls) (send : Send)
      (hs : send ∈ call.sends) : s.Asked call.request send :=
    (hp.sends call hmem send hs).asked hd hg (hp.requests call hmem)
  refine ⟨hasked, fun unit hu => ?_⟩
  obtain ⟨call, hmem, hu⟩ := List.mem_flatMap.mp (hi.log.mem_iff.mp hu)
  obtain ⟨send, msgId, hlast, rfl⟩ := exists_last_send (hi.kept call hmem) hu
  exact ⟨call, hmem, hu, send, hlast,
    (hasked call hmem send (List.mem_of_getLast? hlast)).records msgId⟩

end Sent

/-! ## Requests that are not -/

/-- Two requests of one key, one after the other. -/
def twoProduced (request request' : ProduceRequest) : List ServerEvent :=
  [.produce 0 request true, .produce 2 request' true]

theorem run_twoProduced {request request' : ProduceRequest} (hc : request.Complete)
    (hc' : request'.Complete)
    (hkey : request.topic ++ request.group = request'.topic ++ request'.group) :
    ∃ s, Runs.exec step init (twoProduced request request') = some s ∧
      s.produceCalls = [(ProduceCallData.new request).send { producer := some 0, msg := request.msg },
        (ProduceCallData.new request').send { producer := some 0, msg := request'.msg }] ∧
      s.producerGroup 0 = some request.group := by
  simp [twoProduced, Runs.exec, step, Listens, init, Proxy.init, takeCall, addCall, process,
    construct, produce, getProducer, setCall, ProduceCallData.new, hc, hc', hkey, producerGroup,
    TreeMap.getElem_insertIfNew]

/-- What is sent is what was asked for, in all runs with requests of `R`, exactly if those
requests have the default delay level and no key stands for two of their groups. -/
theorem sentAsAsked_iff (R : Set ProduceRequest) :
    (∀ s, ReachableBy (RequestsFrom R) s → SentAsAsked s) ↔ NoDelay R ∧ GroupsDiffer R := by
  refine ⟨fun hall => ?_, fun ⟨hd, hg⟩ s h => sentAsAsked hd hg h⟩
  have hsent (request : ProduceRequest) (hr : request ∈ R) (request' : ProduceRequest)
      (hr' : request' ∈ R) (hc : request.Complete) (hc' : request'.Complete)
      (hkey : request.topic ++ request.group = request'.topic ++ request'.group) :
      request'.delayLevel = 0 ∧ request.group = request'.group := by
    obtain ⟨s, hrun, hcalls, hgroup⟩ := run_twoProduced hc hc' hkey
    have hR : ∀ e ∈ twoProduced request request', ∀ s, RequestsFrom R s e := by
      simp only [twoProduced, List.mem_cons, List.not_mem_nil, or_false]
      rintro e (rfl | rfl) s r hprod
      · exact Option.some.inj hprod ▸ hr
      · exact Option.some.inj hprod ▸ hr'
    have hsends := (hall s (.of_exec_of_forall hR .init hrun)).sends
    have hasked : s.Asked request' { producer := some 0, msg := request'.msg } :=
      hsends ((ProduceCallData.new request').send { producer := some 0, msg := request'.msg })
        (by simp [hcalls]) _ (by simp [ProduceCallData.send])
    exact ⟨hasked.delayTimeLevel.symm, Option.some.inj (hgroup.symm.trans (hasked.group 0 rfl))⟩
  exact ⟨fun r hr hc => (hsent r hr r hr hc hc rfl).1,
    fun r hr r' hr' hc hc' hkey => (hsent r hr r' hr' hc hc' hkey).2⟩

/-- A message of group "c" goes through the producer of group "bc", without its delay. -/
theorem not_sent_as_asked : ∃ s, Runs.exec step init (twoProduced ⟨"a", "bc", "t", "b", 0⟩
      ⟨"ab", "c", "t", "b", 3⟩) = some s ∧
    (s.produceCalls.map fun call => call.sends.map fun send =>
      (send.producer, send.msg.delayTimeLevel)) = [[(some 0, 0)], [(some 0, 0)]] ∧
    s.producerGroup 0 = some "bc" ∧ ¬ SentAsAsked s := by
  obtain ⟨s, hrun, hcalls, hgroup⟩ := @run_twoProduced ⟨"a", "bc", "t", "b", 0⟩
    ⟨"ab", "c", "t", "b", 3⟩ (by decide) (by decide) (by decide)
  refine ⟨s, hrun, by rw [hcalls]; rfl, hgroup, fun hsent => ?_⟩
  have hasked := hsent.sends _ (hcalls ▸ List.mem_cons_of_mem _ List.mem_cons_self) _
    (List.mem_cons_self)
  exact absurd (hgroup.symm.trans (hasked.group 0 rfl)) (by decide)

end Server
end RocketmqProxy
