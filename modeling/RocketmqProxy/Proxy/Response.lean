import RocketmqProxy.Proxy.Answers
import RocketmqProxy.Proxy.Fairness

/-!
# A request does not wait for ever

Once the matcher's clock has passed the deadline of a request, the next turn of its unit
answers it, with a message or with the time-out.
-/

namespace RocketmqProxy
namespace Proxy

/-- If the matcher reads its clock, then when a request of the time `arrival` is overdue. -/
def Overdue (arrival : Int) : Event → Prop
  | .matcher now _ _ => now - arrival ≥ maxMsgWaitConsumeTime
  | _ => True

/-- The call of the unit `u` has its reply, and only one. -/
def Answered (s : Proxy) (u : UnitRef) : Prop :=
  ∃ unit call, s.consumeMsgUnits[u]? = some unit ∧ s.consumeCalls[unit.callData]? = some call ∧
    call.finished.length = 1

/-- The unit `u` has yet to be taken, or is in hand for the first time, or is answered. -/
def Due (u : UnitRef) (s : Proxy) (turns : List UnitRef) : Prop :=
  u ∉ turns ∨
    (∃ before get, turns = before ++ [u] ∧ u ∉ before ∧ s.matcher = .getConsumer u get) ∨
    s.Answered u

variable {s s' : Proxy} {e : Event} {u : UnitRef} {unit : ConsumeMsgUnit}
  {turns : List UnitRef}

/-! ## What answers a request -/

theorem RequestsInv.answered_of_status (h : RequestsInv s) (hu : s.consumeMsgUnits[u]? = some unit)
    (hs : unit.status ≠ .proxyConsumeInit) : s.Answered u := by
  obtain ⟨hcall, call, hc, -, -, hl⟩ := h.requests.life u unit hu
  refine ⟨unit, call, hu, by rwa [hcall], ?_⟩
  generalize deliveries u s.trace = ds at hl
  cases hl with
  | waiting _ hs' _ => exact absurd hs' hs
  | timedOut _ hs' _ => exact absurd hs' hs
  | delivered _ _ hf => rw [hf, List.length_singleton]

theorem RequestsInv.answered_of_gone (h : RequestsInv s) (hu : s.consumeMsgUnits[u]? = some unit)
    (hq : u ∉ s.queue) : s.Answered u := by
  obtain ⟨call, hc, -, hone⟩ := (answeredOnce_of_inv h).answer u unit hu
  exact ⟨unit, call, hu, hc, hone hq⟩

theorem Answered.step (ha : s.Answered u) (h : Step s e s') (hi : RequestsInv s') :
    s'.Answered u := by
  obtain ⟨unit, call, hu, hc, hone⟩ := ha
  obtain ⟨unit', hu', hcall, -⟩ := h.unit_kept hu
  obtain ⟨call', hc', hkept⟩ := h.call_kept hc
  rw [← hcall] at hc'
  refine ⟨unit', call', hu', hc', ?_⟩
  obtain ⟨call'', hc'', hle, -⟩ := (answeredOnce_of_inv hi).answer u unit' hu'
  obtain rfl := Option.some.inj (hc'.symm.trans hc'')
  rcases hkept with hsame | ⟨id, body, rfl⟩ | rfl
  · rw [hsame, hone]
  · simp [ConsumeCallData.responseMsg, hone] at hle
  · simp [ConsumeCallData.responseTimeOut, hone] at hle

/-- Who is taken is in hand. -/
theorem Step.takes_hand (h : Step s e s') (hu : u ∈ s.takes e) :
    s.takes e = [u] ∧ s'.matcher = .getConsumer u .lookup := by
  cases h with
  | @pop v rest now now' started hm hp =>
    have htakes : s.takes (.matcher now now' started) = [v] := by rw [takes, hm, hp]; rfl
    rw [htakes, List.mem_singleton] at hu
    subst hu
    exact ⟨htakes, rfl⟩
  | matcherGet hm | deliver hm | fetchTimeout hm | requeue hm | ackTimeout hm | drop hm =>
    rw [takes_held hm] at hu
    exact absurd hu List.not_mem_nil
  | _ => exact absurd hu List.not_mem_nil

/-- The matcher keeps an overdue unit in hand until it is answered. -/
theorem Step.held (h : Step s e s') (hi : RequestsInv s) (hi' : RequestsInv s')
    {get : GetConsumer} (hm : s.matcher = .getConsumer u get)
    (hu : s.consumeMsgUnits[u]? = some unit) (he : Overdue unit.lastActiveAt e) :
    s.takes e = [] ∧ ((∃ get', s'.matcher = .getConsumer u get') ∨ s'.Answered u) := by
  have hstep := h
  cases h with
  | pop hm' => exact absurd (hm.symm.trans hm') (by simp)
  | matcherGet hm' =>
    obtain ⟨rfl, -⟩ := MatcherPc.getConsumer.inj (hm.symm.trans hm')
    exact ⟨takes_held hm, .inl ⟨_, rfl⟩⟩
  | deliver hm' hu' =>
    obtain ⟨rfl, -⟩ := MatcherPc.getConsumer.inj (hm.symm.trans hm')
    refine ⟨takes_held hm, .inr (hi'.answered_of_status (Heap.set_self hu' _) ?_)⟩
    simp
  | fetchTimeout hm' =>
    obtain ⟨rfl, -⟩ := MatcherPc.getConsumer.inj (hm.symm.trans hm')
    have hnodup := hi.requests.nodup
    rw [queue_held hm, List.nodup_cons] at hnodup
    exact ⟨takes_held hm, .inr (hi'.answered_of_gone hu hnodup.1)⟩
  | requeue hm' hu' hs =>
    obtain ⟨rfl, -⟩ := MatcherPc.getConsumer.inj (hm.symm.trans hm')
    obtain rfl := Option.some.inj (hu.symm.trans hu')
    refine ⟨takes_held hm, .inr ?_⟩
    rcases hs with ⟨hs, ht, -⟩ | ⟨hs, -⟩
    · -- the fetch timer has run out
      rw [ConsumeMsgUnit.getIsFetchMsgTimeout, decide_eq_true hs, Bool.true_and,
        decide_eq_false_iff_not] at ht
      exact absurd he ht
    · exact (hi.answered_of_status hu (by simp [hs])).step hstep hi'
  | ackTimeout hm' hu' _ hs | drop hm' hu' hs =>
    obtain ⟨rfl, -⟩ := MatcherPc.getConsumer.inj (hm.symm.trans hm')
    obtain rfl := Option.some.inj (hu.symm.trans hu')
    exact ⟨takes_held hm, .inr ((hi.answered_of_status hu (by simp [hs])).step hstep hi')⟩
  | _ => exact ⟨rfl, .inl ⟨get, hm⟩⟩

/-! ## The turn of a request -/

theorem Step.due (h : Step s e s') (hi : RequestsInv s) (hi' : RequestsInv s')
    (hu : s.consumeMsgUnits[u]? = some unit) (he : Overdue unit.lastActiveAt e)
    (hd : Due u s turns) : Due u s' (turns ++ s.takes e) := by
  rcases hd with hnew | ⟨before, get, rfl, hbefore, hm⟩ | ha
  · by_cases hmem : u ∈ s.takes e
    · obtain ⟨htakes, hm⟩ := h.takes_hand hmem
      exact .inr (.inl ⟨turns, .lookup, by rw [htakes], hnew, hm⟩)
    · exact .inl fun hu => (List.mem_append.mp hu).elim hnew hmem
  · obtain ⟨htakes, hheld⟩ := h.held hi hi' hm hu he
    rw [htakes, List.append_nil]
    exact .inr (hheld.imp (fun ⟨get', hm'⟩ => ⟨before, get', rfl, hbefore, hm'⟩) id)
  · exact .inr (.inr (ha.step h hi'))

/-- A request whose deadline has passed is answered in its first turn, which comes when those
in front of it have had theirs. -/
theorem answered_in_turn (hs : Reachable s) {front behind : List UnitRef}
    (hq : s.consumeMsgPool = front ++ u :: behind) (hu : s.consumeMsgUnits[u]? = some unit)
    (h : Runs.Reach (Record.step takes step) (s, []) (fun _ e => Overdue unit.lastActiveAt e)
      (s', turns)) (hlen : front.length < turns.length) :
    ∃ later, turns = front ++ u :: later ∧
      (later ≠ [] ∨ s'.matcher = .pop → s'.Answered u) := by
  have hrun := Matched.run hs (h.mono fun _ _ _ => trivial)
  obtain ⟨later, hturns⟩ := hrun.first_turn hq hlen
  refine ⟨later, hturns, fun hdone => ?_⟩
  have hinv : RequestsInv s' ∧ (∃ unit', s'.consumeMsgUnits[u]? = some unit' ∧
      unit'.lastActiveAt = unit.lastActiveAt) ∧ Due u s' turns := by
    refine Record.invariant (I := fun s' turns => RequestsInv s' ∧
      (∃ unit', s'.consumeMsgUnits[u]? = some unit' ∧
        unit'.lastActiveAt = unit.lastActiveAt) ∧ Due u s' turns)
      ⟨requestsInv hs, ⟨unit, hu, rfl⟩, .inl List.not_mem_nil⟩
      (fun s₁ turns e s₂ hi he hstep => ?_) h
    obtain ⟨hreq, ⟨unit₁, hu₁, harrival⟩, hdue⟩ := hi
    have hst := step_cases hstep
    have hreq' := hst.requestsInv hreq
    obtain ⟨unit₂, hu₂, -, hsame⟩ := hst.unit_kept hu₁
    rw [← harrival] at he
    exact ⟨hreq', ⟨unit₂, hu₂, hsame.trans harrival⟩, hst.due hreq hreq' hu₁ he hdue⟩
  rcases hinv.2.2 with hnew | ⟨before, get, hbefore, hfresh, hm⟩ | ha
  · exact absurd (by rw [hturns]; simp) hnew
  · -- the first turn is not over
    rw [hturns] at hbefore
    rcases History.concat_eq_append_cons hbefore.symm with ⟨later', -, rfl⟩ | ⟨rfl, -, -⟩
    · exact absurd (by simp) hfresh
    · exact absurd (hdone.resolve_left (by simp)) (by simp [hm])
  · exact ha

/-- A second request comes while the first one waits, and no message does. -/
theorem answered_in_turn_timeOut : ∃ s s',
    run [.consume "t" "g" 0, .consume "t" "g" 0] = some s ∧
    Runs.Reach (Record.step takes step) (s, []) (fun _ e => Overdue 0 e) (s', [0, 1]) ∧
    s'.Answered 1 := by
  have hrun : ((run [.consume "t" "g" 0, .consume "t" "g" 0]).map fun s =>
      (s.consumeMsgPool, s.consumeMsgUnits)) =
        some ([0, 1], [.new 0 "t" "g" 0, .new 1 "t" "g" 0]) := by
    decide
  obtain ⟨s, hs, hfacts⟩ := Option.map_eq_some_iff.mp hrun
  obtain ⟨hpool, hunits⟩ := Prod.mk.inj hfacts
  have hturns : ((run [.consume "t" "g" 0, .consume "t" "g" 0]).bind fun s =>
      Runs.exec (Record.step takes step) (s, [])
        (List.replicate 8 (.matcher 10 10 true))).map (fun r => (r.1.matcher, r.2)) =
          some (.pop, [0, 1]) := by
    decide
  rw [hs, Option.bind_some] at hturns
  obtain ⟨⟨s', turns⟩, hs', hend⟩ := Option.map_eq_some_iff.mp hturns
  obtain ⟨hm, rfl⟩ : s'.matcher = .pop ∧ turns = [0, 1] := by simpa using hend
  have hreach : Runs.Reach (Record.step takes step) (s, []) (fun _ e => Overdue 0 e)
      (s', [0, 1]) := by
    refine .of_exec_of_forall (fun e he _ => ?_) .init hs'
    rw [List.eq_of_mem_replicate he]
    show (10 : Int) - 0 ≥ maxMsgWaitConsumeTime
    decide
  have hu : s.consumeMsgUnits[1]? = some (.new 1 "t" "g" 0) := by rw [hunits]; rfl
  have hq : s.consumeMsgPool = [0] ++ 1 :: [] := hpool
  obtain ⟨later, -, hanswered⟩ := answered_in_turn (reachable_run hs) hq hu hreach (by decide)
  exact ⟨s, s', hs, hreach, hanswered (.inr hm)⟩

end Proxy
end RocketmqProxy
