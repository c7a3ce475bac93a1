import RocketmqProxy.Lib.Record
import RocketmqProxy.Lib.RoundRobin
import RocketmqProxy.Proxy.Requests

/-!
# Each waiting request has its turn

The matcher takes a unit from the front of the pool and puts it back at the end, so no
request waits for another one twice, however many batches, acks and new requests come.
-/

namespace RocketmqProxy
namespace Proxy

open RoundRobin

/-- The unit that a step of the matcher takes from the pool. -/
def takes (s : Proxy) : Event → List UnitRef
  | .matcher _ _ _ =>
    match s.matcher with
    | .pop => s.consumeMsgPool.take 1
    | .getConsumer _ _ => []
  | _ => []

/-- A run from `s`, and the units that the matcher has taken in it, in order. -/
abbrev Matched (s : Proxy) (turns : List UnitRef) (s' : Proxy) : Prop :=
  Runs.Reach (Record.step takes step) (s, []) Runs.always (s', turns)

/-- The pool as a queue, and the matcher as its server. -/
def line (s : Proxy) : Line UnitRef where
  queue := s.consumeMsgPool
  hand :=
    match s.matcher with
    | .pop => none
    | .getConsumer u _ => some u

theorem line_distinct {s : Proxy} (h : Reachable s) : s.line.Distinct := by
  have hnodup := (requestsInv h).requests.nodup
  rw [queue] at hnodup
  rw [Line.Distinct, line]
  cases hm : s.matcher with
  | pop | getConsumer u get =>
    rw [hm] at hnodup
    exact hnodup

variable {s s' : Proxy} {e : Event}

/-- The matcher comes back with its hands empty. -/
theorem line_held {u : UnitRef} {get : GetConsumer} (hm : s.matcher = .getConsumer u get) :
    s.line = ⟨s.consumeMsgPool, some u⟩ := by
  rw [line, hm]

theorem takes_held {u : UnitRef} {get : GetConsumer} {now now' : Int} {started : Bool}
    (hm : s.matcher = .getConsumer u get) : s.takes (.matcher now now' started) = [] := by
  rw [takes, hm]

/-- The pool moves as the queue of a round robin does. -/
theorem Step.roundRobin {start : Line UnitRef} {turns : List UnitRef} (h : Step s e s')
    (hi : RequestsInv s) (hr : Run start turns s.line)
    (hbound : ∀ u ∈ turns, u < s.consumeMsgUnits.length) :
    Run start (turns ++ s.takes e) s'.line := by
  have hsame : Run start (turns ++ []) s.line := by rwa [List.append_nil]
  cases h with
  | @consume topic group now hg =>
    -- the unit is new
    have hfresh : s.consumeMsgUnits.length ∉ s.queue :=
      fun hmem => Nat.lt_irrefl _ (hi.requests.bound _ hmem)
    rw [queue, List.mem_append, not_or] at hfresh
    have hturns : s.consumeMsgUnits.length ∉ turns ++ [] := by
      rw [List.append_nil]
      exact fun hmem => Nat.lt_irrefl _ (hbound _ hmem)
    refine Run.arrive hsame hfresh.2 (fun hhand => hfresh.1 ?_) hturns
    cases hm : s.matcher with
    | pop =>
      rw [consumeProcess, hm] at hhand
      cases hhand
    | getConsumer u get =>
      rw [consumeProcess, hm] at hhand
      cases hhand
      exact List.mem_singleton_self _
  | @pop u rest now now' started hm hp =>
    have hline : s.line = ⟨u :: rest, none⟩ := by rw [line, hm, hp]
    have htakes : s.takes (.matcher now now' started) = [u] := by rw [takes, hm, hp]; rfl
    rw [hline] at hr
    rw [htakes]
    exact hr.take
  | matcherGet hm hu hget =>
    rw [takes_held hm]
    rwa [line_held hm] at hsame
  | deliver hm | requeue hm =>
    rw [takes_held hm]
    rw [line_held hm] at hsame
    exact hsame.back
  | fetchTimeout hm | ackTimeout hm | drop hm =>
    rw [takes_held hm]
    rw [line_held hm] at hsame
    exact hsame.leave
  | _ => exact hsame

/-- What the matcher takes is a unit of a call. -/
theorem RequestsInv.takes (h : RequestsInv s) {u : UnitRef} (hu : u ∈ s.takes e) :
    u < s.consumeMsgUnits.length := by
  refine h.requests.bound u ?_
  cases e with
  | matcher now now' started =>
    cases hm : s.matcher with
    | pop =>
      rw [Proxy.takes, hm] at hu
      exact List.mem_append_right _ (List.mem_of_mem_take hu)
    | getConsumer v get =>
      rw [takes_held hm] at hu
      exact absurd hu List.not_mem_nil
  | _ => exact absurd hu List.not_mem_nil

/-- The units stay where they are. -/
theorem Step.units_le (h : Step s e s') :
    s.consumeMsgUnits.length ≤ s'.consumeMsgUnits.length := by
  cases h with
  | consume => simp [consumeProcess]
  | @ackStore k call unit => cases unit <;> simp [Proxy.ackStore]
  | @deliver u unit =>
    show _ ≤ (s.consumeMsgUnits.set u _).length
    rw [List.length_set]
  | _ => exact Nat.le_refl _

theorem Matched.run {turns : List UnitRef} (hs : Reachable s) (h : Matched s turns s') :
    Run s.line turns s'.line := by
  have hinv : RequestsInv s' ∧ Run s.line turns s'.line ∧
      ∀ u ∈ turns, u < s'.consumeMsgUnits.length := by
    refine Record.invariant (I := fun s' turns => RequestsInv s' ∧ Run s.line turns s'.line ∧
      ∀ u ∈ turns, u < s'.consumeMsgUnits.length)
      ⟨requestsInv hs, .nil, by simp⟩ (fun s₁ turns e s₂ hi _ hstep => ?_) h
    obtain ⟨hreq, hrun, hbound⟩ := hi
    have hst := step_cases hstep
    refine ⟨hst.requestsInv hreq, hst.roundRobin hreq hrun hbound, fun u hu => ?_⟩
    refine Nat.lt_of_lt_of_le ?_ hst.units_le
    rcases List.mem_append.mp hu with hu | hu
    · exact hbound u hu
    · exact hreq.takes hu
  exact hinv.2.1

/-- Whatever else happens, the matcher takes the units of the pool in their order, and
between two turns of a unit no other unit has two. -/
theorem turns_in_order (hs : Reachable s) {turns : List UnitRef} (h : Matched s turns s') :
    (∀ u front behind, s.consumeMsgPool = front ++ u :: behind → front.length < turns.length →
      ∃ later, turns = front ++ u :: later) ∧
    ∀ u t₁ t₂ t₃, turns = t₁ ++ u :: t₂ ++ u :: t₃ → u ∉ t₂ → t₂.Nodup := by
  have hrun := h.run hs
  refine ⟨fun u front behind hq hlen => hrun.first_turn hq hlen, fun u t₁ t₂ t₃ ht hu => ?_⟩
  exact hrun.alternate (line_distinct hs) ht hu

/-- Two requests wait and no batch comes; a third one comes behind them. -/
theorem turns_in_order_waiting : ∃ s s', run [.consume "t" "g" 0, .consume "t" "g" 0] = some s ∧
    Matched s [0, 1, 0] s' ∧ [1].Nodup := by
  have hrun : (run [.consume "t" "g" 0, .consume "t" "g" 0]).isSome := by decide
  obtain ⟨s, hs⟩ := Option.isSome_iff_exists.mp hrun
  have hturns : ((run [.consume "t" "g" 0, .consume "t" "g" 0]).bind fun s =>
      Runs.exec (Record.step takes step) (s, []) [.matcher 0 0 true, .matcher 0 0 true,
        .matcher 0 0 true, .matcher 0 0 true, .matcher 0 0 true, .matcher 0 0 true,
        .consume "t" "g" 0, .matcher 0 0 true, .matcher 0 0 true,
        .matcher 0 0 true]).map Prod.snd = some [0, 1, 0] := by
    decide
  rw [hs, Option.bind_some] at hturns
  obtain ⟨⟨s', turns⟩, hs', rfl⟩ := Option.map_eq_some_iff.mp hturns
  have hmatched : Matched s [0, 1, 0] s' := .of_exec .init hs'
  exact ⟨s, s', hs, hmatched,
    (turns_in_order (reachable_run hs) hmatched).2 0 [] [1] [] rfl (by decide)⟩

end Proxy
end RocketmqProxy
