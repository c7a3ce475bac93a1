import RocketmqProxy.Lib.RoundRobin
import RocketmqProxy.Lib.Runs
import RocketmqProxy.Request

/-!
# The sleep of the matcher

`loopMatch` with the statements that put it to sleep, the `notify_all` of
`ConsumeCallData::process` and that of `notifyTimeout`.  A call of the pool is one step, and so
is the rest of the inner loop's body, which puts its unit back or lets it go.
-/

namespace RocketmqProxy

inductive LoopPc
  /-- `consumeMsgPool.try_pop(unit)`. -/
  | tryPop
  | body (unit : UnitRef)
  /-- `lk(notifyMtx)`. -/
  | lock
  /-- `notifyCV.wait(lk)`. -/
  | wait
  | asleep
  /-- Awake, and about to lock `notifyMtx` again. -/
  | woken
  /-- The end of the scope of `lk`. -/
  | unlock
deriving DecidableEq, Repr

structure MatcherLoop where
  consumeMsgPool : List UnitRef
  /-- How many units have been made. -/
  units : Nat
  notifyMtx : Bool
  pc : LoopPc
  /-- `process` has pushed its unit and is about to notify. -/
  notifying : Bool
deriving DecidableEq, Repr

inductive LoopEvent
  /-- `process` pushes a new unit. -/
  | push
  /-- The `notify_all` of `process`. -/
  | notify
  /-- The `notify_all` of `notifyTimeout`, at the end of a sleep of 100 ms. -/
  | timeout
  /-- The matcher goes on; the body puts its unit back if `back` holds. -/
  | turn (back : Bool)
  /-- The matcher wakes up without having been notified. -/
  | wake
deriving DecidableEq, Repr

namespace MatcherLoop

def init : MatcherLoop where
  consumeMsgPool := []
  units := 0
  notifyMtx := false
  pc := .tryPop
  notifying := false

/-- `notifyCV.notify_all()`. -/
def notifyAll (s : MatcherLoop) : MatcherLoop :=
  { s with pc := if s.pc = .asleep then .woken else s.pc }

def turn (s : MatcherLoop) (back : Bool) : Option MatcherLoop :=
  match s.pc with
  | .tryPop =>
    match s.consumeMsgPool with
    | [] => some { s with pc := .lock }
    | u :: rest => some { s with consumeMsgPool := rest, pc := .body u }
  | .body u =>
    some { s with
      consumeMsgPool := if back then s.consumeMsgPool ++ [u] else s.consumeMsgPool
      pc := .tryPop }
  | .lock => if s.notifyMtx then none else some { s with notifyMtx := true, pc := .wait }
  | .wait => some { s with notifyMtx := false, pc := .asleep }
  | .asleep => none
  | .woken => if s.notifyMtx then none else some { s with notifyMtx := true, pc := .unlock }
  | .unlock => some { s with notifyMtx := false, pc := .tryPop }

def step (s : MatcherLoop) : LoopEvent → Option MatcherLoop
  | .push =>
    if s.notifying then none
    else some { s with
      consumeMsgPool := s.consumeMsgPool ++ [s.units]
      units := s.units + 1
      notifying := true }
  | .notify => if s.notifying then some { s.notifyAll with notifying := false } else none
  | .timeout => some s.notifyAll
  | .turn back => s.turn back
  | .wake => if s.pc = .asleep then some s.notifyAll else none

abbrev Reachable : MatcherLoop → Prop := Runs.Reach step init Runs.always

/-! ## Steps -/

inductive Step (s : MatcherLoop) : LoopEvent → MatcherLoop → Prop
  | push (hn : s.notifying = false) :
      Step s .push { s with
        consumeMsgPool := s.consumeMsgPool ++ [s.units]
        units := s.units + 1
        notifying := true }
  | notify (hn : s.notifying = true) : Step s .notify { s.notifyAll with notifying := false }
  | timeout : Step s .timeout s.notifyAll
  | wake (ha : s.pc = .asleep) : Step s .wake s.notifyAll
  | take {u : UnitRef} {rest : List UnitRef} (back : Bool) (hpc : s.pc = .tryPop)
      (hp : s.consumeMsgPool = u :: rest) :
      Step s (.turn back) { s with consumeMsgPool := rest, pc := .body u }
  | empty (back : Bool) (hpc : s.pc = .tryPop) (hp : s.consumeMsgPool = []) :
      Step s (.turn back) { s with pc := .lock }
  | back {u : UnitRef} (hpc : s.pc = .body u) :
      Step s (.turn true) { s with consumeMsgPool := s.consumeMsgPool ++ [u], pc := .tryPop }
  | leave {u : UnitRef} (hpc : s.pc = .body u) : Step s (.turn false) { s with pc := .tryPop }
  | lock (back : Bool) (hpc : s.pc = .lock) :
      Step s (.turn back) { s with notifyMtx := true, pc := .wait }
  | wait (back : Bool) (hpc : s.pc = .wait) :
      Step s (.turn back) { s with notifyMtx := false, pc := .asleep }
  | relock (back : Bool) (hpc : s.pc = .woken) :
      Step s (.turn back) { s with notifyMtx := true, pc := .unlock }
  | unlock (back : Bool) (hpc : s.pc = .unlock) :
      Step s (.turn back) { s with notifyMtx := false, pc := .tryPop }

variable {s s' : MatcherLoop} {e : LoopEvent}

theorem turn_cases {back : Bool} (h : s.turn back = some s') : Step s (.turn back) s' := by
  unfold turn at h
  split at h
  · next hpc =>
    split at h
    · next hp =>
      obtain rfl := Option.some.inj h
      exact .empty back hpc hp
    · next hp =>
      obtain rfl := Option.some.inj h
      exact .take back hpc hp
  · next hpc =>
    obtain rfl := Option.some.inj h
    cases back with
    | true => exact .back hpc
    | false => exact .leave hpc
  · next hpc =>
    obtain ⟨-, h⟩ := Option.ite_none_left_eq_some.mp h
    obtain rfl := Option.some.inj h
    exact .lock back hpc
  · next hpc =>
    obtain rfl := Option.some.inj h
    exact .wait back hpc
  · cases h
  · next hpc =>
    obtain ⟨-, h⟩ := Option.ite_none_left_eq_some.mp h
    obtain rfl := Option.some.inj h
    exact .relock back hpc
  · next hpc =>
    obtain rfl := Option.some.inj h
    exact .unlock back hpc

theorem step_cases (h : s.step e = some s') : Step s e s' := by
  cases e with
  | push =>
    obtain ⟨hn, h⟩ := Option.ite_none_left_eq_some.mp h
    obtain rfl := Option.some.inj h
    exact .push (Bool.eq_false_iff.mpr hn)
  | notify =>
    obtain ⟨hn, h⟩ := Option.ite_none_right_eq_some.mp h
    obtain rfl := Option.some.inj h
    exact .notify hn
  | timeout =>
    obtain rfl := Option.some.inj h
    exact .timeout
  | turn back => exact turn_cases h
  | wake =>
    obtain ⟨ha, h⟩ := Option.ite_none_right_eq_some.mp h
    obtain rfl := Option.some.inj h
    exact .wake ha

end MatcherLoop
end RocketmqProxy
