import RocketmqProxy.Lib.Movers
import RocketmqProxy.Threads.Alone
import RocketmqProxy.Threads.Races

/-!
# A body that a fetch interrupts

A call deals with a batch by a body of many steps, one of which counts: the first test of
`triggerCheck` in an ack, the pop in a fetch, and the first step in a forced unlock.  A pop
between the steps of an ack changes nothing for the ack, unless that step has yet to come.
-/

namespace RocketmqProxy

open ConsumerUnitLocker

/-! ## Calls that deal with a batch at once -/

def Op.atOnce (l : ConsumerUnitLocker) : Op → Option MsgPtr × ConsumerUnitLocker
  | .setMsgAck msgId s => (none, l.ack msgId s)
  | .fetchAndConsume => l.getMsg.elim (none, l) fun r => (some r.1, r.2)
  | .unlockAll => (none, l.unlock)

/-- The batch as a sequential object. -/
def serialSpec (l : ConsumerUnitLocker) (op : Op) :
    Option (Option MsgPtr × ConsumerUnitLocker) := some (op.atOnce l)

/-- What a pop leaves. -/
def ConsumerUnitLocker.popped (l : ConsumerUnitLocker) : ConsumerUnitLocker :=
  Action.apply l .pop

theorem atOnce_fetch (l : ConsumerUnitLocker) :
    Op.fetchAndConsume.atOnce l = (l.fetchedArr.head?, l.popped) := by
  cases hq : l.fetchedArr with
  | nil =>
    have hpopped : l.popped = l := by
      rw [popped, Action.apply, hq, List.tail_nil, ← hq]
    rw [Op.atOnce, getMsg, hq, hpopped]
    rfl
  | cons msg rest =>
    rw [Op.atOnce, getMsg, hq, popped, Action.apply, hq]
    rfl

theorem getMsg_fst (l : ConsumerUnitLocker) : l.getMsg.map Prod.fst = l.fetchedArr.head? := by
  rw [getMsg]
  cases l.fetchedArr <;> rfl

theorem atOnce_fetchedArr (l : ConsumerUnitLocker) {op : Op} (hop : op ≠ .fetchAndConsume) :
    (op.atOnce l).1 = none ∧ (op.atOnce l).2.fetchedArr = l.fetchedArr := by
  cases op with
  | setMsgAck msgId s =>
    refine ⟨rfl, ?_⟩
    rw [Op.atOnce, ConsumerUnitLocker.ack, triggerCheck_fetchedArr, setMsgStatus_fetchedArr]
  | fetchAndConsume => exact absurd rfl hop
  | unlockAll => exact ⟨rfl, unlock_fetchedArr l⟩

namespace BodyPc

/-- The step with which a call has dealt with the batch, and what it gets there. -/
def effect (l : ConsumerUnitLocker) : BodyPc → Option (Option MsgPtr)
  | .check false | .unlockBegin => some none
  | .pop => some (l.getMsg.map Prod.fst)
  | _ => none

theorem effect_of_ne_pop {l : ConsumerUnitLocker} {pc : BodyPc} (h : pc ≠ .pop)
    {ret : Option MsgPtr} (hret : pc.effect l = some ret) : ret = none := by
  cases pc with
  | check forced =>
    cases forced with
    | true => cases hret
    | false => exact (Option.some.inj hret).symm
  | unlockBegin => exact (Option.some.inj hret).symm
  | pop => exact absurd rfl h
  | _ => cases hret

theorem apply_fetchedArr (l : ConsumerUnitLocker) {pc : BodyPc} (h : pc ≠ .pop) :
    (pc.action.apply l).fetchedArr = l.fetchedArr := by
  cases pc with
  | pop => exact absurd rfl h
  | _ => rfl

/-- In `setMsgAck`, before that step. -/
def Before : BodyPc → Prop
  | .find _ _ | .setStatus _ _ _ | .setClientStatus _ _ _ | .setReconsume _ _ _ | .found
  | .check false => True
  | _ => False

/-- In `setMsgAck` or `unlockAll`, after it. -/
def After : BodyPc → Prop
  | .unlockTest _ | .unlockClientStatus _ | .unlockStatus _ | .check true | .scan _ _
  | .release _ | .releaseClient | .notify | .iterNext => True
  | _ => False

variable {l : ConsumerUnitLocker} {pc : BodyPc}

theorem after_next (h : pc.After) : (pc.next l).After := by
  cases pc with
  | unlockTest p | unlockStatus p =>
    simp only [next, unlockNext]
    split <;> (try split) <;> exact trivial
  | check forced =>
    cases forced with
    | false => exact h.elim
    | true =>
      rw [next]
      split
      · exact trivial
      · split <;> exact trivial
  | scan =>
    rw [next]
    split
    · exact trivial
    · dsimp only
      split <;> exact trivial
  | unlockClientStatus | release | releaseClient | notify | iterNext => exact trivial
  | _ => exact h.elim

theorem after_check : ((BodyPc.check false).next l).After := by
  rw [next]
  split
  · exact trivial
  · split <;> exact trivial

theorem after_unlockBegin : (BodyPc.unlockBegin.next l).After := by
  rw [next]
  split <;> exact trivial

theorem before_next (h : pc.phase = .setting) : (pc.next l).Before := by
  cases pc with
  | find =>
    rw [next]
    split <;> exact trivial
  | setStatus | found => exact trivial
  | setClientStatus | setReconsume =>
    simp only [next, setNext]
    split <;> (try split) <;> exact trivial
  | _ => cases h

theorem before_back (h : (pc.next l).Before) : pc.phase = .setting := by
  cases pc with
  | find | setStatus | setClientStatus | setReconsume | found => rfl
  | unlockBegin | unlockMtx =>
    rw [next] at h
    split at h <;> exact h.elim
  | unlockTest | unlockStatus =>
    simp only [next, unlockNext] at h
    split at h <;> (try split at h) <;> exact h.elim
  | check =>
    rw [next] at h
    split at h
    · exact h.elim
    · split at h <;> exact h.elim
  | scan =>
    rw [next] at h
    split at h
    · exact h.elim
    · dsimp only at h
      split at h <;> exact h.elim
  | unlockClientStatus | release | releaseClient | notify | lockMtx | pop | iterNext | «break» =>
    exact h.elim

theorem before_of_setting (h : pc.phase = .setting) : pc.Before := by
  cases pc with
  | find | setStatus | setClientStatus | setReconsume | found => trivial
  | _ => cases h

/-- In `triggerCheck` past its first test, or done with the batch. -/
def Checked (pc : BodyPc) : Prop := pc.phase = .releasing ∨ pc = .iterNext

theorem checked_next (h : pc.Checked) : (pc.next l).Checked := by
  cases pc with
  | scan =>
    rw [next]
    split
    · exact .inr rfl
    · dsimp only
      split <;> exact .inl rfl
  | release | releaseClient => exact .inl rfl
  | notify | iterNext => exact .inr rfl
  | _ => rcases h with h | h <;> cases h

theorem After.checked {msgId : String} {s : ConsumeStatus} (h : pc.After)
    (hfits : pc.phase.Fits (.setMsgAck msgId s)) : pc.Checked := by
  cases pc with
  | unlockTest | unlockClientStatus | unlockStatus => cases hfits
  | check forced =>
    cases forced with
    | false => exact h.elim
    | true => cases hfits
  | scan | release | releaseClient | notify => exact .inl rfl
  | iterNext => exact .inr rfl
  | _ => exact h.elim

/-- A pop in between changes nothing for a step that does not look at the queue. -/
theorem commutes_popped (h : pc.phase = .setting ∨ pc.Checked) :
    Movers.Commutes bodyStep popped pc := by
  have hquiet : pc.action ≠ .pop ∧ .fetchedArr ∉ pc.reads := by
    cases pc with
    | find | setStatus | setClientStatus | setReconsume | found | scan | release | releaseClient
    | notify | iterNext => simp [action, reads]
    | _ => simp [Checked, phase] at h
  intro l
  have hnext : pc.next l.popped = pc.next l := by
    refine next_congr rfl fun m hm => ?_
    cases m with
    | fetchedArr => exact absurd hm hquiet.2
    | _ => rfl
  have happly : pc.action.apply l.popped = (pc.action.apply l).popped := by
    have haction := hquiet.1
    generalize pc.action = action at haction
    cases action with
    | write r => cases r <;> rfl
    | pop => exact absurd rfl haction
    | none | found | lockMtx | unlockMtx | notify => rfl
  rw [bodyStep, hnext, happly]
  rfl

end BodyPc

/-! ## A call on its way -/

/-- The batch is `x` with the call at `pc`; with all that has been dealt with so far done at
once it would be `l`. -/
inductive Midway (l x : ConsumerUnitLocker) : Op → BodyPc → Prop
  | before {msgId : String} {s : ConsumeStatus} {pc : BodyPc} (hpc : pc.Before)
      (h : Alone (l, .find msgId s) (x, pc)) : Midway l x (.setMsgAck msgId s) pc
  | begin (h : x = l) : Midway l x .unlockAll .unlockBegin
  | after {op : Op} {pc : BodyPc} (hpc : pc.After) (h : Alone (x, pc) (l, .iterNext)) :
      Midway l x op pc

namespace Midway

variable {l x : ConsumerUnitLocker} {op : Op} {pc : BodyPc}

/-- The call moves on, and the batch is as if it had been dealt with at one of its steps. -/
theorem step (h : Midway l x op pc) :
    Midway (if (pc.effect x).isSome then (op.atOnce l).2 else l) (pc.action.apply x) op
      (pc.next x) := by
  have hend {l x : ConsumerUnitLocker} {pc : BodyPc} (h : Alone (x, pc) (l, .iterNext))
      (hpc : pc ≠ .iterNext) : Alone (pc.action.apply x, pc.next x) (l, .iterNext) :=
    Movers.goes_on h fun he => hpc (congrArg Prod.snd he)
  cases h with
  | @before msgId s pc hpc h =>
    by_cases hset : pc.phase = .setting
    · have heffect : pc.effect x = none := by
        cases pc <;> first | rfl | cases hset
      rw [heffect, if_neg (by simp)]
      exact .before (BodyPc.before_next hset) (h.tail rfl)
    · obtain rfl : pc = .check false := by
        cases pc with
        | check forced => cases forced <;> first | rfl | exact hpc.elim
        | find | setStatus | setClientStatus | setReconsume | found => exact absurd rfl hset
        | _ => exact hpc.elim
      refine .after BodyPc.after_check (hend ?_ (by simp))
      exact Movers.goes_to_end h ack_alone rfl
  | begin h =>
    subst h
    exact .after BodyPc.after_unlockBegin (hend unlock_alone (by simp))
  | after hpc h =>
    have heffect : pc.effect x = none := by
      cases pc with
      | check forced => cases forced <;> first | rfl | exact hpc.elim
      | unlockTest | unlockClientStatus | unlockStatus | scan | release | releaseClient | notify
      | iterNext => rfl
      | _ => exact hpc.elim
    rw [heffect, if_neg (by simp)]
    refine .after (BodyPc.after_next hpc) ?_
    by_cases hiter : pc = .iterNext
    · subst hiter
      exact h
    · exact hend h hiter

/-- A fetch pops while an ack is on its way. -/
theorem pop {msgId : String} {s : ConsumeStatus} (h : Midway l x (.setMsgAck msgId s) pc)
    (hfits : pc.phase.Fits (.setMsgAck msgId s)) :
    Midway l.popped x.popped (.setMsgAck msgId s) pc := by
  cases h with
  | before hpc h =>
    refine .before hpc (Movers.goes_before (C := BodyPc.Before) h (fun y k hk => ?_) hpc)
    have hset := BodyPc.before_back hk
    exact ⟨BodyPc.before_of_setting hset, BodyPc.commutes_popped (.inl hset)⟩
  | after hpc h =>
    exact .after hpc (Movers.goes_after h (hpc.checked hfits) fun _ _ hk =>
      ⟨BodyPc.checked_next hk, BodyPc.commutes_popped (.inr hk)⟩)

theorem ne_break (h : Midway l x op pc) : pc ≠ .break := by
  rintro rfl
  cases h with
  | before hpc | after hpc => exact hpc

/-- The call is past the batch. -/
theorem done (h : Midway l x op .iterNext) : x = l := by
  cases h with
  | before hpc => exact hpc.elim
  | after _ h => exact (congrArg Prod.fst (Movers.eq_of_stay h rfl)).symm

end Midway

end RocketmqProxy
