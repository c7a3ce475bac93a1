import RocketmqProxy.Locker.History

/-!
# The verdict and the last ack

The listener callback reads `reconsumeMap`, which only grows, while `statusMap` is
overwritten by every ack.  The two agree on the verdict of a batch exactly when no
message that was once acked RECONSUME_LATER ended on another status, or when no
message at all ended on RECONSUME_LATER.
-/

namespace RocketmqProxy
namespace ConsumerUnitLocker

open Std LockerOp

/-- The verdict of the message at position `i` as the SDK reads it: the vector
counts only when the callback returned RECONSUME_LATER. -/
def reported (v : ConsumeStatus × List ConsumeStatus) (i : Nat) : ConsumeStatus :=
  if v.1 = .reconsumeLater then v.2.getD i .reconsumeLater else v.1

theorem reported_of_success {l : ConsumerUnitLocker} (h : l.status = .consumeSuccess)
    (msgs : List MQMessageExt) (i : Nat) :
    reported (l.verdict msgs) i = .consumeSuccess := by
  simp [reported, verdict, h]

theorem reported_of_reconsume {l : ConsumerUnitLocker} (h : l.status = .reconsumeLater)
    {msgs : List MQMessageExt} {i : Nat} (hi : i < msgs.length) :
    reported (l.verdict msgs) i = .reconsumeLater ↔ msgs[i].msgId ∈ l.reconsumeMap := by
  simp only [reported, verdict, h, if_true, List.getD_eq_getElem?_getD, List.getElem?_map,
    List.getElem?_eq_getElem hi, Option.map_some, Option.getD_some, ← TreeMap.contains_iff_mem]
  split <;> simp_all

variable {msgs : List (Addr × MQMessageExt)} {group : String}

theorem getLast?_eq_iff_lastAck {msgId : String} {ops : List LockerOp}
    (h : acks msgId ops ≠ []) :
    (acks msgId ops).getLast? = some .reconsumeLater ↔ lastAck msgId ops = .reconsumeLater := by
  rw [lastAck, List.getLast?_eq_some_getLast h]
  simp

/-- For a batch released without a forced unlock: the verdict reported for each
message is its last ack if and only if no message ended on RECONSUME_LATER, or each
message that was ever acked RECONSUME_LATER also ended on it. -/
theorem reported_eq_last_ack_iff (hn : (msgs.map Prod.fst).Nodup) (ops : List LockerOp)
    (hu : .unlock ∉ ops) (hrel : (after msgs group ops).clientStatus = .msgConsumeAck) :
    (∀ (i : Nat) (hi : i < msgs.length),
        reported ((after msgs group ops).verdict (msgs.map Prod.snd)) i = .reconsumeLater ↔
          (acks msgs[i].2.msgId ops).getLast? = some .reconsumeLater) ↔
      (∀ p ∈ msgs, (acks p.2.msgId ops).getLast? ≠ some .reconsumeLater) ∨
        ∀ p ∈ msgs, .reconsumeLater ∈ acks p.2.msgId ops →
          (acks p.2.msgId ops).getLast? = some .reconsumeLater := by
  have hstatus := (quiet_of_released hn ops hu hrel).2
  have hacked : ∀ p ∈ msgs, acks p.2.msgId ops ≠ [] := by
    intro p hp
    rcases settled_of_released hn ops hrel p hp with h | h
    · exact h
    · exact absurd h hu
  by_cases hex : ∃ p ∈ msgs, lastAck p.2.msgId ops = .reconsumeLater
  · -- the callback returns RECONSUME_LATER and consults `reconsumeMap`
    rw [aggregate, if_pos hex] at hstatus
    have hrep : ∀ (i : Nat) (hi : i < msgs.length),
        (reported ((after msgs group ops).verdict (msgs.map Prod.snd)) i = .reconsumeLater ↔
          .reconsumeLater ∈ acks msgs[i].2.msgId ops) := by
      intro i hi
      have hi' : i < (msgs.map Prod.snd).length := by simpa using hi
      rw [reported_of_reconsume hstatus hi', (tracks_after hn ops).reconsume]
      simp only [List.getElem_map, and_iff_left_iff_imp]
      exact fun _ => ⟨msgs[i], List.getElem_mem hi, rfl⟩
    have hfirst : ¬ ∀ p ∈ msgs, (acks p.2.msgId ops).getLast? ≠ some .reconsumeLater := by
      obtain ⟨p, hp, hl⟩ := hex
      exact fun h => h p hp ((getLast?_eq_iff_lastAck (hacked p hp)).mpr hl)
    simp only [hfirst, false_or]
    constructor
    · intro h p hp hmem
      obtain ⟨i, hi, rfl⟩ := List.mem_iff_getElem.mp hp
      exact (h i hi).mp ((hrep i hi).mpr hmem)
    · intro h i hi
      rw [hrep i hi]
      exact ⟨h _ (List.getElem_mem hi), List.mem_of_getLast?⟩
  · -- the callback returns CONSUME_SUCCESS for the whole batch
    rw [aggregate, if_neg hex] at hstatus
    have hnot : ∀ p ∈ msgs, (acks p.2.msgId ops).getLast? ≠ some .reconsumeLater := by
      intro p hp hl
      exact hex ⟨p, hp, (getLast?_eq_iff_lastAck (hacked p hp)).mp hl⟩
    refine iff_of_true (fun i hi => ?_) (.inl hnot)
    rw [reported_of_success hstatus]
    exact iff_of_false (by simp) (hnot _ (List.getElem_mem hi))

/-- Two messages, with ids `"a"` and `"b"`. -/
def pair : List (Addr × MQMessageExt) :=
  [(0, ⟨"a", "t", "x", 0⟩), (1, ⟨"b", "t", "y", 0⟩)]

/-- `"a"` succeeds and `"b"` fails. -/
def pairOps : List LockerOp :=
  [.getMsg, .getMsg, .setMsgAck "a" .consumeSuccess, .setMsgAck "b" .reconsumeLater]

theorem reported_eq_last_ack_pair :
    (reported ((after pair "g" pairOps).verdict (pair.map Prod.snd)) 0 = .reconsumeLater ↔
        (acks "a" pairOps).getLast? = some .reconsumeLater) ∧
      (reported ((after pair "g" pairOps).verdict (pair.map Prod.snd)) 1 = .reconsumeLater ↔
        (acks "b" pairOps).getLast? = some .reconsumeLater) := by
  have h := (@reported_eq_last_ack_iff pair "g" (by decide) pairOps
    (by decide) (by decide)).mpr (by decide)
  exact ⟨h 0 (by decide), h 1 (by decide)⟩

/-- `"a"` times out, is acked CONSUME_SUCCESS after all, and then `"b"` fails: the
verdict of `"a"` is still the one of the timeout. -/
theorem reported_ne_last_ack :
    let ops : List LockerOp := [.getMsg, .getMsg, .setMsgAck "a" .reconsumeLater,
      .setMsgAck "a" .consumeSuccess, .setMsgAck "b" .reconsumeLater]
    (after pair "g" ops).clientStatus = .msgConsumeAck ∧
      reported ((after pair "g" ops).verdict (pair.map Prod.snd)) 0 = .reconsumeLater ∧
      (acks pair[0].2.msgId ops).getLast? = some .consumeSuccess := by
  decide

end ConsumerUnitLocker
end RocketmqProxy
