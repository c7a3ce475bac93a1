import RocketmqProxy.Locker.History

/-!
# When a batch is released, and what is handed out of it

Acks settle messages whether or not a client has got them, and only an ack checks whether
the batch is done.  So a batch is never released before its queue is empty and its
messages are settled; but a message that is settled while it is queued is still handed
out, and a batch whose last message is fetched after the last ack is not released.
-/

namespace RocketmqProxy
namespace ConsumerUnitLocker

open Std LockerOp

variable {msgs : List (Addr × MQMessageExt)} {group : String}

/-! ## Settled messages -/

theorem Tracks.settled_iff {ops : List LockerOp} {l : ConsumerUnitLocker}
    (h : Tracks msgs group ops l) {p : Addr × MQMessageExt} (hp : p ∈ msgs) :
    l.clientStatusMap[p.1]? = some .msgConsumeAck ↔ Settled p.2.msgId ops := by
  obtain ⟨cs, hcs, hiff⟩ := h.settled p hp
  rw [hcs, Option.some_inj, hiff]

/-- `getMsg` takes the message whose turn it is. -/
theorem Tracks.getMsg_eq_some_iff {ops : List LockerOp} {l : ConsumerUnitLocker}
    (h : Tracks msgs group ops l) {msg : MsgPtr} :
    (∃ l', l.getMsg = some (msg, l')) ↔
      ∃ p, msgs[ops.count .getMsg]? = some p ∧ msg = ptr group p := by
  have hhead : l.fetchedArr.head? = msgs[ops.count .getMsg]?.map (ptr group) := by
    rw [h.queue, List.head?_drop, List.getElem?_map]
  have hget : (∃ l', l.getMsg = some (msg, l')) ↔ l.fetchedArr.head? = some msg := by
    constructor
    · rintro ⟨l', hl'⟩
      obtain ⟨rest, hq, -⟩ := getMsg_eq_some hl'
      rw [hq, List.head?_cons]
    · intro hq
      obtain ⟨rest, hq⟩ := List.head?_eq_some_iff.mp hq
      exact ⟨{ l with fetchedArr := rest }, by rw [ConsumerUnitLocker.getMsg, hq]⟩
  rw [hget, hhead, Option.map_eq_some_iff]
  exact exists_congr fun p => and_congr_right fun _ => eq_comm

/-! ## What is handed out -/

/-- No `getMsg` of the run returns a message that is settled. -/
def HandsOutUnsettled (msgs : List (Addr × MQMessageExt)) (group : String)
    (ops : List LockerOp) : Prop :=
  ∀ pre post, ops = pre ++ .getMsg :: post → ∀ msg l',
    (after msgs group pre).getMsg = some (msg, l') →
      (after msgs group pre).clientStatusMap[msg.addr]? ≠ some .msgConsumeAck

/-- Before the turn of a message comes to be fetched, no ack names its id and the batch is
not unlocked. -/
def FetchedFirst (msgs : List (Addr × MQMessageExt)) (ops : List LockerOp) : Prop :=
  ∀ pre post, ops = pre ++ .getMsg :: post → ∀ p, msgs[pre.count .getMsg]? = some p →
    acks p.2.msgId pre = [] ∧ .unlock ∉ pre

/-- No settled message is handed out exactly if every message is fetched before an ack
names it and before the batch is unlocked. -/
theorem handsOutUnsettled_iff (hn : (msgs.map Prod.fst).Nodup) (ops : List LockerOp) :
    HandsOutUnsettled msgs group ops ↔ FetchedFirst msgs ops := by
  refine forall₃_congr fun pre post _ => ?_
  have ht : Tracks msgs group pre (after msgs group pre) := tracks_after hn pre
  constructor
  · intro h p hp
    obtain ⟨l', hl'⟩ := ht.getMsg_eq_some_iff.mpr ⟨p, hp, rfl⟩
    have hnot := h (ptr group p) l' hl'
    rwa [ptr, Ne, ht.settled_iff (List.mem_of_getElem? hp), Settled, not_or, not_ne_iff] at hnot
  · intro h msg l' hl'
    obtain ⟨p, hp, rfl⟩ := ht.getMsg_eq_some_iff.mp ⟨l', hl'⟩
    rw [ptr, Ne, ht.settled_iff (List.mem_of_getElem? hp), Settled, not_or, not_ne_iff]
    exact h p hp

/-- Each of two messages is acked once it has been fetched. -/
theorem handsOutUnsettled_two :
    HandsOutUnsettled [(0, ⟨"a", "t", "x", 0⟩), (1, ⟨"b", "t", "y", 0⟩)] "g"
      [.getMsg, .setMsgAck "a" .consumeSuccess, .getMsg, .setMsgAck "b" .reconsumeLater] := by
  refine (handsOutUnsettled_iff (by decide) _).mpr ?_
  intro pre post he p hp
  rcases pre with _ | ⟨o₁, _ | ⟨o₂, _ | ⟨o₃, _ | ⟨o₄, pre⟩⟩⟩⟩ <;> simp at he
  · simp
  · obtain ⟨rfl, rfl, -⟩ := he
    obtain rfl : ((1, ⟨"b", "t", "y", 0⟩) : Addr × MQMessageExt) = p := by simpa using hp
    decide

/-- The client to which a message was delivered in an earlier batch acks it while the new
batch still waits for a client. -/
theorem settled_handed_out : ¬ HandsOutUnsettled [(0, ⟨"a", "t", "x", 0⟩)] "g"
    [.setMsgAck "a" .consumeSuccess, .getMsg] := by
  intro h
  have hnot := h [.setMsgAck "a" .consumeSuccess] [] rfl _ _ rfl
  exact hnot (by decide)

/-! ## When a batch is released -/

/-- Nothing of the batch remains to be fetched or acked. -/
structure Finished (msgs : List (Addr × MQMessageExt)) (l : ConsumerUnitLocker) : Prop where
  fetched : l.fetchedArr = []
  acked : ∀ p ∈ msgs, l.clientStatusMap[p.1]? = some .msgConsumeAck

/-- The status of the batch sums up those of its messages. -/
structure SumsUp (msgs : List (Addr × MQMessageExt)) (l : ConsumerUnitLocker) : Prop where
  reconsume : l.status = .reconsumeLater ↔
    ∃ p ∈ msgs, l.statusMap[p.1]? = some .reconsumeLater
  success : (¬ ∃ p ∈ msgs, l.statusMap[p.1]? = some .reconsumeLater) →
    l.status = .consumeSuccess

theorem Tracks.sumsUp {ops : List LockerOp} {l : ConsumerUnitLocker}
    (h : Tracks msgs group ops l) (hs : l.status = aggregate msgs ops) : SumsUp msgs l := by
  have hex : (∃ p ∈ msgs, l.statusMap[p.1]? = some .reconsumeLater) ↔
      ∃ p ∈ msgs, LockerOp.lastAck p.2.msgId ops = .reconsumeLater := by
    refine exists_congr fun p => and_congr_right fun hp => ?_
    rw [h.lastAck p hp, Option.some_inj]
  rw [aggregate] at hs
  constructor
  · rw [hex, hs]
    split
    · next hsome => exact iff_of_true rfl hsome
    · next hnone => exact iff_of_false (by simp) hnone
  · intro hnone
    rw [hs, if_neg (hex.not.mp hnone)]

/-- Without a forced unlock, a batch is released only when it is finished, and with the
status that its messages give. -/
theorem finished_of_released (hn : (msgs.map Prod.fst).Nodup) {ops : List LockerOp}
    (hu : .unlock ∉ ops) (h : (after msgs group ops).clientStatus = .msgConsumeAck) :
    Finished msgs (after msgs group ops) ∧ SumsUp msgs (after msgs group ops) := by
  have ht : Tracks msgs group ops (after msgs group ops) := tracks_after hn ops
  obtain ⟨hq, hs⟩ := quiet_of_released hn ops hu h
  refine ⟨⟨hq, fun p hp => ?_⟩, ht.sumsUp hs⟩
  exact (ht.settled_iff hp).mpr (settled_of_released hn ops h p hp)

theorem released_append {ops : List LockerOp} (ops' : List LockerOp)
    (h : (after msgs group ops).clientStatus = .msgConsumeAck) :
    (after msgs group (ops ++ ops')).clientStatus = .msgConsumeAck := by
  induction ops' using List.reverseRecOn with
  | nil => rwa [List.append_nil]
  | append_singleton ops' op ih =>
    rw [← List.append_assoc, after_concat]
    exact apply_released op ih

/-- Whenever nothing remains to be fetched or acked, the batch is released. -/
def ReleasedInTime (msgs : List (Addr × MQMessageExt)) (group : String)
    (ops : List LockerOp) : Prop :=
  ∀ pre, pre <+: ops → Finished msgs (after msgs group pre) →
    (after msgs group pre).clientStatus = .msgConsumeAck

/-- When the last message is fetched, some message has not been acked. -/
def AckAwaited (msgs : List (Addr × MQMessageExt)) (ops : List LockerOp) : Prop :=
  ∀ pre post, ops = pre ++ .getMsg :: post → pre.count .getMsg + 1 = msgs.length →
    ∃ p ∈ msgs, acks p.2.msgId pre = []

theorem Tracks.finished_iff {ops : List LockerOp} {l : ConsumerUnitLocker}
    (h : Tracks msgs group ops l) (hu : .unlock ∉ ops) :
    Finished msgs l ↔ msgs.length ≤ ops.count .getMsg ∧ ∀ p ∈ msgs, acks p.2.msgId ops ≠ [] := by
  have hq : l.fetchedArr = [] ↔ msgs.length ≤ ops.count .getMsg := by
    rw [h.queue, List.drop_eq_nil_iff, List.length_map]
  have hall : (∀ p ∈ msgs, l.clientStatusMap[p.1]? = some .msgConsumeAck) ↔
      ∀ p ∈ msgs, acks p.2.msgId ops ≠ [] := by
    refine forall₂_congr fun p hp => ?_
    rw [h.settled_iff hp, Settled, or_iff_left hu]
  rw [← hq, ← hall]
  exact ⟨fun hf => ⟨hf.fetched, hf.acked⟩, fun hf => ⟨hf.1, hf.2⟩⟩

/-- A batch with messages is always released in time exactly if it never has its last
message fetched after all of its messages have been acked. -/
theorem releasedInTime_iff (hn : (msgs.map Prod.fst).Nodup) (hne : msgs ≠ [])
    {ops : List LockerOp} (hu : .unlock ∉ ops) :
    ReleasedInTime msgs group ops ↔ AckAwaited msgs ops := by
  have ht (pre : List LockerOp) : Tracks msgs group pre (after msgs group pre) :=
    tracks_after hn pre
  constructor
  · intro h pre post he hlast
    by_contra hall
    push Not at hall
    have hpre : pre ++ [.getMsg] <+: ops := ⟨post, by rw [he, List.append_assoc]; rfl⟩
    have hu' : .unlock ∉ pre ++ [.getMsg] := fun hm => hu (hpre.subset hm)
    have hfin : Finished msgs (after msgs group (pre ++ [.getMsg])) := by
      refine ((ht _).finished_iff hu').mpr ⟨?_, fun p hp => ?_⟩
      · rw [List.count_append, List.count_singleton_self, hlast]
      · rw [acks_append, acks_getMsg, List.append_nil]
        exact hall p hp
    -- the fetch releases nothing, so the batch was released with a message in its queue
    have hrel := h _ hpre hfin
    rw [after_getMsg] at hrel
    have hq := (quiet_of_released hn pre (fun hm => hu' (List.mem_append_left _ hm)) hrel).1
    rw [(ht pre).queue, List.drop_eq_nil_iff, List.length_map] at hq
    omega
  · intro h pre hpre
    induction pre using List.reverseRecOn with
    | nil =>
      intro hfin
      have hlen := (((ht []).finished_iff List.not_mem_nil).mp hfin).1
      exact absurd (List.length_eq_zero_iff.mp (Nat.le_zero.mp hlen)) hne
    | append_singleton pre op ih =>
      intro hfin
      have hu' : .unlock ∉ pre ++ [op] := fun hm => hu (hpre.subset hm)
      obtain ⟨hlen, hacked⟩ := ((ht _).finished_iff hu').mp hfin
      have hpre' : pre <+: ops := (List.prefix_append pre [op]).trans hpre
      cases op with
      | getMsg =>
        rw [List.count_append, List.count_singleton_self] at hlen
        have hacked' : ∀ p ∈ msgs, acks p.2.msgId pre ≠ [] := by
          intro p hp
          have hp' := hacked p hp
          rwa [acks_append, acks_getMsg, List.append_nil] at hp'
        rcases Nat.lt_or_ge (pre.count .getMsg) msgs.length with hlt | hge
        · obtain ⟨post, he⟩ := hpre
          obtain ⟨p, hp, hnil⟩ := h pre post
            (by rw [← he, List.append_assoc]; rfl) (by omega)
          exact absurd hnil (hacked' p hp)
        · have hfin' : Finished msgs (after msgs group pre) :=
            ((ht pre).finished_iff fun hm => hu' (List.mem_append_left _ hm)).mpr
              ⟨hge, hacked'⟩
          rw [after_concat]
          exact apply_released _ (ih hpre' hfin')
      | setMsgAck msgId s =>
        rcases @after_setMsgAck msgs group hn pre msgId s with hrel | ⟨hnot, -⟩
        · exact hrel.2.2.1
        · refine absurd ⟨?_, fun p hp => .inl (hacked p hp)⟩ hnot
          rw [(ht pre).queue, List.drop_eq_nil_iff, List.length_map]
          simpa using hlen
      | unlock => exact absurd (List.mem_append_right pre List.mem_cons_self) hu'

/-- Both messages are fetched before the second of them is acked. -/
theorem releasedInTime_two :
    ReleasedInTime [(0, ⟨"a", "t", "x", 0⟩), (1, ⟨"b", "t", "y", 0⟩)] "g"
      [.getMsg, .setMsgAck "a" .consumeSuccess, .getMsg, .setMsgAck "b" .reconsumeLater] := by
  refine (releasedInTime_iff (by decide) (by simp) (by decide)).mpr ?_
  intro pre post he hlast
  rcases pre with _ | ⟨o₁, _ | ⟨o₂, _ | ⟨o₃, _ | ⟨o₄, pre⟩⟩⟩⟩ <;> simp at he
  · exact absurd hlast (by decide)
  · obtain ⟨rfl, rfl, -⟩ := he
    exact ⟨(1, ⟨"b", "t", "y", 0⟩), by simp, by decide⟩

/-- The only message is acked while it is queued, and fetched afterwards. -/
theorem finished_not_released : ¬ ReleasedInTime [(0, ⟨"a", "t", "x", 0⟩)] "g"
    [.setMsgAck "a" .consumeSuccess, .getMsg] := by
  intro h
  have hrel := h _ List.prefix_rfl ⟨by decide, by decide⟩
  exact absurd hrel (by decide)

end ConsumerUnitLocker
end RocketmqProxy
