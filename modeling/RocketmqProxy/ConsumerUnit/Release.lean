import RocketmqProxy.ConsumerUnit.History
import RocketmqProxy.Locker.Release

/-!
# How a consumer releases its batches

The acks of a consumer release a batch when it is finished, with the status that its
messages give, and nothing that follows takes this back.  `unlockAll` releases every batch,
settles what is pending, and leaves alone what is settled.
-/

namespace RocketmqProxy

open Std UnitObs

/-! ## By acks -/

/-- While nothing is unlocked by force, a batch that is released is finished and has the
status its messages give, and it stays so. -/
theorem released_not_early {u₀ u : ConsumerUnit} {h₁ h₂ : List UnitObs} {a : Addr}
    {msgs : List (Addr × MQMessageExt)}
    (hs : UnitSteps u₀ (h₁ ++ .registered a msgs :: h₂) u) (hopen : Open a h₂)
    (hu : .unlocked ∉ h₂) :
    ∃ l, u.lockers[a]? = some l ∧ (l.clientStatus = .msgConsumeAck →
      l.Finished msgs ∧ l.SumsUp msgs ∧
      ∀ h u', UnitSteps u h u' → (∀ st vec, .reported a st vec ∉ h) → .unlocked ∉ h →
        ∃ l', u'.lockers[a]? = some l' ∧ l'.clientStatus = .msgConsumeAck ∧
          l'.Finished msgs ∧ l'.SumsUp msgs) := by
  obtain ⟨l, hl, hr⟩ := hs.registered_open hopen
  refine ⟨l, hl, fun hrel => ?_⟩
  have hops : .unlock ∉ ops a h₂ := fun hm => hu ((unlock_mem_ops a h₂).mp hm)
  have hrel₀ := hrel
  rw [hr.record] at hrel₀
  obtain ⟨hfin, hsum⟩ := ConsumerUnitLocker.finished_of_released hr.nodup hops hrel₀
  rw [← hr.record] at hfin hsum
  refine ⟨hfin, hsum, fun h u' hs' hp hu' => ?_⟩
  have hrec : (ops a h).foldl ConsumerUnitLocker.apply l =
      .after msgs u₀.consumer.groupName (ops a h₂ ++ ops a h) := by
    rw [ConsumerUnitLocker.after, List.foldl_append, ← ConsumerUnitLocker.after, ← hr.record]
  have hops' : .unlock ∉ ops a h₂ ++ ops a h := by
    rw [← ops_append, unlock_mem_ops]
    exact fun hm => (List.mem_append.mp hm).elim hu hu'
  have hrel' := ConsumerUnitLocker.released_append (ops a h) hrel₀
  refine ⟨_, hs'.locker hl hp, ?_⟩
  rw [hrec]
  exact ⟨hrel', ConsumerUnitLocker.finished_of_released hr.nodup hops' hrel'⟩

/-- Two messages are fetched and acked, the second one to be consumed again. -/
theorem released_not_early_two : ∃ u l, UnitSteps (.new "t" "g" 0)
    [.registered 1 [(10, ⟨"A", "t", "a", 0⟩), (20, ⟨"B", "t", "b", 0⟩)],
      .fetched 0 1 (ConsumerUnitLocker.ptr "g" (10, ⟨"A", "t", "a", 0⟩)),
      .fetched 1 1 (ConsumerUnitLocker.ptr "g" (20, ⟨"B", "t", "b", 0⟩)),
      .acked (.consumeAck 0) "A" .consumeSuccess true,
      .acked (.consumeAck 1) "B" .reconsumeLater true] u ∧
    u.lockers[(1 : Addr)]? = some l ∧ l.clientStatus = .msgConsumeAck ∧
      l.status = .reconsumeLater ∧
      l.Finished [(10, ⟨"A", "t", "a", 0⟩), (20, ⟨"B", "t", "b", 0⟩)] ∧
      l.SumsUp [(10, ⟨"A", "t", "a", 0⟩), (20, ⟨"B", "t", "b", 0⟩)] := by
  let msgs : List (Addr × MQMessageExt) := [(10, ⟨"A", "t", "a", 0⟩), (20, ⟨"B", "t", "b", 0⟩)]
  let u₁ := (ConsumerUnit.new "t" "g" 0).callbackBegin 1 msgs
  let u₂ := u₁.fetchAndConsume.2
  let u₃ := u₂.fetchAndConsume.2
  let u₄ := (u₃.setMsgAck "A" .consumeSuccess).2
  let u₅ := (u₄.setMsgAck "B" .reconsumeLater).2
  have s₁ : UnitStep (.new "t" "g" 0) (.registered 1 msgs) u₁ :=
    .registered (by decide) (by decide)
  have s₂ : UnitStep u₁
      (.fetched 0 1 (ConsumerUnitLocker.ptr "g" (10, ⟨"A", "t", "a", 0⟩))) u₂ :=
    .fetch (by decide)
  have s₃ : UnitStep u₂
      (.fetched 1 1 (ConsumerUnitLocker.ptr "g" (20, ⟨"B", "t", "b", 0⟩))) u₃ :=
    .fetch (by decide)
  have s₄ : UnitStep u₃ (.acked (.consumeAck 0) "A" .consumeSuccess true) u₄ :=
    .ack (by decide) (.inl ⟨0, rfl⟩)
  have s₅ : UnitStep u₄ (.acked (.consumeAck 1) "B" .reconsumeLater true) u₅ :=
    .ack (by decide) (.inl ⟨1, rfl⟩)
  have hs := ((((UnitSteps.refl.step s₁).step s₂).step s₃).step s₄).step s₅
  have hrel : u₅.lockers[(1 : Addr)]?.map (fun l => (l.clientStatus, l.status)) =
      some (.msgConsumeAck, .reconsumeLater) := by
    decide
  have hopen : Open 1 [.fetched 0 1 (ConsumerUnitLocker.ptr "g" (10, ⟨"A", "t", "a", 0⟩)),
      .fetched 1 1 (ConsumerUnitLocker.ptr "g" (20, ⟨"B", "t", "b", 0⟩)),
      .acked (.consumeAck 0) "A" .consumeSuccess true,
      .acked (.consumeAck 1) "B" .reconsumeLater true] := by
    simp [Open]
  obtain ⟨l, hl, h⟩ := @released_not_early _ _ [] _ _ msgs hs hopen (by decide)
  rw [hl, Option.map_some] at hrel
  obtain ⟨hreleased, hstatus⟩ := Prod.mk.inj (Option.some.inj hrel)
  obtain ⟨hfin, hsum, -⟩ := h hreleased
  exact ⟨u₅, l, hs, hl, hreleased, hstatus, hfin, hsum⟩

/-! ## By force -/

namespace ConsumerUnitLocker

/-- What a forced unlock has made of the batch `l`. -/
structure UnlockedFrom (l l' : ConsumerUnitLocker) : Prop where
  released : l'.clientStatus = .msgConsumeAck
  acked : ∀ a : Addr, l.clientStatusMap[a]? = some .msgConsumeAck →
    l'.clientStatusMap[a]? = some .msgConsumeAck ∧ l'.statusMap[a]? = l.statusMap[a]?
  pending : ∀ (a : Addr) (cs : ClientMsgConsumeStatus), l.clientStatusMap[a]? = some cs →
    cs ≠ .msgConsumeAck → l'.clientStatusMap[a]? = some .msgConsumeAck ∧
      l'.statusMap[a]? = some .reconsumeLater
  reconsume : l'.status = .reconsumeLater ↔
    ∃ (a : Addr) (cs : ClientMsgConsumeStatus), l.clientStatusMap[a]? = some cs ∧
      (cs ≠ .msgConsumeAck ∨ l.statusMap[a]? = some .reconsumeLater)
  messages : ∀ a : Addr, a ∈ l'.clientStatusMap ↔ a ∈ l.clientStatusMap
  idMsgMap : l'.idMsgMap = l.idMsgMap
  fetchedArr : l'.fetchedArr = l.fetchedArr

variable (l : ConsumerUnitLocker)

/-- The check of a forced unlock finds the pending messages, and those that have been
acked RECONSUME_LATER. -/
theorem unlock_someReconsume_iff : l.unlock.SomeReconsume ↔
    ∃ (a : Addr) (cs : ClientMsgConsumeStatus), l.clientStatusMap[a]? = some cs ∧
      (cs ≠ .msgConsumeAck ∨ l.statusMap[a]? = some .reconsumeLater) := by
  refine exists_congr fun a => ?_
  rw [TreeMap.mem_iff_isSome_getElem?, TreeMap.getD_eq_getD_getElem?, unlock_clientStatusMap,
    unlock_statusMap]
  cases hcs : l.clientStatusMap[a]? with
  | none => simp
  | some cs =>
    cases cs with
    | msgFetchFromBroker => simp
    | msgConsumeAck =>
      cases l.statusMap[a]? <;> simp

theorem unlockedFrom : UnlockedFrom l l.unlock where
  released := by
    classical exact l.unlock_releases.1
  acked a ha := by
    rw [unlock_clientStatusMap, unlock_statusMap, ha]
    exact ⟨rfl, rfl⟩
  pending a cs ha hne := by
    obtain rfl : cs = .msgFetchFromBroker := by
      cases cs with
      | msgFetchFromBroker => rfl
      | msgConsumeAck => exact absurd rfl hne
    rw [unlock_clientStatusMap, unlock_statusMap, ha]
    exact ⟨rfl, rfl⟩
  reconsume := by
    classical
    rw [← l.unlock_someReconsume_iff, l.unlock_releases.2]
    split
    · next hsome => exact iff_of_true rfl hsome
    · next hnone => exact iff_of_false (by simp) hnone
  messages a := by
    rw [TreeMap.mem_iff_isSome_getElem?, TreeMap.mem_iff_isSome_getElem?,
      unlock_clientStatusMap]
    split
    · next ha => rw [ha]; rfl
    · rfl
  idMsgMap := l.unlock_idMsgMap
  fetchedArr := l.unlock_fetchedArr

/-- A second forced unlock finds nothing to do. -/
theorem unlock_unlock : l.unlock.unlock = l.unlock := by
  classical
  have hpass : ∀ ps : List (Addr × ClientMsgConsumeStatus), (∀ p ∈ ps, p.2 = .msgConsumeAck) →
      ps.foldl unlockOne l.unlock = l.unlock := by
    intro ps hps
    induction ps with
    | nil => rfl
    | cons p ps ih =>
      obtain ⟨hp, hps⟩ := List.forall_mem_cons.mp hps
      have hone : unlockOne l.unlock p = l.unlock := if_neg (not_not.mpr hp)
      rw [List.foldl_cons, hone, ih hps]
  rw [unlock, hpass _ ((forall_mem_toList_iff _).mpr l.unlock_allAcked),
    triggerCheck_of_allAcked (.inl rfl) l.unlock_allAcked, ← l.unlock_releases.2,
    ← l.unlock_releases.1]

end ConsumerUnitLocker

/-- `unlockAll` releases every batch and keeps the rest, and a second call changes
nothing. -/
theorem unlockAll_settles (u : ConsumerUnit) :
    (∀ (a : Addr) (l : ConsumerUnitLocker), u.lockers[a]? = some l →
      ∃ l', u.unlockAll.lockers[a]? = some l' ∧ l.UnlockedFrom l') ∧
    (∀ a : Addr, a ∈ u.unlockAll.lockers ↔ a ∈ u.lockers) ∧
    (u.unlockAll.consumer = u.consumer ∧ u.unlockAll.lastActiveAt = u.lastActiveAt ∧
      u.unlockAll.callbacks = u.callbacks) ∧
    ∀ a : Addr, u.unlockAll.unlockAll.lockers[a]? = u.unlockAll.lockers[a]? := by
  refine ⟨fun a l hl => ⟨l.unlock, ?_, l.unlockedFrom⟩, fun a => ?_, ⟨rfl, rfl, rfl⟩, fun a => ?_⟩
  · rw [ConsumerUnit.unlockAll_lockers, hl]
    rfl
  · rw [TreeMap.mem_iff_isSome_getElem?, TreeMap.mem_iff_isSome_getElem?,
      ConsumerUnit.unlockAll_lockers, Option.isSome_map]
  · rw [ConsumerUnit.unlockAll_lockers, ConsumerUnit.unlockAll_lockers]
    cases u.lockers[a]? with
    | none => rfl
    | some l => rw [Option.map_some, Option.map_some, l.unlock_unlock]

end RocketmqProxy
